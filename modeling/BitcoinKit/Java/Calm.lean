import BitcoinKit.Java.Announced
import Mathlib.Data.List.Chain

/-! What keeps the announcements of a transaction apart: the record has no two in a row, and none at its
    top while the manager is to make another.

        listened to ── its type changes ──▶ `changed`, and a call waits ──▶ `announced`
        not listened to ── its type changes ──▶ `changed`

    At most one call may wait, so a change is all right only while there is room for it. -/

namespace BitcoinKit
open Schemes

/-- The queued calls about changes of the type of `tx`. -/
def World.waiting (w : World) (tx : Transaction) : Nat :=
  w.userThread.count (.onConfidenceChanged tx .type)

/-- If the manager listens to `tx`, `n` more changes of its type still leave at most one call waiting. -/
def World.roomFor (w : World) (tx : Transaction) (n : Nat) : Prop :=
  tx ∈ w.registrations → w.waiting tx + n ≤ 1

/-- The changes of the type of `tx` in a list of changes. -/
def changesTo (tx : Transaction) (cs : List (Transaction × ConfidenceType)) : Nat :=
  cs.countP fun c => c.1 = tx

/-- The record has no two announcements in a row, and none at its top while another is to be expected;
    `n` more changes of the type of `tx` are all right. -/
structure Calm (tx : Transaction) (n : Nat) (s : World × List Notice) : Prop where
  apart : s.2.IsChain fun a b => a = .announced → b = .changed
  single : s.1.registrations.count tx ≤ 1
  only : ∀ t ∈ s.1.registrations, t.hash = tx.hash → t = tx
  tracked : tx ∈ s.1.registrations → hasKey Transaction.hash s.1.trackedTransactions tx
  queued : ∀ call ∈ s.1.userThread, ∀ t, call.subject = some t → t.hash = tx.hash → t = tx
  room : s.1.roomFor tx n
  heard : s.1.awaits tx → tx ∈ s.1.registrations
  fresh : s.1.awaits tx → s.2.head? ≠ some .announced
  told : s.2.head? = some .announced → s.1.newsOf tx.hash ≠ []

variable {lib : Lib} {tx t : Transaction} {w v : World} {log : List Notice} {s : World × List Notice}
  {m n : Nat}

theorem calm_mono (hmn : m ≤ n) (h : Calm tx n s) : Calm tx m s :=
  { h with room := fun hm => Nat.le_trans (Nat.add_le_add_left hmn _) (h.room hm) }

/-- Changes of the type of a transaction the manager does not listen to need no room. -/
theorem calm_deaf (hdeaf : tx ∉ s.1.registrations) (h : Calm tx m s) : Calm tx n s :=
  { h with room := fun hm => absurd hm hdeaf }

/-! ### What changes nothing about the transaction -/

/-- Who is listened to, what is queued and what was told of `tx` stay the same. -/
def aside (tx : Transaction) : Along World :=
  keeping fun w => (w.registrations, w.trackedTransactions, w.userThread, w.newsOf tx.hash)

theorem calm_aside (hv : (aside tx).rel w v) (h : Calm tx n (w, log)) : Calm tx n (v, log) := by
  simp only [aside, keeping, Prod.mk.injEq] at hv
  obtain ⟨hregs, htracked, hqueue, hnews⟩ := hv
  have hawaits : v.awaits tx ↔ w.awaits tx := by rw [World.awaits, World.awaits, hqueue]
  constructor
  · exact h.apart
  · exact hregs ▸ h.single
  · exact hregs ▸ h.only
  · dsimp only
    rw [hregs, htracked]
    exact h.tracked
  · exact hqueue ▸ h.queued
  · rw [World.roomFor, World.waiting, hregs, hqueue]
    exact h.room
  · dsimp only
    rw [hawaits, hregs]
    exact h.heard
  · exact fun ha => h.fresh (hawaits.mp ha)
  · exact hnews ▸ h.told

/-! ### Changes of type -/

theorem entered_of_same (hc : v.confidence tx = w.confidence tx)
    (hn : v.newsOf tx.hash = w.newsOf tx.hash) : entered tx w v log = log := by
  simp [entered, hc, hn]

theorem confidence_change_other {type : ConfidenceType} (ht : t ≠ tx) :
    (w.changeConfidence t type).confidence tx = w.confidence tx := by
  rw [World.changeConfidence]
  split
  · rfl
  · exact Function.update_of_ne (Ne.symm ht) ..

theorem confidence_change_self (type : ConfidenceType) :
    (w.changeConfidence tx type).confidence tx = type := by
  rw [World.changeConfidence]
  split
  · next he => exact he
  · exact Function.update_self ..

theorem registrations_change (type : ConfidenceType) :
    (w.changeConfidence t type).registrations = w.registrations := by
  rw [World.changeConfidence]
  split <;> rfl

/-- A call about `tx` comes of a change of its type while it is listened to. -/
theorem awaits_of_change {type : ConfidenceType} (h : (w.changeConfidence t type).awaits tx) :
    w.awaits tx ∨ t = tx ∧ tx ∈ w.registrations := by
  rw [World.changeConfidence] at h
  split at h
  · exact .inl h
  · rcases List.mem_append.mp h with h | h
    · exact .inl h
    · obtain ⟨hpos, hcall⟩ := List.mem_replicate.mp h
      cases hcall
      exact .inr ⟨rfl, List.count_pos_iff.mp (Nat.pos_of_ne_zero hpos)⟩

/-- A change of another transaction's type. -/
theorem calm_change_other {c : Transaction × ConfidenceType} (hc : c.1 ≠ tx) (h : Calm tx n s) :
    Calm tx n (Announced.change tx s c) := by
  have hlog : entered tx s.1 (s.1.changeConfidence c.1 c.2) s.2 = s.2 :=
    entered_of_same (confidence_change_other hc) (newsOf_change c.2 _)
  have hawaits (ha : (s.1.changeConfidence c.1 c.2).awaits tx) : s.1.awaits tx :=
    (awaits_of_change ha).resolve_right fun hown => hc hown.1
  rw [Announced.change, hlog]
  rw [World.changeConfidence] at hawaits ⊢
  split at hawaits
  · next hsame => rwa [if_pos hsame]
  · next hne =>
    rw [if_neg hne]
    refine ⟨h.apart, h.single, h.only, h.tracked, fun call hcall t hs ht => ?_, fun hm => ?_,
      fun ha => h.heard (hawaits ha), fun ha => h.fresh (hawaits ha), h.told⟩
    · rcases List.mem_append.mp hcall with hcall | hcall
      · exact h.queued call hcall t hs ht
      · obtain ⟨hpos, rfl⟩ := List.mem_replicate.mp hcall
        cases hs
        exact h.only _ (List.count_pos_iff.mp (Nat.pos_of_ne_zero hpos)) ht
    · have hno : UserThreadCall.onConfidenceChanged tx .type ∉
          List.replicate (s.1.registrations.count c.1) (.onConfidenceChanged c.1 .type) := by
        intro hm
        exact hc (UserThreadCall.onConfidenceChanged.inj (List.eq_of_mem_replicate hm)).1.symm
      have hroom := h.room hm
      rw [World.waiting] at hroom ⊢
      rwa [List.count_append, List.count_eq_zero_of_not_mem hno]

theorem head_changed (log : List Notice) : (.changed :: log : List Notice).head? ≠ some .announced := by
  simp

theorem apart_changed (h : log.IsChain fun a b => a = .announced → b = .changed) :
    (.changed :: log : List Notice).IsChain fun a b => a = .announced → b = .changed := by
  refine h.cons fun b _ ha => ?_
  cases ha

/-- A change of its own type: if it is listened to, a call about it is queued. -/
theorem calm_change_own {type : ConfidenceType} (hne : s.1.confidence tx ≠ type)
    (h : Calm tx (n + 1) s) : Calm tx n (Announced.change tx s (tx, type)) := by
  have hlog : entered tx s.1 (s.1.changeConfidence tx type) s.2 = .changed :: s.2 := by
    rw [entered, newsOf_change, if_pos rfl, confidence_change_self, if_neg (Ne.symm hne)]
  have hheard (ha : (s.1.changeConfidence tx type).awaits tx) : tx ∈ s.1.registrations :=
    (awaits_of_change ha).elim h.heard And.right
  rw [Announced.change, hlog]
  rw [World.changeConfidence, if_neg hne] at hheard ⊢
  refine ⟨apart_changed h.apart, h.single, h.only, h.tracked, fun call hcall t hs ht => ?_,
    fun hm => ?_, hheard, fun _ => head_changed _, fun hl => absurd hl (head_changed _)⟩
  · rcases List.mem_append.mp hcall with hcall | hcall
    · exact h.queued call hcall t hs ht
    · rw [List.eq_of_mem_replicate hcall] at hs
      cases hs
      rfl
  · have hroom := h.room hm
    have hsingle := h.single
    rw [World.waiting] at hroom ⊢
    rw [List.count_append, List.count_replicate_self]
    dsimp only
    omega

theorem change_same {c : Transaction × ConfidenceType} (he : s.1.confidence c.1 = c.2) :
    Announced.change tx s c = s := by
  rw [Announced.change, World.changeConfidence, if_pos he, entered_of_same rfl rfl]

theorem changesTo_cons (c : Transaction × ConfidenceType) (cs : List (Transaction × ConfidenceType)) :
    changesTo tx (c :: cs) = changesTo tx cs + changesTo tx [c] := by
  simp [changesTo, List.countP_cons]

theorem calm_change {c : Transaction × ConfidenceType}
    (h : Calm tx (n + changesTo tx [c]) s) : Calm tx n (Announced.change tx s c) := by
  by_cases hc : c.1 = tx
  · rw [changesTo, List.countP_singleton, if_pos (by simpa using hc)] at h
    by_cases hsame : s.1.confidence c.1 = c.2
    · rw [change_same hsame]
      exact calm_mono (Nat.le_succ n) h
    · obtain ⟨c, type⟩ := c
      subst hc
      exact calm_change_own hsame h
  · exact calm_change_other hc (calm_mono (Nat.le_add_right n _) h)

theorem calm_changes : ∀ (cs : List (Transaction × ConfidenceType)) (s : World × List Notice),
    Calm tx (n + changesTo tx cs) s → Calm tx n (cs.foldl (Announced.change tx) s)
  | [], _, h => h
  | c :: cs, s, h => by
    rw [changesTo_cons, ← Nat.add_assoc] at h
    exact calm_changes cs _ (calm_change h)

theorem ends_changes {window : Window} {Q : Except Throwable Unit → World × List Notice → Prop} :
    Ends (Announced.interleave tx lib window) s Q ↔
      Q (.ok ()) ((lib.during window).foldl (Announced.change tx) s) := Iff.rfl

theorem registrations_changes (tx : Transaction) (s : World × List Notice)
    (cs : List (Transaction × ConfidenceType)) :
    (cs.foldl (Announced.change tx) s).1.registrations = s.1.registrations := by
  rw [Announced.fst_changes]
  exact changed_rel (R := keeping World.registrations) cs fun c _ _ => registrations_change c.2

/-! ### Announcements -/

/-- The type of `tx` has changed since it was announced, and no call about that is waiting. -/
structure Due (tx : Transaction) (s : World × List Notice) : Prop extends Calm tx 0 s where
  silent : ¬ s.1.awaits tx
  unsaid : s.2.head? ≠ some .announced

/-- Changes of other types, and of its own while it is not listened to. -/
theorem calm_changes_deaf {cs : List (Transaction × ConfidenceType)}
    (hc : changesTo tx cs ≠ 0 → tx ∉ s.1.registrations) (h : Calm tx n s) :
    Calm tx n (cs.foldl (Announced.change tx) s) := by
  by_cases hcs : changesTo tx cs = 0
  · exact calm_changes cs s (hcs.symm ▸ h)
  · exact calm_changes cs s (calm_deaf (hc hcs) h)

theorem awaits_of_changed : ∀ (cs : List (Transaction × ConfidenceType)) (w : World),
    (w.changed cs).awaits tx → w.awaits tx ∨ changesTo tx cs ≠ 0 ∧ tx ∈ w.registrations
  | [], _, h => .inl h
  | c :: cs, w, h => by
    rw [changesTo_cons]
    rcases awaits_of_changed cs _ h with h | ⟨hcs, hregs⟩
    · refine (awaits_of_change h).imp id fun ⟨hc, hregs⟩ => ⟨?_, hregs⟩
      simp [changesTo, hc]
    · exact .inr ⟨fun h => hcs (Nat.eq_zero_of_add_eq_zero_right h), registrations_change c.2 ▸ hregs⟩

theorem silent_changes {cs : List (Transaction × ConfidenceType)}
    (hc : changesTo tx cs ≠ 0 → tx ∉ s.1.registrations) (h : ¬ s.1.awaits tx) :
    ¬ (cs.foldl (Announced.change tx) s).1.awaits tx := by
  rw [Announced.fst_changes]
  exact fun ha => (awaits_of_changed cs s.1 ha).elim h fun hown => hc hown.1 hown.2

theorem unsaid_changes : ∀ (cs : List (Transaction × ConfidenceType)) (s : World × List Notice),
    s.2.head? ≠ some .announced → (cs.foldl (Announced.change tx) s).2.head? ≠ some .announced
  | [], _, h => h
  | c :: cs, s, h => by
    refine unsaid_changes cs _ ?_
    rw [Announced.change, entered, newsOf_change, if_pos rfl]
    split
    · exact h
    · exact head_changed _

theorem due_changes {cs : List (Transaction × ConfidenceType)}
    (hc : changesTo tx cs ≠ 0 → tx ∉ s.1.registrations) (h : Due tx s) :
    Due tx (cs.foldl (Announced.change tx) s) :=
  ⟨calm_changes_deaf hc h.toCalm, silent_changes hc h.silent, unsaid_changes cs s h.unsaid⟩

theorem ends_noted_told {json : Option TransactionJSON} {txid : Sha256Hash}
    {Q : Except Throwable Unit → World × List Notice → Prop} :
    Ends (noted (entered tx) (native (.onTransactionChanged txid json))) s Q ↔
      Q (.ok ()) (s.1.told (.onTransactionChanged txid json),
        entered tx s.1 (s.1.told (.onTransactionChanged txid json)) s.2) := Iff.rfl

/-- It is announced, and nothing about it is waiting. -/
theorem calm_announced (json : Option TransactionJSON) (h : Due tx s) :
    Calm tx 1 (s.1.told (.onTransactionChanged tx.hash json),
      entered tx s.1 (s.1.told (.onTransactionChanged tx.hash json)) s.2) := by
  have hlog : entered tx s.1 (s.1.told (.onTransactionChanged tx.hash json)) s.2 =
      .announced :: s.2 := by
    rw [entered, newsOf_told]
    simp [World.told]
  have hwaiting : s.1.waiting tx = 0 := List.count_eq_zero_of_not_mem h.silent
  rw [hlog]
  refine ⟨h.apart.cons fun b hb _ => ?_, h.single, h.only, h.tracked, h.queued, fun _ => ?_, h.heard,
    fun ha => absurd ha h.silent, fun _ => ?_⟩
  · cases b with
    | changed => rfl
    | announced => exact absurd hb h.unsaid
  · change s.1.waiting tx + 1 ≤ 1
    rw [hwaiting]
  · rw [newsOf_told]
    exact List.append_ne_nil_of_right_ne_nil _ (List.cons_ne_nil _ _)

/-- Another transaction is announced. -/
theorem calm_announced_other (json : Option TransactionJSON) (ht : t.hash ≠ tx.hash)
    (h : Calm tx n s) : Calm tx n (s.1.told (.onTransactionChanged t.hash json),
      entered tx s.1 (s.1.told (.onTransactionChanged t.hash json)) s.2) := by
  have hother : (NativeCall.onTransactionChanged t.hash json).newsOf tx.hash = none := if_neg ht
  have hnews := newsOf_told_other s.1 hother
  have hlog : entered tx s.1 (s.1.told (.onTransactionChanged t.hash json)) s.2 = s.2 :=
    entered_of_same rfl hnews
  rw [hlog]
  refine calm_aside ?_ h
  simp only [aside, keeping, hnews]
  rfl

/-! ### Listening -/

/-- Who is listened to changes, `tx` apart. -/
theorem calm_listening (hv : onlyListening.rel w v)
    (hcount : v.registrations.count tx = w.registrations.count tx)
    (honly : ∀ x ∈ v.registrations, x.hash = tx.hash → x ∈ w.registrations)
    (hkey : hasKey Transaction.hash w.trackedTransactions tx →
      hasKey Transaction.hash v.trackedTransactions tx)
    (h : Calm tx n (w, log)) : Calm tx n (v, log) := by
  have hqueue : v.userThread = w.userThread := by rw [hv]
  have hnatives : v.natives = w.natives := by rw [hv]
  have hmem : tx ∈ v.registrations ↔ tx ∈ w.registrations := by
    rw [← List.count_pos_iff, hcount, List.count_pos_iff]
  refine ⟨h.apart, hcount ▸ h.single, fun x hx hh => h.only x (honly x hx hh) hh,
    fun hm => hkey (h.tracked (hmem.mp hm)), hqueue ▸ h.queued, fun hm => ?_, fun ha => ?_,
    fun ha => h.fresh ?_, fun hl => ?_⟩
  · rw [World.waiting, hqueue]
    exact h.room (hmem.mp hm)
  · rw [World.awaits, hqueue] at ha
    exact hmem.mpr (h.heard ha)
  · rwa [World.awaits, hqueue] at ha
  · rw [World.newsOf, hnatives]
    exact h.told hl

theorem calm_track_other (ht : t.hash ≠ tx.hash) (h : Calm tx n (w, log)) :
    Ends (trackTransaction t) w fun _ v => Calm tx n (v, log) := by
  have hne : t ≠ tx := fun he => ht (congrArg Transaction.hash he)
  cases hk : hasKey Transaction.hash w.trackedTransactions t with
  | true =>
    refine ends_mono (ends_trackTransaction_again hk) ?_
    rintro r v ⟨-, rfl⟩
    exact h
  | false =>
    refine ends_mono (ends_trackTransaction hk) ?_
    rintro r v ⟨-, hv, htracked, hregs⟩
    refine calm_listening hv ?_ (fun x hx hh => ?_) (fun hkey => ?_) h
    · rw [hregs, List.count_cons_of_ne hne]
    · rw [hregs] at hx
      exact (List.mem_cons.mp hx).resolve_left fun he => ht (he ▸ hh)
    · obtain ⟨x, hx, hh⟩ := hasKey_iff.mp hkey
      rw [htracked]
      exact hasKey_iff.mpr ⟨x, mem_addKey_of_mem hx, hh⟩

theorem calm_untrack_other (ht : t.hash ≠ tx.hash) (h : Calm tx n (w, log)) :
    Ends (stopTrackingTransaction t) w fun _ v => Calm tx n (v, log) := by
  have hne : tx ≠ t := fun he => ht (congrArg Transaction.hash he.symm)
  refine ends_mono ends_stopTracking ?_
  rintro r v ⟨-, hv, htracked, hregs⟩
  refine calm_listening hv ?_ (fun x hx _ => ?_) (fun hkey => ?_) h
  · rw [hregs]
    split
    · exact List.count_erase_of_ne hne
    · rfl
  · rw [hregs] at hx
    split at hx
    · exact List.mem_of_mem_erase hx
    · exact hx
  · obtain ⟨x, hx, hh⟩ := hasKey_iff.mp hkey
    rw [htracked]
    exact hasKey_iff.mpr ⟨x, List.mem_filter.mpr ⟨hx, by simpa [hh] using Ne.symm ht⟩, hh⟩

/-- Once it is listened to, one change more is all right. -/
theorem calm_track_own (h : Calm tx 0 (w, log)) (hsilent : ¬ w.awaits tx) :
    Ends (trackTransaction tx) w fun _ v => Calm tx 0 (v, log) := by
  cases hk : hasKey Transaction.hash w.trackedTransactions tx with
  | true =>
    refine ends_mono (ends_trackTransaction_again hk) ?_
    rintro r v ⟨-, rfl⟩
    exact h
  | false =>
    refine ends_mono (ends_trackTransaction hk) ?_
    rintro r v ⟨-, hv, htracked, hregs⟩
    have hqueue : v.userThread = w.userThread := by rw [hv]
    have hnatives : v.natives = w.natives := by rw [hv]
    have hdeaf : w.registrations.count tx = 0 :=
      List.count_eq_zero_of_not_mem fun hm => by simp [h.tracked hm] at hk
    have hno : UserThreadCall.onConfidenceChanged tx .type ∉ v.userThread := hqueue ▸ hsilent
    refine ⟨h.apart, ?_, fun x hx hh => ?_, fun _ => ?_, hqueue ▸ h.queued, fun _ => ?_,
      fun ha => absurd ha hno, fun ha => absurd ha hno, fun hl => ?_⟩
    · dsimp only
      rw [hregs, List.count_cons_self, hdeaf]
    · dsimp only at hx
      rw [hregs] at hx
      exact (List.mem_cons.mp hx).elim id fun hx => h.only x hx hh
    · dsimp only
      rw [htracked, addKey, if_neg (by simp [hk])]
      exact hasKey_of_mem List.mem_cons_self
    · rw [World.waiting, List.count_eq_zero_of_not_mem hno]
      exact Nat.zero_le 1
    · rw [World.newsOf, hnatives]
      exact h.told hl

/-- Once it is no longer listened to, all changes are. -/
theorem due_untrack_own (h : Due tx (w, log)) :
    Ends (stopTrackingTransaction tx) w fun r v =>
      r = .ok () ∧ Due tx (v, log) ∧ tx ∉ v.registrations := by
  refine ends_mono ends_stopTracking ?_
  rintro r v ⟨hr, hv, htracked, hregs⟩
  have hqueue : v.userThread = w.userThread := by rw [hv]
  have hdeaf : tx ∉ v.registrations := by
    rw [hregs]
    split
    · have hsingle := h.single
      rw [← List.count_pos_iff, List.count_erase_self]
      dsimp only at hsingle
      omega
    · next hk => exact fun hm => hk (h.tracked hm)
  have hno : UserThreadCall.onConfidenceChanged tx .type ∉ v.userThread := hqueue ▸ h.silent
  refine ⟨hr, ⟨⟨h.apart, ?_, fun x hx hh => h.only x ?_ hh, fun hm => absurd hm hdeaf,
    hqueue ▸ h.queued, fun hm => absurd hm hdeaf, fun ha => absurd ha hno,
    fun ha => absurd ha hno, fun hl => absurd hl h.unsaid⟩, hno, h.unsaid⟩, hdeaf⟩
  · rw [List.count_eq_zero_of_not_mem hdeaf]
    exact Nat.zero_le 1
  · dsimp only at hx
    rw [hregs] at hx
    split at hx
    · exact List.mem_of_mem_erase hx
    · exact hx

end BitcoinKit
