import BitcoinKit.Java.Failures
import BitcoinKit.Java.Listening

/-! Hearing of changes. A change of a transaction's type reaches the manager as a queued call if it is
    registered, and the call leads to a report; a call that is queued already will do as well, since
    the report is made when the call is handled:

        change ── registered ──▶ call queued ──▶ snapshot ──▶ told
                                             changes ─┘
                                                └── registered ──▶ another call

    So as long as a transaction is heard of, its last news is true or another call about it is queued. -/

namespace BitcoinKit
open Schemes

/-- The transactions of the wallet in use. -/
def World.theTransactions (w : World) : List Transaction :=
  match w.wallet with
  | none => []
  | some ref => (w.wallets.cell ref).transactions

/-- What a native call tells about a transaction id. -/
def NativeCall.newsOf (txid : Sha256Hash) : NativeCall → Option (Option TransactionJSON)
  | .onTransactionChanged id json => if id = txid then some json else none
  | _ => none

/-- All that was told about a transaction id, oldest first. -/
def World.newsOf (w : World) (txid : Sha256Hash) : List (Option TransactionJSON) :=
  w.natives.filterMap fun n => n.2.newsOf txid

/-- A report with this confidence type was told. -/
def Carries (json : Option TransactionJSON) (type : ConfidenceType) : Prop :=
  ∃ report, json = some report ∧ report.confidence = some (.str type.text)

/-- The last news of a transaction, if there has been any, carries its confidence type. -/
def NewsTrue (w : World) (tx : Transaction) : Prop :=
  ∀ json ∈ (w.newsOf tx.hash).getLast?, Carries json (w.confidence tx)

/-- A call about a change of the transaction's type is still to be handled. -/
def World.awaits (w : World) (tx : Transaction) : Prop :=
  .onConfidenceChanged tx .type ∈ w.userThread

/-- The transaction a queued call may lead to a report of. -/
def UserThreadCall.subject : UserThreadCall → Option Transaction
  | .onCoinsReceived tx => some tx
  | .onCoinsSent tx => some tx
  | .onConfidenceChanged tx .type => some tx
  | _ => none

/-- A change of the transaction's type will be heard of. -/
def World.hears (w : World) (tx : Transaction) : Prop := tx ∈ w.registrations ∨ w.awaits tx

/-- The points of a handler that come before the snapshot for its report. -/
def Window.isEarly : Window → Bool
  | .beforeUnlistening => true
  | .beforeSnapshot => true
  | .afterSnapshot => false
  | .beforeListening => false

/-! ### Changes of type -/

variable {lib : Lib} {w v : World} {tx t : Transaction}

/-- The last news is true, or a call that will lead to new ones is queued. -/
def Informed (w : World) (tx : Transaction) : Prop := w.awaits tx ∨ NewsTrue w tx

/-- What happens while the manager hears of every change of `tx`'s type, between reports of it. -/
def hearing (tx : Transaction) : Along World where
  rel w v := v.newsOf tx.hash = w.newsOf tx.hash ∧ (w.hears tx → v.hears tx) ∧
    (w.awaits tx → v.awaits tx) ∧ (v.awaits tx ∨ v.confidence tx = w.confidence tx)
  refl _ := ⟨rfl, id, id, .inr rfl⟩
  trans := by
    rintro s t u ⟨hn, hh, ha, hc⟩ ⟨hn', hh', ha', hc'⟩
    refine ⟨hn'.trans hn, hh' ∘ hh, ha' ∘ ha, ?_⟩
    rcases hc' with hc' | hc'
    · exact .inl hc'
    · rcases hc with hc | hc
      · exact .inl (ha' hc)
      · exact .inr (hc'.trans hc)

theorem informed_of_hearing (h : (hearing tx).rel w v) (hw : Informed w tx) : Informed v tx := by
  obtain ⟨hn, -, ha, hc⟩ := h
  rcases hw with hw | hw
  · exact .inl (ha hw)
  · rcases hc with hc | hc
    · exact .inl hc
    · refine .inr ?_
      rw [NewsTrue, hn, hc]
      exact hw

theorem informed_of_unreported (h : w.newsOf tx.hash = []) : Informed w tx := by
  refine .inr fun json hj => ?_
  rw [h] at hj
  cases hj

/-- The world after a native call. -/
def World.told (w : World) (call : NativeCall) : World :=
  { w with natives := w.natives ++ [(w.activity, call)] }

theorem ends_told {call : NativeCall} {Q : Except Throwable Unit → World → Prop} :
    Ends (native call) w Q ↔ Q (.ok ()) (w.told call) := Iff.rfl

theorem newsOf_told_other (w : World) {call : NativeCall} {txid : Sha256Hash}
    (h : call.newsOf txid = none) : (w.told call).newsOf txid = w.newsOf txid := by
  simp [World.told, World.newsOf, h]

/-- A native call that is no news of `tx`. -/
theorem hearing_told (w : World) {call : NativeCall} (h : call.newsOf tx.hash = none) :
    (hearing tx).rel w (w.told call) := ⟨newsOf_told_other w h, id, id, .inr rfl⟩

theorem newsOf_told (txid : Sha256Hash) (json : Option TransactionJSON) :
    (w.told (.onTransactionChanged txid json)).newsOf txid = w.newsOf txid ++ [json] := by
  simp [World.told, World.newsOf, NativeCall.newsOf]

theorem hearing_queue (a : Nat) (calls : List UserThreadCall) :
    (hearing tx).rel w { w with activity := a, userThread := w.userThread ++ calls } := by
  refine ⟨rfl, ?_, List.mem_append_left _, .inr rfl⟩
  rintro (hregs | hawaits)
  · exact .inl hregs
  · exact .inr (List.mem_append_left _ hawaits)

theorem awaits_change (type : ConfidenceType) (h : w.awaits tx) :
    (w.changeConfidence t type).awaits tx := by
  rw [World.changeConfidence]
  split
  · exact h
  · exact List.mem_append_left _ h

/-- A change the manager listens to gets it a call. -/
theorem awaits_heard {type : ConfidenceType} (hne : w.confidence tx ≠ type)
    (hregs : tx ∈ w.registrations) : (w.changeConfidence tx type).awaits tx := by
  rw [World.changeConfidence, if_neg hne]
  refine List.mem_append_right _ (List.mem_replicate.mpr ⟨?_, rfl⟩)
  exact Nat.ne_of_gt (List.count_pos_iff.mpr hregs)

theorem hears_change (type : ConfidenceType) (h : w.hears tx) :
    (w.changeConfidence t type).hears tx := by
  rcases h with hregs | hawaits
  · refine .inl ?_
    rw [World.changeConfidence]
    split <;> exact hregs
  · exact .inr (awaits_change type hawaits)

theorem newsOf_change (type : ConfidenceType) (txid : Sha256Hash) :
    (w.changeConfidence t type).newsOf txid = w.newsOf txid := by
  rw [World.changeConfidence]
  split <;> rfl

/-- A registered listener gets a call for the change; otherwise one is queued already. -/
theorem hearing_change {type : ConfidenceType} (h : t = tx → w.confidence tx = type ∨ w.hears tx) :
    (hearing tx).rel w (w.changeConfidence t type) := by
  refine ⟨newsOf_change type _, hears_change type, awaits_change type, ?_⟩
  by_cases hsame : w.confidence t = type
  · rw [World.changeConfidence, if_pos hsame]
    exact .inr rfl
  · by_cases ht : t = tx
    · subst ht
      rcases (h rfl).resolve_left hsame with hregs | hawaits
      · exact .inl (awaits_heard hsame hregs)
      · exact .inl (awaits_change type hawaits)
    · rw [World.changeConfidence, if_neg hsame]
      exact .inr (Function.update_of_ne (Ne.symm ht) ..)

/-- The world after a list of changes. -/
def World.changed (w : World) (changes : List (Transaction × ConfidenceType)) : World :=
  changes.foldl (fun w c => w.changeConfidence c.1 c.2) w

@[simp] theorem ends_interleave {window : Window} {Q : Except Throwable Unit → World → Prop} :
    Ends (lib.interleave window) w Q ↔ Q (.ok ()) (w.changed (lib.during window)) := Iff.rfl

/-- Changes keep what each of them keeps. -/
theorem changed_rel {R : Along World} (changes : List (Transaction × ConfidenceType))
    (h : ∀ c ∈ changes, ∀ w, R.rel w (w.changeConfidence c.1 c.2)) : R.rel w (w.changed changes) := by
  induction changes generalizing w with
  | nil => exact R.refl w
  | cons c changes ih =>
    exact R.trans (h c List.mem_cons_self w) (ih fun d hd => h d (List.mem_cons_of_mem c hd))

theorem hearing_changed : ∀ {w : World} (changes : List (Transaction × ConfidenceType)),
    (tx ∈ changes.map Prod.fst → w.hears tx) → (hearing tx).rel w (w.changed changes)
  | w, [], _ => (hearing tx).refl w
  | w, c :: changes, h => by
    rw [List.map_cons, List.mem_cons] at h
    have hfirst : (hearing tx).rel w (w.changeConfidence c.1 c.2) :=
      hearing_change fun he => .inr (h (.inl he.symm))
    exact (hearing tx).trans hfirst (hearing_changed changes fun hm => hfirst.2.1 (h (.inr hm)))

theorem hears_changed (changes : List (Transaction × ConfidenceType)) (h : w.hears tx) :
    (w.changed changes).hears tx :=
  changed_rel (R := preserving fun w => w.hears tx) changes (fun c _ _ => hears_change c.2) h

theorem awaits_changed (changes : List (Transaction × ConfidenceType)) (h : w.awaits tx) :
    (w.changed changes).awaits tx :=
  changed_rel (R := preserving fun w => w.awaits tx) changes (fun c _ _ => awaits_change c.2) h

theorem newsOf_changedTypes (changes : List (Transaction × ConfidenceType)) (txid : Sha256Hash) :
    (w.changed changes).newsOf txid = w.newsOf txid :=
  changed_rel (R := keeping fun w => w.newsOf txid) changes fun c _ _ => newsOf_change c.2 txid

/-! ### A report of the transaction -/

theorem ends_reportOrNull (h : reportFailure lib w tx = none) :
    Ends (reportOrNull lib tx) w fun r v =>
      v = w ∧ ∃ json, r = .ok json ∧ Carries json (w.confidence tx) := by
  revert h
  unfold reportFailure reportOrNull getJSONFromTransaction
  simp only [ends_catchIf, ends_bind, ends_get, ends_result, ends_call, ends_pure,
    outcome_getWalletAddress]
  cases (lib.view tx).inputs.mapM inputData with
  | error e => rintro ⟨⟩
  | ok inputs =>
    dsimp only
    cases (lib.view tx).outputs.mapM (outputData (walletAddress lib w)) with
    | error e => rintro ⟨⟩
    | ok outputs =>
      dsimp only
      cases lib.fails .transactionJSON with
      | some e => rintro ⟨⟩
      | none => exact fun _ => ⟨rfl, _, rfl, _, rfl, rfl⟩

/-- A report taken in an earlier state is told now: it is true unless another is to come. -/
theorem informed_told {json : Option TransactionJSON}
    (h : w.awaits tx ∨ Carries json (w.confidence tx)) :
    Informed (w.told (.onTransactionChanged tx.hash json)) tx := by
  rcases h with hawaits | hcarries
  · exact .inl hawaits
  · refine .inr ?_
    rw [NewsTrue, newsOf_told, List.getLast?_concat]
    rintro _ ⟨⟩
    exact hcarries

/-- A report is put together and told, and `next` runs. What changes after the snapshot is heard of,
    so it does not matter that the report is older than the telling. -/
theorem ends_snapshot {β : Type} {next : Option TransactionJSON → Java β}
    {Q : Except Throwable β → World → Prop} (hr : reportFailure lib w tx = none)
    (hlate : tx ∈ (lib.during .afterSnapshot).map Prod.fst → w.hears tx)
    (hnext : ∀ json v, (w.hears tx → v.hears tx) →
      (v.awaits tx ∨ Carries json (v.confidence tx)) → Ends (next json) v Q) :
    Ends (do
      native .onBalanceChanged
      lib.interleave .beforeSnapshot
      let json ← reportOrNull lib tx
      lib.interleave .afterSnapshot
      next json) w Q := by
  simp only [ends_bind, ends_told, ends_interleave]
  have hbalance : (hearing tx).rel w (w.told .onBalanceChanged) := hearing_told w rfl
  have hkeep : (keepingAddress lib).rel w
      ((w.told .onBalanceChanged).changed (lib.during .beforeSnapshot)) := by
    refine (keepingAddress lib).trans (keepingAddress_news.news w .onBalanceChanged rfl) ?_
    exact moves_interleave keepingAddress_news.confidence lib .beforeSnapshot _
  have hears := fun h => hears_changed (lib.during .beforeSnapshot) (hbalance.2.1 h)
  rw [← reportFailure_keeping hkeep tx] at hr
  generalize (w.told .onBalanceChanged).changed (lib.during .beforeSnapshot) = s at hears hr ⊢
  refine ends_mono (ends_reportOrNull hr) ?_
  rintro r v ⟨hv, json, hjson, hcarries⟩
  subst hv hjson
  have hafter := hearing_changed (lib.during .afterSnapshot) fun h => hears (hlate h)
  refine hnext json _ (hafter.2.1 ∘ hears) ?_
  rcases hafter.2.2.2 with hawaits | hsame
  · exact .inl hawaits
  · exact .inr (hsame ▸ hcarries)

/-! ### Handling a call about the transaction -/

theorem hearing_track (t : Transaction) : Moves (hearing tx) (trackTransaction t) := by
  refine moves_track (fun w => ⟨rfl, ?_, id, .inr rfl⟩) fun w => ⟨rfl, id, id, .inr rfl⟩
  rintro (hregs | hawaits)
  · exact .inl (List.mem_cons_of_mem t hregs)
  · exact .inr hawaits

theorem hearing_stopTracking (ht : t ≠ tx) : Moves (hearing tx) (stopTrackingTransaction t) := by
  refine moves_untrack (fun w => ⟨rfl, ?_, id, .inr rfl⟩) fun w => ⟨rfl, id, id, .inr rfl⟩
  rintro (hregs | hawaits)
  · exact .inl ((List.mem_erase_of_ne (Ne.symm ht)).mpr hregs)
  · exact .inr hawaits

/-- The changes in the windows of a handler for `tx` that come once its report may be taken. -/
def LateHeard (lib : Lib) (w : World) (tx : Transaction) : Prop :=
  ∀ window, window.isEarly = false → tx ∈ (lib.during window).map Prod.fst → w.hears tx

theorem informed_onNewTransaction (hr : reportFailure lib w tx = none) (hlate : LateHeard lib w tx)
    (hw : Informed w tx) : Ends (onNewTransaction lib tx) w fun _ v => Informed v tx := by
  unfold onNewTransaction
  rw [ends_bind, ends_get]
  dsimp only
  rw [ends_ite]
  split
  · exact hw
  · refine ends_snapshot hr (hlate .afterSnapshot rfl) fun json v hears hjson => ?_
    have htold := informed_told hjson
    have hears' : w.hears tx → (v.told (.onTransactionChanged tx.hash json)).hears tx := hears
    rw [ends_bind, ends_told]
    generalize v.told (.onTransactionChanged tx.hash json) = u at htold hears' ⊢
    dsimp only
    rw [ends_bind, ends_isPending]
    dsimp only
    rw [ends_ite]
    split
    · have hlast := hearing_changed (lib.during .beforeListening) fun h =>
        hears' (hlate .beforeListening rfl h)
      rw [ends_bind, ends_interleave]
      exact informed_of_hearing ((hearing tx).trans hlast (hearing_track tx _)) htold
    · exact htold

/-- The part of the handler that is common to transactions still pending and others. -/
theorem informed_tellChanged (hr : reportFailure lib w tx = none)
    (hlate : tx ∈ (lib.during .afterSnapshot).map Prod.fst → w.hears tx) : Ends (do
      native .onBalanceChanged
      lib.interleave .beforeSnapshot
      let json ← reportOrNull lib tx
      lib.interleave .afterSnapshot
      native (.onTransactionChanged tx.hash json)) w fun _ v => Informed v tx :=
  ends_snapshot hr hlate fun _ _ _ hjson => ends_told.mpr (informed_told hjson)

theorem informed_onConfidenceChanged (hr : reportFailure lib w tx = none)
    (hlate : ∀ window, window.isEarly = false → tx ∈ (lib.during window).map Prod.fst →
      w.awaits tx ∨ tx ∈ w.registrations ∧ w.confidence tx = .pending) :
    Ends (onConfidenceChanged lib tx .type) w fun _ v => Informed v tx := by
  unfold onConfidenceChanged
  rw [if_pos rfl, ends_bind, ends_isPending]
  dsimp only
  rw [ends_bind, ends_interleave]
  dsimp only
  have hkeep : (keepingAddress lib).rel w (w.changed (lib.during .beforeUnlistening)) :=
    moves_interleave keepingAddress_news.confidence lib .beforeUnlistening w
  rw [← reportFailure_keeping hkeep tx] at hr
  have hawaits := fun h : w.awaits tx => awaits_changed (lib.during .beforeUnlistening) h
  have hears := fun h : w.hears tx => hears_changed (lib.during .beforeUnlistening) h
  generalize w.changed (lib.during .beforeUnlistening) = u at hr hawaits hears ⊢
  rw [ends_bind, ends_ite]
  split
  · refine informed_tellChanged hr fun h => hears ?_
    exact (hlate .afterSnapshot rfl h).symm.imp And.left id
  · next hp =>
    refine ends_mono ends_stopTracking fun r v ⟨hr', hv, _, _⟩ => ?_
    rw [hr']
    have hfail : reportFailure lib v tx = none := by rw [hv]; exact hr
    have hthread : v.userThread = u.userThread := by rw [hv]
    refine informed_tellChanged hfail fun h => .inr ?_
    rcases hlate .afterSnapshot rfl h with ha | ⟨-, hpending⟩
    · rw [World.awaits, hthread]
      exact hawaits ha
    · exact absurd (decide_eq_true hpending) hp

end BitcoinKit
