import BitcoinKit.Java.Step
import BitcoinKit.Schemes.Binary32
import Mathlib.Algebra.Order.Field.Rat
import Mathlib.Data.List.Chain
import Mathlib.Tactic.Linarith
import Mathlib.Tactic.FieldSimp

/-! The progress of the synchronisation. The total is what the first download had left; it is kept until
    the chain is reset, and zero stands for "not known yet":

        total = 0   ─▶ 100 %, whatever is left
        total = n   ─▶ 100 (n - left) / n %

    A download that has more left than the first had takes that below zero, and blocks that come in
    before a total is known count as the end. What is passed on is a `float`; the quotient it stands for is
    kept beside it. -/

namespace BitcoinKit
open Schemes

/-! ### The handlers -/

/-- A percentage as a `float`, and the number it would be with nothing rounded. -/
structure Percent where
  float : ℚ
  exact : ℚ

/-- `100.0f`. -/
def Percent.full : Percent := ⟨100, 100⟩

/-- `100.0f * part / whole`: either number and either result is rounded to a `float`. -/
def Percent.of (part whole : Int32) : Percent where
  float := binary32 (binary32 (100 * binary32 part.toInt) / binary32 whole.toInt)
  exact := 100 * part.toInt / whole.toInt

/-- `updateBlocksLeft`; the result is what `onSynchronizationUpdate` is called with. -/
def updateBlocksLeft (blocksLeft : Int32) : Java Percent := do
  let w ← get
  if w.blocksToDownload = 0 then pure .full
  else
    let downloadedSoFar := w.blocksToDownload - blocksLeft
    pure (.of downloadedSoFar w.blocksToDownload)

def onBlocksDownloaded (blocksLeft : Int32) : Java Percent := updateBlocksLeft blocksLeft

def onChainDownloadStarted (blocksLeft : Int32) : Java Percent := do
  let w ← get
  (if w.blocksToDownload = 0 then modify fun w => { w with blocksToDownload := blocksLeft }
  else pure ())
  updateBlocksLeft blocksLeft

/-- Whether a percentage is below the end. -/
def isSyncing (percent : ℚ) : Bool := percent < 100

/-! ### The machine -/

/-- A call of `onSynchronizationUpdate`, with the blocks left at the event it was made for, and the
    number of resets before it. -/
structure Update where
  blocksLeft : Int32
  /-- The exact percentage, and the `float` that is passed for it. -/
  percent : ℚ
  float : ℚ
  resets : Nat

structure Syncing where
  java : World
  resets : Nat
  updates : List Update

def Syncing.initial (files : Files) : Syncing := ⟨World.initial files, 0, []⟩

inductive SyncEvent where
  | manager (label : Label)
  | onBlocksDownloaded (blocksLeft : Int32) (h : 0 ≤ blocksLeft)
  | onChainDownloadStarted (blocksLeft : Int32) (h : 0 ≤ blocksLeft)

def Label.isReset : Label → Bool
  | .resetBlockchain _ => true
  | _ => false

/-- A handler runs, and what it reports is noted. -/
def Syncing.update (s : Syncing) (blocksLeft : Int32) (handler : Java Percent) : Syncing :=
  { s with
    java := after (handler s.java)
    updates := s.updates ++ match outcome (handler s.java) with
      | .ok percent => [⟨blocksLeft, percent.exact, percent.float, s.resets⟩]
      | .error _ => [] }

def sync (s : Syncing) : SyncEvent → Syncing
  | .manager label =>
    { s with java := step s.java label, resets := s.resets + if label.isReset then 1 else 0 }
  | .onBlocksDownloaded blocksLeft _ => s.update blocksLeft (onBlocksDownloaded blocksLeft)
  | .onChainDownloadStarted blocksLeft _ => s.update blocksLeft (onChainDownloadStarted blocksLeft)

/-- Percentages are between 0 and 100, the end is reported when nothing is left and only then, and
    progress is not taken back while no more is left than before. -/
structure Meaningful (updates : List Update) : Prop where
  range : ∀ u ∈ updates, 0 ≤ u.percent ∧ u.percent ≤ 100
  finished : ∀ u ∈ updates, u.percent = 100 ↔ u.blocksLeft = 0
  syncing : ∀ u ∈ updates, isSyncing u.percent = false ↔ u.blocksLeft = 0
  steady : updates.IsChain fun u u' =>
    u'.resets = u.resets → u'.blocksLeft ≤ u.blocksLeft → u.percent ≤ u'.percent

/-- No more is left than the total, once there is one; blocks come in only then, unless none are left. -/
def WithinTotal (s : Syncing) : SyncEvent → Prop
  | .manager _ => True
  | .onBlocksDownloaded blocksLeft _ => blocksLeft ≤ s.java.blocksToDownload
  | .onChainDownloadStarted blocksLeft _ =>
    s.java.blocksToDownload ≠ 0 → blocksLeft ≤ s.java.blocksToDownload

/-! ### Percentages -/

/-- What is reported with `left` left of `total`. -/
def reportOf (total left : Int32) : Percent :=
  if total = 0 then .full else .of (total - left) total

def percentOf (total left : Int32) : ℚ := (reportOf total left).exact

def floatOf (total left : Int32) : ℚ := (reportOf total left).float

section Percent

variable {total left left' : Int32}

theorem toInt_sub_left (ht : 0 ≤ total) (hl : 0 ≤ left) :
    (total - left).toInt = total.toInt - left.toInt := by
  have ht' := Int32.le_iff_toInt_le.mp ht
  have hl' := Int32.le_iff_toInt_le.mp hl
  have htop := total.toInt_lt
  have hltop := left.toInt_lt
  rw [Int32.toInt_zero] at ht' hl'
  rw [Int32.toInt_sub, Int.bmod_eq_of_le (by omega) (by omega)]

theorem toInt_pos (ht : 0 ≤ total) (hne : total ≠ 0) : (0 : ℚ) < total.toInt := by
  have ht' := Int32.le_iff_toInt_le.mp ht
  have hne' : total.toInt ≠ 0 := fun h => hne (Int32.toInt_inj.mp (h.trans Int32.toInt_zero.symm))
  rw [Int32.toInt_zero] at ht'
  have hpos : 0 < total.toInt := by omega
  exact_mod_cast hpos

theorem percentOf_zero : percentOf 0 left = 100 := rfl

theorem percentOf_eq (ht : 0 ≤ total) (hl : 0 ≤ left) (hne : total ≠ 0) :
    percentOf total left = 100 * (total.toInt - left.toInt) / total.toInt := by
  rw [percentOf, reportOf, if_neg hne, Percent.of, toInt_sub_left ht hl]
  push_cast
  rfl

theorem percentOf_le (ht : 0 ≤ total) (hl : 0 ≤ left) : percentOf total left ≤ 100 := by
  by_cases hne : total = 0
  · rw [hne, percentOf_zero]
  · have hpos := toInt_pos ht hne
    have hl' : (0 : ℚ) ≤ left.toInt := by
      have h := Int32.le_iff_toInt_le.mp hl
      rw [Int32.toInt_zero] at h
      exact_mod_cast h
    rw [percentOf_eq ht hl hne, div_le_iff₀ hpos]
    linarith

theorem percentOf_nonneg_iff (ht : 0 ≤ total) (hl : 0 ≤ left) (hne : total ≠ 0) :
    0 ≤ percentOf total left ↔ left ≤ total := by
  have hpos := toInt_pos ht hne
  rw [percentOf_eq ht hl hne, le_div_iff₀ hpos, Int32.le_iff_toInt_le, zero_mul]
  have hcast : (left.toInt ≤ total.toInt) ↔ ((left.toInt : ℚ) ≤ total.toInt) := by norm_cast
  rw [hcast]
  constructor <;> intro h <;> linarith

theorem percentOf_eq_hundred (ht : 0 ≤ total) (hl : 0 ≤ left) (hne : total ≠ 0) :
    percentOf total left = 100 ↔ left = 0 := by
  have hpos := toInt_pos ht hne
  rw [percentOf_eq ht hl hne, div_eq_iff (ne_of_gt hpos), ← Int32.toInt_inj, Int32.toInt_zero]
  have hcast : (left.toInt = 0) ↔ ((left.toInt : ℚ) = 0) := by norm_cast
  rw [hcast]
  constructor <;> intro h <;> linarith

/-- With the same total, less left is more done. -/
theorem percentOf_anti (ht : 0 ≤ total) (hl : 0 ≤ left) (hl' : 0 ≤ left') (h : left' ≤ left) :
    percentOf total left ≤ percentOf total left' := by
  by_cases hne : total = 0
  · rw [hne, percentOf_zero, percentOf_zero]
  · have hpos := toInt_pos ht hne
    have hcast : (left'.toInt : ℚ) ≤ left.toInt := by
      have hle := Int32.le_iff_toInt_le.mp h
      exact_mod_cast hle
    rw [percentOf_eq ht hl hne, percentOf_eq ht hl' hne, div_le_div_iff_of_pos_right hpos]
    linarith

end Percent

theorem ends_updateBlocksLeft {w : World} (blocksLeft : Int32) :
    Ends (updateBlocksLeft blocksLeft) w fun r v =>
      r = .ok (reportOf w.blocksToDownload blocksLeft) ∧ v = w := by
  unfold updateBlocksLeft reportOf
  simp only [ends_bind, ends_get, ends_ite, ends_pure]
  split <;> exact ⟨rfl, trivial⟩

/-! ### One event -/

/-- What an event reports by: the blocks left, and the total that counts from then on. -/
def SyncEvent.basis (s : Syncing) : SyncEvent → Option (Int32 × Int32)
  | .manager _ => none
  | .onBlocksDownloaded blocksLeft _ => some (blocksLeft, s.java.blocksToDownload)
  | .onChainDownloadStarted blocksLeft _ =>
    some (blocksLeft, if s.java.blocksToDownload = 0 then blocksLeft else s.java.blocksToDownload)

variable {s : Syncing} {event : SyncEvent} {blocksLeft total : Int32}

/-- A state with one more report. -/
def Syncing.reporting (s : Syncing) (blocksLeft total : Int32) : Syncing :=
  { s with
    java := { s.java with blocksToDownload := total }
    updates := s.updates ++ [⟨blocksLeft, percentOf total blocksLeft, floatOf total blocksLeft, s.resets⟩] }

theorem update_reporting {handler : Java Percent} (h : Ends handler s.java fun r v =>
      r = .ok (reportOf total blocksLeft) ∧ v = { s.java with blocksToDownload := total }) :
    s.update blocksLeft handler = s.reporting blocksLeft total := by
  obtain ⟨hr, hv⟩ := h
  unfold Syncing.update Syncing.reporting
  rw [hr, hv]
  rfl

theorem sync_reporting (h : event.basis s = some (blocksLeft, total)) :
    sync s event = s.reporting blocksLeft total := by
  cases event with
  | manager label => cases h
  | onBlocksDownloaded left hleft =>
    cases h
    exact update_reporting (ends_updateBlocksLeft _)
  | onChainDownloadStarted left hleft =>
    cases h
    refine update_reporting ?_
    unfold onChainDownloadStarted
    rw [ends_bind, ends_get]
    dsimp only
    rw [ends_bind, ends_ite]
    split
    · rw [ends_modify]
      exact ends_updateBlocksLeft _
    · exact ends_updateBlocksLeft _

theorem basis_nonneg (hs : 0 ≤ s.java.blocksToDownload) (h : event.basis s = some (blocksLeft, total)) :
    0 ≤ blocksLeft ∧ 0 ≤ total := by
  cases event with
  | manager label => cases h
  | onBlocksDownloaded left hleft =>
    cases h
    exact ⟨hleft, hs⟩
  | onChainDownloadStarted left hleft =>
    cases h
    refine ⟨hleft, ?_⟩
    split
    · exact hleft
    · exact hs

/-- A report that is right in itself. -/
def Update.Fine (u : Update) : Prop :=
  (0 ≤ u.percent ∧ u.percent ≤ 100) ∧ (u.percent = 100 ↔ u.blocksLeft = 0)

/-- A report is right in itself exactly when no more is left than the total. -/
theorem fine_iff (ht : 0 ≤ total) (hl : 0 ≤ blocksLeft) (float : ℚ) (resets : Nat) :
    Update.Fine ⟨blocksLeft, percentOf total blocksLeft, float, resets⟩ ↔ blocksLeft ≤ total := by
  unfold Update.Fine
  dsimp only
  by_cases hne : total = 0
  · rw [hne, percentOf_zero]
    constructor
    · rintro ⟨-, hzero⟩
      rw [hzero.mp rfl]
      exact Int32.le_refl 0
    · intro hle
      exact ⟨⟨by norm_num, le_refl _⟩, fun _ => Int32.le_antisymm hle hl, fun _ => rfl⟩
  · rw [percentOf_nonneg_iff ht hl hne]
    exact ⟨fun h => h.1.1, fun h => ⟨⟨h, percentOf_le ht hl⟩, percentOf_eq_hundred ht hl hne⟩⟩

theorem withinTotal_iff (h : event.basis s = some (blocksLeft, total)) :
    WithinTotal s event ↔ blocksLeft ≤ total := by
  cases event with
  | manager label => cases h
  | onBlocksDownloaded left hl =>
    cases h
    exact Iff.rfl
  | onChainDownloadStarted left hl =>
    cases h
    change (s.java.blocksToDownload ≠ 0 → blocksLeft ≤ s.java.blocksToDownload) ↔ _
    by_cases hzero : s.java.blocksToDownload = 0
    · rw [if_pos hzero]
      exact ⟨fun _ => Int32.le_refl _, fun _ hne => absurd hzero hne⟩
    · rw [if_neg hzero]
      exact ⟨fun h => h hzero, fun h _ => h⟩

/-! ### The manager's own work -/

/-- Only a reset changes the total. -/
def keepingTotal : Along World := keeping World.blocksToDownload

theorem keepingTotal_tracking : IgnoresTracking keepingTotal where
  listening _ _ _ := rfl
  confidence _ _ _ := rfl
  news _ _ _ := rfl

theorem keepingTotal_work : IgnoresWork keepingTotal where
  keys _ _ _ := rfl
  wallets _ _ _ _ := rfl
  chain _ _ _ _ _ := rfl
  chainFiles _ _ := rfl
  saved _ _ := rfl
  balance _ := rfl
  network _ _ := rfl
  wallet _ _ _ := rfl
  loading _ _ _ _ _ := rfl
  built _ _ := rfl
  waiting _ _ := rfl
  stored _ _ _ := rfl
  committed _ _ _ _ := rfl
  confidence _ _ _ := rfl
  news _ _ _ := rfl
  secrets _ _ := rfl
  directories _ _ _ := rfl
  bookkeeping _ _ _ _ := rfl

theorem keepingTotal_payments : IgnoresPayments keepingTotal where
  toIgnoresSending := keepingTotal_work.toIgnoresSending
  numbered _ _ := rfl
  loaded _ _ _ := rfl
  removed _ _ := rfl
  reports _ _ _ := rfl

theorem total_label {w : World} {l : Label} (hl : l.isReset = false) :
    (step w l).blocksToDownload = w.blocksToDownload := by
  have hm : Moves keepingTotal l.code := by
    refine moves_label keepingTotal_work keepingTotal_tracking l (fun lib he => ?_)
      (fun testing _ => moves_setTestingNetwork (fun _ _ => rfl) testing)
      (moves_answering keepingTotal_work.toIgnoresTraffic keepingTotal_payments
        (moves_trackTransaction keepingTotal_tracking) (fun _ => moves_modify fun _ => rfl) l)
    subst he
    cases hl
  exact hm w

/-- A reset leaves the total or clears it. -/
def clearingTotal : Along World where
  rel w v := v.blocksToDownload = w.blocksToDownload ∨ v.blocksToDownload = 0
  refl _ := .inl rfl
  trans := by
    rintro w v u (h | h) (h' | h')
    · exact .inl (h'.trans h)
    · exact .inr h'
    · exact .inr (h'.trans h)
    · exact .inr h'

theorem total_reset {w : World} (lib : Lib) :
    clearingTotal.rel w (step w (.resetBlockchain lib)) := by
  have hmono (w v : World) (h : keepingTotal.rel w v) : clearingTotal.rel w v := .inl h
  have hw := keepingTotal_work.mono hmono
  exact moves_onBehalfOf hw.bookkeeping 0
    (moves_reset hw (keepingTotal_tracking.mono hmono) (fun _ => .inr rfl) lib) w

theorem total_step (w : World) (l : Label) : clearingTotal.rel w (step w l) := by
  cases hl : l.isReset with
  | false => exact .inl (total_label hl)
  | true =>
    cases l with
    | resetBlockchain lib => exact total_reset lib
    | _ => cases hl

theorem total_nonneg {w : World} (l : Label) (hw : 0 ≤ w.blocksToDownload) :
    0 ≤ (step w l).blocksToDownload := by
  rcases total_step w l with h | h
  · exact h.symm ▸ hw
  · exact h.symm ▸ Int32.le_refl 0

/-! ### Runs -/

def Syncing.counted (s : Syncing) : Prop := 0 ≤ s.java.blocksToDownload

theorem counted_sync (s : Syncing) (event : SyncEvent) (h : s.counted) : (sync s event).counted := by
  cases hb : event.basis s with
  | some basis =>
    rw [sync_reporting hb]
    exact (basis_nonneg h hb).2
  | none =>
    cases event with
    | manager label => exact total_nonneg label h
    | _ => cases hb

/-- The reports of a run are right in themselves exactly when its events keep within the total. -/
theorem fine_run_iff : ∀ (events : List SyncEvent) (s : Syncing), s.counted →
    ((∀ u ∈ (run sync s events).updates, u.Fine) ↔
      (∀ u ∈ s.updates, u.Fine) ∧ Meets sync WithinTotal s events)
  | [], s, _ => by simp [Meets]
  | event :: events, s, h => by
    rw [run_cons, fine_run_iff events (sync s event) (counted_sync s event h), Meets, ← and_assoc]
    refine and_congr_left fun _ => ?_
    cases hb : event.basis s with
    | some basis =>
      obtain ⟨left, total⟩ := basis
      obtain ⟨hleft, htotal⟩ := basis_nonneg h hb
      rw [sync_reporting hb, withinTotal_iff hb, ← fine_iff htotal hleft (floatOf total left) s.resets]
      simp [Syncing.reporting, or_imp, forall_and]
    | none =>
      cases event with
      | manager label => exact (and_iff_left trivial).symm
      | _ => cases hb

/-- What makes reports comparable: the last of a period was made by the total that still counts. -/
structure Syncing.Kept (s : Syncing) : Prop where
  counted : s.counted
  fine : ∀ u ∈ s.updates, u.Fine
  left : ∀ u ∈ s.updates, 0 ≤ u.blocksLeft
  periods : ∀ u ∈ s.updates, u.resets ≤ s.resets
  last : ∀ u ∈ s.updates.getLast?, u.resets = s.resets →
    u.percent = percentOf s.java.blocksToDownload u.blocksLeft
  steady : s.updates.IsChain fun u u' =>
    u'.resets = u.resets → u'.blocksLeft ≤ u.blocksLeft → u.percent ≤ u'.percent

theorem progress_initial (files : Files) : (Syncing.initial files).Kept where
  counted := Int32.le_refl 0
  fine _ h := absurd h List.not_mem_nil
  left _ h := absurd h List.not_mem_nil
  periods _ h := absurd h List.not_mem_nil
  last _ h := by cases h
  steady := .nil

/-- The next report of a period with no more left. -/
theorem steady_next (h : s.Kept) (hb : event.basis s = some (blocksLeft, total)) {u : Update}
    (hu : u ∈ s.updates.getLast?) (hresets : u.resets = s.resets) (hle : blocksLeft ≤ u.blocksLeft) :
    u.percent ≤ percentOf total blocksLeft := by
  obtain ⟨hleft, htotal⟩ := basis_nonneg h.counted hb
  have hmem := List.mem_of_getLast? hu
  rw [h.last u hu hresets]
  by_cases hsame : total = s.java.blocksToDownload
  · rw [hsame]
    exact percentOf_anti h.counted (h.left u hmem) hleft hle
  · -- the total is set by this event: what was reported before it had nothing left
    have hzero : s.java.blocksToDownload = 0 ∧ total = blocksLeft := by
      cases event with
      | manager label => cases hb
      | onBlocksDownloaded left hl =>
        cases hb
        exact absurd rfl hsame
      | onChainDownloadStarted left hl =>
        cases hb
        by_cases hz : s.java.blocksToDownload = 0
        · rw [if_pos hz]
          exact ⟨hz, rfl⟩
        · rw [if_neg hz] at hsame
          exact absurd rfl hsame
    have hpercent : u.percent = 100 := by
      rw [h.last u hu hresets, hzero.1]
      rfl
    rw [(h.fine u hmem).2.mp hpercent] at hle
    rw [hzero.2, Int32.le_antisymm hle hleft, hzero.1]
    exact percentOf_le (Int32.le_refl 0) (h.left u hmem)

theorem progress_sync (s : Syncing) (event : SyncEvent) (h : s.Kept) (hok : WithinTotal s event) :
    (sync s event).Kept := by
  cases hb : event.basis s with
  | none =>
    cases event with
    | manager label =>
      refine ⟨counted_sync s _ h.counted, h.fine, h.left, fun u hu => ?_, fun u hu hresets => ?_,
        h.steady⟩
      · exact (h.periods u hu).trans (Nat.le_add_right _ _)
      · have hle := h.periods u (List.mem_of_getLast? hu)
        change u.resets = s.resets + (if label.isReset then 1 else 0) at hresets
        have hno : label.isReset = false := by
          cases hl : label.isReset with
          | false => rfl
          | true =>
            rw [hl, if_pos rfl] at hresets
            omega
        rw [hno, if_neg (by simp), Nat.add_zero] at hresets
        refine (h.last u hu hresets).trans ?_
        exact congrArg (fun total => percentOf total u.blocksLeft) (total_label hno).symm
    | _ => cases hb
  | some basis =>
    obtain ⟨left, total⟩ := basis
    obtain ⟨hleft, htotal⟩ := basis_nonneg h.counted hb
    rw [sync_reporting hb]
    have hnew {P : Update → Prop} (hold : ∀ u ∈ s.updates, P u)
        (hlast : P ⟨left, percentOf total left, floatOf total left, s.resets⟩) :
        ∀ u ∈ (s.reporting left total).updates, P u := by
      intro u hu
      rcases List.mem_append.mp hu with hu | hu
      · exact hold u hu
      · rw [List.mem_singleton.mp hu]
        exact hlast
    refine ⟨htotal, hnew h.fine ?_, hnew h.left hleft, hnew h.periods (Nat.le_refl _),
      fun u hu _ => ?_, ?_⟩
    · exact (fine_iff htotal hleft (floatOf total left) s.resets).mpr ((withinTotal_iff hb).mp hok)
    · obtain rfl : _ = u := by simpa [Syncing.reporting] using hu
      rfl
    · refine h.steady.append (List.isChain_singleton _) fun u hu u' hu' hresets hle => ?_
      obtain rfl : _ = u' := by simpa using hu'
      exact steady_next h hb hu hresets.symm hle

/-- Every report of a run is meaningful exactly when each event keeps within the total. -/
theorem sync_meaningful_iff (files : Files) (events : List SyncEvent) :
    Meaningful (run sync (Syncing.initial files) events).updates ↔
      Meets sync WithinTotal (Syncing.initial files) events := by
  have hfine := fine_run_iff events (Syncing.initial files) (Int32.le_refl 0)
  constructor
  · intro h
    exact (hfine.mp fun u hu => ⟨h.range u hu, h.finished u hu⟩).2
  · intro hok
    have h := inv_meets progress_sync (Syncing.initial files) events (progress_initial files) hok
    refine ⟨fun u hu => (h.fine u hu).1, fun u hu => (h.fine u hu).2, fun u hu => ?_, h.steady⟩
    rw [← (h.fine u hu).2, isSyncing, decide_eq_false_iff_not, not_lt]
    exact ⟨fun hge => le_antisymm (h.fine u hu).1.2 hge, fun he => he.ge⟩

/-- After a sync of ten blocks is over, another download starts with twenty left. -/
def restartedDownload : List SyncEvent :=
  [.onChainDownloadStarted 10 (by decide), .onBlocksDownloaded 0 (by decide),
   .onChainDownloadStarted 20 (by decide)]

theorem restartedDownload_negative :
    ¬ ∀ (files : Files) (events : List SyncEvent),
      Meaningful (run sync (Syncing.initial files) events).updates := by
  intro h
  have hpercents : (run sync (Syncing.initial .none) restartedDownload).updates.map Update.percent =
      [0, 100, -100] := by decide +kernel
  have hmem : (-100 : ℚ) ∈
      (run sync (Syncing.initial .none) restartedDownload).updates.map Update.percent := by
    rw [hpercents]
    simp
  obtain ⟨u, hu, hpercent⟩ := List.mem_map.mp hmem
  have hrange := ((h .none restartedDownload).range u hu).1
  rw [hpercent] at hrange
  norm_num at hrange

end BitcoinKit
