import BitcoinKit.Properties.Display
import BitcoinKit.Properties.Progress

/-! The progress of the synchronisation, from the handlers that work it out to what the application is
    shown:

        Java   onChainDownloadStarted, onBlocksDownloaded ──▶ onSynchronizationUpdate
        Cocoa                                                     └──▶ main queue ──▶ syncProgress, isSyncing

    The two run apart: updates pile up in the main queue, between blocks of other kinds. What crosses is a
    `float`. With a total of up to 671088 it is the exact percentage, rounded once; from there on the
    numbers it is worked out from are rounded as well, and the end may be told as less than 100 %. -/

namespace BitcoinKit
open Schemes

/-- The Java manager, and what the Cocoa side shows. -/
structure Bridged where
  java : Syncing
  cocoa : Display

def Bridged.initial (files : Files) : Bridged := ⟨Syncing.initial files, Display.initial⟩

def DisplayEvent.isUpdate : DisplayEvent → Bool
  | .onSynchronizationUpdate _ => true
  | _ => false

/-- Updates come from the handlers only. -/
inductive BridgedEvent where
  | java (event : SyncEvent)
  | cocoa (event : DisplayEvent) (h : event.isUpdate = false)

def Update.told (u : Update) : DisplayEvent := .onSynchronizationUpdate u.float

/-- What a handler reports crosses at once. -/
def bridge (dates : Dates) (b : Bridged) : BridgedEvent → Bridged
  | .java event =>
    let java := sync b.java event
    ⟨java, run (Display.tell dates) b.cocoa ((java.updates.drop b.java.updates.length).map Update.told)⟩
  | .cocoa event _ => { b with cocoa := b.cocoa.tell dates event }

/-- The largest number whose hundredfold has no more than 24 significant bits, nor that of any smaller. -/
def finestTotal : Int32 := 671088

def SyncEvent.IsFine : SyncEvent → Prop
  | .onChainDownloadStarted blocksLeft _ => blocksLeft ≤ finestTotal
  | _ => True

/-- No more is left than the total, and the total is not too large for a `float`. -/
def WithinBridged (b : Bridged) : BridgedEvent → Prop
  | .java event => WithinTotal b.java event ∧ event.IsFine
  | .cocoa _ _ => True

/-- Shown is this update, to the nearest `float`, or that nothing was reported yet. -/
def ShowsUpdate (d : Display) : Option Update → Prop
  | none => d.syncProgress = 0 ∧ d.isSyncing = false
  | some u => d.syncProgress = binary32 u.percent ∧ (d.isSyncing = true ↔ u.blocksLeft ≠ 0)

variable {dates : Dates} {b : Bridged}

/-! ### The float -/

section Float

variable {total left : Int32}

theorem binary32_full : binary32 100 = 100 := binary32_intCast (m := 100) (by norm_num)

/-- The part that is there, as a number. -/
theorem part_eq (ht : 0 ≤ total) (hl : 0 ≤ left) (hle : left ≤ total) (hfine : total ≤ finestTotal) :
    ∃ part whole : ℤ, (total - left).toInt = part ∧ total.toInt = whole ∧ left.toInt = whole - part ∧
      0 ≤ part ∧ part ≤ whole ∧ whole ≤ 671088 := by
  have hl' := Int32.le_iff_toInt_le.mp hl
  have hle' := Int32.le_iff_toInt_le.mp hle
  have hfine' : total.toInt ≤ 671088 := Int32.le_iff_toInt_le.mp hfine
  rw [Int32.toInt_zero] at hl'
  exact ⟨_, total.toInt, toInt_sub_left ht hl, rfl, by omega, by omega, by omega, hfine'⟩

theorem floatOf_eq (ht : 0 ≤ total) (hl : 0 ≤ left) (hle : left ≤ total) (hfine : total ≤ finestTotal) :
    floatOf total left = binary32 (percentOf total left) := by
  by_cases hne : total = 0
  · rw [hne, percentOf_zero, binary32_full]
    rfl
  · obtain ⟨part, whole, hpart, hwhole, -, hnonneg, hmost, hlarge⟩ := part_eq ht hl hle hfine
    have hhundred : (100 * part : ℚ) = (25 * part : ℤ) * 2 ^ (2 : ℤ) := by
      push_cast
      ring
    rw [floatOf, percentOf, reportOf, if_neg hne, Percent.of, hpart, hwhole,
      binary32_intCast (abs_lt.mpr ⟨by omega, by omega⟩), binary32_intCast (abs_lt.mpr ⟨by omega, by omega⟩),
      hhundred, binary32_of_bits (abs_lt.mpr ⟨by omega, by omega⟩)]

/-- With one block more in the total, the end is not told. -/
example : floatOf 671089 0 < 100 := by decide +kernel

/-- Whatever is left leaves a gap to the end that a `float` shows. -/
theorem percentOf_gap (ht : 0 ≤ total) (hl : 0 ≤ left) (hle : left ≤ total) (hfine : total ≤ finestTotal) :
    percentOf total left = 100 ∨ percentOf total left ≤ 100 - 1 / 2 ^ 17 := by
  by_cases hne : total = 0
  · rw [hne]
    exact .inl rfl
  by_cases hnone : left = 0
  · exact .inl ((percentOf_eq_hundred ht hl hne).mpr hnone)
  · obtain ⟨part, whole, -, hwhole, hleft, -, -, hlarge⟩ := part_eq ht hl hle hfine
    have hsome : left.toInt ≠ 0 := fun h => hnone (Int32.toInt_inj.mp (h.trans Int32.toInt_zero.symm))
    have hl' := Int32.le_iff_toInt_le.mp hl
    rw [Int32.toInt_zero] at hl'
    have hpos := toInt_pos ht hne
    have hone : (1 : ℚ) ≤ left.toInt := by exact_mod_cast (show 1 ≤ left.toInt by omega)
    have hbound : (total.toInt : ℚ) ≤ 671088 := by exact_mod_cast hwhole ▸ hlarge
    refine .inr ?_
    rw [percentOf_eq ht hl hne, div_le_iff₀ hpos]
    linarith

end Float

/-- The exact percentage, rounded once, and not rounded up to the end. -/
structure Update.Close (u : Update) : Prop where
  float : u.float = binary32 u.percent
  gap : u.percent = 100 ∨ u.percent ≤ 100 - 1 / 2 ^ 17

theorem float_range {u : Update} (h : u.Close) (hfine : u.Fine) : 0 ≤ u.float ∧ u.float ≤ 100 := by
  rw [h.float]
  refine ⟨binary32_nonneg hfine.1.1, ?_⟩
  rw [← binary32_full]
  exact binary32_mono hfine.1.1 hfine.1.2

theorem float_lt_iff {u : Update} (h : u.Close) (hfine : u.Fine) : u.float < 100 ↔ u.blocksLeft ≠ 0 := by
  rw [ne_eq, ← hfine.2, h.float]
  constructor
  · intro hlt he
    rw [he, binary32_full] at hlt
    exact lt_irrefl _ hlt
  · intro hne
    -- the last number below the end has 24 bits
    have hlast : binary32 (100 - 1 / 2 ^ 17) = 100 - 1 / 2 ^ 17 := by
      have hbits := binary32_of_bits (m := 13107199) (by norm_num) (-17)
      norm_num at hbits ⊢
      exact hbits
    calc binary32 u.percent ≤ binary32 (100 - 1 / 2 ^ 17) :=
          binary32_mono hfine.1.1 (h.gap.resolve_left hne)
      _ < 100 := by
          rw [hlast]
          norm_num

/-- The total is small, and so was that of every report. -/
structure Syncing.Small (s : Syncing) : Prop where
  total : s.java.blocksToDownload ≤ finestTotal
  close : ∀ u ∈ s.updates, u.Close

theorem small_initial (files : Files) : (Syncing.initial files).Small where
  total := (by decide : (0 : Int32) ≤ finestTotal)
  close _ h := absurd h List.not_mem_nil

theorem small_sync (s : Syncing) (event : SyncEvent) (hkept : s.Kept) (h : s.Small)
    (hok : WithinTotal s event) (hfine : event.IsFine) : (sync s event).Small := by
  cases hb : event.basis s with
  | none =>
    cases event with
    | manager label =>
      refine ⟨?_, h.close⟩
      rcases total_step s.java label with htotal | htotal
      · exact htotal.symm ▸ h.total
      · exact htotal.symm ▸ (by decide : (0 : Int32) ≤ finestTotal)
    | _ => cases hb
  | some basis =>
    obtain ⟨left, total⟩ := basis
    obtain ⟨hleft, htotal⟩ := basis_nonneg hkept.counted hb
    have hle := (withinTotal_iff hb).mp hok
    have hsmall : total ≤ finestTotal := by
      cases event with
      | manager label => cases hb
      | onBlocksDownloaded left hl =>
        cases hb
        exact h.total
      | onChainDownloadStarted left hl =>
        cases hb
        split
        · exact hfine
        · exact h.total
    rw [sync_reporting hb]
    refine ⟨hsmall, fun u hu => ?_⟩
    rcases List.mem_append.mp hu with hu | hu
    · exact h.close u hu
    · rw [List.mem_singleton.mp hu]
      exact ⟨floatOf_eq htotal hleft hle hsmall, percentOf_gap htotal hleft hle hsmall⟩

/-! ### The Cocoa side's run -/

theorem percents_told (updates : List Update) :
    percents (updates.map Update.told) = updates.map Update.float := by
  induction updates with
  | nil => rfl
  | cons u updates ih => exact congrArg (u.float :: ·) ih

/-- Blocks for updates are asked for by updates. -/
theorem percents_quiet {events : List DisplayEvent} (h : events.flatMap DisplayEvent.posts = []) :
    percents events = [] := by
  induction events with
  | nil => rfl
  | cons event events ih =>
    rw [List.flatMap_cons, List.append_eq_nil_iff] at h
    cases event with
    | onSynchronizationUpdate percent => cases h.1
    | _ => exact ih h.2

theorem percents_append (before after : List DisplayEvent) :
    percents (before ++ after) = percents before ++ percents after := List.filterMap_append

/-- Reports are only ever added. -/
theorem updates_sync (s : Syncing) (event : SyncEvent) : ∃ new, (sync s event).updates = s.updates ++ new := by
  cases event with
  | manager label => exact ⟨[], (List.append_nil _).symm⟩
  | onBlocksDownloaded left hleft => exact ⟨_, rfl⟩
  | onChainDownloadStarted left hleft => exact ⟨_, rfl⟩

/-- One step is a run of the Cocoa side that is told what is reported in it. -/
theorem bridge_cocoa (dates : Dates) (b : Bridged) (event : BridgedEvent) : ∃ events,
    (∀ event ∈ events, True) ∧ (bridge dates b event).cocoa = run (Display.tell dates) b.cocoa events ∧
      (bridge dates b event).java.updates.map Update.float =
        b.java.updates.map Update.float ++ percents events := by
  cases event with
  | java event =>
    obtain ⟨new, hnew⟩ := updates_sync b.java event
    refine ⟨new.map Update.told, fun _ _ => trivial, ?_, ?_⟩
    · simp only [bridge, hnew, List.drop_left]
    · rw [percents_told, ← List.map_append, ← hnew]
      rfl
  | cocoa event h =>
    refine ⟨[event], fun _ _ => trivial, rfl, ?_⟩
    have hnone : percents [event] = [] := by
      cases event with
      | onSynchronizationUpdate percent => cases h
      | _ => rfl
    rw [hnone, List.append_nil]
    rfl

/-! ### The result -/

/-- Both invariants of the handlers. -/
def Bridged.Kept (b : Bridged) : Prop := b.java.Kept ∧ b.java.Small

theorem kept_bridge (b : Bridged) (event : BridgedEvent) (h : b.Kept) (hok : WithinBridged b event) :
    (bridge dates b event).Kept := by
  cases event with
  | java event => exact ⟨progress_sync b.java event h.1 hok.1, small_sync b.java event h.1 h.2 hok.1 hok.2⟩
  | cocoa event hevent => exact h

/-- Of the updates that were shown, the last is seen. -/
theorem showsUpdate_last {d : Display} {shown : List Update} (hkept : ∀ u ∈ shown, u.Fine ∧ u.Close)
    (hprogress : d.syncProgress = (shown.map Update.float).getLastD 0)
    (hsyncing : d.isSyncing =
      ((shown.map Update.float).map fun percent => decide (percent < 100)).getLastD false) :
    ShowsUpdate d shown.getLast? := by
  simp only [List.getLastD_eq_getLast?, List.getLast?_map] at hprogress hsyncing
  cases hlast : shown.getLast? with
  | none =>
    rw [hlast] at hprogress hsyncing
    exact ⟨hprogress, hsyncing⟩
  | some u =>
    rw [hlast] at hprogress hsyncing
    obtain ⟨hfine, hclose⟩ := hkept u (List.mem_of_getLast? hlast)
    refine ⟨hprogress.trans hclose.float, ?_⟩
    have hflag : d.isSyncing = decide (u.float < 100) := hsyncing
    rw [hflag, decide_eq_true_iff]
    exact float_lt_iff hclose hfine

theorem showsUpdate_range {d : Display} {shown : List Update} (hkept : ∀ u ∈ shown, u.Fine ∧ u.Close)
    (h : ShowsUpdate d shown.getLast?) : 0 ≤ d.syncProgress ∧ d.syncProgress ≤ 100 := by
  cases hlast : shown.getLast? with
  | none =>
    rw [hlast] at h
    rw [h.1]
    norm_num
  | some u =>
    rw [hlast] at h
    obtain ⟨hfine, hclose⟩ := hkept u (List.mem_of_getLast? hlast)
    rw [h.1, ← hclose.float]
    exact float_range hclose hfine

/-- While no more is left than the total, and the total is at most 671088: the progress that is shown is
    between 0 and 100, and is that of some update to the nearest `float`, with the application told that it
    synchronises exactly if blocks were left then. Once the main queue is empty it is the last update there
    was. -/
theorem progress_shown (dates : Dates) (files : Files) (events : List BridgedEvent)
    (hok : Meets (bridge dates) WithinBridged (.initial files) events) :
    let b := run (bridge dates) (.initial files) events
    (0 ≤ b.cocoa.syncProgress ∧ b.cocoa.syncProgress ≤ 100) ∧
      ∃ shown later, b.java.updates = shown ++ later ∧ ShowsUpdate b.cocoa shown.getLast? ∧
        (b.cocoa.raised = none → b.cocoa.mainQueue = [] → later = []) := by
  dsimp only
  obtain ⟨told, -, hcocoa, hupdates⟩ := run_driving Bridged.cocoa
    (fun b => b.java.updates.map Update.float) (bridge_cocoa dates) (.initial files) events
  obtain ⟨hkept, hsmall⟩ := inv_meets kept_bridge (Bridged.initial files) events
    ⟨progress_initial files, small_initial files⟩ hok
  obtain ⟨seen, later, rfl, hlast, hlater⟩ := told_tell dates told
  have hreported : (run (bridge dates) (.initial files) events).java.updates.map Update.float =
      percents seen ++ percents later := hupdates.trans (percents_append seen later)
  obtain ⟨shown, rest, hsplit, hshown, hrest⟩ := List.map_eq_append_iff.mp hreported
  have hfine : ∀ u ∈ shown, u.Fine ∧ u.Close := fun u hu =>
    have hmem := hsplit ▸ List.mem_append_left rest hu
    ⟨hkept.fine u hmem, hsmall.close u hmem⟩
  have hshows := showsUpdate_last hfine (hshown ▸ hcocoa ▸ hlast.progress) (hshown ▸ hcocoa ▸ hlast.syncing)
  refine ⟨showsUpdate_range hfine hshows, shown, rest, hsplit, hshows, fun hraised hqueue => ?_⟩
  have hnone := percents_quiet (hlater (hcocoa ▸ hraised) (hcocoa ▸ hqueue))
  rwa [hnone, List.map_eq_nil_iff] at hrest

/-- Of three blocks, two are there; the application's main queue runs all along. -/
def twoThirdsShown : List BridgedEvent :=
  [.java (.onChainDownloadStarted 3 (by decide)), .cocoa (.onPeerCountChanged 4) rfl,
    .java (.onBlocksDownloaded 1 (by decide)), .cocoa .mainQueue rfl, .cocoa .mainQueue rfl,
    .cocoa .mainQueue rfl]

theorem progress_shown_two_thirds :
    let b := run (bridge ⟨fun _ => none, 0⟩) (.initial .none) twoThirdsShown
    b.cocoa.syncProgress = 8738133 / 131072 ∧ ShowsUpdate b.cocoa b.java.updates.getLast? := by
  intro b
  have hok : Meets (bridge ⟨fun _ => none, 0⟩) WithinBridged (.initial .none) twoThirdsShown := by
    have hfine : (3 : Int32) ≤ finestTotal := by decide
    refine ⟨⟨fun h => absurd rfl h, hfine⟩, trivial, ⟨?_, trivial⟩, trivial, trivial, trivial, trivial⟩
    change (1 : Int32) ≤ (sync (.initial .none) (.onChainDownloadStarted 3 (by decide))).java.blocksToDownload
    decide +kernel
  have hend : b.cocoa.syncProgress = 8738133 / 131072 ∧ b.cocoa.raised.isNone ∧
      b.cocoa.mainQueue = [] := by decide +kernel
  obtain ⟨-, shown, later, hupdates, hshows, hall⟩ := progress_shown _ .none twoThirdsShown hok
  obtain rfl := hall (Option.isNone_iff_eq_none.mp hend.2.1) hend.2.2
  rw [List.append_nil] at hupdates
  exact ⟨hend.1, hupdates ▸ hshows⟩

end BitcoinKit
