import BitcoinKit.Cocoa.Calls
import BitcoinKit.Cocoa.Running
import BitcoinKit.Properties.Contained

/-! `isRunning` and the notifications are true: a manager that says it runs does, for its wallet and over
    an open block store.

        isRunning = YES  ──▶ Started was the last notification, YES the last value told
                         ──▶ the peer group runs

    A start that fails on the way may leave the group running with `isRunning` as it was; a reset that
    fails leaves it stopped with `isRunning = YES`. -/

namespace BitcoinKit
open Schemes

variable {m : Running} {c : Cocoa} {notices : List RunningNotice}

/-! ### What is told -/

def RunningNotice.isPosted : RunningNotice → Bool
  | .started => true
  | .stopped => true
  | _ => false

def RunningNotice.value : RunningNotice → Option Bool
  | .isRunning running => some running
  | _ => none

/-- The last notification, and the last value observers were told, agree with `isRunning`. -/
structure Announces (notices : List RunningNotice) (isRunning : Bool) : Prop where
  posted : (notices.filter RunningNotice.isPosted).getLastD .stopped =
    if isRunning then .started else .stopped
  value : (notices.filterMap RunningNotice.value).getLastD false = isRunning

theorem told_started (notices : List RunningNotice) :
    Announces (notices ++ [.isRunning true, .started, .walletAddress]) true :=
  ⟨by simp [List.filter_append, RunningNotice.isPosted], by
    rw [List.filterMap_append]
    exact List.getLastD_concat⟩

theorem told_stopped (notices : List RunningNotice) :
    Announces (notices ++ [.isRunning false, .stopped]) false :=
  ⟨by simp [List.filter_append, RunningNotice.isPosted], by
    rw [List.filterMap_append]
    exact List.getLastD_concat⟩

/-! ### The invariant -/

structure Truthful (m : Running) : Prop where
  contained : Contained m.cocoa.java
  up : m.cocoa.isRunning = true → Up m.cocoa.java
  told : Announces m.notices m.cocoa.isRunning

/-- The methods for starting come while the manager holds no block store and no peer group; a stop and a
    reset succeed. -/
def Disciplined (m : Running) : RunningEvent → Prop
  | .start _ _ => m.cocoa.java.blockStore = none ∧ m.cocoa.java.peerGroup = none
  | .createWallet _ => m.cocoa.java.blockStore = none ∧ m.cocoa.java.peerGroup = none
  | .createWalletWithPassword _ _ => m.cocoa.java.blockStore = none ∧ m.cocoa.java.peerGroup = none
  | .stop lib => outcome (Running.stop lib m) = .ok ()
  | .resetBlockchain lib wantsError => outcome (Running.resetBlockchain lib wantsError m) = .ok none
  | _ => True

instance (m : Running) (event : RunningEvent) : Decidable (Disciplined m event) := by
  cases event <;> unfold Disciplined <;> infer_instance

/-! ### Calls -/

/-- A call of a Java method leaves what the method leaves, and `isRunning` as it is. -/
theorem ends_javaCall {method : Java Unit} {Q : Except Throwable Unit → World → Prop} (wantsError : Bool)
    (h : Ends method { c.java with natives := [] } Q) :
    Ends (callVoidMethod wantsError method) c fun r d => d.isRunning = c.isRunning ∧
      ∃ ended, Q ended d.java ∧ Called wantsError ended r := by
  refine ends_mono (ends_callVoidMethod wantsError method) ?_
  rintro r d ⟨hcalled, rfl⟩
  refine ⟨?_, outcome (c.runOf method), ?_, hcalled⟩
  · rw [onlyAnswers_ran method]
    rfl
  · rw [java_ran]
    exact h

/-- `isRunning` and what the network layer goes by stay. -/
def unshaken : Along Cocoa where
  rel c d := d.isRunning = c.isRunning ∧ bearing.rel c.java d.java
  refl c := ⟨rfl, bearing.refl c.java⟩
  trans h h' := ⟨h'.1.trans h.1, bearing.trans h.2 h'.2⟩

theorem unshaken_ran {α : Type} {method : Java α} (hm : Moves bearing method) (c : Cocoa) :
    unshaken.rel c (c.ran method) := by
  refine ⟨?_, ?_⟩
  · rw [onlyAnswers_ran method]
    rfl
  · rw [java_ran]
    have hcleared : bearing.rel c.java { c.java with natives := [] } := rfl
    exact bearing.trans hcleared (hm _)

theorem moves_bearing {method : Java Unit} {wantsError : Bool} (hm : Moves bearing method) :
    Moves unshaken (callVoidMethod wantsError (onBehalfOf 0 method)) :=
  moves_callVoidMethod (unshaken_ran (moves_onBehalfOf (fun _ _ _ _ => rfl) 0 hm))

/-- What such code leaves of the manager. -/
theorem ends_onCocoa_of_moves {α : Type} {code : ObjC α} (hm : Moves unshaken code) :
    Ends (onCocoa code) m fun _ n => ∃ c, n = { m with cocoa := c } ∧ unshaken.rel m.cocoa c := by
  unfold onCocoa
  rw [ends_within]
  exact ⟨_, rfl, hm m.cocoa⟩

theorem Truthful.along (h : Truthful m) (hc : unshaken.rel m.cocoa c) : Truthful { m with cocoa := c } where
  contained := h.contained.along hc.2
  up hr := (h.up (hc.1.symm.trans hr)).along hc.2
  told := by
    have hsame : ({ m with cocoa := c } : Running).cocoa.isRunning = m.cocoa.isRunning := hc.1
    rw [hsame]
    exact h.told

/-! ### Starting -/

/-- Nothing runs, and nothing else is said. -/
structure Idle (m : Running) : Prop where
  vacant : Vacant m.cocoa.java
  still : m.cocoa.isRunning = false
  told : Announces m.notices false

theorem Idle.along (h : Idle m) (hc : unshaken.rel m.cocoa c) : Idle { m with cocoa := c } :=
  ⟨h.vacant.along hc.2, hc.1.trans h.still, h.told⟩

/-- Nothing is said to run; whatever is open is the manager's. -/
structure Unstarted (m : Running) : Prop where
  contained : Contained m.cocoa.java
  still : m.cocoa.isRunning = false
  told : Announces m.notices false

theorem Idle.unstarted (h : Idle m) : Unstarted m := ⟨h.vacant.contained, h.still, h.told⟩

theorem Unstarted.truthful (h : Unstarted m) : Truthful m where
  contained := h.contained
  up hr := by
    rw [h.still] at hr
    cases hr
  told := h.still ▸ h.told

theorem idle_of_truthful (h : Truthful m)
    (hok : m.cocoa.java.blockStore = none ∧ m.cocoa.java.peerGroup = none) : Idle m := by
  have hstill : m.cocoa.isRunning = false := by
    cases hr : m.cocoa.isRunning with
    | false => rfl
    | true =>
      obtain ⟨group, hg, -⟩ := h.up hr
      rw [hok.2] at hg
      cases hg
  exact ⟨h.contained.vacant hok.1 hok.2, hstill, hstill ▸ h.told⟩

/-- A method that brings the network up is called. -/
theorem ends_bringingMethod {method : Java Unit} (wantsError : Bool) (h : Vacant c.java)
    (hm : ∀ w, Vacant w → Ends method w Brings) :
    Ends (callVoidMethod wantsError (onBehalfOf 0 method)) c fun r d =>
      d.isRunning = c.isRunning ∧ Contained d.java ∧ (r = .ok none → Up d.java) := by
  have hcleared : Vacant { c.java with natives := [], activity := 0 } := Vacant.along (w := c.java) rfl h
  refine ends_mono (ends_javaCall wantsError (ends_onBehalf (hm _ hcleared))) ?_
  rintro r d ⟨hsame, ended, ⟨hcontained, hup⟩, hcalled⟩
  refine ⟨hsame, hcontained, fun hr => ?_⟩
  subst hr
  cases hcalled with
  | returned he => exact hup he

theorem ends_bringingCall {method : Java Unit} (wantsError : Bool) (h : Idle m)
    (hm : ∀ w, Vacant w → Ends method w Brings) :
    Ends (onCocoa (callVoidMethod wantsError (onBehalfOf 0 method))) m fun r n => Unstarted n ∧
      (r = .ok none → Up n.cocoa.java) := by
  unfold onCocoa
  rw [ends_within]
  refine ends_mono (ends_bringingMethod wantsError h.vacant hm) ?_
  rintro r d ⟨hsame, hcontained, hup⟩
  exact ⟨⟨hcontained, hsame.trans h.still, h.told⟩, hup⟩

/-- What follows the call. -/
theorem truthful_started (h : Unstarted m) (hup : Up m.cocoa.java) :
    Truthful { m with
      cocoa := { m.cocoa with isRunning := true }
      notices := m.notices ++ [.isRunning true, .started, .walletAddress] } where
  contained := h.contained
  up _ := hup
  told := told_started m.notices

theorem truthful_start (lib : Lib) (wantsError : Bool) (h : Idle m) :
    Ends (Running.start lib wantsError) m fun _ n => Truthful n := by
  unfold Running.start
  rw [ends_bind, ends_get]
  dsimp only
  have htesting : Ends (if m.testingNetwork then do
      let _ ← onCocoa (callVoidMethod false (onBehalfOf 0 (setTestingNetwork true)))
    else pure () : Managing Unit) m fun _ n => Idle n := by
    rw [ends_ite]
    split
    · rw [ends_bind]
      have hmoves : Moves bearing (setTestingNetwork true) := moves_setTestingNetwork (fun _ _ => rfl) true
      refine ends_mono (ends_onCocoa_of_moves (moves_bearing hmoves)) ?_
      rintro r n ⟨c, rfl, hc⟩
      cases r with
      | ok _ => exact h.along hc
      | error e => exact h.along hc
    · exact h
  rw [ends_bind]
  refine ends_mono htesting fun r n hn => ?_
  cases r with
  | error e => exact hn.unstarted.truthful
  | ok _ =>
    dsimp only
    rw [ends_bind]
    refine ends_mono (ends_onCocoa_of_moves (moves_bearing
      (moves_setDataDirectory (fun _ _ => rfl) m.dataURL))) ?_
    rintro r _ ⟨c, rfl, hc⟩
    have hidle := hn.along hc
    cases r with
    | error e => exact hidle.unstarted.truthful
    | ok _ =>
      dsimp only
      rw [ends_bind]
      refine ends_mono (ends_bringingCall wantsError hidle fun w hw => brings_start hw) ?_
      rintro r n ⟨hn, hup⟩
      cases r with
      | error e => exact hn.truthful
      | ok error =>
        cases error with
        | none => exact truthful_started hn (hup rfl)
        | some e => exact hn.truthful

theorem truthful_createWallet (lib : Lib) (h : Idle m) :
    Ends (Running.createWallet lib) m fun _ n => Truthful n := by
  unfold Running.createWallet
  rw [ends_bind]
  refine ends_mono (ends_bringingCall true h fun w hw => brings_createWallet none hw) ?_
  rintro r n ⟨hn, hup⟩
  cases r with
  | error e => exact hn.truthful
  | ok error =>
    cases error with
    | none => exact truthful_started hn (hup rfl)
    | some e => exact hn.truthful

theorem unshaken_secrets (c : Cocoa) (s : Secrets) :
    unshaken.rel c { c with java := { c.java with secrets := s } } := ⟨rfl, rfl⟩

/-- The method with a password sets `isRunning` itself. -/
theorem ends_createWithPassword (lib : Lib) (password : Option NSData) (hv : Vacant c.java)
    (hs : c.isRunning = false) :
    Ends (createWalletWithPassword lib password) c fun r d => Contained d.java ∧
      (d.isRunning = true ↔ r = .ok none) ∧ (r = .ok none → Up d.java) := by
  have hfailed {e : NSException} {d : Cocoa} (hd : Contained d.java) (hstill : d.isRunning = false) :
      Contained d.java ∧ (d.isRunning = true ↔ (.error e : Except NSException (Option NSError)) = .ok none) ∧
        ((.error e : Except NSException (Option NSError)) = .ok none → Up d.java) :=
    ⟨hd, iff_of_false (by simp [hstill]) nofun, nofun⟩
  unfold createWalletWithPassword
  refine ends_bind_of_moves (moves_jCharArray unshaken_secrets password) (fun array d hd => ?_)
    fun e d hd => hfailed (hv.along hd.2).contained (hd.1.trans hs)
  rw [ends_bind]
  refine ends_mono (ends_bringingMethod true (hv.along hd.2) fun w hw => brings_createWallet array hw) ?_
  rintro r u ⟨hsame, hcontained, hup⟩
  have hstill := hsame.trans (hd.1.trans hs)
  cases r with
  | error e => exact hfailed hcontained hstill
  | ok error =>
    dsimp only
    refine ends_bind_of_moves (moves_zeroCharArray unshaken_secrets array _) (fun _ v hv => ?_)
      fun e v hv => hfailed (hcontained.along hv.2) (hv.1.trans hstill)
    cases error with
    | none => exact ⟨hcontained.along hv.2, iff_of_true rfl rfl, fun _ => (hup rfl).along hv.2⟩
    | some e =>
      have hquiet : v.isRunning = false := hv.1.trans hstill
      exact ⟨hcontained.along hv.2, iff_of_false (fun hr => Bool.false_ne_true (hquiet.symm.trans hr)) nofun,
        nofun⟩

theorem truthful_createWalletWithPassword (lib : Lib) (password : Option NSData) (h : Idle m) :
    Ends (Running.createWalletWithPassword lib password) m fun _ n => Truthful n := by
  unfold Running.createWalletWithPassword onCocoa
  rw [ends_bind, ends_within]
  refine ends_mono (ends_createWithPassword lib password h.vacant h.still) ?_
  rintro r d ⟨hcontained, hruns, hup⟩
  have hstopped (hr : r ≠ .ok none) : Truthful { m with cocoa := d } := by
    have hstill : d.isRunning = false := Bool.eq_false_iff.mpr (mt hruns.mp hr)
    exact Unstarted.truthful ⟨hcontained, hstill, h.told⟩
  cases r with
  | error e => exact hstopped nofun
  | ok error =>
    cases error with
    | none =>
      have hrunning : d.isRunning = true := hruns.mpr rfl
      have htold : Announces (m.notices ++ [.isRunning true, .started, .walletAddress]) d.isRunning := by
        rw [hrunning]
        exact told_started m.notices
      exact ⟨hcontained, fun _ => hup rfl, htold⟩
    | some e => exact hstopped nofun

/-! ### Stopping, and the rest -/

theorem truthful_stop (lib : Lib) (h : Truthful m) (hok : outcome (Running.stop lib m) = .ok ()) :
    Truthful (after (Running.stop lib m)) := by
  have hends : Ends (Running.stop lib) m fun r n => r = .ok () → Truthful n := by
    unfold Running.stop onCocoa
    rw [ends_bind, ends_modify]
    dsimp only
    rw [ends_bind, ends_within]
    have hcontained : Contained { m.cocoa.java with natives := [], activity := 0 } :=
      Contained.along (w := m.cocoa.java) rfl h.contained
    refine ends_mono (ends_javaCall false (ends_onBehalf (halts_stop hcontained))) ?_
    rintro r d ⟨-, ended, ⟨hv, -⟩, -⟩
    cases r with
    | error e => exact nofun
    | ok _ => exact fun _ => ⟨hv, nofun, told_stopped m.notices⟩
  exact hends hok

theorem truthful_resetBlockchain (lib : Lib) (wantsError : Bool) (h : Truthful m)
    (hok : outcome (Running.resetBlockchain lib wantsError m) = .ok none) :
    Truthful (after (Running.resetBlockchain lib wantsError m)) := by
  have hends : Ends (Running.resetBlockchain lib wantsError) m fun r n => r = .ok none → Truthful n := by
    unfold Running.resetBlockchain onCocoa
    rw [ends_within]
    have hcontained : Contained { m.cocoa.java with natives := [], activity := 0 } :=
      Contained.along (w := m.cocoa.java) rfl h.contained
    refine ends_mono (ends_javaCall wantsError (ends_onBehalf (brings_resetBlockchain hcontained))) ?_
    rintro r d ⟨hsame, ended, ⟨hv, hup⟩, hcalled⟩ rfl
    cases hcalled with
    | returned he =>
      refine ⟨hv, fun _ => hup he, ?_⟩
      have htold := h.told
      rw [← hsame] at htold
      exact htold
  exact hends hok

/-- What leaves the network layer alone leaves what is said of it true. -/
theorem truthful_of_moves {α : Type} {code : ObjC α} {f : α → Managing (Option NSError)}
    (h : Truthful m) (hm : Moves unshaken code) (hf : ∀ a n, after (f a n) = n) :
    Truthful (after ((onCocoa code >>= f) m)) := by
  have hends : Ends (onCocoa code >>= f) m fun _ n => Truthful n := by
    rw [ends_bind]
    refine ends_mono (ends_onCocoa_of_moves hm) ?_
    rintro r n ⟨c, rfl, hc⟩
    cases r with
    | error e => exact h.along hc
    | ok a =>
      have hn : after (f a { m with cocoa := c }) = { m with cocoa := c } := hf a _
      have hkept : Truthful (after (f a { m with cocoa := c })) := hn.symm ▸ h.along hc
      exact hkept
  exact hends

theorem truthful_manage (m : Running) (event : RunningEvent) (h : Truthful m) (hok : Disciplined m event) :
    Truthful (manage m event) := by
  have hstarting {code : Managing (Option NSError)} (hcode : Ends code m fun _ n => Truthful n) :
      Truthful (after (code m)) := hcode
  cases event with
  | setDataURL path => exact ⟨h.contained, h.up, h.told⟩
  | setTestingNetwork testing => exact ⟨h.contained, h.up, h.told⟩
  | start lib wantsError =>
    refine hstarting ?_
    unfold RunningEvent.code
    rw [ends_bind]
    refine ends_mono (truthful_start lib wantsError (idle_of_truthful h hok)) fun r n hn => ?_
    cases r <;> exact hn
  | createWallet lib => exact hstarting (truthful_createWallet lib (idle_of_truthful h hok))
  | createWalletWithPassword lib password =>
    exact hstarting (truthful_createWalletWithPassword lib password (idle_of_truthful h hok))
  | stop lib =>
    have hcode : manage m (.stop lib) = after (Running.stop lib m) := by
      have hends : Ends (RunningEvent.code (.stop lib)) m fun _ n => n = after (Running.stop lib m) := by
        unfold RunningEvent.code
        rw [ends_bind]
        have hstop : Ends (Running.stop lib) m fun _ n => n = after (Running.stop lib m) := rfl
        refine ends_mono hstop fun r n hn => ?_
        cases r <;> exact hn
      exact hends
    rw [hcode]
    exact truthful_stop lib h hok
  | resetBlockchain lib wantsError => exact truthful_resetBlockchain lib wantsError h hok
  | deleteBlockchainDataFile lib wantsError =>
    have hends : Ends (Running.deleteBlockchainDataFile lib wantsError) m fun _ n => Truthful n := by
      refine ends_mono (ends_onCocoa_of_moves (moves_bearing bearing_chainFile)) ?_
      rintro r n ⟨c, rfl, hc⟩
      exact h.along hc
    exact hends
  | java label hl =>
    have hb : label.bringsUp = false := by
      cases label <;> first | exact hl | rfl
    have hs : ∀ lib, label ≠ .stop lib := by
      rintro lib rfl
      cases hl
    have hrun : Moves unshaken (runJava label.code) := by
      intro c
      have hran : after (runJava label.code c) = c.ran label.code := (ends_runJava (c := c) label.code).2
      rw [hran]
      exact unshaken_ran (bearing_label hb hs) c
    exact truthful_of_moves h hrun fun _ _ => rfl

/-- Over every run in which the manager is started only while it holds nothing, and stopped and reset with
    success: `isRunning` and the last notification say that it runs only if its peer group runs, for its
    wallet and over an open block store. -/
theorem running_truthful (files : Files) (exceptionHandler : Bool) (dataURL : String)
    (events : List RunningEvent)
    (hok : Meets manage Disciplined (.initial files exceptionHandler dataURL) events) :
    Truthful (run manage (.initial files exceptionHandler dataURL) events) :=
  inv_meets truthful_manage _ events
    ⟨contained_initial files, nofun, ⟨rfl, rfl⟩⟩ hok

/-- There is no wallet yet: one is made, the chain reset, the manager stopped and started again. -/
def startedTwice : List RunningEvent :=
  [.start .fair true, .createWalletWithPassword .fair (some [112]), .resetBlockchain .fair true, .stop .fair,
    .start .fair true]

theorem running_truthful_twice :
    let m := run manage (.initial .none true "data") startedTwice
    Truthful m ∧ m.cocoa.isRunning = true ∧ m.balanceChecker = false := by
  have htruthful := running_truthful .none true "data" startedTwice (by decide +kernel)
  exact ⟨htruthful, by decide +kernel, by decide +kernel⟩

/-- A reset that cannot open the store again: nothing runs any more, and the manager says that it does. -/
example :
    let lib := { Lib.fair with
      fails := fun site => if site = .openBlockStore then some nullPointerException else none }
    let m := run manage (.initial .none true "data")
      [.start .fair true, .createWallet .fair, .resetBlockchain lib true]
    m.cocoa.isRunning = true ∧ m.cocoa.java.peerGroup = none := by
  decide +kernel

end BitcoinKit
