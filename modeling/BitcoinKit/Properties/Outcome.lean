import BitcoinKit.Java.Step

/-! What is reported of a payment agrees with what was done to the wallet. Each call is followed through
    the ledger by its number; it goes from one standing to the next:

        unmade ─▶ refused
               ─▶ submitted ─▶ failed | dropped | settled | lost      (payment URL)
               ─▶ paid ─▶ settled                                     (no payment URL)

    Where the code leaves this picture (it throws or reports a failure after the commit) is what the
    condition of the main theorem excludes. -/

namespace BitcoinKit
open Schemes

/-- The entries of a log that carry `call`. -/
def entries {α : Type} (call : Nat) (log : List (Nat × α)) : List α :=
  (log.filter fun entry => entry.1 = call).map Prod.snd

section Entries

variable {α : Type} {call n : Nat} {log : List (Nat × α)} {a : α}

theorem entries_append_ne (h : n ≠ call) : entries call (log ++ [(n, a)]) = entries call log := by
  simp [entries, h]

theorem entries_append_self : entries call (log ++ [(call, a)]) = entries call log ++ [a] := by
  simp [entries]

end Entries

/-- What the ledger has of one call. -/
structure CallRecord where
  pending : List Pending
  commits : List Transaction
  removals : List Int32
  reports : List NativeCall
  threw : Bool

def Ledger.record (L : Ledger) (call : Nat) : CallRecord where
  pending := L.pending.filter fun future => future.call = call
  commits := entries call L.commits
  removals := entries call L.removals
  reports := entries call L.reports
  threw := L.threw.contains call

/-- The session that the `call`-th payment of a run asked to pay. -/
def askedSession (ls : List Label) (call : Nat) : Option Int32 :=
  (ls.filterMap Label.paidSession)[call - 1]?

/-- The standings of a call whose outcome is told truthfully, with the sessions of all calls so far. -/
inductive Standing (call : Nat) (asked : List Int32) : CallRecord → Prop
  | unmade : asked.length < call → Standing call asked ⟨[], [], [], [], false⟩
  | refused : call ≤ asked.length → Standing call asked ⟨[], [], [], [], true⟩
  | submitted (sessionId : Int32) (tx : Transaction) (callbackId : Int32) :
      asked[call - 1]? = some sessionId →
      Standing call asked ⟨[.ack sessionId tx callbackId call], [], [], [], false⟩
  | failed (callbackId : Int32) (e : Throwable) : call ≤ asked.length →
      Standing call asked ⟨[], [], [], [.onPaymentRequestProcessingFailed callbackId e], false⟩
  | dropped : call ≤ asked.length → Standing call asked ⟨[], [], [], [], false⟩
  | paid (sessionId : Int32) (tx : Transaction) (callbackId : Int32) :
      asked[call - 1]? = some sessionId →
      Standing call asked ⟨[.broadcast sessionId tx callbackId call], [tx], [], [], false⟩
  | lost (sessionId : Int32) (tx : Transaction) : asked[call - 1]? = some sessionId →
      Standing call asked ⟨[], [tx], [sessionId], [], false⟩
  | settled (sessionId : Int32) (tx : Transaction) (callbackId : Int32) (details : JSONObject) :
      asked[call - 1]? = some sessionId → Standing call asked
        ⟨[], [tx], [sessionId], [.onPaymentRequestProcessed callbackId tx.hash details], false⟩

/-- A throw or a reported failure means no commit and no removal; a reported success, one of each: the
    commit of the transaction reported, the removal of the session asked for. -/
def OutcomeAgrees (asked : Option Int32) (r : CallRecord) : Prop :=
  ((r.threw = true ∨ ∃ callbackId e, .onPaymentRequestProcessingFailed callbackId e ∈ r.reports) →
    r.commits = [] ∧ r.removals = []) ∧
  ∀ callbackId txid details, .onPaymentRequestProcessed callbackId txid details ∈ r.reports →
    ∃ tx sessionId, r.commits = [tx] ∧ tx.hash = txid ∧ r.removals = [sessionId] ∧ asked = some sessionId

theorem standing_agrees {call : Nat} {asked : List Int32} {r : CallRecord} (h : Standing call asked r) :
    OutcomeAgrees asked[call - 1]? r := by
  cases h with
  | settled sessionId tx callbackId details hasked =>
    refine ⟨by simp, fun callbackId txid details hreport => ?_⟩
    cases List.mem_singleton.mp hreport
    exact ⟨tx, sessionId, rfl, rfl, rfl, hasked⟩
  | _ => exact ⟨by simp, by simp⟩

/-- A call with a session has been made. -/
theorem call_le {call : Nat} {asked : List Int32} {sessionId : Int32} (h : asked[call - 1]? = some sessionId) :
    call ≤ asked.length := by
  obtain ⟨hlt, -⟩ := List.getElem?_eq_some_iff.mp h
  omega

/-! ### Completions and their futures -/

theorem filter_eraseIdx {α : Type} {p : α → Bool} {xs : List α} {index : Nat} {a : α}
    (h : xs[index]? = some a) : ∃ ys zs, xs.filter p = ys ++ [a].filter p ++ zs ∧
      (xs.eraseIdx index).filter p = ys ++ zs := by
  obtain ⟨hlt, rfl⟩ := List.getElem?_eq_some_iff.mp h
  refine ⟨(xs.take index).filter p, (xs.drop (index + 1)).filter p, ?_, ?_⟩
  · rw [← List.filter_append, ← List.filter_append, List.append_assoc, List.singleton_append,
      List.getElem_cons_drop, List.take_append_drop]
  · rw [List.eraseIdx_eq_take_drop_succ, List.filter_append]

/-- The future a call waits for is the only one with its number. -/
theorem record_completed {L : Ledger} {index : Nat} {future : Pending} {call : Nat}
    (h : L.pending[index]? = some future) (hc : future.call ≠ call) :
    Ledger.record { L with pending := L.pending.eraseIdx index } call = L.record call := by
  obtain ⟨ys, zs, hall, herase⟩ := filter_eraseIdx (p := fun f => decide (f.call = call)) h
  have hnone : [future].filter (fun f => decide (f.call = call)) = [] := by simp [hc]
  rw [hnone, List.append_nil] at hall
  simp only [Ledger.record, herase, hall]

/-- A call that waits for one future waits for nothing once that is complete. -/
theorem pending_completed {L : Ledger} {index : Nat} {future : Pending} {call : Nat}
    (h : L.pending[index]? = some future) (hc : future.call = call)
    (hone : (L.record call).pending.length ≤ 1) :
    (L.record call).pending = [future] ∧
      (L.pending.eraseIdx index).filter (fun f => decide (f.call = call)) = [] := by
  obtain ⟨ys, zs, hall, herase⟩ := filter_eraseIdx (p := fun f => decide (f.call = call)) h
  have hself : [future].filter (fun f => decide (f.call = call)) = [future] := by simp [hc]
  rw [hself] at hall
  have hp : (L.record call).pending = ys ++ [future] ++ zs := hall
  have hlen : ys.length = 0 ∧ zs.length = 0 := by
    rw [hp, List.length_append, List.length_append, List.length_singleton] at hone
    omega
  rw [List.length_eq_zero_iff, List.length_eq_zero_iff] at hlen
  obtain ⟨rfl, rfl⟩ := hlen
  exact ⟨hp, herase⟩

theorem standing_waits {call : Nat} {asked : List Int32} {r : CallRecord} (h : Standing call asked r) :
    r.pending.length ≤ 1 := by
  cases h <;> simp

/-! ### The condition -/

/-- The library and the session id of a payment call. -/
def Label.payment : Label → Option (Lib × Int32)
  | .sendPaymentRequest lib sessionId _ _ => some (lib, sessionId)
  | _ => none

/-- The completion of a future: what its handler runs against, which future, and how it ended. -/
def Label.completion : Label → Option (Lib × Nat × Option Throwable)
  | .complete lib index failure => some (lib, index, failure)
  | _ => none

/-- A session without a payment URL is paid only with a peer group that takes the broadcast. -/
def BroadcastTaken (w : World) (l : Label) : Prop :=
  ∀ call ∈ l.payment, ∀ session ∈ w.paymentSessions call.2, session.paymentUrl = none →
    w.peerGroup ≠ none ∧ call.1.fails .broadcastTransaction = none

def Pending.isBroadcast : Pending → Bool
  | .broadcast _ _ _ _ => true
  | _ => false

def Pending.isAck : Pending → Bool
  | .ack _ _ _ _ => true
  | _ => false

/-- No broadcast of a payment fails, and no `JSONException` follows the commit of an acked one. -/
def CompletesSafely (w : World) (l : Label) : Prop :=
  ∀ done ∈ l.completion, ∀ future ∈ w.pending[done.2.1]?,
    (future.isBroadcast → done.2.2 = none) ∧
    (future.isAck → ∀ site ∈ [Site.broadcastTransaction, Site.ackJSON], ∀ e ∈ done.1.fails site,
      e.instanceOf jsonExceptionClass = false)

instance (w : World) (l : Label) : Decidable (BroadcastTaken w l) :=
  inferInstanceAs (Decidable (∀ call ∈ l.payment, ∀ session ∈ w.paymentSessions call.2,
    session.paymentUrl = none → w.peerGroup ≠ none ∧ call.1.fails .broadcastTransaction = none))

instance (w : World) (l : Label) : Decidable (CompletesSafely w l) :=
  inferInstanceAs (Decidable (∀ done ∈ l.completion, ∀ future ∈ w.pending[done.2.1]?,
    (future.isBroadcast → done.2.2 = none) ∧
    (future.isAck → ∀ site ∈ [Site.broadcastTransaction, Site.ackJSON], ∀ e ∈ done.1.fails site,
      e.instanceOf jsonExceptionClass = false)))

/-! ### One step -/

variable {lib : Lib} {B L : Ledger} {future : Pending} {failure : Option Throwable}
  {r : Except Throwable Unit} {call : Nat} {asked : List Int32}

/-- A completion leaves no trace with the calls it is not for. -/
theorem completing_other (hc : Completing lib B future failure r L) (h0 : 0 < call)
    (hne : future.call ≠ call) : L.record call = B.record call := by
  have hne0 : (0 : Nat) ≠ call := by omega
  cases hc with
  | sent tx => rfl
  | loaded hl => cases hl <;> simp [Ledger.record, entries_append_ne hne0]
  | loadFailed callbackId e => simp [Ledger.record, entries_append_ne hne0]
  | acked ha =>
    simp only [Pending.call] at hne
    cases ha <;> simp [Ledger.record, entries_append_ne hne]
  | ackFailed sessionId callbackId tx n e =>
    simp only [Pending.call] at hne
    simp [Ledger.record, entries_append_ne hne]
  | broadcast sessionId callbackId tx n =>
    simp only [Pending.call] at hne
    simp [Ledger.record, entries_append_ne hne]
  | broadcastFailed sessionId callbackId tx n e =>
    simp only [Pending.call] at hne
    simp [Ledger.record, entries_append_ne hne]

/-- The ack of a submitted payment settles it, fails it, drops it or loses it. -/
theorem completing_ack {sessionId callbackId : Int32} {tx : Transaction}
    (hc : Completing lib B (.ack sessionId tx callbackId call) failure r L)
    (hjson : ∀ site ∈ [Site.broadcastTransaction, Site.ackJSON], ∀ e ∈ lib.fails site,
      e.instanceOf jsonExceptionClass = false)
    (hasked : asked[call - 1]? = some sessionId) (hB : B.record call = ⟨[], [], [], [], false⟩) :
    Standing call asked (L.record call) := by
  simp only [Ledger.record, CallRecord.mk.injEq] at hB
  obtain ⟨hpend, hcommits, hremovals, hreports, hthrew⟩ := hB
  cases hc with
  | ackFailed _ _ _ _ e =>
    simp only [Ledger.record, entries_append_self, hpend, hcommits, hremovals, hreports, hthrew,
      List.nil_append]
    exact .failed callbackId e (call_le hasked)
  | acked ha =>
    cases ha with
    | dropped e =>
      simp only [Ledger.record, hpend, hcommits, hremovals, hreports, hthrew]
      exact .dropped (call_le hasked)
    | failed e =>
      simp only [Ledger.record, entries_append_self, hpend, hcommits, hremovals, hreports, hthrew,
        List.nil_append]
      exact .failed callbackId e (call_le hasked)
    | settled details =>
      simp only [Ledger.record, entries_append_self, hpend, hcommits, hremovals, hreports, hthrew,
        List.nil_append]
      exact .settled sessionId tx callbackId details hasked
    | lost e =>
      simp only [Ledger.record, entries_append_self, hpend, hcommits, hremovals, hreports, hthrew,
        List.nil_append]
      exact .lost sessionId tx hasked
    | misreported hj hs =>
      exfalso
      have hn := hs.elim (hjson _ (by simp) _) (hjson _ (by simp) _)
      rw [hj] at hn
      exact Bool.noConfusion hn

/-- The broadcast of a paid request settles it. -/
theorem completing_broadcast {sessionId callbackId : Int32} {tx : Transaction}
    (hc : Completing lib B (.broadcast sessionId tx callbackId call) none r L)
    (hasked : asked[call - 1]? = some sessionId) (hB : B.record call = ⟨[], [tx], [], [], false⟩) :
    Standing call asked (L.record call) := by
  simp only [Ledger.record, CallRecord.mk.injEq] at hB
  obtain ⟨hpend, hcommits, hremovals, hreports, hthrew⟩ := hB
  cases hc with
  | broadcast =>
    simp only [Ledger.record, entries_append_self, hpend, hcommits, hremovals, hreports, hthrew,
      List.nil_append]
    exact .settled sessionId tx callbackId [] hasked

theorem standing_completes {w : World} {index : Nat} (h0 : 0 < call)
    (hok : CompletesSafely w (.complete lib index failure))
    (hf : w.ledger.pending[index]? = some future)
    (hc : Completing lib { w.ledger with pending := w.ledger.pending.eraseIdx index } future failure
      r L)
    (h : Standing call asked (w.ledger.record call)) : Standing call asked (L.record call) := by
  obtain ⟨hbroadcast, hjson⟩ := hok _ rfl future hf
  by_cases hcall : future.call = call
  · obtain ⟨hone, hrest⟩ := pending_completed hf hcall (standing_waits h)
    have hB : Ledger.record { w.ledger with pending := w.ledger.pending.eraseIdx index } call =
        { w.ledger.record call with pending := [] } := by
      simp only [Ledger.record, hrest]
    revert hone hB
    cases hr : w.ledger.record call
    rw [hr] at h
    rintro hone hB
    cases h with
    | submitted sessionId tx callbackId hle =>
      cases hone
      exact completing_ack hc (hjson rfl) hle hB
    | paid sessionId tx callbackId hle =>
      cases hone
      obtain rfl := hbroadcast rfl
      exact completing_broadcast hc hle hB
    | _ => cases hone
  · rw [completing_other hc h0 hcall, record_completed hf hcall]
    exact h

/-- Another call being made moves no standing. -/
theorem standing_bump (sessionId : Int32) {c : CallRecord} (hne : asked.length + 1 ≠ call)
    (h : Standing call asked c) : Standing call (asked ++ [sessionId]) c := by
  have hlen : (asked ++ [sessionId]).length = asked.length + 1 := List.length_append
  have hkept {id : Int32} (hasked : asked[call - 1]? = some id) :
      (asked ++ [sessionId])[call - 1]? = some id := by
    obtain ⟨hlt, -⟩ := List.getElem?_eq_some_iff.mp hasked
    rw [List.getElem?_append_left hlt, hasked]
  cases h with
  | unmade hlt => exact .unmade (by omega)
  | refused hle => exact .refused (by omega)
  | submitted sessionId tx callbackId hasked => exact .submitted sessionId tx callbackId (hkept hasked)
  | failed callbackId e hle => exact .failed callbackId e (by omega)
  | dropped hle => exact .dropped (by omega)
  | paid sessionId tx callbackId hasked => exact .paid sessionId tx callbackId (hkept hasked)
  | lost sessionId tx hasked => exact .lost sessionId tx (hkept hasked)
  | settled sessionId tx callbackId details hasked =>
    exact .settled sessionId tx callbackId details (hkept hasked)

/-- A call whose number is not given yet has no record. -/
theorem standing_unmade {c : CallRecord} (hlt : asked.length < call) (h : Standing call asked c) :
    c = ⟨[], [], [], [], false⟩ := by
  have hnone {id : Int32} (hasked : asked[call - 1]? = some id) : False :=
    absurd (call_le hasked) (Nat.not_le_of_lt hlt)
  cases h with
  | unmade => rfl
  | refused hle => omega
  | failed callbackId e hle => omega
  | dropped hle => omega
  | _ => exact (hnone ‹_›).elim

/-- A new payment call is submitted or paid; the others stay where they are. -/
theorem standing_pays {stored : Option PaymentSession} {group : Option Nat}
    {sessionId callbackId : Int32}
    (hp : Paying lib stored group (B.calls + 1) sessionId callbackId
      { B with calls := B.calls + 1 } (.ok ()) L)
    (hcalls : B.calls = asked.length) (h : Standing call asked (B.record call)) :
    Standing call (asked ++ [sessionId]) (L.record call) := by
  have hlast : (asked ++ [sessionId])[B.calls + 1 - 1]? = some sessionId := by simp [hcalls]
  by_cases hcall : B.calls + 1 = call
  · have hB := standing_unmade (by omega) h
    simp only [Ledger.record, CallRecord.mk.injEq] at hB
    obtain ⟨hpend, hcommits, hremovals, hreports, hthrew⟩ := hB
    subst hcall
    cases hp with
    | @submitted session tx hs hu hb =>
      simp only [Ledger.record, List.filter_append, hpend, hcommits, hremovals, hreports, hthrew]
      simpa [Pending.call] using Standing.submitted sessionId tx callbackId hlast
    | @paid session tx hs hu hb =>
      simp only [Ledger.record, List.filter_append, entries_append_self, hpend, hcommits, hremovals,
        hreports, hthrew]
      simpa [Pending.call] using Standing.paid sessionId tx callbackId hlast
  · have hbump := standing_bump sessionId (hcalls ▸ hcall) h
    cases hp with
    | submitted hs hu hb => simpa [Ledger.record, Pending.call, hcall] using hbump
    | paid hs hu hb =>
      simpa [Ledger.record, Pending.call, entries_append_ne hcall, hcall] using hbump

/-- A payment call that throws has left nothing behind, if the broadcast could not fail it. -/
theorem standing_throws {stored : Option PaymentSession} {group : Option Nat}
    {sessionId callbackId : Int32} {e : Throwable}
    (hp : Paying lib stored group (B.calls + 1) sessionId callbackId
      { B with calls := B.calls + 1 } (.error e) L)
    (hok : ∀ session ∈ stored, session.paymentUrl = none →
      group ≠ none ∧ lib.fails .broadcastTransaction = none)
    (hcalls : B.calls = asked.length) (h : Standing call asked (B.record call)) :
    Standing call (asked ++ [sessionId])
      (Ledger.record { L with threw := L.threw ++ [B.calls + 1] } call) := by
  cases hp with
  | refused =>
    by_cases hcall : B.calls + 1 = call
    · have hB := standing_unmade (by omega) h
      simp only [Ledger.record, CallRecord.mk.injEq] at hB
      obtain ⟨hpend, hcommits, hremovals, hreports, hthrew⟩ := hB
      subst hcall
      simp only [Ledger.record, hpend, hcommits, hremovals, hreports]
      have hmade : B.calls + 1 ≤ (asked ++ [sessionId]).length := by simp [hcalls]
      simpa using Standing.refused hmade
    · have hbump := standing_bump sessionId (hcalls ▸ hcall) h
      simpa [Ledger.record, Ne.symm hcall] using hbump
  | stranded _ hs hu hb hg =>
    exfalso
    obtain ⟨hgroup, hfails⟩ := hok _ hs hu
    rcases hg with hg | hg
    · exact hgroup hg
    · rw [hfails] at hg
      exact Bool.noConfusion hg

theorem standing_step {w : World} {l : Label} (h0 : 0 < call)
    (hok : BroadcastTaken w l ∧ CompletesSafely w l) (hcalls : w.ledger.calls = asked.length)
    (h : Standing call asked (w.ledger.record call)) :
    Standing call (asked ++ l.paidSession.toList) ((step w l).ledger.record call) := by
  have hne0 : (0 : Nat) ≠ call := by omega
  have ht := turn_step w l
  generalize (step w l).ledger = L at ht ⊢
  have hsame : asked ++ ([] : List Int32) = asked := List.append_nil asked
  cases ht with
  | idle l hl =>
    rw [hl]
    exact hsame.symm ▸ h
  | sends hs =>
    refine hsame.symm ▸ ?_
    cases hs with
    | refused e => exact h
    | stranded e hb => simpa [Ledger.record, entries_append_ne hne0] using h
    | sent hb => simpa [Ledger.record, Pending.call, entries_append_ne hne0, hne0] using h
  | opens lib url callbackId =>
    refine hsame.symm ▸ ?_
    have hpend : (w.pending ++ [Pending.session callbackId]).filter (fun f => decide (f.call = call))
        = w.pending.filter fun f => decide (f.call = call) := by
      simp [Pending.call, hne0]
    simp only [Ledger.record, hpend]
    exact h
  | loads hl =>
    refine hsame.symm ▸ ?_
    cases hl with
    | refused e => exact h
    | loaded sessionId details => simpa [Ledger.record, entries_append_ne hne0] using h
    | loadFailed e => simpa [Ledger.record, entries_append_ne hne0] using h
  | pays hp => exact standing_pays (B := w.ledger) hp hcalls h
  | throws hp => exact standing_throws (B := w.ledger) hp (hok.1 _ rfl) hcalls h
  | completes hf hc => exact hsame.symm ▸ standing_completes h0 hok.2 hf hc h

/-- In every run in which broadcasts are taken and completions end safely, what is thrown or reported
    of a payment call agrees with the wallet and the sessions. -/
theorem outcome_agrees (files : Files) (ls : List Label)
    (hb : Meets step BroadcastTaken (World.initial files) ls)
    (hc : Meets step CompletesSafely (World.initial files) ls) :
    ∀ call, 0 < call →
      OutcomeAgrees (askedSession ls call) ((run step (World.initial files) ls).ledger.record call) := by
  intro call h0
  have hcounted (w : World) (asked : List Int32) (l : Label) (h : w.ledger.calls = asked.length) :
      (step w l).ledger.calls = (asked ++ l.paidSession.toList).length := by
    rw [List.length_append, ← h]
    exact turn_calls (turn_step w l)
  obtain ⟨-, hstand⟩ := inv_meets_log (f := Label.paidSession)
    (I := fun w asked => w.ledger.calls = asked.length ∧ Standing call asked (w.ledger.record call))
    (fun w asked l h hok => ⟨hcounted w asked l h.1, standing_step h0 hok h.1 h.2⟩) (World.initial files) [] ls
    ⟨rfl, .unmade h0⟩ (meets_and _ ls hb hc)
  exact standing_agrees hstand

/-- A request without a payment URL is paid, and its broadcast succeeds. -/
def paidDirectly : List Label :=
  requestLoaded .fair ++ [.sendPaymentRequest (.spending 10 1) 1 none 2, .complete .fair 0 none]

theorem outcome_agrees_paidDirectly :
    ((run step (World.initial .none) paidDirectly).ledger.record 1).reports =
        [.onPaymentRequestProcessed 2 10 []] ∧
      ∀ call, 0 < call → OutcomeAgrees (askedSession paidDirectly call)
        ((run step (World.initial .none) paidDirectly).ledger.record call) :=
  ⟨by decide +kernel,
    outcome_agrees .none paidDirectly (by decide +kernel) (by decide +kernel)⟩

/-- A request without a payment URL is paid after `stop` has dropped the peer group. -/
def paidWhileStopped : List Label :=
  requestLoaded .fair ++ [.stop .fair, .sendPaymentRequest (.spending 10 1) 1 none 2]

theorem paidWhileStopped_throws_committed :
    ¬ ∀ (files : Files) (ls : List Label) (call : Nat), 0 < call →
      OutcomeAgrees (askedSession ls call) ((run step (World.initial files) ls).ledger.record call) := by
  intro h
  have hthrew : ((run step (World.initial .none) paidWhileStopped).ledger.record 1).threw = true := by
    decide +kernel
  have hcommits : ((run step (World.initial .none) paidWhileStopped).ledger.record 1).commits ≠ [] := by
    decide +kernel
  exact hcommits ((h .none paidWhileStopped 1 Nat.one_pos).1 (.inl hthrew)).1

end BitcoinKit
