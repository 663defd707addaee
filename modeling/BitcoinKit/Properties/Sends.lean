import BitcoinKit.Cocoa.Outcomes
import BitcoinKit.Properties.Unblocked
import Mathlib.Data.List.Nodup

/-! Which send a completion block is called for. There is one flag and one slot for a block, shared by
    everything below; beside the manager runs a record of the `sendCoins` calls, in order, and of whose
    block is called with what:

        sendCoins n ─┬▶ refused: block n called with nil
                     └▶ Java ─▶ future ─▶ main queue ─▶ [ block in the slot called ]─▶ endSending

    Anything may happen while a block of the application runs, other blocks of the main queue apart, so
    the call of a block and what comes after it are two moments. A refused send has nothing left to do
    when it has called its block, so what that block does comes after it. -/

namespace BitcoinKit
open Schemes

/-- What the completion block is called with. -/
def MainQueueBlock.hash : MainQueueBlock → Option Sha256Hash
  | .onTransactionSuccess txid => some txid
  | .onTransactionFailed => none

/-- The next block of the main queue, up to the point where the completion block has been called. -/
def callNext : ObjC Unit := do
  let c ← get
  match c.mainQueue with
  | [] => pure ()
  | block :: blocks =>
    modify fun c => { c with mainQueue := blocks }
    let c ← get
    callCompletion c.sendCompletionBlock block.hash

/-- A `sendCoins` call: its block, the error the bridge set, and the transaction it committed. -/
structure Send where
  completion : Option Block
  error : Option NSError
  tx : Option Transaction
  deriving DecidableEq

/-- The manager and the record. `slot` is the send that set the flag, `running` says that a block of the
    main queue has called a completion block and is not over. -/
structure Outbox where
  cocoa : Cocoa
  running : Bool
  sends : List Send
  slot : Option Nat
  called : List (Nat × Option Sha256Hash)

def Outbox.initial (files : Files) (handler : Bool) : Outbox :=
  ⟨Cocoa.initial files handler, false, [], none, []⟩

inductive Moment where
  | event (event : Event) (h : event.isMainQueue = false)
  | blockStarts
  | blockEnds

/-- What is noted of a `sendCoins` call that was made in `c`, ended with `r` and left `d`. -/
def sendOf (c : Cocoa) (completion : Option Block) (r : Except NSException (Option NSError))
    (d : Cocoa) : Send where
  completion := completion
  error := match r with
    | .ok error => error
    | .error _ => none
  tx := (d.java.commits.drop c.java.commits.length).head?.map Prod.snd

/-- The send an event is. -/
def Event.made (c : Cocoa) : Event → List Send
  | .sendCoins lib coins recipient password completion =>
    let ended := sendCoinsToRecipient lib coins recipient password completion c
    [sendOf c completion (outcome ended) (after ended)]
  | _ => []

/-- The record after code that left `d`, and that calls no block but that of `caller`. -/
def Outbox.note (o : Outbox) (d : Cocoa) (made : List Send) (caller : Option Nat) : Outbox where
  cocoa := d
  running := o.running
  sends := o.sends ++ made
  slot := if d.sending then (if o.cocoa.sending then o.slot else some o.sends.length) else none
  called := o.called ++ caller.toList.flatMap fun n =>
    (d.completions.drop o.cocoa.completions.length).map fun call => (n, call.2)

def Outbox.step (o : Outbox) : Moment → Outbox
  | .event event _ => o.note (happen o.cocoa event) (event.made o.cocoa) (some o.sends.length)
  | .blockStarts =>
    match o.running, o.cocoa.mainQueue with
    | false, _ :: _ => { o.note (after (callNext o.cocoa)) [] o.slot with running := true }
    | _, _ => o
  | .blockEnds =>
    if o.running then { o.note (after (endSending o.cocoa)) [] none with running := false } else o

/-- The manager when the next block has called the completion block, if there is one. -/
def Cocoa.next (c : Cocoa) (block : MainQueueBlock) (blocks : List MainQueueBlock) : Cocoa :=
  { c with
    mainQueue := blocks
    completions := c.completions ++ c.sendCompletionBlock.toList.map fun b => (b, block.hash) }

theorem ends_callCompletion {c : Cocoa} (completion : Option Block) (hash : Option Sha256Hash) :
    Ends (callCompletion completion hash) c fun r d => r = .ok () ∧
      d = { c with completions := c.completions ++ completion.toList.map fun b => (b, hash) } := by
  cases completion with
  | none => simp [callCompletion]
  | some block => exact ⟨rfl, rfl⟩

theorem after_callNext {c : Cocoa} {block : MainQueueBlock} {blocks : List MainQueueBlock}
    (hq : c.mainQueue = block :: blocks) : after (callNext c) = c.next block blocks := by
  have h : Ends callNext c fun _ d => d = c.next block blocks := by
    unfold callNext
    rw [ends_bind, ends_get]
    dsimp only
    rw [hq]
    dsimp only
    rw [ends_bind, ends_modify]
    dsimp only
    rw [ends_bind, ends_get]
    exact (ends_callCompletion (c := { c with mainQueue := blocks }) _ _).2
  exact h

theorem step_blockStarts {o : Outbox} {block : MainQueueBlock} {blocks : List MainQueueBlock}
    (hr : o.running = false) (hq : o.cocoa.mainQueue = block :: blocks) :
    o.step .blockStarts = { o.note (o.cocoa.next block blocks) [] o.slot with running := true } := by
  unfold Outbox.step
  dsimp only
  rw [hr, hq]
  dsimp only
  rw [after_callNext hq]

theorem ends_blockRun {c : Cocoa} (block : MainQueueBlock) (blocks : List MainQueueBlock) :
    Ends block.run { c with mainQueue := blocks } fun _ d =>
      d = after (endSending (c.next block blocks)) := by
  cases block with
  | onTransactionSuccess txid =>
    unfold MainQueueBlock.run
    rw [ends_bind, ends_get]
    dsimp only
    rw [ends_bind]
    refine ends_mono (ends_callCompletion _ _) fun r d ⟨hr, hd⟩ => ?_
    subst hr hd
    rfl
  | onTransactionFailed =>
    unfold MainQueueBlock.run
    rw [ends_bind, ends_get]
    dsimp only
    rw [ends_bind]
    refine ends_mono (ends_callCompletion _ _) fun r d ⟨hr, hd⟩ => ?_
    subst hr hd
    rfl

/-- A block of the main queue during which nothing else happens. -/
theorem step_block {o : Outbox} (hr : o.running = false) (hq : o.cocoa.mainQueue ≠ []) :
    (run Outbox.step o [.blockStarts, .blockEnds]).cocoa = happen o.cocoa .mainQueue := by
  cases hblocks : o.cocoa.mainQueue with
  | nil => exact absurd hblocks hq
  | cons block blocks =>
    have h : Ends Event.mainQueue.code o.cocoa fun _ d =>
        d = after (endSending (o.cocoa.next block blocks)) := by
      unfold Event.code
      rw [ends_bind, ends_get]
      dsimp only
      rw [hblocks]
      dsimp only
      rw [ends_bind, ends_modify]
      exact ends_blockRun block blocks
    rw [run_cons, step_blockStarts hr hblocks]
    exact h.symm

/-! ### One send -/

/-- What a send that is not refused leaves behind, by the way it ends. -/
inductive Tried (c : Cocoa) (completion : Option Block) :
    Except NSException (Option NSError) → Cocoa → Prop
  | sent {d : Cocoa} (tx : Transaction) : d.sending = true → d.sendCompletionBlock = completion →
      d.java.sent = c.java.sent ++ [tx] → d.java.commits = c.java.commits ++ [(0, tx)] →
      Tried c completion (.ok none) d
  | failed {d : Cocoa} (error : NSError) : d.sending = false → d.java.sent = c.java.sent →
      Tried c completion (.ok (some error)) d
  | raised {d : Cocoa} (exception : NSException) : d.sending = true →
      d.sendCompletionBlock = completion → d.java.sent = c.java.sent →
      Tried c completion (.error exception) d

theorem ends_refused {c : Cocoa} {lib : Lib} {coins : UInt64} {recipient : String}
    {password : Option NSData} {completion : Option Block} (hc : c.sending = true) :
    Ends (sendCoinsToRecipient lib coins recipient password completion) c fun r d => r = .ok none ∧
      d = { c with completions := c.completions ++ completion.toList.map fun b => (b, none) } := by
  unfold sendCoinsToRecipient
  rw [ends_bind, ends_get]
  dsimp only
  rw [if_pos hc, ends_bind]
  refine ends_mono (ends_callCompletion completion none) fun r d ⟨hr, hd⟩ => ?_
  rw [hr]
  exact ⟨rfl, hd⟩

theorem ends_tried {c : Cocoa} {lib : Lib} {coins : UInt64} {recipient : String}
    {password : Option NSData} {completion : Option Block} (hc : c.sending = false) :
    Ends (sendCoinsToRecipient lib coins recipient password completion) c fun r d =>
      d.completions = c.completions ∧ d.mainQueue = c.mainQueue ∧ Tried c completion r d := by
  unfold sendCoinsToRecipient
  rw [ends_bind, ends_get]
  dsimp only
  rw [if_neg (by simp [hc]), ends_bind, ends_modify]
  dsimp only
  rw [ends_bind, ends_jCharArray]
  dsimp only
  rw [ends_bind]
  refine ends_mono (ends_callVoidMethod true _) fun r d ⟨hr, hd⟩ => ?_
  have hledger : (c.withArrayFor password).java.ledger = c.java.ledger := by cases password <;> rfl
  obtain ⟨hs, hq⟩ := @sending_ran lib { c.withArrayFor password with
    sending := true, sendCompletionBlock := completion } (amountText coins) recipient
    (c.arrayFor password)
  obtain ⟨hflag, hblock, hcompletions⟩ : d.sending = true ∧ d.sendCompletionBlock = completion ∧
      d.completions = c.completions := by
    rw [hd, onlyAnswers_ran]
    exact ⟨rfl, rfl, rfl⟩
  have hqueue : d.mainQueue = c.mainQueue := hd ▸ hq
  have hended : Sending lib 0 { c.java.ledger with reports := [] }
      (javaSendCoins lib c coins recipient password) d.java.ledger := by
    rw [← hledger, hd]
    exact hs
  have hcalled : Called true (javaSendCoins lib c coins recipient password) r := hr
  clear hs hq hr hd
  generalize javaSendCoins lib c coins recipient password = ended at hended hcalled
  generalize hL : d.java.ledger = L at hended
  have hsent (L' : Ledger) (h : L = L') : d.java.sent = L'.pending.filterMap Pending.sentTx := by
    rw [← h, ← hL]
    rfl
  cases hcalled with
  | returned h =>
    subst h
    cases hended with
    | @sent tx hb =>
      dsimp only
      rw [ends_bind]
      refine ends_mono (ends_zeroCharArray _ _) fun r e ⟨hr, s, he⟩ => ?_
      subst hr he
      refine ⟨hcompletions, hqueue, .sent tx hflag hblock ?_ (congrArg Ledger.commits hL)⟩
      exact (hsent _ rfl).trans List.filterMap_append
  | @handedOver e h hover =>
    subst h
    have hsame : d.java.sent = c.java.sent := by
      cases hended with
      | refused => exact hsent _ rfl
      | stranded _ hb => exact hsent _ rfl
    dsimp only
    rw [ends_bind]
    refine ends_mono (ends_zeroCharArray _ _) fun r e' ⟨hr, s, he⟩ => ?_
    subst hr he
    exact ⟨hcompletions, hqueue, .failed _ rfl hsame⟩
  | @raised e x h hnot =>
    subst h
    have hsame : d.java.sent = c.java.sent := by
      cases hended with
      | refused => exact hsent _ rfl
      | stranded _ hb => exact hsent _ rfl
    exact ⟨hcompletions, hqueue, .raised x hflag hblock hsame⟩

/-- The sends in flight: the broadcast is not over, or its outcome is on the way. -/
def Outbox.inFlight (o : Outbox) : Nat :=
  o.cocoa.java.sent.length + o.cocoa.mainQueue.length + if o.running then 1 else 0

/-- Every block is called for the send it belongs to, at most once, and with the hash of its own
    transaction if with any; never when the send has set an error. -/
structure CalledRight (o : Outbox) : Prop where
  once : (o.called.map Prod.fst).Nodup
  own : ∀ n txid, (n, some txid) ∈ o.called →
    ∃ send tx, o.sends[n]? = some send ∧ send.tx = some tx ∧ tx.hash = txid
  unset : ∀ n hash, (n, hash) ∈ o.called → ∃ send, o.sends[n]? = some send ∧ send.error = none
  blocks : o.cocoa.completions.map (fun call => (some call.1, call.2)) =
    o.called.map fun call => (o.sends[call.1]?.bind Send.completion, call.2)

structure DeliveredRight (o : Outbox) : Prop extends CalledRight o where
  oneInFlight : o.inFlight ≤ 1

/-! ### The invariant -/

/-- Send number `n` has the flag: the block in the slot is its own, and what is in flight is of its
    transaction. -/
structure Holds (o : Outbox) (n : Nat) (send : Send) : Prop where
  made : o.sends[n]? = some send
  block : o.cocoa.sendCompletionBlock = send.completion
  accepted : send.error = none
  uncalled : o.running = false → n ∉ o.called.map Prod.fst
  future : ∀ tx ∈ o.cocoa.java.sent, send.tx = some tx
  queued : ∀ txid, .onTransactionSuccess txid ∈ o.cocoa.mainQueue →
    ∃ tx, send.tx = some tx ∧ tx.hash = txid

structure Outbox.Kept (o : Outbox) : Prop extends DeliveredRight o where
  held : o.cocoa.sending = true → ∃ n send, o.slot = some n ∧ Holds o n send
  free : o.cocoa.sending = false → o.inFlight = 0

variable {o : Outbox}

theorem outbox_initial (files : Files) (handler : Bool) : (Outbox.initial files handler).Kept where
  once := List.nodup_nil
  own _ _ h := absurd h List.not_mem_nil
  unset _ _ h := absurd h List.not_mem_nil
  blocks := rfl
  oneInFlight := Nat.zero_le 1
  held h := by cases h
  free _ := rfl

/-- A block that has been called is that of a send that has been made. -/
theorem CalledRight.called_lt (h : CalledRight o) {n : Nat} (hn : n ∈ o.called.map Prod.fst) :
    n < o.sends.length := by
  obtain ⟨⟨m, hash⟩, hmem, rfl⟩ := List.mem_map.mp hn
  obtain ⟨send, hs, -⟩ := h.unset m hash hmem
  exact (List.getElem?_eq_some_iff.mp hs).1

theorem getElem?_more {made : List Send} {n : Nat} {send : Send} (h : o.sends[n]? = some send) :
    (o.sends ++ made)[n]? = some send := by
  rw [List.getElem?_append_left (List.getElem?_eq_some_iff.mp h).1, h]

/-- More sends leave the blocks that have been called where they are. -/
theorem CalledRight.blocks_more (h : CalledRight o) (made : List Send) :
    o.cocoa.completions.map (fun call => (some call.1, call.2)) =
      o.called.map fun call => ((o.sends ++ made)[call.1]?.bind Send.completion, call.2) := by
  rw [h.blocks]
  refine List.map_congr_left fun call hc => ?_
  rw [List.getElem?_append_left (h.called_lt (List.mem_map_of_mem hc))]

/-- The slot stays with the send that has it, or goes to the send that is being made. -/
theorem slot_kept {d : Cocoa} {made : List Send} {caller : Option Nat} (hd : d.sending = true)
    (hc : o.cocoa.sending = true) : (o.note d made caller).slot = o.slot := by
  unfold Outbox.note
  dsimp only
  rw [if_pos hd, if_pos hc]

theorem slot_taken {d : Cocoa} {made : List Send} {caller : Option Nat} (hd : d.sending = true)
    (hc : o.cocoa.sending = false) : (o.note d made caller).slot = some o.sends.length := by
  unfold Outbox.note
  dsimp only
  rw [if_pos hd, if_neg (by simp [hc])]

/-- Code that calls no block: nothing is noted but the sends. -/
theorem note_silent {d : Cocoa} (made : List Send) (caller : Option Nat)
    (hc : d.completions = o.cocoa.completions) : (o.note d made caller).called = o.called := by
  have hnone : d.completions.drop o.cocoa.completions.length = [] := by rw [hc, List.drop_length]
  unfold Outbox.note
  dsimp only
  rw [hnone]
  cases caller <;> simp

/-- The record after code that calls no block. -/
theorem calledRight_silent (h : CalledRight o) {d : Cocoa} (made : List Send) (caller : Option Nat)
    (hc : d.completions = o.cocoa.completions) : CalledRight (o.note d made caller) := by
  have hcalled := note_silent made caller hc
  refine ⟨?_, fun n txid hm => ?_, fun n hash hm => ?_, ?_⟩
  · rw [hcalled]
    exact h.once
  · rw [hcalled] at hm
    obtain ⟨send, tx, hs, ht, hh⟩ := h.own n txid hm
    exact ⟨send, tx, getElem?_more hs, ht, hh⟩
  · rw [hcalled] at hm
    obtain ⟨send, hs, he⟩ := h.unset n hash hm
    exact ⟨send, getElem?_more hs, he⟩
  · rw [hcalled]
    change d.completions.map _ = _
    rw [hc]
    exact h.blocks_more made

theorem note_call {d : Cocoa} (made : List Send) {n : Nat} {block : Option Block}
    {hash : Option Sha256Hash}
    (hc : d.completions = o.cocoa.completions ++ block.toList.map fun b => (b, hash)) :
    (o.note d made (some n)).called = o.called ++ block.toList.map fun _ => (n, hash) := by
  unfold Outbox.note
  dsimp only
  rw [hc, List.drop_left, Option.toList_some, List.flatMap_singleton, List.map_map]
  rfl

/-- The record after the call of a block, if there is one, for send `n`. -/
theorem calledRight_call (h : CalledRight o) {d : Cocoa} {made : List Send} {n : Nat} {send : Send}
    {hash : Option Sha256Hash}
    (hc : d.completions = o.cocoa.completions ++ send.completion.toList.map fun b => (b, hash))
    (hn : n ∉ o.called.map Prod.fst) (hs : (o.sends ++ made)[n]? = some send) (he : send.error = none)
    (hh : ∀ txid, hash = some txid → ∃ tx, send.tx = some tx ∧ tx.hash = txid) :
    CalledRight (o.note d made (some n)) := by
  have hcalled := note_call (n := n) made hc
  refine ⟨?_, fun m txid hm => ?_, fun m hash' hm => ?_, ?_⟩
  · rw [hcalled, List.map_append, List.nodup_append]
    refine ⟨h.once, ?_, ?_⟩
    · cases send.completion <;> simp
    · rintro m hm m' hm' rfl
      obtain ⟨call, hcall, rfl⟩ := List.mem_map.mp hm'
      obtain ⟨b, -, rfl⟩ := List.mem_map.mp hcall
      exact hn hm
  · rw [hcalled] at hm
    rcases List.mem_append.mp hm with hm | hm
    · obtain ⟨send, tx, hs, ht, hh⟩ := h.own m txid hm
      exact ⟨send, tx, getElem?_more hs, ht, hh⟩
    · obtain ⟨b, -, hcall⟩ := List.mem_map.mp hm
      cases hcall
      obtain ⟨tx, ht, hh⟩ := hh txid rfl
      exact ⟨send, tx, hs, ht, hh⟩
  · rw [hcalled] at hm
    rcases List.mem_append.mp hm with hm | hm
    · obtain ⟨send, hs, he⟩ := h.unset m hash' hm
      exact ⟨send, getElem?_more hs, he⟩
    · obtain ⟨b, -, hcall⟩ := List.mem_map.mp hm
      cases hcall
      exact ⟨send, hs, he⟩
  · rw [hcalled]
    change d.completions.map _ = _
    rw [hc, List.map_append, List.map_append, h.blocks_more made]
    congr 1
    rw [List.map_map, List.map_map]
    refine List.map_congr_left fun b hb => ?_
    have hblock : send.completion = some b := by simpa using hb
    change (some b, hash) = ((o.sends ++ made)[n]?.bind Send.completion, hash)
    rw [hs, ← hblock]
    rfl

/-! ### Steps -/

theorem Outbox.Kept.queue_nil (h : o.Kept) (hr : o.running = true) :
    o.cocoa.java.sent = [] ∧ o.cocoa.mainQueue = [] := by
  have hone := h.oneInFlight
  rw [Outbox.inFlight, hr, if_pos rfl] at hone
  exact ⟨List.length_eq_zero_iff.mp (by omega), List.length_eq_zero_iff.mp (by omega)⟩

theorem kept_unsent (h : o.Kept) {event : Event} (hs : event.isSend = false)
    (hq : event.isMainQueue = false) : (o.step (.event event hq)).Kept := by
  have hkept := sendsKept_event (c := o.cocoa) hs hq
  have hmade : event.made o.cocoa = [] := by
    cases event with
    | sendCoins lib coins recipient password completion => cases hs
    | _ => rfl
  unfold Outbox.step
  dsimp only
  rw [hmade]
  generalize happen o.cocoa event = d at hkept
  have hflight : (o.note d [] (some o.sends.length)).inFlight = o.inFlight :=
    congrArg (· + if o.running then 1 else 0) hkept.conserved
  have hcalled := note_silent [] (some o.sends.length) hkept.completions
  refine ⟨⟨calledRight_silent h.toCalledRight _ _ hkept.completions, hflight ▸ h.oneInFlight⟩,
    fun hf => ?_, fun hf => ?_⟩
  · have hsending : o.cocoa.sending = true := hkept.sending ▸ hf
    obtain ⟨n, send, hslot, hholds⟩ := h.held hsending
    refine ⟨n, send, ?_, getElem?_more hholds.made, hkept.block.trans hholds.block, hholds.accepted,
      fun hr => hcalled ▸ hholds.uncalled hr, fun tx ht => hholds.future tx (hkept.sent tx ht),
      fun txid hmem => ?_⟩
    · exact (slot_kept hf hsending).trans hslot
    · rcases hkept.queued txid hmem with hmem | ⟨tx, ht, hhash⟩
      · exact hholds.queued txid hmem
      · exact ⟨tx, hholds.future tx ht, hhash⟩
  · exact hflight ▸ h.free (hkept.sending ▸ hf)

section Sending

variable {lib : Lib} {coins : UInt64} {recipient : String} {password : Option NSData}
  {completion : Option Block} {Q : Except NSException (Option NSError) → Cocoa → Prop}

/-- The step of a send, from what its code does. -/
theorem kept_send (h : ∀ r d, Q r d →
      (o.note d [sendOf o.cocoa completion r d] (some o.sends.length)).Kept)
    (hq : Ends (sendCoinsToRecipient lib coins recipient password completion) o.cocoa Q) :
    (o.step (.event (.sendCoins lib coins recipient password completion) rfl)).Kept := by
  have hd : Ends (Event.sendCoins lib coins recipient password completion).code o.cocoa
      fun _ d => d = after (sendCoinsToRecipient lib coins recipient password completion o.cocoa) := by
    unfold Event.code
    rw [ends_bind]
    have hsame : Ends (sendCoinsToRecipient lib coins recipient password completion) o.cocoa
      fun _ d => d = after (sendCoinsToRecipient lib coins recipient password completion o.cocoa) := rfl
    refine ends_mono hsame fun r d hd => ?_
    cases r <;> exact hd
  have hstep : o.step (.event (.sendCoins lib coins recipient password completion) rfl) =
      o.note (happen o.cocoa (.sendCoins lib coins recipient password completion))
        (Event.made o.cocoa (.sendCoins lib coins recipient password completion))
        (some o.sends.length) := rfl
  have hhappen : happen o.cocoa (.sendCoins lib coins recipient password completion) =
    after (sendCoinsToRecipient lib coins recipient password completion o.cocoa) := hd
  rw [hstep, hhappen]
  exact h _ _ hq

/-- A refused send: its block is called at once, and the send that has the flag keeps it. -/
theorem kept_refused (h : o.Kept) (hc : o.cocoa.sending = true) :
    (o.step (.event (.sendCoins lib coins recipient password completion) rfl)).Kept := by
  refine kept_send ?_ (ends_refused hc)
  rintro r d ⟨rfl, hd⟩
  obtain ⟨hsending, hblock, hjava, hqueue, hcompletions⟩ : d.sending = true ∧
      d.sendCompletionBlock = o.cocoa.sendCompletionBlock ∧ d.java = o.cocoa.java ∧
      d.mainQueue = o.cocoa.mainQueue ∧
      d.completions = o.cocoa.completions ++ completion.toList.map fun b => (b, none) := by
    rw [hd]
    exact ⟨hc, rfl, rfl, rfl, rfl⟩
  clear hd
  obtain ⟨n, send, hslot, hholds⟩ := h.held hc
  have hnew : o.sends.length ∉ o.called.map Prod.fst := fun hn =>
    Nat.lt_irrefl _ (h.toCalledRight.called_lt hn)
  have hflight (made : List Send) (caller : Option Nat) :
      (o.note d made caller).inFlight = o.inFlight := by
    rw [Outbox.inFlight, Outbox.inFlight, ← hjava, ← hqueue]
    rfl
  refine ⟨⟨?_, (hflight _ _).trans_le h.oneInFlight⟩, fun _ => ⟨n, send, ?_, getElem?_more hholds.made,
    hblock.trans hholds.block, hholds.accepted, fun hr hn => ?_, fun tx ht => ?_, fun txid hm => ?_⟩,
    fun hf => ?_⟩
  · have hmade : (o.sends ++ [sendOf o.cocoa completion (.ok none) d])[o.sends.length]? =
        some (sendOf o.cocoa completion (.ok none) d) := by
      rw [List.getElem?_append_right (Nat.le_refl _), Nat.sub_self]
      rfl
    exact calledRight_call h.toCalledRight hcompletions hnew hmade rfl fun _ he => by cases he
  · exact (slot_kept hsending hc).trans hslot
  · rw [note_call _ hcompletions, List.map_append] at hn
    rcases List.mem_append.mp hn with hn | hn
    · exact hholds.uncalled hr hn
    · -- only the refused send's own block was called
      have hlt := (List.getElem?_eq_some_iff.mp hholds.made).1
      obtain ⟨call, hcall, rfl⟩ := List.mem_map.mp hn
      obtain ⟨b, -, rfl⟩ := List.mem_map.mp hcall
      exact Nat.lt_irrefl _ hlt
  · exact hholds.future tx (hjava ▸ ht)
  · exact hholds.queued txid (hqueue ▸ hm)
  · have hoff : d.sending = false := hf
    rw [hsending] at hoff
    cases hoff

/-- A send that is not refused: nothing was in flight, and what is now is its own. -/
theorem kept_tried (h : o.Kept) (hc : o.cocoa.sending = false) :
    (o.step (.event (.sendCoins lib coins recipient password completion) rfl)).Kept := by
  refine kept_send ?_ (ends_tried hc)
  rintro r d ⟨hcompletions, hqueue, htried⟩
  have hzero := h.free hc
  rw [Outbox.inFlight] at hzero
  have hnosent : o.cocoa.java.sent = [] := List.length_eq_zero_iff.mp (by omega)
  have hnoqueue : d.mainQueue = [] := hqueue.trans (List.length_eq_zero_iff.mp (by omega))
  have hflight (made : List Send) (caller : Option Nat) :
      (o.note d made caller).inFlight = d.java.sent.length := by
    have hrunning : (if o.running then 1 else 0) = 0 := by omega
    change d.java.sent.length + d.mainQueue.length + (if o.running then 1 else 0) = _
    rw [hrunning, hnoqueue]
    rfl
  have hcalled := calledRight_silent h.toCalledRight [sendOf o.cocoa completion r d]
    (some o.sends.length) hcompletions
  -- the send takes the slot, and what is in flight is its own
  have hheld (hd : d.sending = true) (hblock : d.sendCompletionBlock = completion)
      (he : (sendOf o.cocoa completion r d).error = none)
      (hfuture : ∀ tx ∈ d.java.sent, (sendOf o.cocoa completion r d).tx = some tx) :
      ∃ n send, (o.note d [sendOf o.cocoa completion r d] (some o.sends.length)).slot = some n ∧
        Holds (o.note d [sendOf o.cocoa completion r d] (some o.sends.length)) n send := by
    refine ⟨_, sendOf o.cocoa completion r d, slot_taken hd hc, ?_, hblock, he, fun _ hn => ?_, hfuture,
      fun txid hm => ?_⟩
    · exact (List.getElem?_append_right (Nat.le_refl _)).trans (by rw [Nat.sub_self]; rfl)
    · rw [note_silent _ _ hcompletions] at hn
      exact Nat.lt_irrefl _ (h.toCalledRight.called_lt hn)
    · have hm' : MainQueueBlock.onTransactionSuccess txid ∈ d.mainQueue := hm
      rw [hnoqueue] at hm'
      exact absurd hm' List.not_mem_nil
  have hbusy (hd : d.sending = true) (hf : d.sending = false) {P : Prop} : P := by
    rw [hd] at hf
    cases hf
  cases htried with
  | sent tx hd hblock hsent hcommits =>
    rw [hnosent, List.nil_append] at hsent
    have htx : (sendOf o.cocoa completion (.ok none) d).tx = some tx := by
      unfold sendOf
      dsimp only
      rw [hcommits, List.drop_left]
      rfl
    refine ⟨⟨hcalled, ?_⟩, fun _ => hheld hd hblock rfl fun t ht => ?_, fun hf => hbusy hd hf⟩
    · rw [hflight, hsent]
      exact Nat.le_refl 1
    · rw [hsent] at ht
      rw [htx, List.mem_singleton.mp ht]
  | failed error hd hsent =>
    rw [hnosent] at hsent
    refine ⟨⟨hcalled, ?_⟩, fun hf => hbusy hf hd, fun _ => ?_⟩
    · rw [hflight, hsent]
      exact Nat.zero_le 1
    · rw [hflight, hsent]
      rfl
  | raised exception hd hblock hsent =>
    rw [hnosent] at hsent
    refine ⟨⟨hcalled, ?_⟩, fun _ => hheld hd hblock rfl fun t ht => ?_, fun hf => hbusy hd hf⟩
    · rw [hflight, hsent]
      exact Nat.zero_le 1
    · rw [hsent] at ht
      exact absurd ht List.not_mem_nil

end Sending

/-- The main queue runs its next block: what was in flight is over, and the block of its send called. -/
theorem kept_blockStarts (h : o.Kept) : (o.step .blockStarts).Kept := by
  cases hr : o.running with
  | true =>
    have hsame : o.step .blockStarts = o := by
      unfold Outbox.step
      dsimp only
      rw [hr]
    rw [hsame]
    exact h
  | false =>
    cases hq : o.cocoa.mainQueue with
    | nil =>
      have hsame : o.step .blockStarts = o := by
        unfold Outbox.step
        dsimp only
        rw [hr, hq]
      rw [hsame]
      exact h
    | cons block blocks =>
      rw [step_blockStarts hr hq]
      have hone := h.oneInFlight
      rw [Outbox.inFlight, hq, List.length_cons] at hone
      have hnosent : o.cocoa.java.sent = [] := List.length_eq_zero_iff.mp (by omega)
      have hnoblocks : blocks = [] := List.length_eq_zero_iff.mp (by omega)
      have hsending : o.cocoa.sending = true := by
        cases hs : o.cocoa.sending with
        | true => rfl
        | false =>
          have hzero := h.free hs
          rw [Outbox.inFlight, hq, List.length_cons] at hzero
          omega
      obtain ⟨n, send, hslot, hholds⟩ := h.held hsending
      have hcompletions : (o.cocoa.next block blocks).completions =
          o.cocoa.completions ++ send.completion.toList.map fun b => (b, block.hash) := by
        rw [← hholds.block]
        rfl
      have hright : CalledRight (o.note (o.cocoa.next block blocks) [] (some n)) := by
        refine calledRight_call h.toCalledRight hcompletions (hholds.uncalled hr)
          (getElem?_more hholds.made) hholds.accepted fun txid hhash => hholds.queued txid ?_
        rw [hq]
        cases block with
        | onTransactionSuccess txid' =>
          cases hhash
          exact List.mem_cons_self ..
        | onTransactionFailed => cases hhash
      rw [hslot]
      refine ⟨⟨⟨hright.once, hright.own, hright.unset, hright.blocks⟩, ?_⟩, fun _ => ⟨n, send, ?_,
        getElem?_more hholds.made, hholds.block, hholds.accepted, (fun hf => by cases hf),
        hholds.future, fun txid hm => ?_⟩, fun hf => ?_⟩
      · change o.cocoa.java.sent.length + blocks.length + 1 ≤ 1
        rw [hnosent, hnoblocks]
        exact Nat.le_refl 1
      · have hkept : (o.note (o.cocoa.next block blocks) [] (some n)).slot = o.slot :=
          slot_kept hsending hsending
        exact hkept.trans hslot
      · have hm' : MainQueueBlock.onTransactionSuccess txid ∈ blocks := hm
        rw [hnoblocks] at hm'
        exact absurd hm' List.not_mem_nil
      · have hoff : o.cocoa.sending = false := hf
        rw [hsending] at hoff
        cases hoff

/-- The block is over: the flag is reset, and nothing is in flight. -/
theorem kept_blockEnds (h : o.Kept) : (o.step .blockEnds).Kept := by
  unfold Outbox.step
  dsimp only
  cases hr : o.running with
  | false => exact h
  | true =>
    rw [if_pos rfl]
    obtain ⟨hsent, hqueue⟩ := h.queue_nil hr
    have hright : CalledRight (o.note (after (endSending o.cocoa)) [] none) :=
      calledRight_silent h.toCalledRight _ _ rfl
    have hzero : o.cocoa.java.sent.length + o.cocoa.mainQueue.length + 0 = 0 := by
      rw [hsent, hqueue]
      rfl
    exact ⟨⟨⟨hright.once, hright.own, hright.unset, hright.blocks⟩, hzero.trans_le (Nat.zero_le 1)⟩,
      (fun hf => by cases hf), fun _ => hzero⟩

theorem kept_moment (o : Outbox) (moment : Moment) (h : o.Kept) : (o.step moment).Kept := by
  cases moment with
  | event event hq =>
    cases event with
    | sendCoins lib coins recipient password completion =>
      cases hc : o.cocoa.sending with
      | true => exact kept_refused h hc
      | false => exact kept_tried h hc
    | sendPaymentRequest lib sessionId password callback => exact kept_unsent h rfl hq
    | openPaymentRequestFromFile lib filename callback => exact kept_unsent h rfl hq
    | openPaymentRequestFromURL lib URL callback => exact kept_unsent h rfl hq
    | java label hl => exact kept_unsent h rfl hq
    | mainQueue => cases hq
  | blockStarts => exact kept_blockStarts h
  | blockEnds => exact kept_blockEnds h

/-- In every state of every run the completion blocks are delivered to the right sends. -/
theorem sends_delivered_right (files : Files) (handler : Bool) (moments : List Moment) :
    DeliveredRight (run Outbox.step (Outbox.initial files handler) moments) :=
  (inv_run kept_moment _ moments (outbox_initial files handler)).toDeliveredRight

/-- A send from inside the completion block of another is refused, and its block called. -/
example : (run Outbox.step (Outbox.initial .none true)
    [.event (.java (.start .fair) rfl) rfl, .event (.java (.createWallet .fair (some [1])) rfl) rfl,
     .event (.sendCoins .fair 1 "address" (some [1]) (some 7)) rfl,
     .event (.java (.complete .fair 0 none) rfl) rfl, .blockStarts,
     .event (.sendCoins .fair 1 "address" (some [1]) (some 8)) rfl, .blockEnds]).called =
      [(0, some 1), (1, none)] := by decide +kernel

end BitcoinKit
