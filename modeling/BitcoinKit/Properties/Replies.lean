import BitcoinKit.Cocoa.Answers
import Mathlib.Data.List.Nodup

/-! Who answers whom. Beside the manager runs a record of what it was asked and by which request each
    native call and each future came about:

        request n ─▶ Java method ─┬▶ native calls            produced by n
                                  └▶ future, owned by n ─▶ native calls   produced by n

    The record knows nothing of callback numbers. A callback finds the request it was stored by although
    only the low half of its number makes the journey, as long as the numbers fit. -/

namespace BitcoinKit
open Schemes

/-- The reply a native call makes of its arguments. -/
def NativeCall.reply : NativeCall → Option Reply
  | .onPaymentRequestLoaded _ sessionId requestDetails =>
    some (.loaded sessionId (some requestDetails.toJson))
  | .onPaymentRequestLoadFailed _ error => some (.loadFailed (errorForJavaException error))
  | .onPaymentRequestProcessed _ txid ackDetails => some (.processed (some ackDetails.toJson) txid)
  | .onPaymentRequestProcessingFailed _ error => some (.processingFailed (errorForJavaException error))
  | _ => none

/-- The manager and the record: for each pending future the request that made it, and the native calls
    made for each request. Requests go by their place in `requests`. -/
structure Traced where
  cocoa : Cocoa
  owners : List (Option Nat)
  produced : List (Nat × NativeCall)

def Traced.initial (files : Files) (handler : Bool) : Traced := ⟨Cocoa.initial files handler, [], []⟩

def Event.isRequest : Event → Bool
  | .sendPaymentRequest _ _ _ _ => true
  | .openPaymentRequestFromFile _ _ _ => true
  | .openPaymentRequestFromURL _ _ _ => true
  | _ => false

/-- The request whose code an event runs, if it runs one's. -/
def Event.owner (t : Traced) : Event → Option Nat
  | .sendPaymentRequest _ _ _ _ => some t.cocoa.requests.length
  | .openPaymentRequestFromFile _ _ _ => some t.cocoa.requests.length
  | .openPaymentRequestFromURL _ _ _ => some t.cocoa.requests.length
  | .java (.complete _ index _) _ => t.owners[index]?.join
  | _ => none

/-- What an event leaves of a list that goes with the pending futures. -/
def Event.stays {α : Type} (pending : List α) : Event → List α
  | .java (.complete _ index _) _ => pending.eraseIdx index
  | _ => pending

/-- A step of the manager, and the record is kept. -/
def trace (t : Traced) (event : Event) : Traced :=
  let d := happen t.cocoa event
  let owner := event.owner t
  let stays := event.stays t.owners
  { cocoa := d
    owners := stays ++ List.replicate (d.java.pending.length - stays.length) owner
    produced := t.produced ++
      owner.toList.flatMap fun n => d.java.natives.map fun call => (n, call.2) }

/-- Every callback has its own number, is called at most once, and only with what a native call made for
    the request that stored it says. -/
structure RepliesMatched (t : Traced) : Prop where
  own : (t.cocoa.requests.map Request.callbackId).Nodup
  once : (t.cocoa.invocations.map Invocation.callbackId).Nodup
  matched : ∀ i ∈ t.cocoa.invocations, ∃ n r call, t.cocoa.requests[n]? = some r ∧
    r.callbackId = i.callbackId ∧ r.callback = i.callback ∧
    (n, call) ∈ t.produced ∧ call.reply = some i.reply

/-! ### What native methods do -/

/-- Callbacks are only taken out, and each that is called is called once, by one of `calls`. -/
structure Answers (calls : List (Nat × NativeCall)) (c d : Cocoa) : Prop where
  kept : ∀ k b, d.callbacks k = some b → c.callbacks k = some b
  called : ∃ new, d.invocations = c.invocations ++ new ∧ (new.map Invocation.callbackId).Nodup ∧
    ∀ i ∈ new, c.callbacks i.callbackId = some i.callback ∧ d.callbacks i.callbackId = none ∧
      ∃ call ∈ calls, call.2.answers = some i.callbackId ∧ call.2.reply = some i.reply

variable {calls : List (Nat × NativeCall)} {c d : Cocoa}

theorem answers_silent (hk : ∀ k b, d.callbacks k = some b → c.callbacks k = some b)
    (hi : d.invocations = c.invocations) : Answers calls c d :=
  ⟨hk, [], by rw [hi, List.append_nil], List.nodup_nil, fun _ h => absurd h List.not_mem_nil⟩

theorem Answers.trans {e : Cocoa} (h : Answers calls c d) (h' : Answers calls d e) :
    Answers calls c e := by
  obtain ⟨hk, new, hi, hnodup, hnew⟩ := h
  obtain ⟨hk', new', hi', hnodup', hnew'⟩ := h'
  have hgone {k : NSUInteger} (hd : d.callbacks k = none) : e.callbacks k = none := by
    cases he : e.callbacks k with
    | none => rfl
    | some b => rw [hk' k b he] at hd; cases hd
  refine ⟨fun k b he => hk k b (hk' k b he), new ++ new', by rw [hi', hi, List.append_assoc], ?_, ?_⟩
  · rw [List.map_append, List.nodup_append]
    refine ⟨hnodup, hnodup', ?_⟩
    rintro k hmem k' hmem' rfl
    obtain ⟨i, hi, rfl⟩ := List.mem_map.mp hmem
    obtain ⟨i', hi', hk'⟩ := List.mem_map.mp hmem'
    have hnone := (hnew i hi).2.1
    rw [← hk', (hnew' i' hi').1] at hnone
    cases hnone
  · intro i hi
    rcases List.mem_append.mp hi with hi | hi
    · obtain ⟨hc, hd, hcall⟩ := hnew i hi
      exact ⟨hc, hgone hd, hcall⟩
    · obtain ⟨hd, he, hcall⟩ := hnew' i hi
      exact ⟨hk _ _ hd, he, hcall⟩

def answeringBy (calls : List (Nat × NativeCall)) : Along Cocoa where
  rel := Answers calls
  refl _ := answers_silent (fun _ _ h => h) rfl
  trans := Answers.trans

/-- Taking a callback out. -/
theorem kept_retrieved {k : NSUInteger} {table : NSUInteger → Option Block} (j : NSUInteger) (b : Block)
    (h : Function.update table k none j = some b) : table j = some b := by
  by_cases hj : j = k
  · rw [hj, Function.update_self] at h
    cases h
  · rwa [Function.update_of_ne hj] at h

theorem answers_retrieving (k : NSUInteger) : Answers calls c (c.retrieving k) :=
  answers_silent kept_retrieved rfl

theorem answers_answering {k : NSUInteger} {reply : Reply} {call : Nat × NativeCall} (hc : call ∈ calls)
    (ha : call.2.answers = some k) (hr : call.2.reply = some reply) :
    Answers calls c (c.answering k reply) := by
  unfold Cocoa.answering
  cases hk : c.callbacks k with
  | none => exact answers_retrieving k
  | some callback =>
    refine ⟨kept_retrieved, [⟨k, callback, reply⟩], rfl, List.nodup_singleton k, fun i hi => ?_⟩
    rw [List.mem_singleton.mp hi]
    exact ⟨hk, Function.update_self .., call, hc, ha, hr⟩

theorem answers_callBack {k : NSUInteger} {reply : Reply} {call : Nat × NativeCall} (hc : call ∈ calls)
    (ha : call.2.answers = some k) (hr : call.2.reply = some reply) :
    Moves (answeringBy calls) (callBack k reply) := by
  intro c
  have h : Ends (callBack k reply) c fun _ d => Answers calls c d :=
    ends_mono (ends_callBack k reply) fun _ _ hd => hd ▸ answers_answering hc ha hr
  exact h

/-- Where the bridge raises over the details, the callback is taken out and nobody is called. -/
theorem answers_callBackWithDetails {k : NSUInteger} {details : JSONObject}
    (reply : Option Json → Reply) {call : Nat × NativeCall} (hc : call ∈ calls)
    (ha : call.2.answers = some k) (hr : call.2.reply = some (reply (some details.toJson))) :
    Moves (answeringBy calls) (callBackWithDetails details.jString k reply) := by
  intro c
  have h : Ends (callBackWithDetails details.jString k reply) c fun _ d => Answers calls c d := by
    refine ends_mono (ends_callBackWithDetails details k reply) fun _ d hd => ?_
    rw [hd]
    split
    · exact answers_answering hc ha hr
    · exact answers_retrieving k
  exact h

theorem answers_nativeMethod {call : Nat × NativeCall} (hc : call ∈ calls) :
    Moves (answeringBy calls) (nativeMethod call.2) := by
  have hsilent {f : Cocoa → Cocoa} (hk : ∀ c, (f c).callbacks = c.callbacks)
      (hi : ∀ c, (f c).invocations = c.invocations) (c : Cocoa) : Answers calls c (f c) :=
    answers_silent (fun k b h => by rwa [hk] at h) (hi c)
  obtain ⟨n, call⟩ := call
  cases call with
  | onTransactionChanged txid json => exact moves_pure _
  | onTransactionFailed => exact moves_modify (hsilent (fun _ => rfl) fun _ => rfl)
  | onTransactionSuccess txid => exact moves_modify (hsilent (fun _ => rfl) fun _ => rfl)
  | onBalanceChanged => exact moves_pure _
  | onException exception =>
    refine moves_bind ?_ fun _ => moves_pure _
    unfold handleJavaException
    refine moves_ite (moves_pure _) (moves_bind moves_get fun _ => moves_ite ?_ (moves_throw _))
    exact moves_bind (moves_modify (hsilent (fun _ => rfl) fun _ => rfl)) fun _ => moves_pure _
  | onPaymentRequestLoaded callbackId sessionId details =>
    exact answers_callBackWithDetails (.loaded sessionId) hc rfl rfl
  | onPaymentRequestLoadFailed callbackId error => exact answers_callBack hc rfl rfl
  | onPaymentRequestProcessed callbackId txid details =>
    exact answers_callBackWithDetails (.processed · txid) hc rfl rfl
  | onPaymentRequestProcessingFailed callbackId error => exact answers_callBack hc rfl rfl

theorem answers_receive {call : Nat × NativeCall} (hc : call ∈ calls) :
    Moves (answeringBy calls) (receive call.2) :=
  moves_tryCatch (answers_nativeMethod hc) fun _ => moves_modify fun _ =>
    answers_silent (fun _ _ h => h) rfl

theorem answers_receiveAll : ∀ {rest : List (Nat × NativeCall)}, rest ⊆ calls →
    Moves (answeringBy calls) (receiveAll rest)
  | [], _ => moves_pure _
  | _ :: _, h => moves_bind (answers_receive (h (List.mem_cons_self ..))) fun _ =>
      answers_receiveAll fun _ hm => h (List.mem_cons_of_mem _ hm)

/-- What a Java method that has been called made of the callbacks. -/
theorem answers_ran {α : Type} (method : Java α) :
    Answers (after (c.runOf method)).natives c (c.ran method) := by
  have h := answers_receiveAll (List.Subset.refl (after (c.runOf method)).natives) (c.called method)
  exact ⟨h.kept, h.called⟩

/-! ### The record -/

/-- The number of the request at place `n`. -/
def numberOf (n : Nat) : NSUInteger := .ofNat (n + 1)

theorem toNat_numberOf {n : Nat} (h : n + 1 < 2147483648) : (numberOf n).toNat = n + 1 := by
  rw [numberOf, UInt64.toNat_ofNat']
  exact Nat.mod_eq_of_lt (by omega)

theorem numberOf_inj {m n : Nat} (hm : m + 1 < 2147483648) (hn : n + 1 < 2147483648)
    (h : numberOf m = numberOf n) : m = n := by
  have htoNat := congrArg UInt64.toNat h
  rw [toNat_numberOf hm, toNat_numberOf hn] at htoNat
  omega

/-- The callbacks in the table are those of requests. -/
def StoredBy (requests : List Request) (table : NSUInteger → Option Block) : Prop :=
  ∀ k b, table k = some b → ∃ n : Nat, ∃ r : Request,
    requests[n]? = some r ∧ r.callbackId = k ∧ r.callback = b

/-- What keeps replies from being mixed up: requests are numbered in order, and every future answers to
    the number of its owner. -/
structure Traced.Kept (t : Traced) : Prop where
  numbered : ∀ n r, t.cocoa.requests[n]? = some r → r.callbackId = numberOf n
  next : t.cocoa.callbackId = .ofNat t.cocoa.requests.length
  slots : t.cocoa.java.ledger.slots = t.owners.map (Option.map numberOf)
  owned : ∀ n, some n ∈ t.owners → n < t.cocoa.requests.length
  stored : StoredBy t.cocoa.requests t.cocoa.callbacks
  used : ∀ i ∈ t.cocoa.invocations, t.cocoa.callbacks i.callbackId = none
  once : (t.cocoa.invocations.map Invocation.callbackId).Nodup
  matched : ∀ i ∈ t.cocoa.invocations, ∃ n r call, t.cocoa.requests[n]? = some r ∧
    r.callbackId = i.callbackId ∧ r.callback = i.callback ∧
    (n, call) ∈ t.produced ∧ call.reply = some i.reply

theorem kept_initial (files : Files) (handler : Bool) : (Traced.initial files handler).Kept where
  numbered n r h := by cases h
  next := rfl
  slots := rfl
  owned n h := absurd h List.not_mem_nil
  stored k b h := by cases h
  used i h := absurd h List.not_mem_nil
  once := List.nodup_nil
  matched i h := absurd h List.not_mem_nil

variable {t : Traced} {event : Event} {base : Cocoa}

theorem stays_subset {α : Type} (pending : List α) (event : Event) : event.stays pending ⊆ pending := by
  unfold Event.stays
  split
  · exact List.eraseIdx_subset
  · exact List.Subset.refl pending

/-- The request an event runs the code of has been entered when the event is over. -/
theorem owner_lt (h : t.Kept) {n : Nat} (ho : event.owner t = some n) :
    n < t.cocoa.requests.length + if event.isRequest then 1 else 0 := by
  unfold Event.owner at ho
  split at ho
  · cases ho
    exact Nat.lt_succ_self _
  · cases ho
    exact Nat.lt_succ_self _
  · cases ho
    exact Nat.lt_succ_self _
  · have hmem := List.mem_of_getElem? (Option.join_eq_some_iff.mp ho)
    exact Nat.lt_of_lt_of_le (h.owned n hmem) (Nat.le_add_right _ _)
  · cases ho

/-- What an event did, from `base`, the manager with the callback of a request stored. Only the request
    whose code it ran is answered, and future calls are left to that request. -/
structure Done (t : Traced) (event : Event) (base d : Cocoa) : Prop where
  answered : ∃ calls, Answers calls base d ∧ ∀ call ∈ calls, ∀ k, call.2.answers = some k →
    call ∈ d.java.natives ∧ ∃ n, event.owner t = some n ∧ numberOf n = k
  slots : ∃ slots, d.java.ledger.slots =
      (event.stays t.owners).map (Option.map numberOf) ++ slots ∧
    ∀ s ∈ slots, s = (event.owner t).map numberOf

/-- The owners of the futures that are pending after an event. -/
theorem Done.owners {d : Cocoa} (h : Done t event base d) :
    d.java.ledger.slots = (event.stays t.owners ++
      List.replicate (d.java.pending.length - (event.stays t.owners).length) (event.owner t)).map
        (Option.map numberOf) := by
  obtain ⟨slots, hs, hall⟩ := h.slots
  have hlen : d.java.pending.length = (event.stays t.owners).length + slots.length := by
    have hslots : d.java.ledger.slots.length = d.java.pending.length := List.length_map ..
    rw [← hslots, hs, List.length_append, List.length_map]
  rw [hlen, Nat.add_sub_cancel_left, List.map_append, List.map_replicate, hs]
  exact congrArg _ (List.eq_replicate_of_mem hall)

/-- The record is kept by an event that did what it should. -/
theorem kept_trace (h : t.Kept) (hd : Done t event base (happen t.cocoa event))
    (hsame : base.invocations = t.cocoa.invocations)
    (hunused : ∀ i ∈ t.cocoa.invocations, base.callbacks i.callbackId = none)
    (hstored : StoredBy (happen t.cocoa event).requests base.callbacks)
    (hgrow : t.cocoa.requests <+: (happen t.cocoa event).requests)
    (howner : ∀ n, event.owner t = some n → n < (happen t.cocoa event).requests.length)
    (hnumbered : ∀ n r, (happen t.cocoa event).requests[n]? = some r → r.callbackId = numberOf n)
    (hnext : (happen t.cocoa event).callbackId = .ofNat (happen t.cocoa event).requests.length)
    (hbound : (happen t.cocoa event).requests.length < 2147483648) : (trace t event).Kept := by
  obtain ⟨calls, ⟨hkept, new, hnew, hnodup, hcalled⟩, hcalls⟩ := hd.answered
  have hgone {k : NSUInteger} (hb : base.callbacks k = none) :
      (happen t.cocoa event).callbacks k = none := by
    cases hk : (happen t.cocoa event).callbacks k with
    | none => rfl
    | some b => rw [hkept k b hk] at hb; cases hb
  have hinvocations : (trace t event).cocoa.invocations = t.cocoa.invocations ++ new := by
    rw [← hsame]
    exact hnew
  refine ⟨hnumbered, hnext, hd.owners, fun n hn => ?_, fun k b hk => hstored k b (hkept k b hk),
    fun i hi => ?_, ?_, fun i hi => ?_⟩
  · rcases List.mem_append.mp hn with hn | hn
    · exact Nat.lt_of_lt_of_le (h.owned n (stays_subset _ _ hn)) hgrow.length_le
    · exact howner n (List.eq_of_mem_replicate hn).symm
  · rw [hinvocations] at hi
    rcases List.mem_append.mp hi with hi | hi
    · exact hgone (hunused i hi)
    · exact (hcalled i hi).2.1
  · rw [hinvocations, List.map_append, List.nodup_append]
    refine ⟨h.once, hnodup, ?_⟩
    rintro k hk k' hk' rfl
    obtain ⟨i, hi, rfl⟩ := List.mem_map.mp hk
    obtain ⟨i', hi', hid⟩ := List.mem_map.mp hk'
    have hnone := hunused i hi
    rw [← hid, (hcalled i' hi').1] at hnone
    cases hnone
  · rw [hinvocations] at hi
    rcases List.mem_append.mp hi with hi | hi
    · obtain ⟨n, r, call, hr, hid, hb, hmem, hreply⟩ := h.matched i hi
      obtain ⟨entered, hentered⟩ := hgrow
      obtain ⟨hlt, -⟩ := List.getElem?_eq_some_iff.mp hr
      have hr' : (happen t.cocoa event).requests[n]? = some r := by
        rw [← hentered, List.getElem?_append_left hlt, hr]
      exact ⟨n, r, call, hr', hid, hb, List.mem_append_left _ hmem, hreply⟩
    · obtain ⟨hbase, -, call, hcall, hanswers, hreply⟩ := hcalled i hi
      obtain ⟨n, r, hr, hid, hb⟩ := hstored _ _ hbase
      obtain ⟨hnative, m, hm, hnumber⟩ := hcalls call hcall _ hanswers
      obtain ⟨hlt, -⟩ := List.getElem?_eq_some_iff.mp hr
      have hmn : m = n := by
        have hm' := howner m hm
        refine numberOf_inj (by omega) (by omega) ?_
        rw [hnumber, ← hid]
        exact hnumbered n r hr
      subst hmn
      refine ⟨m, r, call.2, hr, hid, hb, List.mem_append_right _ ?_, hreply⟩
      rw [hm]
      simpa using ⟨call.1, hnative⟩

/-- The record is kept, and `n` requests have been entered. -/
def Traced.KeptWith (t : Traced) (n : Nat) : Prop := t.Kept ∧ t.cocoa.requests.length = n

/-- An event that enters no request. -/
theorem kept_unrequested (h : t.Kept) (hd : Done t event t.cocoa (happen t.cocoa event))
    (he : event.isRequest = false) (hr : (happen t.cocoa event).requests = t.cocoa.requests)
    (hid : (happen t.cocoa event).callbackId = t.cocoa.callbackId)
    (hbound : t.cocoa.requests.length < 2147483648) :
    (trace t event).KeptWith t.cocoa.requests.length := by
  refine ⟨kept_trace h hd rfl h.used ?_ ?_ ?_ ?_ ?_ ?_, congrArg List.length hr⟩
  · rw [hr]
    exact h.stored
  · rw [hr]
  · rintro n hn
    have hlt := owner_lt h hn
    rw [he] at hlt
    rwa [hr]
  · rw [hr]
    exact h.numbered
  · rw [hr, hid]
    exact h.next
  · rwa [hr]

/-! ### Calls into Java -/

/-- The native calls that answer are those the ledger has noted. -/
theorem answers_natives {w : World} {call : Nat × NativeCall} {k : NSUInteger} (hc : call ∈ w.natives)
    (hk : call.2.answers = some k) : k ∈ w.ledger.answers := by
  rw [answers_ledger]
  exact List.mem_filterMap.mpr ⟨call, hc, hk⟩

/-- A call into Java that answers only its owner and leaves no future behind. -/
theorem done_java {label : Label} {hl : label.hasMethod = false}
    (hslots : (step { t.cocoa.java with natives := [] } label).ledger.slots =
      (Event.stays t.owners (.java label hl)).map (Option.map numberOf))
    (hanswers : ∀ k ∈ (step { t.cocoa.java with natives := [] } label).ledger.answers,
      ∃ n, Event.owner t (.java label hl) = some n ∧ numberOf n = k) :
    Done t (.java label hl) t.cocoa (happen t.cocoa (.java label hl)) := by
  have hjava : (t.cocoa.ran label.code).java = step { t.cocoa.java with natives := [] } label :=
    java_ran label.code
  rw [happen_java]
  refine ⟨⟨_, answers_ran label.code, fun call hc k hk => ⟨?_, ?_⟩⟩, [], ?_, fun _ h =>
    absurd h List.not_mem_nil⟩
  · rw [hjava]
    exact hc
  · exact hanswers k (answers_natives hc hk)
  · rw [hjava, hslots, List.append_nil]

theorem kept_java (h : t.Kept) (label : Label) (hl : label.hasMethod = false)
    (hbound : t.cocoa.requests.length < 2147483648) :
    (trace t (.java label hl)).KeptWith t.cocoa.requests.length := by
  have hid : (happen t.cocoa (.java label hl)).requests = t.cocoa.requests ∧
      (happen t.cocoa (.java label hl)).callbackId = t.cocoa.callbackId := by
    rw [happen_java, onlyAnswers_ran]
    exact ⟨rfl, rfl⟩
  refine kept_unrequested h ?_ rfl hid.1 hid.2 hbound
  by_cases hcomplete : ∃ lib index failure, label = .complete lib index failure
  · obtain ⟨lib, index, failure, rfl⟩ := hcomplete
    cases hf : t.cocoa.java.pending[index]? with
    | none =>
      have hsame : step { t.cocoa.java with natives := [] } (.complete lib index failure) =
          { t.cocoa.java with natives := [] } := idle_complete hf
      have hout : t.owners.length ≤ index := by
        have hlen : t.owners.length = t.cocoa.java.pending.length := by
          have hs := congrArg List.length h.slots
          rw [Ledger.slots, List.length_map, List.length_map] at hs
          exact hs.symm
        rw [hlen]
        exact List.getElem?_eq_none_iff.mp hf
      refine done_java ?_ ?_
      · rw [hsame]
        change t.cocoa.java.ledger.slots = (t.owners.eraseIdx index).map _
        rw [List.eraseIdx_of_length_le hout]
        exact h.slots
      · rw [hsame]
        exact fun k hk => absurd hk List.not_mem_nil
    | some future =>
      have hf' : (World.pending { t.cocoa.java with natives := [] })[index]? = some future := hf
      obtain ⟨r, hc⟩ := @completing_step _ lib index failure future hf'
      obtain ⟨hslots, answers, ha, hown⟩ := completing_only hc
      have howner : ∃ owner, t.owners[index]? = some owner ∧ future.waitsFor = owner.map numberOf := by
        have hs := congrArg (fun slots => slots[index]?) h.slots
        have hleft : t.cocoa.java.ledger.slots[index]? = some future.waitsFor := by
          have hmap : t.cocoa.java.ledger.slots[index]? =
            t.cocoa.java.pending[index]?.map Pending.waitsFor := List.getElem?_map ..
          rw [hmap, hf]
          rfl
        rw [hleft, List.getElem?_map] at hs
        cases ho : t.owners[index]? with
        | none => rw [ho] at hs; cases hs
        | some owner =>
          rw [ho] at hs
          exact ⟨owner, rfl, Option.some.inj hs⟩
      obtain ⟨owner, ho, hw⟩ := howner
      refine done_java ?_ ?_
      · rw [hslots]
        change (t.cocoa.java.pending.eraseIdx index).map Pending.waitsFor =
          (t.owners.eraseIdx index).map _
        rw [← List.eraseIdx_map, ← List.eraseIdx_map]
        exact congrArg (fun slots => slots.eraseIdx index) h.slots
      · rintro k hk
        rw [ha] at hk
        have hk := hown k ((List.mem_append.mp hk).resolve_left List.not_mem_nil)
        rw [hw] at hk
        obtain ⟨n, hn, hnk⟩ := Option.map_eq_some_iff.mp hk
        refine ⟨n, ?_, hnk⟩
        change t.owners[index]?.join = some n
        rw [ho, hn]
        rfl
  · have hstays : Event.stays t.owners (.java label hl) = t.owners := by
      unfold Event.stays
      split
      · next lib index failure hm he =>
        cases he
        exact absurd ⟨lib, index, failure, rfl⟩ hcomplete
      · rfl
    have hidle := ledger_unasked (w := { t.cocoa.java with natives := [] }) hl
      fun lib index failure he => hcomplete ⟨lib, index, failure, he⟩
    refine done_java ?_ ?_
    · rw [hidle, hstays]
      exact h.slots
    · rw [hidle]
      exact fun k hk => absurd hk List.not_mem_nil

/-! ### Sends -/

/-- Calls that answer nobody are as good as none. -/
theorem answers_mute (h : Answers calls c d) (hno : ∀ call ∈ calls, call.2.answers = none) :
    Answers [] c d := by
  obtain ⟨hk, new, hi, -, hnew⟩ := h
  have hnone : new = [] := by
    refine List.eq_nil_iff_forall_not_mem.mpr fun i hmem => ?_
    obtain ⟨-, -, call, hc, ha, -⟩ := hnew i hmem
    rw [hno call hc] at ha
    cases ha
  refine answers_silent hk ?_
  rw [hi, hnone, List.append_nil]

/-- No request is entered or answered, and futures that come up answer nobody. -/
def offRequests : Along Cocoa where
  rel c d := Answers [] c d ∧ d.requests = c.requests ∧ d.callbackId = c.callbackId ∧
    ∃ n, d.java.ledger.slots = c.java.ledger.slots ++ List.replicate n none
  refl c := ⟨(answeringBy []).refl c, rfl, rfl, 0, (List.append_nil _).symm⟩
  trans := by
    rintro c d e ⟨ha, hr, hid, n, hs⟩ ⟨ha', hr', hid', m, hs'⟩
    refine ⟨ha.trans ha', hr'.trans hr, hid'.trans hid, n + m, ?_⟩
    rw [hs', hs, List.append_assoc, List.replicate_append_replicate]

theorem offRequests_sends : IgnoresSends offRequests := by
  have hsame {c d : Cocoa} (hc : d.callbacks = c.callbacks) (hi : d.invocations = c.invocations)
      (hr : d.requests = c.requests) (hid : d.callbackId = c.callbackId)
      (hs : d.java.ledger.slots = c.java.ledger.slots) : offRequests.rel c d :=
    ⟨answers_silent (fun k b h => by rwa [hc] at h) hi, hr, hid, 0, by
      rw [hs, List.replicate_zero, List.append_nil]⟩
  exact ⟨fun _ _ => hsame rfl rfl rfl rfl rfl, fun _ _ _ => hsame rfl rfl rfl rfl rfl,
    fun _ _ => hsame rfl rfl rfl rfl rfl, fun _ _ => hsame rfl rfl rfl rfl rfl⟩

theorem offRequests_sendCoins (lib : Lib) (amount recipient : String) (array : Option CharArrayRef)
    (c : Cocoa) : offRequests.rel c (c.ran (onBehalfOf 0 (sendCoins lib amount recipient array))) := by
  have hend : Ends (onBehalfOf 0 (sendCoins lib amount recipient array)) { c.java with natives := [] }
      fun _ v => v.ledger.answers = [] ∧
        ∃ n, v.ledger.slots = c.java.ledger.slots ++ List.replicate n none := by
    unfold onBehalfOf
    rw [ends_bind, ends_modify]
    refine ends_mono (ends_sendCoins amount recipient array) fun r v hv => ?_
    generalize v.ledger = L at hv
    cases hv with
    | refused e => exact ⟨rfl, 0, (List.append_nil _).symm⟩
    | stranded e hb => exact ⟨rfl, 0, (List.append_nil _).symm⟩
    | sent hb => exact ⟨rfl, 1, List.map_append⟩
  obtain ⟨hnone, hslots⟩ := hend
  refine ⟨answers_mute (answers_ran _) fun call hc => ?_, ?_, ?_, ?_⟩
  · cases hk : call.2.answers with
    | none => rfl
    | some k => exact absurd (hnone ▸ answers_natives hc hk) List.not_mem_nil
  · rw [onlyAnswers_ran]
    rfl
  · rw [onlyAnswers_ran]
    rfl
  · rw [java_ran]
    exact hslots

theorem kept_offRequests (h : t.Kept) (ho : event.owner t = none) (he : event.isRequest = false)
    (hs : event.stays t.owners = t.owners) (hd : offRequests.rel t.cocoa (happen t.cocoa event))
    (hbound : t.cocoa.requests.length < 2147483648) :
    (trace t event).KeptWith t.cocoa.requests.length := by
  obtain ⟨ha, hr, hid, n, hslots⟩ := hd
  refine kept_unrequested h ⟨⟨[], ha, fun _ hc => absurd hc List.not_mem_nil⟩, ?_⟩ he hr hid hbound
  refine ⟨List.replicate n none, ?_, fun s hmem => ?_⟩
  · rw [hslots, hs, h.slots]
  · rw [List.eq_of_mem_replicate hmem, ho]
    rfl

/-! ### Requests -/

/-- What a payment method still does when its Java method is over: callbacks are only taken out, and of
    Java only secrets change. -/
def settling : Along Cocoa where
  rel c d := (∀ k b, d.callbacks k = some b → c.callbacks k = some b) ∧
    d.invocations = c.invocations ∧ d.requests = c.requests ∧ d.callbackId = c.callbackId ∧
    ∃ s, d.java = { c.java with secrets := s }
  refl c := ⟨fun _ _ h => h, rfl, rfl, rfl, c.java.secrets, rfl⟩
  trans := by
    rintro c d e ⟨hk, hi, hr, hid, s, hj⟩ ⟨hk', hi', hr', hid', s', hj'⟩
    refine ⟨fun k b h => hk k b (hk' k b h), hi'.trans hi, hr'.trans hr, hid'.trans hid, s', ?_⟩
    rw [hj', hj]

theorem settling_secrets (c : Cocoa) (s : Secrets) :
    settling.rel c { c with java := { c.java with secrets := s } } :=
  ⟨fun _ _ h => h, rfl, rfl, rfl, s, rfl⟩

theorem settling_keepOrRetrieve (k : NSUInteger) (error : Option NSError) :
    Moves settling (keepOrRetrieve k error) := by
  cases error with
  | none => exact moves_pure _
  | some error =>
    refine moves_bind (moves_bind moves_get fun _ => moves_bind (moves_modify fun c => ?_) fun _ =>
      moves_pure _) fun _ => moves_pure _
    exact ⟨kept_retrieved, rfl, rfl, rfl, c.java.secrets, rfl⟩

/-- The Java method of a payment method, and what comes after it. -/
theorem ends_called {code : Java Unit} {rest : Option NSError → ObjC (Option NSError)}
    (hrest : ∀ error, Moves settling (rest error)) :
    Ends (callVoidMethod true code >>= rest) c fun _ d => settling.rel (c.ran code) d := by
  rw [ends_bind]
  refine ends_mono (ends_callVoidMethod true code) fun r d ⟨_, hd⟩ => ?_
  subst hd
  cases r with
  | ok error => exact hrest error (c.ran code)
  | error x => exact settling.refl _

/-- A request that has been entered: its callback was stored, and its Java method served it. -/
structure Entered (c : Cocoa) (callback : Block) (d : Cocoa) : Prop where
  callbackId : d.callbackId = c.callbackId + 1
  requests : ∃ r, d.requests = c.requests ++ [r] ∧ r.callbackId = c.callbackId + 1 ∧
    r.callback = callback
  answers : Answers d.java.natives (c.storing callback) d
  serves : ∃ ended, Serves (c.callbackId + 1) { c.java.ledger with reports := [] } ended d.java.ledger

/-- Whatever becomes of the Java method, the request is entered. -/
theorem ends_entered {callback : Block} {method : ObjC (Option NSError)} (code : Java Unit)
    {stored : Cocoa} (hstored : settling.rel (c.storing callback) stored)
    (hs : Ends code { stored.java with natives := [] } fun r v =>
      Serves (c.callbackId + 1) { c.java.ledger with reports := [] } r v.ledger)
    (hm : Ends method c fun _ d => settling.rel (stored.ran code) d) :
    Ends (asRequest callback method) c fun _ d => Entered c callback d := by
  have hran : (stored.ran code).requests = c.requests ∧
      (stored.ran code).callbackId = c.callbackId + 1 := by
    obtain ⟨-, -, hr, hid, -⟩ := hstored
    rw [onlyAnswers_ran]
    exact ⟨hr, hid⟩
  have hentered {d : Cocoa} (hd : settling.rel (stored.ran code) d) (threw : Option Throwable)
      (answer : Answer) : Entered c callback
        { d with requests := d.requests ++ [⟨c.callbackId + 1, callback, threw, answer⟩] } := by
    obtain ⟨hk, hi, hr, hid, s, hj⟩ := hd
    obtain ⟨hk', hi', -, -, -, -⟩ := hstored
    have hjava : d.java = { after (stored.runOf code) with secrets := s } := by rw [hj, java_ran]
    refine ⟨hid.trans hran.2, ⟨_, by rw [hr, hran.1], rfl, rfl⟩, ?_, ?_⟩
    · have hnatives : d.java.natives = (after (stored.runOf code)).natives := by rw [hjava]
      dsimp only
      rw [hnatives]
      refine (answers_silent hk' hi').trans ((answers_ran code).trans ?_)
      exact answers_silent hk hi
    · dsimp only
      rw [hjava]
      exact ⟨_, hs⟩
  unfold asRequest
  simp only [ends_bind, ends_get, ends_tryCatch, ends_modify, ends_pure]
  refine ends_mono hm fun r d hd => ?_
  cases r with
  | ok error => exact hentered hd _ _
  | error x => exact hentered hd _ _

/-- The two methods that open a request. -/
theorem entered_opening (callback : Block) (code : NSUInteger → Java Unit)
    (hs : ∀ w, Ends (code (c.callbackId + 1)) w fun r v =>
      Serves (c.callbackId + 1) w.ledger r v.ledger) :
    Ends (asRequest callback do
      let callbackId ← storeCallback callback
      let error ← callVoidMethod true (code callbackId)
      keepOrRetrieve callbackId error) c fun _ d => Entered c callback d := by
  refine ends_entered (code (c.callbackId + 1)) (settling.refl _) (hs _) ?_
  unfold storeCallback
  simp only [bind_assoc, pure_bind]
  rw [ends_bind, ends_get]
  dsimp only
  rw [ends_bind, ends_modify]
  exact ends_called (c := c.storing callback) fun error => settling_keepOrRetrieve _ error

theorem entered_paying {lib : Lib} {sessionId : Int32} {password : Option NSData} (callback : Block)
    (hn : NSUInteger.ofJint (c.callbackId + 1).jint = c.callbackId + 1) :
    Ends (asRequest callback (sendPaymentRequestWithPassword lib sessionId password callback)) c
      fun _ d => Entered c callback d := by
  have hstored : settling.rel (c.storing callback) ((c.withArrayFor password).storing callback) := by
    cases password with
    | none => exact settling.refl _
    | some chars => exact settling_secrets _ _
  have hs (w : World) := @serves_pay w lib sessionId (c.arrayFor password) (c.callbackId + 1).jint
  rw [hn] at hs
  refine ends_entered (numberedPayment (sendPaymentRequest lib sessionId (c.arrayFor password)
    (c.callbackId + 1).jint)) hstored ?_ ?_
  · have hledger : World.ledger { (c.withArrayFor password).java with natives := [] } =
        { c.java.ledger with reports := [] } := by cases password <;> rfl
    rw [← hledger]
    exact hs _
  · unfold sendPaymentRequestWithPassword storeCallback
    rw [ends_bind, ends_jCharArray]
    dsimp only
    simp only [bind_assoc, pure_bind]
    rw [ends_bind, ends_get]
    dsimp only
    rw [ends_bind, ends_modify]
    refine ends_called (c := (c.withArrayFor password).storing callback) fun error => ?_
    exact moves_bind (moves_zeroCharArray settling_secrets _ _) fun _ =>
      settling_keepOrRetrieve _ error

theorem kept_requested {callback : Block} (h : t.Kept) (ho : event.owner t = some t.cocoa.requests.length)
    (hs : event.stays t.owners = t.owners) (hd : Entered t.cocoa callback (happen t.cocoa event))
    (hbound : t.cocoa.requests.length + 1 < 2147483648) :
    (trace t event).KeptWith (t.cocoa.requests.length + 1) := by
  have hnumber : t.cocoa.callbackId + 1 = numberOf t.cocoa.requests.length := by
    rw [h.next]
    exact (UInt64.ofNat_add _ 1).symm
  obtain ⟨r, hr, hid, hcallback⟩ := hd.requests
  have hlen : (happen t.cocoa event).requests.length = t.cocoa.requests.length + 1 := by
    rw [hr, List.length_append, List.length_singleton]
  have hget {n : Nat} {q : Request} (hq : (happen t.cocoa event).requests[n]? = some q) :
      t.cocoa.requests[n]? = some q ∨ n = t.cocoa.requests.length ∧ q = r := by
    rw [hr] at hq
    by_cases hlt : n < t.cocoa.requests.length
    · rw [List.getElem?_append_left hlt] at hq
      exact .inl hq
    · rw [List.getElem?_append_right (by omega), List.getElem?_singleton] at hq
      split at hq
      · next hzero => exact .inr ⟨by omega, (Option.some.inj hq).symm⟩
      · cases hq
  have hlast : (happen t.cocoa event).requests[t.cocoa.requests.length]? = some r := by
    rw [hr]
    simp
  refine ⟨kept_trace h ⟨⟨_, hd.answers, fun call hc k hk => ⟨hc, ?_⟩⟩, ?_⟩ rfl (fun i hi => ?_)
    (fun k b hk => ?_) ⟨[r], hr.symm⟩ (fun n hn => ?_) (fun n q hq => ?_) ?_ (hlen ▸ hbound), hlen⟩
  · refine ⟨t.cocoa.requests.length, ho, ?_⟩
    obtain ⟨ended, hserves⟩ := hd.serves
    have hmem := answers_natives hc hk
    rw [← hnumber]
    cases hserves with
    | refused e hw ha => rw [ha] at hmem; exact absurd hmem List.not_mem_nil
    | answered hw ha => rw [ha] at hmem; exact (List.mem_singleton.mp hmem).symm
    | putOff hw ha => rw [ha] at hmem; exact absurd hmem List.not_mem_nil
  · obtain ⟨ended, hserves⟩ := hd.serves
    have hold : Ledger.slots { t.cocoa.java.ledger with reports := [] } =
        t.owners.map (Option.map numberOf) := h.slots
    rw [hs, ho, ← hold]
    cases hserves with
    | refused e hw ha => exact ⟨[], by rw [hw, List.append_nil], fun _ h => absurd h List.not_mem_nil⟩
    | answered hw ha => exact ⟨[], by rw [hw, List.append_nil], fun _ h => absurd h List.not_mem_nil⟩
    | putOff hw ha =>
      refine ⟨_, hw, fun s hmem => ?_⟩
      rw [List.mem_singleton.mp hmem, hnumber]
      rfl
  · -- the number is new: whatever was called before was of an earlier request
    obtain ⟨n, q, -, hq, hqid, -⟩ := h.matched i hi
    obtain ⟨hlt, -⟩ := List.getElem?_eq_some_iff.mp hq
    have hne : i.callbackId ≠ t.cocoa.callbackId + 1 := by
      intro he
      rw [← hqid, h.numbered n q hq, hnumber] at he
      have hn := numberOf_inj (by omega) (by omega) he
      omega
    have hcell : (t.cocoa.storing callback).callbacks i.callbackId =
      t.cocoa.callbacks i.callbackId := Function.update_of_ne hne ..
    rw [hcell]
    exact h.used i hi
  · by_cases hknew : k = t.cocoa.callbackId + 1
    · have hb : (t.cocoa.storing callback).callbacks k = some callback := by
        rw [hknew]
        exact Function.update_self ..
      rw [hb] at hk
      cases hk
      exact ⟨_, r, hlast, by rw [hid, hknew], hcallback⟩
    · have hold : (t.cocoa.storing callback).callbacks k = t.cocoa.callbacks k :=
        Function.update_of_ne hknew ..
      rw [hold] at hk
      obtain ⟨n, q, hq, hqk, hqb⟩ := h.stored k b hk
      obtain ⟨hlt, -⟩ := List.getElem?_eq_some_iff.mp hq
      exact ⟨n, q, by rw [hr, List.getElem?_append_left hlt, hq], hqk, hqb⟩
  · rw [ho] at hn
    cases hn
    rw [hlen]
    exact Nat.lt_succ_self _
  · rcases hget hq with hq | ⟨rfl, rfl⟩
    · exact h.numbered n q hq
    · rw [hid, hnumber]
  · rw [hlen, hd.callbackId, hnumber]
    rfl

/-! ### Runs -/

/-- The next number comes back from Java as it went. -/
theorem Traced.Kept.comesBack (h : t.Kept) (hbound : t.cocoa.requests.length + 1 < 2147483648) :
    NSUInteger.ofJint (t.cocoa.callbackId + 1).jint = t.cocoa.callbackId + 1 := by
  refine ofJint_jint ?_
  have hnumber : t.cocoa.callbackId + 1 = numberOf t.cocoa.requests.length := by
    rw [h.next]
    exact (UInt64.ofNat_add _ 1).symm
  rw [hnumber, toNat_numberOf hbound]
  exact hbound

theorem kept_step (t : Traced) (event : Event) (h : t.Kept)
    (hbound : t.cocoa.requests.length + (if event.isRequest then 1 else 0) < 2147483648) :
    (trace t event).KeptWith (t.cocoa.requests.length + if event.isRequest then 1 else 0) := by
  cases event with
  | sendCoins lib coins recipient password completion =>
    have hm := moves_sendCoinsToRecipient offRequests_sends
      (offRequests_sendCoins lib (amountText coins) recipient) password completion
    exact kept_offRequests h rfl rfl rfl (moves_bind hm (fun _ => moves_pure _) t.cocoa) hbound
  | sendPaymentRequest lib sessionId password callback =>
    exact kept_requested h rfl rfl (entered_paying callback (h.comesBack hbound)) hbound
  | openPaymentRequestFromFile lib filename callback =>
    refine kept_requested h rfl rfl (entered_opening callback
      (fun k => onBehalfOf 0 (openPaymentRequestFromFile lib filename k.jint)) fun w => ?_) hbound
    have hs := @serves_openFile w lib filename (t.cocoa.callbackId + 1).jint
    rwa [h.comesBack hbound] at hs
  | openPaymentRequestFromURL lib URL callback =>
    refine kept_requested h rfl rfl (entered_opening callback
      (fun k => onBehalfOf 0 (openPaymentRequestFromURL lib URL k.jint)) fun w => ?_) hbound
    have hs := @serves_openURL w lib URL (t.cocoa.callbackId + 1).jint
    rwa [h.comesBack hbound] at hs
  | java label hl => exact kept_java h label hl hbound
  | mainQueue => exact kept_offRequests h rfl rfl rfl (moves_mainQueue offRequests_sends t.cocoa) hbound

/-- Numbers that fit are different. -/
theorem Traced.Kept.own (h : t.Kept) (hbound : t.cocoa.requests.length < 2147483648) :
    (t.cocoa.requests.map Request.callbackId).Nodup := by
  rw [List.nodup_iff_getElem?_ne_getElem?]
  intro i j hij hj
  rw [List.length_map] at hj
  have hi : i < t.cocoa.requests.length := by omega
  have hnumber {n : Nat} (hn : n < t.cocoa.requests.length) :
      (t.cocoa.requests.map Request.callbackId)[n]? = some (numberOf n) := by
    rw [List.getElem?_map, List.getElem?_eq_getElem hn]
    exact congrArg some (h.numbered n _ (List.getElem?_eq_getElem hn))
  rw [hnumber hi, hnumber hj]
  intro he
  have hsame := numberOf_inj (by omega) (by omega) (Option.some.inj he)
  omega

theorem kept_run : ∀ (events : List Event) (t : Traced), t.Kept →
    t.cocoa.requests.length + events.countP Event.isRequest < 2147483648 →
      (run trace t events).KeptWith (t.cocoa.requests.length + events.countP Event.isRequest)
  | [], _, h, _ => ⟨h, rfl⟩
  | event :: events, t, h, hbound => by
    rw [List.countP_cons] at hbound ⊢
    obtain ⟨hkept, hlen⟩ := kept_step t event h (by omega)
    obtain ⟨hrun, hall⟩ := kept_run events (trace t event) hkept (by rw [hlen]; omega)
    refine ⟨hrun, hall.trans ?_⟩
    rw [hlen]
    omega

/-- In every run with fewer than 2^31 payment requests every callback is called at most once, and only
    with what its own request has produced. -/
theorem replies_matched (files : Files) (handler : Bool) (events : List Event)
    (h : events.countP Event.isRequest < 2147483648) :
    RepliesMatched (run trace (Traced.initial files handler) events) := by
  have hzero : (Traced.initial files handler).cocoa.requests.length = 0 := rfl
  obtain ⟨hkept, hlen⟩ := kept_run events _ (kept_initial files handler) (by rw [hzero]; omega)
  exact ⟨hkept.own (by rw [hlen, hzero]; omega), hkept.once, hkept.matched⟩

/-- Two requests are loaded by the network; the second answer comes first, and the first is a failure. -/
def answeredOutOfOrder : List Event :=
  walletMade none ++
  [.openPaymentRequestFromURL .fair "first" 7, .openPaymentRequestFromURL .fair "second" 8,
   .java (.complete .fair 1 none) rfl, .java (.complete .fair 0 (some nullPointerException)) rfl]

theorem replies_matched_outOfOrder :
    (run trace (Traced.initial .none true) answeredOutOfOrder).cocoa.invocations.map
        Invocation.callback = [8, 7] ∧
      RepliesMatched (run trace (Traced.initial .none true) answeredOutOfOrder) :=
  ⟨by decide +kernel, replies_matched .none true answeredOutOfOrder (by decide)⟩

end BitcoinKit
