import BitcoinKit.Cocoa.Calls
import BitcoinKit.Java.Passwords

/-! Password arrays when a Cocoa method exits. An array is zeroed in Java when a key is derived from it,
    and in Cocoa when the Java call has returned or its exception was handed over as an error. What
    is left is the exception that stops the Java method before the derivation, if the bridge raises it
    again:

        thrown before derivation   handed over   array
        no                         -             zeroed in Java, or in Cocoa
        yes                        yes           zeroed in Cocoa
        yes                        no            keeps the password                               -/

namespace BitcoinKit
open Schemes

/-- The Cocoa methods that take a password. -/
inductive PasswordMethod where
  | createWallet (password : Option NSData)
  | changeWalletPassword (fromPassword toPassword : Option NSData) (wantsError : Bool)
  | signMessage (message : String) (password : Option NSData) (wantsError : Bool)
  | isPasswordCorrect (password : Option NSData)
  | sendCoins (coins : UInt64) (recipient : String) (password : Option NSData)
      (completion : Option Block)
  | sendPaymentRequest (sessionId : Int32) (password : Option NSData) (callback : Block)
  | exportPrivateKey (password : Option NSData) (wantsError : Bool)

namespace PasswordMethod

def code (lib : Lib) : PasswordMethod → ObjC Unit
  | .createWallet password => do
    let _ ← createWalletWithPassword lib password
  | .changeWalletPassword fromPassword toPassword wantsError => do
    let _ ← changeWalletPasswordToPassword lib fromPassword toPassword wantsError
  | .signMessage message password wantsError => do
    let _ ← signMessageWithPassword lib message password wantsError
  | .isPasswordCorrect password => do
    let _ ← isPasswordCorrectInWallet lib password
  | .sendCoins coins recipient password completion => do
    let _ ← sendCoinsToRecipient lib coins recipient password completion
  | .sendPaymentRequest sessionId password callback => do
    let _ ← sendPaymentRequestWithPassword lib sessionId password callback
  | .exportPrivateKey password wantsError => do
    let _ ← exportPrivateKeyWithPassword lib password wantsError

/-- The method's caller, or the method itself, asks for errors. -/
def wantsError : PasswordMethod → Bool
  | .changeWalletPassword _ _ wantsError => wantsError
  | .signMessage _ _ wantsError => wantsError
  | .exportPrivateKey _ wantsError => wantsError
  | .isPasswordCorrect _ => false
  | _ => true

/-- The password that may be left behind: of two, the old one. -/
def password : PasswordMethod → Option NSData
  | .createWallet password => password
  | .changeWalletPassword fromPassword _ _ => fromPassword
  | .signMessage _ password _ => password
  | .isPasswordCorrect password => password
  | .sendCoins _ _ password _ => password
  | .sendPaymentRequest _ password _ => password
  | .exportPrivateKey password _ => password

/-- The exception that stops the Java method before it derives a key from that password. -/
def refusal (lib : Lib) (c : Cocoa) : PasswordMethod → Option Throwable
  | .createWallet _ => createWalletRefusal c.java
  | .changeWalletPassword _ toPassword _ => changeWalletPasswordRefusal lib c.java toPassword
  | .signMessage _ _ _ => (firstKeyRefusal c.java <|> keyRefusal c.java).map renamed
  | .isPasswordCorrect _ =>
    uncaughtRefusal (Throwable.instanceOf wrongPasswordExceptionClass) (keyRefusal c.java)
  | .sendCoins coins recipient _ _ =>
    if c.sending then none else sendCoinsRefusal lib c.java (amountText coins) recipient
  | .sendPaymentRequest sessionId password _ =>
    sendPaymentRequestRefusal lib c.java sessionId (c.arrayFor password)
  | .exportPrivateKey _ _ => (firstKeyRefusal c.java <|> keyRefusal c.java).map renamed

end PasswordMethod

def Cocoa.arrays (c : Cocoa) : Heap Chars := c.java.arrays

/-- Nothing but zeros. -/
def Zeros (chars : Chars) : Prop := ∀ x ∈ chars, x = 0

instance (chars : Chars) : Decidable (Zeros chars) := List.decidableBAll (fun x => x = 0) chars

/-- Every array made between two states contains only zeros. -/
def PasswordsGone (before after : Heap Chars) : Prop :=
  ∀ array, before.next ≤ array → array < after.next → Zeros (after.cell array)

/-! ### One array through one call -/

variable {lib : Lib} {c : Cocoa} {α : Type}

/-- How a call that took an array leaves it. -/
def Settled (wantsError : Bool) (refusal : Option Throwable) (array : Option CharArrayRef)
    (before : Heap Chars) : Except NSException α → Heap Chars → Prop
  | .ok _, after => (after = before ∨ after = wiped before array) ∧
      ∀ e, refusal = some e → HandedOver wantsError e
  | .error _, after => after = wiped before array ∧ refusal = none ∨
      ∃ e, refusal = some e ∧ ¬ HandedOver wantsError e ∧ after = before

theorem settled_callObjectMethod {wantsError : Bool} {method : Java α} {refusal : Option Throwable}
    {array : Option CharArrayRef} {before : Heap Chars}
    (h : Ends method { c.java with natives := [] }
      fun r v => Treated refusal array before r v.arrays) :
    Ends (callObjectMethod wantsError method) c
      fun r d => Settled wantsError refusal array before r d.arrays := by
  refine ends_mono (ends_callObjectMethod wantsError method) fun r d ⟨hp, hd⟩ => ?_
  have harrays : d.arrays = (after (c.runOf method)).arrays := by
    rw [hd, onlyAnswers_ran method]
    rfl
  have ht : Treated refusal array before (outcome (c.runOf method))
      (after (c.runOf method)).arrays := h
  rw [harrays]
  generalize outcome (c.runOf method) = ended at hp ht
  generalize (after (c.runOf method)).arrays = left at ht ⊢
  cases hp with
  | returned a =>
    cases ht with
    | derived _ hr => exact ⟨.inr rfl, fun e he => by rw [hr] at he; cases he⟩
    | returned _ hr => exact ⟨.inl rfl, fun e he => by rw [hr] at he; cases he⟩
  | handedOver hover =>
    cases ht with
    | derived _ hr => exact ⟨.inr rfl, fun e he => by rw [hr] at he; cases he⟩
    | refused hr => exact ⟨.inl rfl, fun e he => by rw [hr] at he; cases he; exact hover⟩
  | raised x hnot =>
    cases ht with
    | derived _ hr => exact .inl ⟨rfl, hr⟩
    | refused hr => exact .inr ⟨_, hr, hnot, rfl⟩

theorem settled_map {β : Type} {m : ObjC α} {f : α → β} {wantsError : Bool}
    {refusal : Option Throwable} {array : Option CharArrayRef} {before : Heap Chars}
    (h : Ends m c fun r d => Settled wantsError refusal array before r d.arrays) :
    Ends (do
      let x ← m
      pure (f x)) c fun r d => Settled wantsError refusal array before r d.arrays := by
  rw [ends_bind]
  refine ends_mono h fun r d hd => ?_
  cases r with
  | ok x => exact hd
  | error e => exact hd

/-! ### Zeros -/

theorem zeros_replicate (n : Nat) : Zeros (List.replicate n 0) :=
  fun _ hx => List.eq_of_mem_replicate hx

theorem passwordsGone_self (arrays : Heap Chars) : PasswordsGone arrays arrays := by
  intro array hle hlt
  omega

/-- One new array. -/
theorem passwordsGone_iff {before after : Heap Chars} (h : after.next = before.next + 1) :
    PasswordsGone before after ↔ Zeros (after.cell before.next) := by
  constructor
  · intro hgone
    exact hgone before.next (by omega) (by omega)
  · intro hzeros array hle hlt
    have harray : array = before.next := by omega
    rw [harray]
    exact hzeros

/-- Nothing outside the password arrays matters here. -/
def keepingPasswords : Along Cocoa := keeping Cocoa.arrays

/-- What Java does to arrays: their lengths stay, and zeros stay zeros. -/
theorem treated_array {before after : Heap Chars} {array : Option CharArrayRef}
    (h : after = before ∨ after = wiped before array) (q : CharArrayRef) :
    after.next = before.next ∧ (after.cell q).length = (before.cell q).length ∧
      (Zeros (before.cell q) → Zeros (after.cell q)) := by
  rcases h with rfl | rfl
  · exact ⟨rfl, rfl, id⟩
  · cases array with
    | none => exact ⟨rfl, rfl, id⟩
    | some a =>
      refine ⟨rfl, ?_⟩
      rcases eq_or_ne q a with rfl | hq
      · rw [wiped, Heap.cell_write_self]
        exact ⟨List.length_replicate, fun _ => zeros_replicate _⟩
      · rw [wiped, Heap.cell_write_ne hq]
        exact ⟨rfl, id⟩

/-- Zeroing an array: it is zeros if its size is right, and zeros elsewhere stay. -/
theorem ends_zero (array : Option CharArrayRef) (size : Nat) :
    Ends (zeroCharArray array size) c fun r d => r = .ok () ∧ d.arrays.next = c.arrays.next ∧
      (∀ q, Zeros (c.arrays.cell q) → Zeros (d.arrays.cell q)) ∧
      ∀ q, array = some q → (c.arrays.cell q).length = size → Zeros (d.arrays.cell q) := by
  cases array with
  | none => exact ⟨rfl, rfl, fun q hq => hq, fun q hq => by cases hq⟩
  | some a =>
    have hd : Ends (zeroCharArray (some a) size) c fun r d => r = .ok () ∧ d.arrays =
        c.arrays.write a (List.replicate size 0 ++ (c.arrays.cell a).drop size) := ⟨rfl, rfl⟩
    refine ends_mono hd fun r d ⟨hr, hd⟩ => ⟨hr, ?_, fun q hq => ?_, fun q hq hs => ?_⟩
    · rw [hd]; rfl
    · rcases eq_or_ne q a with rfl | hqa
      · rw [hd, Heap.cell_write_self]
        intro x hx
        rcases List.mem_append.mp hx with hx | hx
        · exact List.eq_of_mem_replicate hx
        · exact hq x (List.mem_of_mem_drop hx)
      · rw [hd, Heap.cell_write_ne hqa]
        exact hq
    · cases hq
      rw [hd, Heap.cell_write_self, ← hs, List.drop_length, List.append_nil]
      exact zeros_replicate _

/-- A call without an array. -/
theorem gone_without_array {wantsError : Bool} {refusal : Option Throwable}
    {before : Heap Chars} {r : Except NSException α} {after : Heap Chars}
    (h : Settled wantsError refusal none before r after) : after = before := by
  cases r with
  | ok x =>
    rcases h.1 with h | h
    · exact h
    · exact h
  | error x =>
    rcases h with ⟨h, -⟩ | ⟨-, -, -, h⟩
    · exact h
    · exact h

/-- A call with an array, left by an exception. -/
theorem gone_raised {wantsError : Bool} {refusal : Option Throwable} {before after : Heap Chars}
    {array : CharArrayRef} {x : NSException}
    (h : Settled wantsError refusal (some array) before (.error x : Except NSException α) after) :
    after.next = before.next ∧ (Zeros (after.cell array) ↔ (¬ Zeros (before.cell array) →
      ∀ e, refusal = some e → HandedOver wantsError e)) := by
  rcases h with ⟨h, hnone⟩ | ⟨e, he, hnot, h⟩
  · rw [h, hnone, wiped, Heap.cell_write_self]
    refine ⟨rfl, iff_of_true (zeros_replicate _) fun _ e he => ?_⟩
    cases he
  · rw [h]
    refine ⟨rfl, fun hz hn => absurd hz hn, fun hover => ?_⟩
    by_contra hz
    exact hnot (hover hz e he)

/-- A call that takes an array, the zeroing of the array, and what follows. -/
theorem gone_after_call {β : Type} (c₀ : Cocoa) {password : Option NSData} {wantsError : Bool}
    {refusal : Option Throwable} {call : ObjC α} {tail : α → ObjC β}
    (hc : c.arrays = (c₀.withArrayFor password).arrays)
    (hcall : Ends call c
      fun r d => Settled wantsError refusal (c₀.arrayFor password) c.arrays r d.arrays)
    (htail : ∀ x, Moves keepingPasswords (tail x)) :
    Ends (do
      let x ← call
      zeroCharArray (c₀.arrayFor password) (NSData.size password)
      tail x) c fun _ d => PasswordsGone c₀.arrays d.arrays ↔
        ∀ chars, password = some chars → ¬ Zeros chars →
          ∀ e, refusal = some e → HandedOver wantsError e := by
  rw [ends_bind]
  refine ends_mono hcall fun r d hd => ?_
  cases password with
  | none =>
    have hsame : d.arrays = c₀.arrays := (gone_without_array hd).trans hc
    have hgone : PasswordsGone c₀.arrays d.arrays := by
      rw [hsame]
      exact passwordsGone_self _
    have hiff : PasswordsGone c₀.arrays d.arrays ↔ ∀ chars, (none : Option NSData) = some chars →
        ¬ Zeros chars → ∀ e, refusal = some e → HandedOver wantsError e :=
      iff_of_true hgone fun chars h => by cases h
    cases r with
    | error x => exact hiff
    | ok x => exact ends_mono (ends_of_moves (s := d) (htail x)) fun r e he => he ▸ hiff
  | some chars =>
    have hnext : c.arrays.next = c₀.arrays.next + 1 := by rw [hc]; rfl
    have hcell : c.arrays.cell c₀.arrays.next = chars := by
      rw [hc]
      exact Heap.cell_alloc_self
    have hiff {P : Prop} : (∀ chars', some chars = some chars' → ¬ Zeros chars' → P) ↔
        (¬ Zeros chars → P) := by simp
    rw [hiff]
    cases r with
    | error x =>
      obtain ⟨hdnext, hzeros⟩ := gone_raised hd
      dsimp only
      rw [passwordsGone_iff (hdnext.trans hnext), ← hcell]
      exact hzeros
    | ok x =>
      obtain ⟨hdnext, hlength, -⟩ := treated_array hd.1 c₀.arrays.next
      dsimp only
      rw [ends_bind]
      refine ends_mono (ends_zero _ _) fun r d' ⟨hr, hd', _, hz⟩ => ?_
      have hzeros := hz c₀.arrays.next rfl (by rw [hlength, hcell]; rfl)
      rw [hr]
      refine ends_mono (ends_of_moves (s := d') (htail x)) fun r e he => ?_
      have hearrays : e.arrays = d'.arrays := he
      rw [hearrays, passwordsGone_iff (hd'.trans (hdnext.trans hnext))]
      exact iff_of_true hzeros fun _ => hd.2

/-! ### The methods -/

theorem ends_discard {m : ObjC α} {Q : Cocoa → Prop} (h : Ends m c fun _ d => Q d) :
    Ends (do
      let _ ← m) c fun _ d => Q d := by
  rw [ends_bind]
  refine ends_mono h fun r d hd => ?_
  cases r with
  | ok x => exact hd
  | error x => exact hd

/-- The world in which a Java method runs that was given an array for a password. -/
def Cocoa.givenArray (c : Cocoa) (password : Option NSData) : World :=
  { (c.withArrayFor password).java with natives := [], activity := 0 }

/-- The password does not stay behind. -/
def Safe (wantsError : Bool) (password : Option NSData) (refusal : Option Throwable) : Prop :=
  ∀ chars, password = some chars → ¬ Zeros chars → ∀ e, refusal = some e → HandedOver wantsError e

theorem gone_createWallet (password : Option NSData) :
    Ends (createWalletWithPassword lib password) c fun _ d => PasswordsGone c.arrays d.arrays ↔
      Safe true password (createWalletRefusal c.java) := by
  unfold createWalletWithPassword
  rw [ends_bind, ends_jCharArray]
  have hrefusal : createWalletRefusal (c.givenArray password) = createWalletRefusal c.java := by
    cases password <;> rfl
  have ht : Ends (onBehalfOf 0 (createWallet lib (c.arrayFor password)))
      { (c.withArrayFor password).java with natives := [] } fun r v =>
        Treated (createWalletRefusal c.java) (c.arrayFor password) (c.withArrayFor password).arrays r
          v.arrays := by
    rw [← hrefusal]
    exact treated_createWallet
  refine gone_after_call c rfl (settled_map (settled_callObjectMethod ht)) fun error => ?_
  refine moves_bind (moves_ite (moves_modify fun _ => rfl) (moves_pure _)) fun _ => moves_pure _

theorem gone_signMessage (message : String) (password : Option NSData) (wantsError : Bool) :
    Ends (signMessageWithPassword lib message password wantsError) c fun _ d =>
      PasswordsGone c.arrays d.arrays ↔
        Safe wantsError password ((firstKeyRefusal c.java <|> keyRefusal c.java).map renamed) := by
  unfold signMessageWithPassword
  rw [ends_bind, ends_jCharArray]
  have hfirst : firstKeyRefusal (c.givenArray password) = firstKeyRefusal c.java := by
    cases password <;> rfl
  have hkey : keyRefusal (c.givenArray password) = keyRefusal c.java := by cases password <;> rfl
  have ht : Ends (onBehalfOf 0 (signMessage lib message (c.arrayFor password)))
      { (c.withArrayFor password).java with natives := [] } fun r v =>
        Treated ((firstKeyRefusal c.java <|> keyRefusal c.java).map renamed) (c.arrayFor password)
          (c.withArrayFor password).arrays r v.arrays := by
    rw [← hfirst, ← hkey]
    exact treated_signMessage message
  exact gone_after_call c rfl (settled_callObjectMethod ht) fun ended => moves_pure _

theorem gone_exportPrivateKey (password : Option NSData) (wantsError : Bool) :
    Ends (exportPrivateKeyWithPassword lib password wantsError) c fun _ d =>
      PasswordsGone c.arrays d.arrays ↔
        Safe wantsError password ((firstKeyRefusal c.java <|> keyRefusal c.java).map renamed) := by
  unfold exportPrivateKeyWithPassword
  rw [ends_bind, ends_jCharArray]
  have hfirst : firstKeyRefusal (c.givenArray password) = firstKeyRefusal c.java := by
    cases password <;> rfl
  have hkey : keyRefusal (c.givenArray password) = keyRefusal c.java := by cases password <;> rfl
  have ht : Ends (onBehalfOf 0 (exportPrivateKey lib (c.arrayFor password)))
      { (c.withArrayFor password).java with natives := [] } fun r v =>
        Treated ((firstKeyRefusal c.java <|> keyRefusal c.java).map renamed) (c.arrayFor password)
          (c.withArrayFor password).arrays r v.arrays := by
    rw [← hfirst, ← hkey]
    exact treated_exportPrivateKey
  exact gone_after_call c rfl (settled_callObjectMethod ht) fun ended => moves_pure _

theorem gone_isPasswordCorrect (password : Option NSData) :
    Ends (isPasswordCorrectInWallet lib password) c fun _ d =>
      PasswordsGone c.arrays d.arrays ↔ Safe false password (uncaughtRefusal
        (Throwable.instanceOf wrongPasswordExceptionClass) (keyRefusal c.java)) := by
  unfold isPasswordCorrectInWallet
  rw [ends_bind, ends_jCharArray]
  have hkey : keyRefusal (c.givenArray password) = keyRefusal c.java := by cases password <;> rfl
  have ht : Ends (onBehalfOf 0 (isPasswordCorrect lib (c.arrayFor password)))
      { (c.withArrayFor password).java with natives := [] } fun r v =>
        Treated (uncaughtRefusal (Throwable.instanceOf wrongPasswordExceptionClass)
          (keyRefusal c.java)) (c.arrayFor password) (c.withArrayFor password).arrays r v.arrays := by
    rw [← hkey]
    exact treated_isPasswordCorrect
  exact gone_after_call c rfl (settled_map (settled_callObjectMethod ht)) fun result => moves_pure _

theorem gone_sendCoins (coins : UInt64) (recipient : String) (password : Option NSData)
    (completion : Option Block) :
    Ends (sendCoinsToRecipient lib coins recipient password completion) c fun _ d =>
      PasswordsGone c.arrays d.arrays ↔ Safe true password
        (if c.sending then none else sendCoinsRefusal lib c.java (amountText coins) recipient) := by
  unfold sendCoinsToRecipient
  rw [ends_bind, ends_get]
  dsimp only
  rw [ends_ite]
  split
  · have hm : Moves keepingPasswords (do
        callCompletion completion none
        pure (none : Option NSError)) := by
      refine moves_bind ?_ fun _ => moves_pure _
      cases completion with
      | none => exact moves_pure _
      | some block => exact moves_modify fun _ => rfl
    refine ends_mono (ends_of_moves (s := c) hm) fun r d hd => ?_
    have harrays : d.arrays = c.arrays := hd
    rw [harrays]
    exact iff_of_true (passwordsGone_self _) fun chars _ _ e he => by cases he
  · rw [ends_bind, ends_modify]
    dsimp only
    rw [ends_bind, ends_jCharArray]
    have hrefusal : sendCoinsRefusal lib (c.givenArray password) (amountText coins) recipient =
        sendCoinsRefusal lib c.java (amountText coins) recipient := by cases password <;> rfl
    have ht : Ends (onBehalfOf 0 (sendCoins lib (amountText coins) recipient (c.arrayFor password)))
        { (c.withArrayFor password).java with natives := [] } fun r v =>
          Treated (sendCoinsRefusal lib c.java (amountText coins) recipient) (c.arrayFor password)
            (c.withArrayFor password).arrays r v.arrays := by
      rw [← hrefusal]
      exact treated_sendCoins _ _
    refine gone_after_call { c with sending := true, sendCompletionBlock := completion } rfl
      (settled_map (settled_callObjectMethod ht)) fun error => ?_
    exact moves_bind (moves_ite (moves_modify fun _ => rfl) (moves_pure _)) fun _ => moves_pure _

/-- Numbering a payment call and noting its throw has nothing to do with arrays. -/
theorem treated_numberedPayment {w : World} {code : Java Unit} {refusal : Option Throwable}
    {array : Option CharArrayRef} {before : Heap Chars}
    (h : Ends code { w with calls := w.calls + 1, activity := w.calls + 1 }
      fun r v => Treated refusal array before r v.arrays) :
    Ends (numberedPayment code) w fun r v => Treated refusal array before r v.arrays := by
  unfold numberedPayment
  rw [ends_bind, ends_modify]
  dsimp only
  rw [ends_tryCatch]
  refine ends_mono h fun r v hv => ?_
  cases r with
  | ok u => exact hv
  | error e =>
    dsimp only
    rw [ends_bind, ends_modify]
    exact hv

theorem gone_sendPaymentRequest (sessionId : Int32) (password : Option NSData) (callback : Block) :
    Ends (sendPaymentRequestWithPassword lib sessionId password callback) c fun _ d =>
      PasswordsGone c.arrays d.arrays ↔ Safe true password
        (sendPaymentRequestRefusal lib c.java sessionId (c.arrayFor password)) := by
  unfold sendPaymentRequestWithPassword
  rw [ends_bind, ends_jCharArray]
  dsimp only
  unfold storeCallback
  simp only [bind_assoc, pure_bind]
  rw [ends_bind, ends_get]
  dsimp only
  rw [ends_bind, ends_modify]
  dsimp only
  have hrefusal (calls activity : Nat) : sendPaymentRequestRefusal lib
      { c.givenArray password with calls := calls, activity := activity } sessionId
        (c.arrayFor password) =
      sendPaymentRequestRefusal lib c.java sessionId (c.arrayFor password) := by
    cases password <;> rfl
  have ht : Ends (numberedPayment (sendPaymentRequest lib sessionId (c.arrayFor password)
      ((c.withArrayFor password).callbackId + 1).jint))
      { (c.withArrayFor password).java with natives := [] } fun r v =>
        Treated (sendPaymentRequestRefusal lib c.java sessionId (c.arrayFor password))
          (c.arrayFor password) (c.withArrayFor password).arrays r v.arrays := by
    refine treated_numberedPayment ?_
    rw [← hrefusal]
    exact treated_sendPaymentRequest sessionId _
  refine gone_after_call c rfl (settled_map (settled_callObjectMethod ht)) fun error => ?_
  cases error with
  | none => exact moves_pure _
  | some error =>
    exact moves_bind (moves_bind moves_get fun _ => moves_bind (moves_modify fun _ => rfl) fun _ =>
      moves_pure _) fun _ => moves_pure _

/-- Two new arrays, the second of which is zeros. -/
theorem passwordsGone_both {before after : Heap Chars} {fromArray toArray : Option CharArrayRef}
    (hcover : ∀ q, before.next ≤ q ∧ q < after.next ↔ fromArray = some q ∨ toArray = some q)
    (hto : ∀ q, toArray = some q → Zeros (after.cell q)) :
    PasswordsGone before after ↔ ∀ q, fromArray = some q → Zeros (after.cell q) := by
  constructor
  · intro hgone q hq
    obtain ⟨hle, hlt⟩ := (hcover q).mpr (.inl hq)
    exact hgone q hle hlt
  · intro hfrom q hle hlt
    rcases (hcover q).mp ⟨hle, hlt⟩ with hq | hq
    · exact hfrom q hq
    · exact hto q hq

/-- The heap with an array for a password, if there is one. -/
def allocFor (arrays : Heap Chars) (password : Option NSData) : Heap Chars :=
  match password with
  | none => arrays
  | some chars => arrays.alloc chars

/-- A heap with the arrays for two passwords, the second of them zeroed. -/
structure Made (before : Heap Chars) (fromPassword : Option NSData)
    (fromArray toArray : Option CharArrayRef) (arrays : Heap Chars) : Prop where
  cover : ∀ q, before.next ≤ q ∧ q < arrays.next ↔ fromArray = some q ∨ toArray = some q
  zeros : ∀ q, toArray = some q → Zeros (arrays.cell q)
  old : ∀ q, fromArray = some q → fromPassword = some (arrays.cell q)
  without : fromArray = none → fromPassword = none

/-- Without a second password there is only the first array. -/
theorem made_old (before : Heap Chars) (fromPassword : Option NSData) :
    Made before fromPassword (fromPassword.map fun _ => before.next) none
      (allocFor before fromPassword) where
  cover q := by
    cases fromPassword with
    | none => simp [allocFor]
    | some chars =>
      have h (n m : Nat) : n ≤ m ∧ m < n + 1 ↔ n = m := by omega
      simp only [allocFor, Heap.next_alloc, Option.map_some, Option.some.injEq, reduceCtorEq,
        or_false]
      exact h _ _
  zeros q hq := by cases hq
  old q hq := by
    cases fromPassword with
    | none => cases hq
    | some chars =>
      cases hq
      rw [allocFor, Heap.cell_alloc_self]
  without h := Option.map_eq_none_iff.mp h

/-- A second array, zeroed, leaves the first as it is. -/
theorem made_both (before : Heap Chars) (fromPassword : Option NSData) (chars : NSData) :
    Made before fromPassword (fromPassword.map fun _ => before.next)
      (some (allocFor before fromPassword).next)
      (wiped ((allocFor before fromPassword).alloc chars)
        (some (allocFor before fromPassword).next)) where
  cover q := by
    have hold := (made_old before fromPassword).cover q
    have hle : before.next ≤ (allocFor before fromPassword).next := by
      cases fromPassword with
      | none => exact Nat.le_refl _
      | some chars => exact Nat.le_succ _
    have hrange (n m k : Nat) (hnm : n ≤ m) : n ≤ k ∧ k < m + 1 ↔ n ≤ k ∧ k < m ∨ m = k := by omega
    simp only [reduceCtorEq, or_false] at hold
    rw [← hold, Option.some.injEq]
    exact hrange _ _ q hle
  zeros q hq := by
    cases hq
    rw [wiped, Heap.cell_write_self]
    exact zeros_replicate _
  old q hq := by
    have hlt := (((made_old before fromPassword).cover q).mpr (.inl hq)).2
    rw [wiped, Heap.cell_write_ne (by omega), Heap.cell_alloc_ne (by omega)]
    exact (made_old before fromPassword).old q hq
  without h := Option.map_eq_none_iff.mp h

theorem made_arrays (c : Cocoa) (fromPassword toPassword : Option NSData) :
    Made c.arrays fromPassword (c.arrayFor fromPassword)
      ((c.withArrayFor fromPassword).arrayFor toPassword)
      (wiped ((c.withArrayFor fromPassword).withArrayFor toPassword).arrays
        ((c.withArrayFor fromPassword).arrayFor toPassword)) := by
  have hfirst : (c.withArrayFor fromPassword).arrays = allocFor c.arrays fromPassword := by
    cases fromPassword <;> rfl
  cases toPassword with
  | none =>
    have h := made_old c.arrays fromPassword
    rw [← hfirst] at h
    exact h
  | some chars =>
    have h := made_both c.arrays fromPassword chars
    rw [← hfirst] at h
    exact h

/-- The world in which a change of password runs. -/
def Cocoa.givenArrays (c : Cocoa) (fromPassword toPassword : Option NSData) : World :=
  (c.withArrayFor fromPassword).givenArray toPassword

/-- A change of password reads the new one from its array. -/
theorem treated_givenArrays (fromPassword toPassword : Option NSData) :
    let c₁ := c.withArrayFor fromPassword
    Ends (changeWalletPassword lib (c.arrayFor fromPassword) (c₁.arrayFor toPassword))
      (c.givenArrays fromPassword toPassword) fun r v =>
        Treated (changeWalletPasswordRefusal lib c.java toPassword) (c.arrayFor fromPassword)
          (wiped (c₁.withArrayFor toPassword).arrays (c₁.arrayFor toPassword)) r v.arrays := by
  have hpassword : ((c.withArrayFor fromPassword).arrayFor toPassword).map
      (c.givenArrays fromPassword toPassword).arrays.cell = toPassword := by
    cases toPassword with
    | none => rfl
    | some chars => exact congrArg some Heap.cell_alloc_self
  have hrefusal : changeWalletPasswordRefusal lib (c.givenArrays fromPassword toPassword)
      (((c.withArrayFor fromPassword).arrayFor toPassword).map
        (c.givenArrays fromPassword toPassword).arrays.cell) =
      changeWalletPasswordRefusal lib c.java toPassword := by
    rw [hpassword]
    cases fromPassword <;> cases toPassword <;> rfl
  dsimp only
  rw [← hrefusal]
  exact treated_changeWalletPassword _ _

theorem gone_changeWalletPassword (fromPassword toPassword : Option NSData) (wantsError : Bool) :
    Ends (changeWalletPasswordToPassword lib fromPassword toPassword wantsError) c fun _ d =>
      PasswordsGone c.arrays d.arrays ↔
        Safe wantsError fromPassword (changeWalletPasswordRefusal lib c.java toPassword) := by
  unfold changeWalletPasswordToPassword
  rw [ends_bind, ends_jCharArray]
  dsimp only
  rw [ends_bind, ends_jCharArray]
  dsimp only
  have hmade := made_arrays c fromPassword toPassword
  have ht : Ends (onBehalfOf 0 (changeWalletPassword lib (c.arrayFor fromPassword)
      ((c.withArrayFor fromPassword).arrayFor toPassword)))
      { ((c.withArrayFor fromPassword).withArrayFor toPassword).java with natives := [] } fun r v =>
        Treated (changeWalletPasswordRefusal lib c.java toPassword) (c.arrayFor fromPassword)
          (wiped ((c.withArrayFor fromPassword).withArrayFor toPassword).arrays
            ((c.withArrayFor fromPassword).arrayFor toPassword)) r v.arrays :=
    treated_givenArrays fromPassword toPassword
  rw [ends_bind]
  refine ends_mono (settled_map (settled_callObjectMethod ht)) fun r d hd => ?_
  generalize (wiped ((c.withArrayFor fromPassword).withArrayFor toPassword).arrays
    ((c.withArrayFor fromPassword).arrayFor toPassword)) = made at hmade hd
  generalize (c.withArrayFor fromPassword).arrayFor toPassword = toArray at hmade ⊢
  generalize c.arrayFor fromPassword = fromArray at hmade hd ⊢
  have hboth {arrays : Heap Chars} (hnext : arrays.next = made.next)
      (hzeros : ∀ q, toArray = some q → Zeros (arrays.cell q)) :
      PasswordsGone c.arrays arrays ↔ ∀ q, fromArray = some q → Zeros (arrays.cell q) :=
    passwordsGone_both (fun q => by rw [hnext]; exact hmade.cover q) hzeros
  cases r with
  | error x =>
    dsimp only
    have hthen : d.arrays = made ∨ d.arrays = wiped made fromArray := by
      rcases hd with ⟨h, -⟩ | ⟨-, -, -, h⟩
      · exact .inr h
      · exact .inl h
    rw [hboth (treated_array hthen 0).1 fun q hq =>
      (treated_array hthen q).2.2 (hmade.zeros q hq), Safe]
    cases fromArray with
    | none =>
      rw [hmade.without rfl]
      exact iff_of_true (fun q hq => by cases hq) fun chars hc => by cases hc
    | some array =>
      rw [hmade.old array rfl]
      have h := (gone_raised hd).2
      simpa using h
  | ok error =>
    dsimp only
    have hlater := treated_array hd.1
    rw [ends_bind]
    refine ends_mono (ends_zero _ _) fun r d₁ ⟨hr, hnext₁, hkeep₁, hz₁⟩ => ?_
    rw [hr]
    dsimp only
    rw [ends_bind]
    refine ends_mono (ends_zero _ _) fun r d₂ ⟨hr, hnext₂, hkeep₂, _⟩ => ?_
    rw [hr]
    dsimp only
    rw [ends_pure, hboth (hnext₂.trans (hnext₁.trans (hlater 0).1)) fun q hq =>
      hkeep₂ q (hkeep₁ q ((hlater q).2.2 (hmade.zeros q hq)))]
    refine iff_of_true (fun q hq => hkeep₂ q (hz₁ q hq ?_)) fun _ _ _ => hd.2
    rw [(hlater q).2.1, hmade.old q hq]
    rfl

/-- When a method exits, the arrays it made contain only zeros, exactly when every exception that
    stops it before a key is derived from the password is handed over as an error. -/
theorem passwords_gone_iff (lib : Lib) (c : Cocoa) (method : PasswordMethod) :
    PasswordsGone c.arrays (after (method.code lib c)).arrays ↔
      ∀ chars, method.password = some chars → ¬ Zeros chars →
        ∀ e, method.refusal lib c = some e → HandedOver method.wantsError e := by
  cases method with
  | createWallet password => exact ends_discard (gone_createWallet password)
  | changeWalletPassword fromPassword toPassword wantsError =>
    exact ends_discard (gone_changeWalletPassword fromPassword toPassword wantsError)
  | signMessage message password wantsError =>
    exact ends_discard (gone_signMessage message password wantsError)
  | isPasswordCorrect password => exact ends_discard (gone_isPasswordCorrect password)
  | sendCoins coins recipient password completion =>
    exact ends_discard (gone_sendCoins coins recipient password completion)
  | sendPaymentRequest sessionId password callback =>
    exact ends_discard (gone_sendPaymentRequest sessionId password callback)
  | exportPrivateKey password wantsError =>
    exact ends_discard (gone_exportPrivateKey password wantsError)

/-- A wallet with a password has been created. -/
def withProtectedWallet : List Event := walletMade (some [112])

theorem malformedRecipient_leaves_password :
    ¬ ∀ (lib : Lib) (events : List Event) (method : PasswordMethod),
      let c := run happen (Cocoa.initial .none true) events
      PasswordsGone c.arrays (after (method.code lib c)).arrays := by
  intro h
  have hzeros := h Lib.knowingNoAddress withProtectedWallet
    (.sendCoins 1 "malformed" (some [112]) none) 1 (by decide +kernel) (by decide +kernel)
  have hleft : ¬ Zeros ((after (PasswordMethod.code Lib.knowingNoAddress
      (.sendCoins 1 "malformed" (some [112]) none)
      (run happen (Cocoa.initial .none true) withProtectedWallet))).arrays.cell 1) := by
    decide +kernel
  exact hleft hzeros

end BitcoinKit
