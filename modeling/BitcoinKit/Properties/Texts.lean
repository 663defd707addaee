import BitcoinKit.Cocoa.Crossing

/-! Which texts cross the bridge, and what becomes of a payment request whose texts do not. -/

namespace BitcoinKit
open Schemes

/-- A Java text arrives, unchanged, exactly when each of its units is a character other than zero. A
    Cocoa text arrives up to its first zero, unchanged exactly as far as the virtual machine's own
    encoding goes; and what arrived so comes back. -/
theorem texts_cross (malformed : Bytes → JString) :
    (∀ units text, nsStringFromJString (some units) = some text ↔
      units = utf16 text ∧ PlainChars text.toList) ∧
    (∀ text, jStringFromNSString malformed text =
      if IsBasic (untilZero text) then utf16 (untilZero text)
      else malformed ((untilZero text).toList.flatMap String.utf8EncodeChar)) ∧
    ∀ text, IsBasic (untilZero text) →
      nsStringFromJString (some (jStringFromNSString malformed text)) = some (untilZero text) := by
  refine ⟨fun units text => nsString_eq_some, jString_eq malformed, fun text hbasic => ?_⟩
  rw [jString_eq, if_pos hbasic, nsString_eq_some]
  refine ⟨rfl, fun c hc => ⟨?_, hbasic c hc⟩⟩
  rintro rfl
  rw [toList_untilZero] at hc
  have := List.mem_takeWhile_imp hc
  simp at this

/-! ### Payment requests -/

/-- The callback of a loaded payment request is given up in any case. It is called, with the very
    details Java made, exactly when every text in them is of characters of one unit; otherwise the
    bridge raises and nobody is told. -/
theorem details_delivered {lib : Lib} {session : PaymentSession} {w : World} {details : JSONObject}
    (hdetails : outcome (getPaymentRequestDetails lib session w) = .ok details) {c : Cocoa}
    {callbackId : NSUInteger} {callback : Block} (hc : c.callbacks callbackId = some callback) :
    (after (deliverDetails details.jString callbackId c)).callbacks callbackId = none ∧
    outcome (deliverDetails details.jString callbackId c) =
      if ∀ s ∈ session.texts, IsBasic s then .ok (some (callback, some details.toJson))
      else .error ⟨"data parameter is nil"⟩ := by
  have hnone : Function.update c.callbacks callbackId none callbackId = none :=
    Function.update_self callbackId none c.callbacks
  have hends : Ends (deliverDetails details.jString callbackId) c fun r d =>
      d.callbacks callbackId = none ∧ r =
        if ∀ s ∈ session.texts, IsBasic s then .ok (some (callback, some details.toJson))
        else .error ⟨"data parameter is nil"⟩ := by
    unfold deliverDetails retrieveCallback
    simp only [ends_bind, ends_get, ends_modify, ends_pure, hc]
    rw [nsString_jString]
    by_cases hbasic : ∀ s ∈ session.texts, IsBasic s
    · rw [if_pos hbasic, if_pos ((strings_details hdetails).mpr hbasic), objectFromJSONString,
        Json.parse_print]
      exact ⟨hnone, rfl⟩
    · rw [if_neg hbasic, if_neg fun hall => hbasic ((strings_details hdetails).mp hall)]
      exact ⟨hnone, rfl⟩
  exact hends

/-- A manager that waits for one payment request, and a request whose memo has a character of two
    units: nobody is told that it was loaded. -/
theorem details_delivered_clef :
    let c : Cocoa := { Cocoa.initial .none true with callbacks := fun k => if k = 1 then some 5 else none }
    let details : JSONObject := [("amount", .num 7), ("memo", .str "𝄞")]
    (after (deliverDetails details.jString 1 c)).callbacks 1 = none ∧
      outcome (deliverDetails details.jString 1 c) = .error ⟨"data parameter is nil"⟩ := by
  intro c details
  have h := @details_delivered .fair ⟨0, .mainNet, none, none, 7, some "𝄞", none⟩ (.initial .none)
    details rfl c 1 5 rfl
  rwa [if_neg (by decide +kernel)] at h

end BitcoinKit
