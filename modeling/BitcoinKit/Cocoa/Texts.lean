import BitcoinKit.Java.Paging
import BitcoinKit.Schemes.JsonText

/-! Texts across the bridge. Java gives its texts out in modified UTF-8, and takes them in so; the Cocoa
    side reads and writes UTF-8, as C strings:

        String ── GetStringUTFChars ──▶ bytes ── stringWithUTF8String: ──▶ NSString
        String ◀── NewStringUTF ── bytes up to a zero ◀── UTF8String ── NSString -/

namespace BitcoinKit
open Schemes

/-- A text of Java: UTF-16 units, paired or not. -/
abbrev JString := List UInt16

/-- What is read of bytes that are passed as a C string. -/
def cString (bytes : Bytes) : Bytes := bytes.takeWhile (· ≠ 0)

/-- `+[NSString stringWithUTF8String:]`, which gives `nil` for bytes that are not UTF-8. -/
def stringWithUTF8String (bytes : Bytes) : Option String :=
  String.fromUTF8? (cString bytes).toByteArray

def nsStringFromJString (javaString : Option JString) : Option String :=
  match javaString with
  | some units => stringWithUTF8String (modifiedUtf8 units)
  | none => none

/-- `NewStringUTF`; `malformed` is what the virtual machine makes of bytes that are not in its
    encoding. -/
def newStringUTF (malformed : Bytes → JString) (bytes : Bytes) : JString :=
  (decodeModified (cString bytes)).getD (malformed (cString bytes))

def jStringFromNSString (malformed : Bytes → JString) (string : String) : JString :=
  newStringUTF malformed (string.toList.flatMap String.utf8EncodeChar)

/-- The text up to its first zero. -/
def untilZero (text : String) : String := .ofList (text.toList.takeWhile (· ≠ '\x00'))

/-- `request.toString()`, as Java passes it on. -/
def JSONObject.jString (object : JSONObject) : JString := utf16 (.ofList object.toJson.print)

/-! ### From Java -/

/-- The bytes of a Java text hold no zero, so all of them are read. -/
theorem cString_modifiedUtf8 (units : JString) : cString (modifiedUtf8 units) = modifiedUtf8 units := by
  refine List.takeWhile_eq_self_iff.mpr fun b hb => ?_
  rw [decide_eq_true_eq]
  rintro rfl
  exact zero_not_mem_modifiedUtf8 units hb

/-- A Java text arrives exactly when it is made of plain characters, and then unchanged. -/
theorem nsString_eq_some {units : JString} {text : String} :
    nsStringFromJString (some units) = some text ↔
      units = utf16 text ∧ PlainChars text.toList := by
  rw [nsStringFromJString, stringWithUTF8String, cString_modifiedUtf8, fromUTF8_eq_some,
    modifiedUtf8_eq_utf8, utf16]

theorem nsString_utf16 (text : String) :
    nsStringFromJString (some (utf16 text)) =
      if PlainChars text.toList then some text else none := by
  split
  · next hplain => exact nsString_eq_some.mpr ⟨rfl, hplain⟩
  · next hplain =>
    refine Option.eq_none_iff_forall_ne_some.mpr fun other hother => hplain ?_
    obtain ⟨hunits, hother⟩ := nsString_eq_some.mp hother
    rw [plainChars_iff] at hother ⊢
    rw [utf16, utf16] at hunits
    rwa [hunits]

/-- An object's text arrives exactly when its strings are of characters of one unit. -/
theorem nsString_jString (object : JSONObject) :
    nsStringFromJString (some object.jString) =
      if ∀ s ∈ object.toJson.strings, IsBasic s then some (.ofList object.toJson.print)
      else none := by
  have hplain := Json.plainChars_print object.toJson
  rw [JSONObject.jString, nsString_utf16, String.toList_ofList]
  by_cases h : PlainChars object.toJson.print
  · rw [if_pos h, if_pos (hplain.mp h)]
  · rw [if_neg h, if_neg fun hall => h (hplain.mpr hall)]

/-! ### To Java -/

theorem toList_untilZero (text : String) :
    (untilZero text).toList = text.toList.takeWhile (· ≠ '\x00') := String.toList_ofList

/-- A Cocoa text arrives up to its first zero, if every character there is of one unit. -/
theorem jString_eq (malformed : Bytes → JString) (text : String) :
    jStringFromNSString malformed text =
      if IsBasic (untilZero text) then utf16 (untilZero text)
      else malformed ((untilZero text).toList.flatMap String.utf8EncodeChar) := by
  have hzero : '\x00' ∉ (untilZero text).toList := by
    intro h
    rw [toList_untilZero] at h
    have := List.mem_takeWhile_imp h
    simp at this
  rw [jStringFromNSString, newStringUTF, cString, takeWhile_utf8, ← toList_untilZero,
    decodeModified_utf8 hzero]
  by_cases hall : BasicChars (untilZero text).toList
  · have hbasic : IsBasic (untilZero text) := hall
    rw [if_pos hall, if_pos hbasic]
    rfl
  · have hbasic : ¬IsBasic (untilZero text) := hall
    rw [if_neg hall, if_neg hbasic]
    rfl

end BitcoinKit
