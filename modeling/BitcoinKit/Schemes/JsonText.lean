import BitcoinKit.Schemes.Json
import BitcoinKit.Schemes.ModifiedUtf8

/-! Which printed JSON values are plain text. Escapes are ASCII, and a zero never stands unescaped; so it
    is the strings in the value that decide.

        print json plain   ⟺   every character of every string of json is of one UTF-16 unit -/

namespace Schemes

/-- Every character has one UTF-16 unit. -/
def IsBasic (s : String) : Prop := BasicChars s.toList

instance (s : String) : Decidable (IsBasic s) := inferInstanceAs (Decidable (BasicChars _))

namespace Json

mutual

/-- The strings of a value, keys included. -/
def strings : Json → List String
  | .num _ => []
  | .str s => [s]
  | .arr items => itemStrings items
  | .obj members => memberStrings members
termination_by structural json => json

def itemStrings : List Json → List String
  | [] => []
  | item :: items => strings item ++ itemStrings items
termination_by structural items => items

def memberStrings : List (String × Json) → List String
  | [] => []
  | member :: members => stringsOfMember member ++ memberStrings members
termination_by structural members => members

def stringsOfMember : String × Json → List String
  | (key, value) => key :: strings value
termination_by structural member => member

end

end Json

/-! ### Characters -/

theorem plainChars_append {cs ds : List Char} :
    PlainChars (cs ++ ds) ↔ PlainChars cs ∧ PlainChars ds := List.forall_mem_append

theorem plainChars_cons {c : Char} {cs : List Char} :
    PlainChars (c :: cs) ↔ IsPlain c ∧ PlainChars cs := List.forall_mem_cons

theorem plainChars_ascii {cs : List Char} (h : ∀ c ∈ cs, 0 < c.toNat ∧ c.toNat < 0x80) :
    PlainChars cs := by
  intro c hc
  obtain ⟨hpos, hlt⟩ := h c hc
  refine ⟨?_, by omega⟩
  rintro rfl
  exact absurd hpos (Nat.lt_irrefl 0)

namespace Json

theorem digitChar_ascii {n : Nat} (h : n < 16) :
    0 < n.digitChar.toNat ∧ n.digitChar.toNat < 0x80 := by
  revert n
  decide

theorem shortEscape_ascii {c e : Char} (h : shortEscape c = some e) :
    c.toNat < 0x80 ∧ 0 < e.toNat ∧ e.toNat < 0x80 := by
  unfold shortEscape at h
  split at h
  · next hsame =>
    cases h
    rcases hsame with rfl | rfl | rfl <;> decide
  · repeat' split at h
    all_goals first
      | (subst_vars; cases h; decide)
      | cases h

/-- A character is escaped as ASCII, or stands for itself. -/
theorem plainChars_escape (c : Char) : PlainChars (escape c) ↔ c.toNat < 0x10000 := by
  unfold escape
  cases hshort : shortEscape c with
  | some e =>
    obtain ⟨hc, hpos, hlt⟩ := shortEscape_ascii hshort
    have hplain : PlainChars ['\\', e] := plainChars_ascii (by simp [hpos, hlt])
    exact iff_of_true hplain (by omega)
  | none =>
    dsimp only
    split
    · next hlow =>
      have hc : c.toNat < 32 := hlow
      have hhigh := digitChar_ascii (Nat.mod_lt (c.toNat / 16) (by decide : 16 > 0))
      have hlast := digitChar_ascii (Nat.mod_lt c.toNat (by decide : 16 > 0))
      have hplain : PlainChars ('\\' :: 'u' :: '0' :: '0' :: hexDigits c.toNat) :=
        plainChars_ascii (by simp [hexDigits, hhigh, hlast])
      exact iff_of_true hplain (by omega)
    · next hlow =>
      have hne : c ≠ '\x00' := by
        rintro rfl
        exact hlow (by decide)
      rw [plainChars_cons]
      exact ⟨fun h => h.1.2, fun h => ⟨⟨hne, h⟩, fun _ hnil => absurd hnil List.not_mem_nil⟩⟩

theorem plainChars_printString (s : String) : PlainChars (printString s) ↔ IsBasic s := by
  have hquote : PlainChars ['"'] := List.forall_mem_singleton.mpr (by decide)
  have hchars : PlainChars (s.toList.flatMap escape) ↔ IsBasic s := by
    constructor
    · intro h c hc
      exact (plainChars_escape c).mp fun d hd => h d (List.mem_flatMap_of_mem hc hd)
    · intro h d hd
      obtain ⟨c, hc, hd⟩ := List.mem_flatMap.mp hd
      exact (plainChars_escape c).mpr (h c hc) d hd
  rw [printString, plainChars_append, ← List.singleton_append, plainChars_append, hchars]
  exact ⟨fun h => h.1.2, fun h => ⟨⟨hquote, h⟩, hquote⟩⟩

theorem isDigit_ascii {c : Char} (h : c.isDigit = true) : 0 < c.toNat ∧ c.toNat < 0x80 := by
  rw [Char.isDigit, Bool.and_eq_true, decide_eq_true_eq, decide_eq_true_eq] at h
  have hlow : 48 ≤ c.toNat := h.1
  have hhigh : c.toNat ≤ 57 := h.2
  omega

theorem plainChars_number (n : Int) : PlainChars (toString n).toList := by
  have hdigits : ∀ k : Nat, PlainChars (Nat.toDigits 10 k) := fun k =>
    plainChars_ascii fun c hc => isDigit_ascii (isDigit_toDigits k c hc)
  rw [toList_toString_int]
  split
  · exact hdigits _
  · exact plainChars_cons.mpr ⟨by decide, hdigits _⟩

theorem plainChars_joined (texts : List (List Char)) :
    PlainChars (joined [','] texts) ↔ ∀ text ∈ texts, PlainChars text := by
  have hcomma : IsPlain ',' := by decide
  induction texts with
  | nil => simp [joined, PlainChars]
  | cons text texts ih =>
    cases texts with
    | nil => simp [joined]
    | cons other texts =>
      have hrest : PlainChars ([','] ++ joined [','] (other :: texts)) ↔
          PlainChars (joined [','] (other :: texts)) := by
        rw [plainChars_append, plainChars_cons]
        simp only [hcomma, true_and, and_iff_right_iff_imp]
        exact fun _ _ hnil => absurd hnil List.not_mem_nil
      rw [joined_cons_cons, List.append_assoc, plainChars_append, hrest, List.forall_mem_cons]
      exact and_congr Iff.rfl ih

/-- Brackets add no character that is not plain. -/
theorem plainChars_bracketed {first last : Char} (hfirst : IsPlain first) (hlast : IsPlain last)
    (cs : List Char) : PlainChars (first :: cs ++ [last]) ↔ PlainChars cs := by
  rw [plainChars_append, plainChars_cons]
  exact ⟨fun h => h.1.2, fun h => ⟨⟨hfirst, h⟩, List.forall_mem_singleton.mpr hlast⟩⟩

mutual

theorem plainChars_print : ∀ json : Json,
    PlainChars (print json) ↔ ∀ s ∈ strings json, IsBasic s
  | .num n => by
    rw [print, strings]
    exact iff_of_true (plainChars_number n) fun _ hnil => absurd hnil List.not_mem_nil
  | .str s => by rw [print, strings, plainChars_printString, List.forall_mem_singleton]
  | .arr items => by
    rw [print, strings, plainChars_bracketed (by decide) (by decide), plainChars_joined,
      plainChars_items items]
  | .obj members => by
    rw [print, strings, plainChars_bracketed (by decide) (by decide), plainChars_joined,
      plainChars_members members]

theorem plainChars_items : ∀ items : List Json,
    (∀ text ∈ printItems items, PlainChars text) ↔ ∀ s ∈ itemStrings items, IsBasic s
  | [] => by simp [printItems, itemStrings]
  | item :: items => by
    rw [printItems, itemStrings, List.forall_mem_cons, List.forall_mem_append,
      plainChars_print item, plainChars_items items]

theorem plainChars_members : ∀ members : List (String × Json),
    (∀ text ∈ printMembers members, PlainChars text) ↔ ∀ s ∈ memberStrings members, IsBasic s
  | [] => by simp [printMembers, memberStrings]
  | (key, value) :: members => by
    rw [printMembers, memberStrings, List.forall_mem_cons, List.forall_mem_append,
      plainChars_members members]
    have hcolon : IsPlain ':' := by decide
    rw [printMember, stringsOfMember, plainChars_append, plainChars_cons, plainChars_printString,
      plainChars_print value, List.forall_mem_cons]
    simp only [hcolon, true_and]

end

end Json

end Schemes
