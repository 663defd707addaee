import BitcoinKit.Schemes.Decimal
import Mathlib.Data.List.Forall2
import Mathlib.Data.List.TakeWhile

/-! JSON texts: a printer without blanks, a parser that skips them, and that the parser reads back what
    the printer writes.

        value    number | string | "[" values "]" | "{" members "}"
        values   value ("," value)*
        members  string ":" value ("," string ":" value)*

    Numbers are integers here. Every reader takes the characters from some point on and gives what it
    read with the characters that are left. -/

namespace Schemes

inductive Json where
  | num (n : Int)
  | str (s : String)
  | arr (items : List Json)
  | obj (members : List (String × Json))

namespace Json

/-! ### Printing -/

def hexDigits (n : Nat) : List Char := [(n / 16 % 16).digitChar, (n % 16).digitChar]

/-- The letter of a short escape. -/
def shortEscape (c : Char) : Option Char :=
  if c = '"' ∨ c = '\\' ∨ c = '/' then some c
  else if c = '\x08' then some 'b'
  else if c = '\t' then some 't'
  else if c = '\n' then some 'n'
  else if c = '\x0c' then some 'f'
  else if c = '\r' then some 'r'
  else none

/-- The characters a character of a string is printed as. -/
def escape (c : Char) : List Char :=
  match shortEscape c with
  | some e => ['\\', e]
  | none => if c < ' ' then '\\' :: 'u' :: '0' :: '0' :: hexDigits c.toNat else [c]

def printString (s : String) : List Char := '"' :: s.toList.flatMap escape ++ ['"']

/-- Texts with a separator between them. -/
def joined (separator : List Char) : List (List Char) → List Char
  | [] => []
  | text :: texts => text ++ texts.flatMap (separator ++ ·)

mutual

def print : Json → List Char
  | .num n => (toString n).toList
  | .str s => printString s
  | .arr items => '[' :: joined [','] (printItems items) ++ [']']
  | .obj members => '{' :: joined [','] (printMembers members) ++ ['}']
termination_by structural json => json

def printItems : List Json → List (List Char)
  | [] => []
  | item :: items => print item :: printItems items
termination_by structural items => items

def printMembers : List (String × Json) → List (List Char)
  | [] => []
  | member :: members => printMember member :: printMembers members
termination_by structural members => members

def printMember : String × Json → List Char
  | (key, value) => printString key ++ ':' :: print value
termination_by structural member => member

end

theorem printItems_eq_map : ∀ items : List Json, printItems items = items.map print
  | [] => rfl
  | item :: items => by rw [printItems, printItems_eq_map items, List.map_cons]

/-! ### Parsing -/

def isBlank (c : Char) : Bool := c = ' ' || c = '\t' || c = '\n' || c = '\r'

def skipBlanks (cs : List Char) : List Char := cs.dropWhile isBlank

def hexValue (c : Char) : Option Nat :=
  if c.isDigit then some (c.toNat - '0'.toNat)
  else if 'a' ≤ c ∧ c ≤ 'f' then some (c.toNat - 'a'.toNat + 10)
  else if 'A' ≤ c ∧ c ≤ 'F' then some (c.toNat - 'A'.toNat + 10)
  else none

/-- The character a short escape stands for. -/
def unescape (c : Char) : Option Char :=
  if c = '"' ∨ c = '\\' ∨ c = '/' then some c
  else if c = 'b' then some '\x08'
  else if c = 't' then some '\t'
  else if c = 'n' then some '\n'
  else if c = 'f' then some '\x0c'
  else if c = 'r' then some '\r'
  else none

/-- The character after `\u`. -/
def readHex : List Char → Option (Char × List Char)
  | a :: b :: c :: d :: rest => do
    let a ← hexValue a
    let b ← hexValue b
    let c ← hexValue c
    let d ← hexValue d
    some (.ofNat (16 * (16 * (16 * a + b) + c) + d), rest)
  | _ => none

/-- The character after a backslash. -/
def readEscape : List Char → Option (Char × List Char)
  | [] => none
  | c :: rest =>
    if c = 'u' then readHex rest
    else do
      let c ← unescape c
      some (c, rest)

/-- One character of a string, escaped or not. -/
def readChar : List Char → Option (Char × List Char)
  | [] => none
  | c :: rest =>
    if c = '\\' then readEscape rest
    else if c < ' ' then none
    else some (c, rest)

/-- The characters up to the closing quote. -/
def readChars : Nat → List Char → Option (List Char × List Char)
  | 0, _ => none
  | fuel + 1, cs =>
    if cs.head? = some '"' then some ([], cs.tail)
    else do
      let (c, rest) ← readChar cs
      let (chars, rest) ← readChars fuel rest
      some (c :: chars, rest)

def readDigits (cs : List Char) : Option (Nat × List Char) :=
  let digits := cs.takeWhile Char.isDigit
  if digits = [] ∨ (digits.head? = some '0' ∧ digits.tail ≠ []) then none
  else some (Nat.ofDigitChars 10 digits 0, cs.dropWhile Char.isDigit)

def readNumber (cs : List Char) : Option (Int × List Char) :=
  if cs.head? = some '-' then do
    let (n, rest) ← readDigits cs.tail
    some (-n, rest)
  else do
    let (n, rest) ← readDigits cs
    some (n, rest)

/-- What `read` reads, once and then after every comma, up to the closing bracket. -/
def readList {α : Type} (close : Char) (read : List Char → Option (α × List Char)) :
    Nat → List Char → Option (List α × List Char)
  | 0, _ => none
  | fuel + 1, cs => do
    let (a, rest) ← read cs
    match skipBlanks rest with
    | [] => none
    | c :: rest =>
      if c = ',' then do
        let (as, rest) ← readList close read fuel rest
        some (a :: as, rest)
      else if c = close then some ([a], rest)
      else none

/-- Like `readList`, but the list may be empty. -/
def readBracketed {α : Type} (close : Char) (read : List Char → Option (α × List Char)) (fuel : Nat)
    (cs : List Char) : Option (List α × List Char) :=
  if (skipBlanks cs).head? = some close then some ([], (skipBlanks cs).tail)
  else readList close read fuel cs

def readString (fuel : Nat) (cs : List Char) : Option (String × List Char) := do
  let (chars, rest) ← readChars fuel cs
  some (.ofList chars, rest)

def readMember {α : Type} (read : List Char → Option (α × List Char)) (fuel : Nat)
    (cs : List Char) : Option ((String × α) × List Char) :=
  match skipBlanks cs with
  | [] => none
  | c :: rest =>
    if c = '"' then do
      let (key, rest) ← readString fuel rest
      match skipBlanks rest with
      | [] => none
      | c :: rest =>
        if c = ':' then do
          let (value, rest) ← read rest
          some ((key, value), rest)
        else none
    else none

def readValue : Nat → List Char → Option (Json × List Char)
  | 0, _ => none
  | fuel + 1, cs =>
    match skipBlanks cs with
    | [] => none
    | c :: rest =>
      if c = '"' then do
        let (s, rest) ← readString fuel rest
        some (.str s, rest)
      else if c = '[' then do
        let (items, rest) ← readBracketed ']' (readValue fuel) fuel rest
        some (.arr items, rest)
      else if c = '{' then do
        let (members, rest) ← readBracketed '}' (readMember (readValue fuel) fuel) fuel rest
        some (.obj members, rest)
      else do
        let (n, rest) ← readNumber (c :: rest)
        some (.num n, rest)

/-- The value a text is, blanks around it aside. -/
def parse (text : String) : Option Json := do
  let (json, rest) ← readValue (text.toList.length + 1) text.toList
  if skipBlanks rest = [] then some json else none

/-! ### Strings are read back -/

theorem unescape_shortEscape {c e : Char} (h : shortEscape c = some e) :
    unescape e = some c ∧ e ≠ 'u' := by
  unfold shortEscape at h
  split at h
  · next hsame =>
    cases h
    refine ⟨if_pos hsame, ?_⟩
    rcases hsame with rfl | rfl | rfl <;> decide
  · repeat' split at h
    all_goals first
      | (subst_vars; cases h; decide)
      | cases h

theorem hexValue_digitChar {n : Nat} (h : n < 16) : hexValue n.digitChar = some n := by
  revert n
  decide

theorem readHex_hexDigits {c : Char} (h : c < ' ') (rest : List Char) :
    readHex ('0' :: '0' :: hexDigits c.toNat ++ rest) = some (c, rest) := by
  have hlt : c.toNat < 32 := h
  have hhigh := hexValue_digitChar (Nat.mod_lt (c.toNat / 16) (by decide : 16 > 0))
  have hlow := hexValue_digitChar (Nat.mod_lt c.toNat (by decide : 16 > 0))
  have hzero : hexValue '0' = some 0 := by decide
  have hvalue : 16 * (16 * (16 * 0 + 0) + c.toNat / 16 % 16) + c.toNat % 16 = c.toNat := by omega
  change readHex ('0' :: '0' :: _ :: _ :: rest) = _
  unfold readHex
  dsimp only [hexDigits]
  rw [hzero, hhigh, hlow]
  simp only [Option.bind_eq_bind, Option.bind_some]
  rw [hvalue, Char.ofNat_toNat]

/-- Every character is read back. -/
theorem readChar_escape (c : Char) (rest : List Char) :
    readChar (escape c ++ rest) = some (c, rest) := by
  unfold escape
  cases hshort : shortEscape c with
  | some e =>
    obtain ⟨hback, hu⟩ := unescape_shortEscape hshort
    change readEscape (e :: rest) = _
    rw [readEscape, if_neg hu, hback]
    rfl
  | none =>
    have hplain : c ≠ '\\' := by
      rintro rfl
      cases hshort
    dsimp only
    split
    · next hlow => exact readHex_hexDigits hlow rest
    · next hlow =>
      change (if c = '\\' then _ else _) = _
      rw [if_neg hplain, if_neg hlow]
      rfl

/-- No character is printed as a closing quote. -/
theorem escape_head (c : Char) : ∃ first others, escape c = first :: others ∧ first ≠ '"' := by
  unfold escape
  cases hshort : shortEscape c with
  | some e => exact ⟨_, _, rfl, by decide⟩
  | none =>
    dsimp only
    split
    · exact ⟨_, _, rfl, by decide⟩
    · refine ⟨c, [], rfl, ?_⟩
      rintro rfl
      cases hshort

theorem readChars_escape (rest : List Char) : ∀ (chars : List Char) (fuel : Nat),
    chars.length < fuel →
      readChars fuel (chars.flatMap escape ++ '"' :: rest) = some (chars, rest)
  | [], fuel + 1, _ => rfl
  | c :: chars, fuel + 1, h => by
    have ih := readChars_escape rest chars fuel (Nat.lt_of_succ_lt_succ h)
    obtain ⟨first, others, hescape, hquote⟩ := escape_head c
    have hhead : ((c :: chars).flatMap escape ++ '"' :: rest).head? ≠ some '"' := by
      rw [List.flatMap_cons, hescape]
      simpa using hquote
    rw [readChars, if_neg hhead, List.flatMap_cons, List.append_assoc, readChar_escape]
    simp only [Option.bind_eq_bind, Option.bind_some, ih]

/-- A printed string is at least as long as the string. -/
theorem length_le_flatMap_escape (chars : List Char) :
    chars.length ≤ (chars.flatMap escape).length := by
  induction chars with
  | nil => simp
  | cons c chars ih =>
    obtain ⟨first, others, hescape, -⟩ := escape_head c
    rw [List.flatMap_cons, hescape]
    simp only [List.length_cons, List.length_append]
    omega

theorem readString_print (s : String) (rest : List Char) (fuel : Nat)
    (h : (printString s).length ≤ fuel + 1) :
    readString fuel (s.toList.flatMap escape ++ '"' :: rest) = some (s, rest) := by
  have hlength := length_le_flatMap_escape s.toList
  unfold printString at h
  simp only [List.cons_append, List.length_cons, List.length_append, List.length_nil] at h
  rw [readString, readChars_escape rest s.toList fuel (by omega)]
  simp

/-! ### Numbers are read back -/

/-- What may follow a number: anything but another digit. -/
def Apart (rest : List Char) : Prop := ∀ c ∈ rest.head?, c.isDigit = false

theorem takeWhile_digits {digits rest : List Char} (h : ∀ c ∈ digits, c.isDigit = true)
    (hrest : Apart rest) :
    (digits ++ rest).takeWhile Char.isDigit = digits ∧
      (digits ++ rest).dropWhile Char.isDigit = rest := by
  have hstop : rest.takeWhile Char.isDigit = [] ∧ rest.dropWhile Char.isDigit = rest := by
    cases rest with
    | nil => exact ⟨rfl, rfl⟩
    | cons c rest =>
      have hc := hrest c rfl
      exact ⟨List.takeWhile_cons_of_neg (by simp [hc]), List.dropWhile_cons_of_neg (by simp [hc])⟩
  rw [List.takeWhile_append_of_pos h, List.dropWhile_append_of_pos h, hstop.1, hstop.2]
  exact ⟨List.append_nil _, rfl⟩

theorem readDigits_toDigits (n : Nat) {rest : List Char} (hrest : Apart rest) :
    readDigits (Nat.toDigits 10 n ++ rest) = some (n, rest) := by
  obtain ⟨htake, hdrop⟩ := takeWhile_digits (isDigit_toDigits n) hrest
  have hcanonical : ¬ (Nat.toDigits 10 n = [] ∨
      ((Nat.toDigits 10 n).head? = some '0' ∧ (Nat.toDigits 10 n).tail ≠ [])) := by
    rintro (hnil | ⟨hhead, htail⟩)
    · exact Nat.toDigits_ne_nil hnil
    · rw [toDigits_head n hhead] at htail
      exact htail rfl
  unfold readDigits
  dsimp only
  rw [htake, hdrop, if_neg hcanonical, Nat.ofDigitChars_ten_toDigits]

theorem readNumber_toString (n : Int) {rest : List Char} (hrest : Apart rest) :
    readNumber ((toString n).toList ++ rest) = some (n, rest) := by
  rw [toList_toString_int]
  split
  · next hpos =>
    have hhead : (Nat.toDigits 10 n.toNat ++ rest).head? ≠ some '-' := by
      rw [List.head?_append_of_ne_nil _ Nat.toDigits_ne_nil]
      intro hminus
      have := isDigit_toDigits n.toNat '-' (List.mem_of_head? hminus)
      revert this
      decide
    rw [readNumber, if_neg hhead, readDigits_toDigits _ hrest]
    simp [Int.toNat_of_nonneg hpos]
  · next hneg =>
    have hback : -((-n).toNat : Int) = n := by omega
    rw [List.cons_append, readNumber, List.head?_cons, if_pos rfl, List.tail_cons,
      readDigits_toDigits _ hrest]
    simp only [Option.bind_eq_bind, Option.bind_some, hback]

/-! ### Lists and members are read back -/

variable {α : Type} {read : List Char → Option (α × List Char)}

/-- `read` reads `text` as `a`, whatever comes after it, and whatever blanks before. -/
def Reads (read : List Char → Option (α × List Char)) (text : List Char) (a : α) : Prop :=
  ∀ blanks rest, (∀ c ∈ blanks, isBlank c = true) → Apart rest →
    read (blanks ++ text ++ rest) = some (a, rest)

theorem skipBlanks_append {blanks : List Char} (h : ∀ c ∈ blanks, isBlank c = true) {c : Char}
    (hc : isBlank c = false) (rest : List Char) : skipBlanks (blanks ++ c :: rest) = c :: rest := by
  unfold skipBlanks
  rw [List.dropWhile_append_of_pos h, List.dropWhile_cons_of_neg (by simp [hc])]

theorem skipBlanks_cons {c : Char} (hc : isBlank c = false) (rest : List Char) :
    skipBlanks (c :: rest) = c :: rest :=
  List.dropWhile_cons_of_neg (by simp [hc])

theorem apart_cons {c : Char} (hc : c.isDigit = false) (rest : List Char) : Apart (c :: rest) := by
  intro d hd
  cases hd
  exact hc

theorem isDigit_of_isBlank {c : Char} (h : isBlank c = true) : c.isDigit = false := by
  unfold isBlank at h
  simp only [Bool.or_eq_true, decide_eq_true_eq] at h
  rcases h with ((rfl | rfl) | rfl) | rfl <;> decide

theorem apart_append {blanks : List Char} (h : ∀ c ∈ blanks, isBlank c = true) {c : Char}
    (hc : c.isDigit = false) (rest : List Char) : Apart (blanks ++ c :: rest) := by
  intro d hd
  cases blanks with
  | nil => exact apart_cons hc rest d hd
  | cons b blanks =>
    cases hd
    exact isDigit_of_isBlank (h d (List.mem_cons_self ..))

/-- A bracket that ends a list. -/
structure Closes (close : Char) : Prop where
  apart : close.isDigit = false
  shown : isBlank close = false
  comma : close ≠ ','

theorem joined_cons_cons (separator text other : List Char) (texts : List (List Char)) :
    joined separator (text :: other :: texts) =
      text ++ separator ++ joined separator (other :: texts) := by
  simp [joined]

/-- A list with blanks around its commas, read to its end. -/
theorem readList_joined {close : Char} (hclose : Closes close) {before after : List Char}
    (hbefore : ∀ c ∈ before, isBlank c = true) (hafter : ∀ c ∈ after, isBlank c = true)
    (rest : List Char) {texts : List (List Char)} {as : List α}
    (h : List.Forall₂ (Reads read) texts as) : ∀ {text a} {blanks : List Char} {fuel : Nat},
    Reads read text a → (∀ c ∈ blanks, isBlank c = true) → texts.length < fuel →
      readList close read fuel
        (blanks ++ joined (before ++ ',' :: after) (text :: texts) ++ close :: rest) =
          some (a :: as, rest) := by
  induction h with
  | nil =>
    intro text a blanks fuel ha hblanks hfuel
    obtain ⟨fuel, rfl⟩ := Nat.exists_eq_add_one_of_ne_zero (Nat.ne_of_gt hfuel)
    have hread := ha blanks (close :: rest) hblanks (apart_cons hclose.apart rest)
    rw [joined, List.flatMap_nil, List.append_nil, readList, hread]
    simp only [Option.bind_eq_bind, Option.bind_some]
    rw [skipBlanks_cons hclose.shown]
    dsimp only
    rw [if_neg hclose.comma, if_pos rfl]
  | @cons other b texts as hb hbs ih =>
    intro text a blanks fuel ha hblanks hfuel
    obtain ⟨fuel, rfl⟩ := Nat.exists_eq_add_one_of_ne_zero (Nat.ne_of_gt (Nat.zero_lt_of_lt hfuel))
    have hmore := ih hb hafter (Nat.lt_of_succ_lt_succ hfuel)
    have hsplit : blanks ++ joined (before ++ ',' :: after) (text :: other :: texts) ++ close :: rest =
        blanks ++ text ++ (before ++ ',' ::
          (after ++ joined (before ++ ',' :: after) (other :: texts) ++ close :: rest)) := by
      rw [joined_cons_cons]
      simp
    have hread := ha blanks _ hblanks (apart_append hbefore (by decide : ','.isDigit = false)
      (after ++ joined (before ++ ',' :: after) (other :: texts) ++ close :: rest))
    rw [hsplit, readList, hread]
    simp only [Option.bind_eq_bind, Option.bind_some]
    rw [skipBlanks_append hbefore (by decide)]
    dsimp only
    rw [if_pos rfl, hmore]
    rfl

/-- The text does not begin with a blank or with the bracket. -/
def StartsApart (close : Char) (text : List Char) : Prop :=
  ∃ c rest, text = c :: rest ∧ isBlank c = false ∧ c ≠ close

theorem readBracketed_joined {close : Char} (hclose : Closes close) {blanks before after : List Char}
    (hblanks : ∀ c ∈ blanks, isBlank c = true) (hbefore : ∀ c ∈ before, isBlank c = true)
    (hafter : ∀ c ∈ after, isBlank c = true) (rest : List Char) {texts : List (List Char)}
    {as : List α} (h : List.Forall₂ (Reads read) texts as)
    (hstart : ∀ text ∈ texts, StartsApart close text) {fuel : Nat} (hfuel : texts.length ≤ fuel) :
    readBracketed close read fuel
      (blanks ++ joined (before ++ ',' :: after) texts ++ close :: rest) = some (as, rest) := by
  unfold readBracketed
  cases h with
  | nil =>
    have hskip := skipBlanks_append hblanks hclose.shown rest
    rw [joined, List.append_nil, hskip]
    exact if_pos rfl
  | @cons text a texts as ha has =>
    obtain ⟨c, cs, rfl, hshown, hne⟩ := hstart text (List.mem_cons_self ..)
    have hskip := skipBlanks_append hblanks hshown
      (cs ++ texts.flatMap (before ++ ',' :: after ++ ·) ++ close :: rest)
    have hjoined : blanks ++ joined (before ++ ',' :: after) ((c :: cs) :: texts) ++ close :: rest =
        blanks ++ c :: (cs ++ texts.flatMap (before ++ ',' :: after ++ ·) ++ close :: rest) := by
      simp [joined]
    rw [hjoined, hskip, List.head?_cons, if_neg (by simpa using hne), ← hjoined]
    exact readList_joined hclose hbefore hafter rest has ha hblanks hfuel

/-- The same without any blanks. -/
theorem readBracketed_compact {close : Char} (hclose : Closes close) (rest : List Char)
    {texts : List (List Char)} {as : List α} (h : List.Forall₂ (Reads read) texts as)
    (hstart : ∀ text ∈ texts, StartsApart close text) {fuel : Nat} (hfuel : texts.length ≤ fuel) :
    readBracketed close read fuel (joined [','] texts ++ close :: rest) = some (as, rest) :=
  @readBracketed_joined _ _ _ hclose [] [] [] (by simp) (by simp) (by simp) rest _ _ h hstart _ hfuel

theorem reads_member {fuel : Nat} {key : String} {text : List Char} {a : α}
    (ha : Reads read text a) (hfuel : (printString key).length ≤ fuel + 1) :
    Reads (readMember read fuel) (printString key ++ ':' :: text) (key, a) := by
  intro blanks rest hblanks hrest
  have htext : blanks ++ (printString key ++ ':' :: text) ++ rest =
      blanks ++ '"' :: (key.toList.flatMap escape ++ '"' :: (':' :: (text ++ rest))) := by
    simp [printString]
  have hvalue := ha [] rest (by simp) hrest
  rw [htext, readMember, skipBlanks_append hblanks (by decide)]
  dsimp only
  rw [if_pos rfl, readString_print key _ fuel hfuel]
  simp only [Option.bind_eq_bind, Option.bind_some]
  rw [List.nil_append] at hvalue
  rw [skipBlanks_cons (by decide)]
  dsimp only
  rw [if_pos rfl, hvalue]
  rfl

/-! ### Values are read back -/

/-- How a printed number begins. -/
theorem toString_starts (n : Int) : ∃ c cs, (toString n).toList = c :: cs ∧
    (c = '-' ∨ c.isDigit = true) := by
  rw [toList_toString_int]
  split
  · cases hd : Nat.toDigits 10 n.toNat with
    | nil => exact absurd hd Nat.toDigits_ne_nil
    | cons c cs =>
      exact ⟨c, cs, rfl, .inr (isDigit_toDigits n.toNat c (hd ▸ List.mem_cons_self ..))⟩
  · exact ⟨'-', _, rfl, .inl rfl⟩

theorem number_char {c : Char} (h : c = '-' ∨ c.isDigit = true) :
    isBlank c = false ∧ c ≠ '"' ∧ c ≠ '[' ∧ c ≠ '{' ∧ c ≠ ']' := by
  rcases h with rfl | h
  · decide
  · refine ⟨?_, ?_, ?_, ?_, ?_⟩
    · cases hb : isBlank c with
      | false => rfl
      | true =>
        rw [isDigit_of_isBlank hb] at h
        cases h
    all_goals
      rintro rfl
      revert h
      decide

theorem print_starts (json : Json) : StartsApart ']' (print json) := by
  cases json with
  | num n =>
    obtain ⟨c, cs, hcs, hc⟩ := toString_starts n
    exact ⟨c, cs, hcs, (number_char hc).1, (number_char hc).2.2.2.2⟩
  | str s => exact ⟨'"', _, rfl, by decide, by decide⟩
  | arr items => exact ⟨'[', _, rfl, by decide, by decide⟩
  | obj members => exact ⟨'{', _, rfl, by decide, by decide⟩

theorem length_head_joined (separator text : List Char) (texts : List (List Char)) :
    text.length ≤ (joined separator (text :: texts)).length := by
  simp [joined]

theorem length_tail_joined (separator text : List Char) (texts : List (List Char)) :
    (joined separator texts).length ≤ (joined separator (text :: texts)).length := by
  cases texts with
  | nil => simp [joined]
  | cons other texts =>
    rw [joined_cons_cons]
    simp only [List.length_append]
    omega

/-- There are no more texts than separators, and one. -/
theorem length_joined (c : Char) : ∀ texts : List (List Char),
    texts.length ≤ (joined [c] texts).length + 1
  | [] => by simp
  | [text] => by simp
  | text :: other :: texts => by
    have ih := length_joined c (other :: texts)
    rw [joined_cons_cons]
    simp only [List.length_append, List.length_cons, List.length_nil] at ih ⊢
    omega

theorem closes_bracket : Closes ']' := ⟨by decide, by decide, by decide⟩

theorem closes_brace : Closes '}' := ⟨by decide, by decide, by decide⟩

theorem printMembers_starts : ∀ members : List (String × Json),
    ∀ text ∈ printMembers members, StartsApart '}' text
  | [], _, h => absurd h List.not_mem_nil
  | (key, value) :: members, text, h => by
    rcases List.mem_cons.mp h with rfl | h
    · exact ⟨'"', _, rfl, by decide, by decide⟩
    · exact printMembers_starts members text h

theorem printItems_starts : ∀ items : List Json, ∀ text ∈ printItems items, StartsApart ']' text
  | [], _, h => absurd h List.not_mem_nil
  | item :: items, text, h => by
    rcases List.mem_cons.mp h with rfl | h
    · exact print_starts item
    · exact printItems_starts items text h

theorem reads_num (n : Int) (fuel : Nat) : Reads (readValue (fuel + 1)) (print (.num n)) (.num n) := by
  intro blanks rest hblanks hrest
  obtain ⟨c, cs, hcs, hc⟩ := toString_starts n
  obtain ⟨hshown, hquote, hbracket, hbrace, -⟩ := number_char hc
  have hnumber := readNumber_toString n hrest
  rw [hcs] at hnumber
  rw [print, hcs, List.append_assoc, List.cons_append, readValue,
    skipBlanks_append hblanks hshown]
  dsimp only
  rw [if_neg hquote, if_neg hbracket, if_neg hbrace, ← List.cons_append, hnumber]
  rfl

mutual

/-- A printed value is read back, whatever stands around it. -/
theorem reads_print : ∀ (json : Json) (fuel : Nat), (print json).length < fuel →
    Reads (readValue fuel) (print json) json
  | .num n, fuel + 1, _ => reads_num n fuel
  | .str s, fuel + 1, h => by
    intro blanks rest hblanks _
    have htext : blanks ++ print (.str s) ++ rest =
        blanks ++ '"' :: (s.toList.flatMap escape ++ '"' :: rest) := by
      simp [print, printString]
    have hread := readString_print s rest fuel (Nat.le_of_lt h)
    rw [htext, readValue, skipBlanks_append hblanks (by decide)]
    dsimp only
    rw [if_pos rfl, hread]
    rfl
  | .arr items, fuel + 1, h => by
    intro blanks rest hblanks _
    have hlength : (joined [','] (printItems items)).length < fuel := by
      simp only [print, List.length_cons, List.length_append, List.length_nil] at h
      omega
    have hcount : (printItems items).length ≤ fuel := by
      have := length_joined ',' (printItems items)
      omega
    have hread := readBracketed_compact closes_bracket rest (reads_items items fuel hlength)
      (printItems_starts items) hcount
    have htext : blanks ++ print (.arr items) ++ rest =
        blanks ++ '[' :: (joined [','] (printItems items) ++ ']' :: rest) := by
      simp [print]
    rw [htext, readValue, skipBlanks_append hblanks (by decide)]
    dsimp only
    rw [if_neg (by decide), if_pos rfl, hread]
    rfl
  | .obj members, fuel + 1, h => by
    intro blanks rest hblanks _
    have hlength : (joined [','] (printMembers members)).length < fuel := by
      simp only [print, List.length_cons, List.length_append, List.length_nil] at h
      omega
    have hcount : (printMembers members).length ≤ fuel := by
      have := length_joined ',' (printMembers members)
      omega
    have hread := readBracketed_compact closes_brace rest (reads_members members fuel hlength)
      (printMembers_starts members) hcount
    have htext : blanks ++ print (.obj members) ++ rest =
        blanks ++ '{' :: (joined [','] (printMembers members) ++ '}' :: rest) := by
      simp [print]
    rw [htext, readValue, skipBlanks_append hblanks (by decide)]
    dsimp only
    rw [if_neg (by decide), if_neg (by decide), if_pos rfl, hread]
    rfl

theorem reads_items : ∀ (items : List Json) (fuel : Nat),
    (joined [','] (printItems items)).length < fuel →
      List.Forall₂ (Reads (readValue fuel)) (printItems items) items
  | [], _, _ => .nil
  | item :: items, fuel, h => by
    have hhead := length_head_joined [','] (print item) (printItems items)
    have htail := length_tail_joined [','] (print item) (printItems items)
    rw [printItems] at h ⊢
    exact .cons (reads_print item fuel (by omega)) (reads_items items fuel (by omega))

theorem reads_members : ∀ (members : List (String × Json)) (fuel : Nat),
    (joined [','] (printMembers members)).length < fuel →
      List.Forall₂ (Reads (readMember (readValue fuel) fuel)) (printMembers members) members
  | [], _, _ => .nil
  | (key, value) :: members, fuel, h => by
    have hhead := length_head_joined [','] (printMember (key, value)) (printMembers members)
    have htail := length_tail_joined [','] (printMember (key, value)) (printMembers members)
    rw [printMembers] at h ⊢
    have hmember : (printMember (key, value)).length =
        (printString key).length + (print value).length + 1 := by
      rw [printMember, List.length_append, List.length_cons, Nat.add_assoc]
    refine .cons ?_ (reads_members members fuel (by omega))
    exact reads_member (reads_print value fuel (by omega)) (by omega)

end

/-- Parsing a printed value gives the value. -/
theorem parse_print (json : Json) : parse (.ofList (print json)) = some json := by
  have hread := reads_print json _ (Nat.lt_succ_self (print json).length) [] [] (by simp)
    (by simp [Apart])
  rw [List.nil_append, List.append_nil] at hread
  rw [parse, String.toList_ofList, hread]
  rfl

theorem length_joined_blanks (before after : List Char) : ∀ texts : List (List Char),
    (joined [','] texts).length ≤ (joined (before ++ ',' :: after) texts).length
  | [] => le_rfl
  | [text] => by simp [joined]
  | text :: other :: texts => by
    have ih := length_joined_blanks before after (other :: texts)
    rw [joined_cons_cons, joined_cons_cons]
    simp only [List.length_append, List.length_cons, List.length_nil] at ih ⊢
    omega

/-- An array may have blanks after its bracket, around its commas and at its end. -/
theorem parse_array (items : List Json) {blanks before after trailing : List Char}
    (hblanks : ∀ c ∈ blanks, isBlank c = true) (hbefore : ∀ c ∈ before, isBlank c = true)
    (hafter : ∀ c ∈ after, isBlank c = true) (htrailing : ∀ c ∈ trailing, isBlank c = true) :
    parse (.ofList ('[' :: (blanks ++ joined (before ++ ',' :: after) (printItems items) ++
      ']' :: trailing))) = some (.arr items) := by
  have hcompact := length_joined_blanks before after (printItems items)
  have hcount := length_joined ',' (printItems items)
  have hvalue : ∀ fuel, (joined (before ++ ',' :: after) (printItems items)).length + 1 < fuel →
      readValue (fuel + 1) ('[' :: (blanks ++ joined (before ++ ',' :: after) (printItems items) ++
        ']' :: trailing)) = some (.arr items, trailing) := by
    intro fuel hfuel
    have hread := readBracketed_joined closes_bracket hblanks hbefore hafter trailing
      (reads_items items fuel (by omega)) (printItems_starts items) (by omega : _ ≤ fuel)
    rw [readValue, skipBlanks_cons (by decide)]
    dsimp only
    rw [if_neg (by decide), if_pos rfl, hread]
    rfl
  rw [parse, String.toList_ofList, hvalue]
  · exact if_pos (List.dropWhile_eq_nil_iff.mpr htrailing)
  · simp only [List.length_cons, List.length_append]
    omega

end Json

end Schemes
