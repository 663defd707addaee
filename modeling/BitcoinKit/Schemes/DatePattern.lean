import BitcoinKit.Schemes.Civil
import BitcoinKit.Schemes.Json

/-! Dates as texts, by a pattern. A run of one letter stands for a field, as a number of at least so many
    digits, or for the name of the time zone; anything between apostrophes, and anything that is not a
    letter, stands for itself.

        yyyy-MM-dd HH:mm:ss z    ⟷    2014-02-03 10:11:12 GMT

    Numbers are read as far as there are digits, so what was written is read back if no number is
    followed by another one. -/

namespace Schemes

inductive DateField where | year | month | day | hour | minute | second
  deriving DecidableEq, Repr

def DateTime.get (d : DateTime) : DateField → Nat
  | .year => d.year
  | .month => d.month
  | .day => d.day
  | .hour => d.hour
  | .minute => d.minute
  | .second => d.second

/-- The names of the zone without an offset. -/
inductive TimeZone where | gmt | utc
  deriving DecidableEq, Repr

def TimeZone.text : TimeZone → List Char
  | .gmt => ['G', 'M', 'T']
  | .utc => ['U', 'T', 'C']

inductive PatternItem where
  | number (field : DateField) (width : Nat)
  | literal (c : Char)
  | zone
  deriving DecidableEq, Repr

/-! ### Patterns -/

/-- The characters of a pattern, each with whether it is quoted. -/
def scanQuotes : Bool → List Char → List (Char × Bool)
  | _, [] => []
  | quoted, c :: rest =>
    if c = '\x27' then
      match rest with
      | '\x27' :: rest => (c, true) :: scanQuotes quoted rest
      | rest => scanQuotes (!quoted) rest
    else (c, quoted) :: scanQuotes quoted rest

/-- Runs of one unquoted letter, with their lengths; any other character is a run of its own. -/
def letterRuns : List (Char × Bool) → List ((Char × Bool) × Nat)
  | [] => []
  | c :: rest =>
    match letterRuns rest with
    | (d, n) :: runs =>
      if c = d ∧ c.2 = false ∧ c.1.isAlpha then (c, n + 1) :: runs else (c, 1) :: (d, n) :: runs
    | [] => [(c, 1)]

def fieldOf (c : Char) : Option DateField :=
  if c = 'y' then some .year
  else if c = 'M' then some .month
  else if c = 'd' then some .day
  else if c = 'H' then some .hour
  else if c = 'm' then some .minute
  else if c = 's' then some .second
  else none

/-- What a run stands for. Years of two digits, months and zones by their full names, and the other
    letters are not treated. -/
def patternItem : (Char × Bool) × Nat → Option PatternItem
  | ((c, true), _) => some (.literal c)
  | ((c, false), n) =>
    match fieldOf c with
    | some field =>
      if (field = .year ∧ n = 2) ∨ (field = .month ∧ 3 ≤ n) then none else some (.number field n)
    | none =>
      if c = 'z' ∧ n ≤ 3 then some .zone
      else if c.isAlpha then none
      else some (.literal c)

def compilePattern (pattern : String) : Option (List PatternItem) :=
  (letterRuns (scanQuotes false pattern.toList)).mapM patternItem

/-! ### Writing and reading -/

def PatternItem.write (zone : TimeZone) (d : DateTime) : PatternItem → List Char
  | .number field width => (Nat.toDigits 10 (d.get field)).leftpad width '0'
  | .literal c => [c]
  | .zone => zone.text

def formatDateTime (zone : TimeZone) (pattern : String) (d : DateTime) : Option String :=
  (compilePattern pattern).map fun items => .ofList (items.flatMap (PatternItem.write zone d))

/-- What follows the name of a zone. -/
def readZone (cs : List Char) : Option (List Char) :=
  if cs.take 3 = TimeZone.gmt.text ∨ cs.take 3 = TimeZone.utc.text then some (cs.drop 3) else none

/-- The numbers read so far, by field. -/
abbrev DateParts := DateField → Option Nat

/-- Read a text to its end. -/
def readItems : List PatternItem → List Char → DateParts → Option DateParts
  | [], cs, parts => if cs = [] then some parts else none
  | .number field _ :: items, cs, parts =>
    let digits := cs.takeWhile Char.isDigit
    if digits = [] then none
    else readItems items (cs.dropWhile Char.isDigit)
      (Function.update parts field (some (Nat.ofDigitChars 10 digits 0)))
  | .literal c :: items, cs, parts =>
    if cs.head? = some c then readItems items cs.tail parts else none
  | .zone :: items, cs, parts =>
    match readZone cs with
    | some rest => readItems items rest parts
    | none => none

/-- The date of the parts, if each is there and they are a date. -/
def DateTime.ofParts (parts : DateParts) : Option DateTime := do
  let year ← parts .year
  let month ← parts .month
  let day ← parts .day
  let hour ← parts .hour
  let minute ← parts .minute
  let second ← parts .second
  if h : 1970 ≤ year ∧ 1 ≤ month ∧ month ≤ 12 ∧ 1 ≤ day ∧ day ≤ monthLength year month ∧
      hour < 24 ∧ minute < 60 ∧ second < 60 then
    some ⟨year, month, day, hour, minute, second, h.1, h.2.1, h.2.2.1, h.2.2.2.1, h.2.2.2.2.1,
      h.2.2.2.2.2.1, h.2.2.2.2.2.2.1, h.2.2.2.2.2.2.2⟩
  else none

def parseDateTime (pattern text : String) : Option DateTime := do
  let items ← compilePattern pattern
  let parts ← readItems items text.toList fun _ => none
  DateTime.ofParts parts

/-! ### What is written is read back -/

/-- The items can follow a number. -/
def endsNumber : List PatternItem → Bool
  | [] => true
  | .number _ _ :: _ => false
  | .literal c :: _ => !c.isDigit
  | .zone :: _ => true

/-- No number runs into the next one. -/
def separated : List PatternItem → Bool
  | [] => true
  | .number _ _ :: items => endsNumber items && separated items
  | _ :: items => separated items

/-- The fields that are written. -/
def patternFields (items : List PatternItem) : List DateField :=
  items.filterMap fun item =>
    match item with
    | .number field _ => some field
    | _ => none

theorem isDigit_leftpad {width n : Nat} :
    ∀ c ∈ (Nat.toDigits 10 n).leftpad width '0', c.isDigit = true := by
  intro c hc
  rw [List.leftpad, List.mem_append] at hc
  rcases hc with hc | hc
  · rw [List.eq_of_mem_replicate hc]
    rfl
  · exact isDigit_toDigits n c hc

theorem ofDigitChars_leftpad (width n : Nat) :
    Nat.ofDigitChars 10 ((Nat.toDigits 10 n).leftpad width '0') 0 = n := by
  rw [List.leftpad, Nat.ofDigitChars_append, Nat.ofDigitChars_replicate_zero, Nat.mul_zero,
    Nat.ofDigitChars_ten_toDigits]

theorem leftpad_ne_nil (width n : Nat) : (Nat.toDigits 10 n).leftpad width '0' ≠ [] := by
  rw [List.leftpad]
  exact List.append_ne_nil_of_right_ne_nil _ Nat.toDigits_ne_nil

theorem apart_write {items : List PatternItem} (h : endsNumber items = true) (zone : TimeZone)
    (d : DateTime) : Json.Apart (items.flatMap (PatternItem.write zone d)) := by
  cases items with
  | nil =>
    intro c hc
    cases hc
  | cons item items =>
    cases item with
    | number field width => cases h
    | literal c =>
      intro c' hc'
      cases hc'
      simpa [endsNumber] using h
    | zone =>
      intro c hc
      cases zone <;> cases hc <;> rfl

theorem readZone_text (zone : TimeZone) (rest : List Char) :
    readZone (zone.text ++ rest) = some rest := by
  cases zone <;> rfl

/-- Reading what was written leaves the field values of the date among the parts. -/
theorem readItems_write (zone : TimeZone) (d : DateTime) : ∀ (items : List PatternItem)
    (parts : DateParts), separated items = true →
    readItems items (items.flatMap (PatternItem.write zone d)) parts =
      some fun field => if field ∈ patternFields items then some (d.get field) else parts field
  | [], parts, _ => rfl
  | .number field width :: items, parts, h => by
    rw [separated, Bool.and_eq_true] at h
    obtain ⟨hend, hsep⟩ := h
    obtain ⟨htake, hdrop⟩ := Json.takeWhile_digits (@isDigit_leftpad width (d.get field))
      (apart_write hend zone d)
    have ih := readItems_write zone d items
      (Function.update parts field (some (d.get field))) hsep
    rw [List.flatMap_cons, PatternItem.write, readItems, htake, hdrop,
      if_neg (leftpad_ne_nil width _), ofDigitChars_leftpad, ih]
    refine congrArg some (funext fun other => ?_)
    have hmem : other ∈ patternFields (.number field width :: items) ↔
        other = field ∨ other ∈ patternFields items := List.mem_cons
    simp only [hmem]
    by_cases hother : other = field
    · subst hother
      simp
    · simp [hother]
  | .literal c :: items, parts, h => by
    have ih := readItems_write zone d items parts h
    rw [List.flatMap_cons, PatternItem.write, List.singleton_append, readItems, List.head?_cons,
      if_pos rfl]
    exact ih
  | .zone :: items, parts, h => by
    have ih := readItems_write zone d items parts h
    rw [List.flatMap_cons, PatternItem.write, readItems, readZone_text]
    exact ih

theorem ofParts_get (d : DateTime) : DateTime.ofParts (fun field => some (d.get field)) = some d := by
  obtain ⟨year, month, day, hour, minute, second, h1, h2, h3, h4, h5, h6, h7, h8⟩ := d
  exact dif_pos ⟨h1, h2, h3, h4, h5, h6, h7, h8⟩

/-- A date that was written with all its fields, none of them running into the next, is read back. -/
theorem parse_format {pattern : String} {items : List PatternItem}
    (hpattern : compilePattern pattern = some items) (hsep : separated items = true)
    (hfields : ∀ field, field ∈ patternFields items) (zone : TimeZone) (d : DateTime) :
    (formatDateTime zone pattern d).bind (parseDateTime pattern) = some d := by
  have hread := readItems_write zone d items (fun _ => none) hsep
  simp only [hfields, if_true] at hread
  rw [formatDateTime, hpattern, Option.map_some, Option.bind_some, parseDateTime, hpattern]
  simp only [Option.bind_eq_bind, Option.bind_some, String.toList_ofList]
  rw [hread]
  exact ofParts_get d

/-- A written date has digits, the pattern's own characters and letters of the zone. -/
theorem mem_write {items : List PatternItem} {zone : TimeZone} {d : DateTime} {c : Char}
    (h : c ∈ items.flatMap (PatternItem.write zone d)) :
    c.isDigit = true ∨ .literal c ∈ items ∨ c ∈ zone.text := by
  obtain ⟨item, hitem, hc⟩ := List.mem_flatMap.mp h
  cases item with
  | number field width => exact .inl (isDigit_leftpad c hc)
  | literal c' =>
    rw [PatternItem.write, List.mem_singleton] at hc
    exact .inr (.inl (hc ▸ hitem))
  | zone => exact .inr (.inr hc)

end Schemes
