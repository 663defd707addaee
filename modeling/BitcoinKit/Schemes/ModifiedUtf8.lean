import Mathlib.Data.List.Basic

/-! Modified UTF-8: the encoding a virtual machine gives its texts out in. Each UTF-16 unit is encoded on
    its own, and no byte is zero, so a text can stand as a C string.

        unit              modified                UTF-8
        0                 C0 80                   00
        1 … 7F            one byte                the same
        80 … 7FF          two bytes               the same
        800 … FFFF        three bytes             the same, but no code for a surrogate
        a pair            three bytes each        four bytes for the pair -/

namespace Schemes

/-- The UTF-16 units of a character. -/
def utf16Units (c : Char) : List UInt16 :=
  let n := c.toNat
  if n < 0x10000 then [.ofNat n]
  else [.ofNat (0xd800 + (n - 0x10000) / 0x400), .ofNat (0xdc00 + (n - 0x10000) % 0x400)]

def utf16 (text : String) : List UInt16 := text.toList.flatMap utf16Units

/-- The bytes of one unit. -/
def modifiedUnit (u : UInt16) : List UInt8 :=
  let n := u.toNat
  if 0 < n ∧ n < 0x80 then [.ofNat n]
  else if n < 0x800 then [.ofNat (0xc0 + n / 64), .ofNat (0x80 + n % 64)]
  else [.ofNat (0xe0 + n / 4096), .ofNat (0x80 + n / 64 % 64), .ofNat (0x80 + n % 64)]

def modifiedUtf8 (units : List UInt16) : List UInt8 := units.flatMap modifiedUnit

/-- A byte that goes on with a unit. -/
def isTail (b : UInt8) : Bool := 0x80 ≤ b.toNat && b.toNat < 0xc0

/-- Read bytes back into units; `none` where they are not of this encoding. -/
def decodeModified : List UInt8 → Option (List UInt16)
  | [] => some []
  | a :: rest =>
    if a.toNat < 0x80 then (decodeModified rest).map (.ofNat a.toNat :: ·)
    else if a.toNat < 0xc0 then none
    else if a.toNat < 0xe0 then
      match rest with
      | b :: rest =>
        if isTail b then
          (decodeModified rest).map (.ofNat ((a.toNat - 0xc0) * 64 + (b.toNat - 0x80)) :: ·)
        else none
      | [] => none
    else if a.toNat < 0xf0 then
      match rest with
      | b :: c :: rest =>
        if isTail b && isTail c then
          (decodeModified rest).map (.ofNat ((a.toNat - 0xe0) * 4096 + (b.toNat - 0x80) * 64 +
            (c.toNat - 0x80)) :: ·)
        else none
      | _ => none
    else none

/-! ### There and back -/

theorem toNat_byte {n : Nat} (h : n < 256) : (UInt8.ofNat n).toNat = n := by
  rw [UInt8.toNat_ofNat']
  exact Nat.mod_eq_of_lt h

theorem isTail_byte {n : Nat} (h : n < 64) : isTail (.ofNat (0x80 + n)) = true := by
  rw [isTail, toNat_byte (by omega), Bool.and_eq_true, decide_eq_true_eq, decide_eq_true_eq]
  omega

theorem decodeModified_one {n : Nat} (h : n < 0x80) (rest : List UInt8) :
    decodeModified (.ofNat n :: rest) = (decodeModified rest).map (.ofNat n :: ·) := by
  rw [decodeModified.eq_def]
  dsimp only
  rw [toNat_byte (by omega), if_pos h]

theorem decodeModified_two {m n : Nat} (hm : m < 32) (hn : n < 64) (rest : List UInt8) :
    decodeModified (.ofNat (0xc0 + m) :: .ofNat (0x80 + n) :: rest) =
      (decodeModified rest).map (.ofNat (m * 64 + n) :: ·) := by
  rw [decodeModified.eq_def]
  dsimp only
  rw [toNat_byte (by omega), toNat_byte (by omega), isTail_byte hn, if_neg (by omega),
    if_neg (by omega), if_pos (by omega), if_pos rfl]
  simp only [Nat.add_sub_cancel_left]

theorem decodeModified_three {l m n : Nat} (hl : l < 16) (hm : m < 64) (hn : n < 64)
    (rest : List UInt8) :
    decodeModified (.ofNat (0xe0 + l) :: .ofNat (0x80 + m) :: .ofNat (0x80 + n) :: rest) =
      (decodeModified rest).map (.ofNat (l * 4096 + m * 64 + n) :: ·) := by
  rw [decodeModified.eq_def]
  dsimp only
  rw [toNat_byte (by omega), toNat_byte (by omega), toNat_byte (by omega), isTail_byte hm,
    isTail_byte hn, if_neg (by omega), if_neg (by omega), if_neg (by omega), if_pos (by omega),
    if_pos (by rfl)]
  simp only [Nat.add_sub_cancel_left]

/-- Whatever a unit is, its bytes are read back as it. -/
theorem decodeModified_modifiedUnit (u : UInt16) (rest : List UInt8) :
    decodeModified (modifiedUnit u ++ rest) = (decodeModified rest).map (u :: ·) := by
  have hu := u.toNat_lt
  have hof : ∀ n, n = u.toNat → UInt16.ofNat n = u := by
    rintro n rfl
    exact UInt16.ofNat_toNat
  unfold modifiedUnit
  dsimp only
  split
  · case isTrue h =>
    rw [List.singleton_append, decodeModified_one h.2, hof _ rfl]
  · split
    · case isFalse.isTrue h =>
      simp only [List.cons_append, List.nil_append]
      rw [decodeModified_two (by omega) (by omega), hof _ (by omega)]
    · case isFalse.isFalse h =>
      simp only [List.cons_append, List.nil_append]
      rw [decodeModified_three (by omega) (by omega) (by omega), hof _ (by omega)]

/-! ### Where it is UTF-8 -/

/-- The character has one unit, and its bytes are its UTF-8. -/
def IsPlain (c : Char) : Prop := c ≠ '\x00' ∧ c.toNat < 0x10000

instance (c : Char) : Decidable (IsPlain c) := inferInstanceAs (Decidable (_ ∧ _))

def PlainChars (cs : List Char) : Prop := ∀ c ∈ cs, IsPlain c

instance (cs : List Char) : Decidable (PlainChars cs) := List.decidableBAll _ cs

theorem toNat_pos {c : Char} (h : c ≠ '\x00') : 0 < c.toNat := by
  rw [Nat.pos_iff_ne_zero]
  intro h0
  exact h (Char.toNat_inj.mp h0)

theorem utf16Units_plain {c : Char} (h : c.toNat < 0x10000) : utf16Units c = [.ofNat c.toNat] := by
  rw [utf16Units]
  exact if_pos h

theorem modifiedUnit_plain {c : Char} (h : IsPlain c) :
    modifiedUnit (.ofNat c.toNat) = String.utf8EncodeChar c := by
  obtain ⟨h0, hlt⟩ := h
  have hpos := toNat_pos h0
  have hn : (UInt16.ofNat c.toNat).toNat = c.toNat := by
    rw [UInt16.toNat_ofNat']
    exact Nat.mod_eq_of_lt hlt
  have hv : c.val.toNat = c.toNat := rfl
  unfold modifiedUnit String.utf8EncodeChar
  dsimp only
  rw [hn, hv]
  by_cases h1 : c.toNat < 0x80
  · rw [if_pos ⟨hpos, h1⟩, if_pos (by omega)]
  · rw [if_neg (by omega), if_neg (by omega : ¬c.toNat ≤ 0x7f)]
    by_cases h2 : c.toNat < 0x800
    · have hm : c.toNat / 64 % 32 = c.toNat / 64 := Nat.mod_eq_of_lt (by omega)
      rw [if_pos h2, if_pos (by omega), hm, Nat.add_comm, Nat.add_comm 0x80]
    · have hm : c.toNat / 4096 % 16 = c.toNat / 4096 := Nat.mod_eq_of_lt (by omega)
      rw [if_neg h2, if_neg (by omega), if_pos (by omega), hm, Nat.add_comm, Nat.add_comm 0x80,
        Nat.add_comm 0x80]

/-- Texts that start alike start with the same byte. -/
theorem cons_byte_inj {m n : Nat} {bs cs : List UInt8} (h : UInt8.ofNat m :: bs = .ofNat n :: cs)
    (hm : m < 256) (hn : n < 256) : m = n ∧ bs = cs := by
  obtain ⟨hfirst, hrest⟩ := List.cons.inj h
  rw [← toNat_byte hm, hfirst, toNat_byte hn]
  exact ⟨rfl, hrest⟩

theorem modifiedUnit_cases (u : UInt16) :
    (0 < u.toNat ∧ u.toNat < 0x80 ∧ modifiedUnit u = [.ofNat u.toNat]) ∨
    ((u.toNat = 0 ∨ 0x80 ≤ u.toNat) ∧ u.toNat < 0x800 ∧
      modifiedUnit u = [.ofNat (0xc0 + u.toNat / 64), .ofNat (0x80 + u.toNat % 64)]) ∨
    (0x800 ≤ u.toNat ∧ u.toNat < 0x10000 ∧ modifiedUnit u =
      [.ofNat (0xe0 + u.toNat / 4096), .ofNat (0x80 + u.toNat / 64 % 64),
        .ofNat (0x80 + u.toNat % 64)]) := by
  have hu := u.toNat_lt
  by_cases h1 : 0 < u.toNat ∧ u.toNat < 0x80
  · exact .inl ⟨h1.1, h1.2, if_pos h1⟩
  · by_cases h2 : u.toNat < 0x800
    · exact .inr (.inl ⟨by omega, h2, (if_neg h1).trans (if_pos h2)⟩)
    · exact .inr (.inr ⟨by omega, hu, (if_neg h1).trans (if_neg h2)⟩)

theorem utf8EncodeChar_cases (c : Char) :
    (c.toNat < 0x80 ∧ String.utf8EncodeChar c = [.ofNat c.toNat]) ∨
    (0x80 ≤ c.toNat ∧ c.toNat < 0x800 ∧ String.utf8EncodeChar c =
      [.ofNat (c.toNat / 64 % 32 + 0xc0), .ofNat (c.toNat % 64 + 0x80)]) ∨
    (0x800 ≤ c.toNat ∧ c.toNat < 0x10000 ∧ (c.toNat < 0xd800 ∨ 0xe000 ≤ c.toNat) ∧
      String.utf8EncodeChar c =
        [.ofNat (c.toNat / 4096 % 16 + 0xe0), .ofNat (c.toNat / 64 % 64 + 0x80),
          .ofNat (c.toNat % 64 + 0x80)]) ∨
    (0x10000 ≤ c.toNat ∧ String.utf8EncodeChar c =
      [.ofNat (c.toNat / 262144 % 8 + 0xf0), .ofNat (c.toNat / 4096 % 64 + 0x80),
        .ofNat (c.toNat / 64 % 64 + 0x80), .ofNat (c.toNat % 64 + 0x80)]) := by
  have hvalid : c.toNat < 0xd800 ∨ 0xdfff < c.toNat ∧ c.toNat < 0x110000 := c.valid
  by_cases h1 : c.toNat ≤ 0x7f
  · exact .inl ⟨by omega, if_pos h1⟩
  · by_cases h2 : c.toNat ≤ 0x7ff
    · exact .inr (.inl ⟨by omega, by omega, (if_neg h1).trans (if_pos h2)⟩)
    · by_cases h3 : c.toNat ≤ 0xffff
      · exact .inr (.inr (.inl ⟨by omega, by omega, by omega,
          (if_neg h1).trans ((if_neg h2).trans (if_pos h3))⟩))
      · exact .inr (.inr (.inr ⟨by omega,
          (if_neg h1).trans ((if_neg h2).trans (if_neg h3))⟩))

/-- Where bytes of one encoding start with those of the other, they are the same plain character. -/
theorem plain_of_modifiedUnit {u : UInt16} {c : Char} {rest more : List UInt8}
    (h : modifiedUnit u ++ rest = String.utf8EncodeChar c ++ more) :
    IsPlain c ∧ u = .ofNat c.toNat ∧ rest = more := by
  have hplain : 0 < c.toNat → u.toNat = c.toNat → u.toNat < 0x10000 → rest = more →
      IsPlain c ∧ u = .ofNat c.toNat ∧ rest = more := by
    intro hpos hn hlt hrest
    refine ⟨⟨?_, by omega⟩, by rw [← hn, UInt16.ofNat_toNat], hrest⟩
    rintro rfl
    exact absurd hpos (Nat.lt_irrefl 0)
  -- the first byte tells how many there are
  rcases modifiedUnit_cases u with ⟨hpos, hlt, hu⟩ | ⟨hu0, hlt, hu⟩ | ⟨hge, hlt, hu⟩ <;>
    rcases utf8EncodeChar_cases c with ⟨hc1, hc⟩ | ⟨hc1, hc2, hc⟩ | ⟨hc1, hc2, -, hc⟩ | ⟨hc1, hc⟩ <;>
    rw [hu, hc] at h <;>
    obtain ⟨hfirst, h⟩ := cons_byte_inj h (by omega) (by omega) <;>
    try omega
  · exact hplain (by omega) hfirst (by omega) h
  · obtain ⟨hsecond, h⟩ := cons_byte_inj h (by omega) (by omega)
    exact hplain (by omega) (by omega) (by omega) h
  · obtain ⟨hsecond, h⟩ := cons_byte_inj h (by omega) (by omega)
    obtain ⟨hthird, h⟩ := cons_byte_inj h (by omega) (by omega)
    exact hplain (by omega) (by omega) (by omega) h

theorem utf16Units_ne_nil (c : Char) : utf16Units c ≠ [] := by
  unfold utf16Units
  dsimp only
  split <;> exact List.cons_ne_nil _ _

theorem modifiedUnit_ne_nil (u : UInt16) : modifiedUnit u ≠ [] := by
  rcases modifiedUnit_cases u with ⟨-, -, hu⟩ | ⟨-, -, hu⟩ | ⟨-, -, hu⟩ <;>
    rw [hu] <;> exact List.cons_ne_nil _ _

theorem utf8EncodeChar_ne_nil (c : Char) : String.utf8EncodeChar c ≠ [] := by
  rcases utf8EncodeChar_cases c with ⟨-, hc⟩ | ⟨-, -, hc⟩ | ⟨-, -, -, hc⟩ | ⟨-, hc⟩ <;>
    rw [hc] <;> exact List.cons_ne_nil _ _

/-- The bytes of units are the UTF-8 of a text exactly when the units are those of the text and its
    characters are plain. -/
theorem modifiedUtf8_eq_utf8 {chars : List Char} : ∀ {units : List UInt16},
    modifiedUtf8 units = chars.flatMap String.utf8EncodeChar ↔
      units = chars.flatMap utf16Units ∧ PlainChars chars := by
  unfold PlainChars
  induction chars with
  | nil =>
    intro units
    cases units with
    | nil => simp [modifiedUtf8]
    | cons u units => simp [modifiedUtf8, modifiedUnit_ne_nil]
  | cons c chars ih =>
    intro units
    rw [List.flatMap_cons, List.flatMap_cons, List.forall_mem_cons]
    cases units with
    | nil =>
      have hbytes := utf8EncodeChar_ne_nil c
      have hunits := utf16Units_ne_nil c
      simp [modifiedUtf8, hbytes, hunits]
    | cons u units =>
      rw [modifiedUtf8, List.flatMap_cons]
      constructor
      · intro h
        obtain ⟨hc, rfl, hrest⟩ := plain_of_modifiedUnit h
        obtain ⟨rfl, hplain⟩ := ih.mp hrest
        rw [utf16Units_plain hc.2]
        exact ⟨rfl, hc, hplain⟩
      · rintro ⟨hunits, hc, hplain⟩
        rw [utf16Units_plain hc.2, List.singleton_append, List.cons.injEq] at hunits
        obtain ⟨rfl, hrest⟩ := hunits
        rw [modifiedUnit_plain hc, ← ih.mpr ⟨hrest, hplain⟩]
        rfl

/-- The unit is a plain character's. -/
def PlainUnit (u : UInt16) : Prop := ∃ c, IsPlain c ∧ u = .ofNat c.toNat

/-- A character is plain by its units: no plain character has the number of a surrogate. -/
theorem plainUnits_iff (c : Char) : (∀ u ∈ utf16Units c, PlainUnit u) ↔ IsPlain c := by
  constructor
  · intro h
    unfold utf16Units at h
    dsimp only at h
    split at h
    · next hlt =>
      obtain ⟨d, hd, heq⟩ := h _ List.mem_cons_self
      have hn := congrArg UInt16.toNat heq
      rw [UInt16.toNat_ofNat', UInt16.toNat_ofNat', Nat.mod_eq_of_lt hlt, Nat.mod_eq_of_lt hd.2] at hn
      rwa [Char.toNat_inj.mp hn]
    · next hge =>
      obtain ⟨d, hd, heq⟩ := h _ List.mem_cons_self
      have hc : c.toNat < 0x110000 := by
        have hvalid : c.toNat < 0xd800 ∨ 0xdfff < c.toNat ∧ c.toNat < 0x110000 := c.valid
        omega
      have hvalid : d.toNat < 0xd800 ∨ 0xdfff < d.toNat ∧ d.toNat < 0x110000 := d.valid
      have hn := congrArg UInt16.toNat heq
      rw [UInt16.toNat_ofNat', UInt16.toNat_ofNat', Nat.mod_eq_of_lt hd.2,
        Nat.mod_eq_of_lt (by omega)] at hn
      omega
  · intro h u hu
    rw [utf16Units_plain h.2, List.mem_singleton] at hu
    exact ⟨c, h, hu⟩

theorem plainChars_iff (chars : List Char) :
    PlainChars chars ↔ ∀ u ∈ chars.flatMap utf16Units, PlainUnit u := by
  constructor
  · intro h u hu
    obtain ⟨c, hc, hu⟩ := List.mem_flatMap.mp hu
    exact (plainUnits_iff c).mpr (h c hc) u hu
  · intro h c hc
    exact (plainUnits_iff c).mp fun u hu => h u (List.mem_flatMap_of_mem hc hu)

theorem byte_ne_zero {n : Nat} (hpos : 0 < n) (hlt : n < 256) : (0 : UInt8) ≠ .ofNat n := by
  intro h0
  have hn := toNat_byte hlt
  rw [← h0] at hn
  exact absurd hn (Nat.ne_of_lt hpos)

/-- No byte is zero. -/
theorem zero_not_mem_modifiedUtf8 (units : List UInt16) : 0 ∉ modifiedUtf8 units := by
  intro h
  obtain ⟨u, -, hzero⟩ := List.mem_flatMap.mp h
  rcases modifiedUnit_cases u with ⟨hpos, hlt, hu⟩ | ⟨hu0, hlt, hu⟩ | ⟨hge, hlt, hu⟩ <;>
    rw [hu] at hzero <;>
    simp only [List.mem_cons, List.not_mem_nil, or_false] at hzero
  · exact byte_ne_zero hpos (by omega) hzero
  · rcases hzero with hzero | hzero <;> exact byte_ne_zero (by omega) (by omega) hzero
  · rcases hzero with hzero | hzero | hzero <;> exact byte_ne_zero (by omega) (by omega) hzero

/-- In UTF-8 only the character zero has a zero byte. -/
theorem zero_not_mem_utf8 {c : Char} (h : c ≠ '\x00') : 0 ∉ String.utf8EncodeChar c := by
  intro hzero
  have hpos := toNat_pos h
  rcases utf8EncodeChar_cases c with ⟨hlt, hc⟩ | ⟨-, -, hc⟩ | ⟨-, -, -, hc⟩ | ⟨-, hc⟩ <;>
    rw [hc] at hzero <;>
    simp only [List.mem_cons, List.not_mem_nil, or_false] at hzero
  · exact byte_ne_zero hpos (by omega) hzero
  · rcases hzero with hzero | hzero <;> exact byte_ne_zero (by omega) (by omega) hzero
  · rcases hzero with hzero | hzero | hzero <;> exact byte_ne_zero (by omega) (by omega) hzero
  · rcases hzero with hzero | hzero | hzero | hzero <;>
      exact byte_ne_zero (by omega) (by omega) hzero

/-- A C string ends where the text has its first zero. -/
theorem takeWhile_utf8 (chars : List Char) :
    (chars.flatMap String.utf8EncodeChar).takeWhile (· ≠ 0) =
      (chars.takeWhile (· ≠ '\x00')).flatMap String.utf8EncodeChar := by
  induction chars with
  | nil => rfl
  | cons c chars ih =>
    by_cases hc : c = '\x00'
    · subst hc
      rfl
    · have hbytes : ∀ b ∈ String.utf8EncodeChar c, decide (b ≠ 0) = true := by
        intro b hb
        rw [decide_eq_true_eq]
        rintro rfl
        exact zero_not_mem_utf8 hc hb
      rw [List.flatMap_cons, List.takeWhile_append_of_pos hbytes, ih,
        List.takeWhile_cons_of_pos (by simpa using hc), List.flatMap_cons]

/-- What a strict reader of UTF-8 makes of bytes. -/
theorem fromUTF8_eq_some {bytes : List UInt8} {text : String} :
    String.fromUTF8? bytes.toByteArray = some text ↔
      bytes = text.toList.flatMap String.utf8EncodeChar := by
  have hbytes : bytes.toByteArray = text.toByteArray ↔
      bytes = text.toList.flatMap String.utf8EncodeChar := by
    rw [← String.utf8Encode_toList, List.utf8Encode, List.toByteArray_inj]
  rw [← hbytes, String.fromUTF8?]
  constructor
  · intro h
    split at h
    · exact congrArg String.toByteArray (Option.some.inj h)
    · cases h
  · intro h
    rw [dif_pos (h ▸ text.isValidUTF8)]
    exact congrArg some (String.toByteArray_inj.mp h)

/-- Every character has one unit. -/
def BasicChars (cs : List Char) : Prop := ∀ c ∈ cs, c.toNat < 0x10000

instance (cs : List Char) : Decidable (BasicChars cs) := List.decidableBAll _ cs

theorem basicChars_cons {c : Char} {cs : List Char} :
    BasicChars (c :: cs) ↔ c.toNat < 0x10000 ∧ BasicChars cs := List.forall_mem_cons

/-- The UTF-8 of a text without zeros is read as the text's units, if each character has one. -/
theorem decodeModified_utf8 : ∀ {chars : List Char}, '\x00' ∉ chars →
    decodeModified (chars.flatMap String.utf8EncodeChar) =
      if BasicChars chars then some (chars.flatMap utf16Units) else none := by
  intro chars
  induction chars with
  | nil => simp [decodeModified, BasicChars]
  | cons c chars ih =>
    intro h
    rw [List.mem_cons, not_or] at h
    obtain ⟨hc, hchars⟩ := h
    rw [List.flatMap_cons, List.flatMap_cons]
    by_cases hlt : c.toNat < 0x10000
    · rw [← modifiedUnit_plain ⟨Ne.symm hc, hlt⟩, decodeModified_modifiedUnit, ih hchars,
        utf16Units_plain hlt]
      simp only [basicChars_cons, hlt, true_and]
      split <;> rfl
    · rw [if_neg fun hall => hlt (hall c List.mem_cons_self)]
      rcases utf8EncodeChar_cases c with ⟨hc1, -⟩ | ⟨-, hc1, -⟩ | ⟨-, hc1, -⟩ | ⟨-, hbytes⟩
      rotate_right
      · have := Nat.mod_lt (c.toNat / 262144) (by decide : 0 < 8)
        rw [hbytes, List.cons_append, decodeModified.eq_def]
        dsimp only
        rw [toNat_byte (by omega), if_neg (by omega), if_neg (by omega), if_neg (by omega),
          if_neg (by omega)]
      all_goals omega

end Schemes
