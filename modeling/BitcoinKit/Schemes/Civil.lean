import Mathlib.Algebra.Order.Ring.Int

/-! The civil calendar: days since the first of January 1970 as dates, seconds as times of a day, and both
    back.

        day number ── years, by their lengths ──▶ day of the year ── months ──▶ day of the month

    Years and months are blocks of consecutive days; finding the block a number lies in, and adding up
    the blocks before it, undo each other. -/

namespace Schemes

/-! ### Blocks -/

/-- The lengths of `k` blocks from block `i` on, added up. -/
def blocks (len : Nat → Nat) (i : Nat) : Nat → Nat
  | 0 => 0
  | k + 1 => len i + blocks len (i + 1) k

/-- The block that position `n` lies in, counted from block `i`, and the position within it. -/
def locate (len : Nat → Nat) : Nat → Nat → Nat → Nat × Nat
  | 0, i, n => (i, n)
  | fuel + 1, i, n => if n < len i then (i, n) else locate len fuel (i + 1) (n - len i)

section Blocks

variable {len : Nat → Nat}

/-- With blocks that are not empty, as much fuel as there are positions is enough. -/
theorem locate_spec (hlen : ∀ i, 0 < len i) : ∀ (fuel i n : Nat), n ≤ fuel →
    ∃ k r, locate len fuel i n = (i + k, r) ∧ blocks len i k + r = n ∧ r < len (i + k)
  | 0, i, n, h => by
    have hn : n = 0 := by omega
    subst hn
    exact ⟨0, 0, rfl, rfl, hlen i⟩
  | fuel + 1, i, n, h => by
    rw [locate]
    split
    · next hlt => exact ⟨0, n, rfl, Nat.zero_add n, hlt⟩
    · next hge =>
      have hpos := hlen i
      obtain ⟨k, r, hloc, hsum, hr⟩ := locate_spec hlen fuel (i + 1) (n - len i) (by omega)
      have hshift : i + 1 + k = i + (k + 1) := by omega
      rw [hshift] at hloc hr
      refine ⟨k + 1, r, hloc, ?_, hr⟩
      rw [blocks]
      omega

theorem blocks_add : ∀ i k l : Nat, blocks len i (k + l) = blocks len i k + blocks len (i + k) l
  | _, 0, l => by rw [Nat.zero_add, blocks, Nat.zero_add, Nat.add_zero]
  | i, k + 1, l => by
    have hshift : k + 1 + l = (k + l) + 1 := by omega
    have hnext : i + (k + 1) = i + 1 + k := by omega
    rw [hshift, hnext, blocks, blocks_add (i + 1) k l]
    exact (Nat.add_assoc _ _ _).symm

theorem blocks_mono {i k l : Nat} (h : k ≤ l) : blocks len i k ≤ blocks len i l := by
  obtain ⟨m, rfl⟩ := Nat.exists_eq_add_of_le h
  rw [blocks_add]
  exact Nat.le_add_right _ _

end Blocks

/-! ### Years and months -/

def isLeapYear (year : Nat) : Bool := year % 4 = 0 && (year % 100 ≠ 0 || year % 400 = 0)

def yearLength (year : Nat) : Nat := if isLeapYear year then 366 else 365

def monthLength (year month : Nat) : Nat :=
  match month with
  | 2 => if isLeapYear year then 29 else 28
  | 4 | 6 | 9 | 11 => 30
  | _ => 31

theorem yearLength_pos (year : Nat) : 0 < yearLength year := by
  unfold yearLength
  split <;> decide

theorem monthLength_pos (year month : Nat) : 0 < monthLength year month := by
  unfold monthLength
  split
  · split <;> decide
  · decide
  · decide
  · decide
  · decide
  · decide

/-- Twelve months are a year. -/
theorem blocks_monthLength (year : Nat) : blocks (monthLength year) 1 12 = yearLength year := by
  unfold yearLength
  simp only [blocks, monthLength]
  split <;> rfl

/-- A date from 1970 on, and a time of that day. -/
structure DateTime where
  year : Nat
  month : Nat
  day : Nat
  hour : Nat
  minute : Nat
  second : Nat
  year_ge : 1970 ≤ year
  month_pos : 1 ≤ month
  month_le : month ≤ 12
  day_pos : 1 ≤ day
  day_le : day ≤ monthLength year month
  hour_lt : hour < 24
  minute_lt : minute < 60
  second_lt : second < 60
  deriving DecidableEq

namespace DateTime

/-- The days from the first of January 1970 to the date. -/
def days (d : DateTime) : Nat :=
  blocks yearLength 1970 (d.year - 1970) + blocks (monthLength d.year) 1 (d.month - 1) + (d.day - 1)

/-- The seconds from the beginning of 1970. -/
def seconds (d : DateTime) : Nat := d.days * 86400 + d.hour * 3600 + d.minute * 60 + d.second

/-- The year a day number lies in, and the day of that year. -/
def yearOf (n : Nat) : Nat × Nat := locate yearLength (n + 1) 1970 n

/-- The month a day of a year lies in, and the day of that month, from 0. -/
def monthOf (year n : Nat) : Nat × Nat := locate (monthLength year) (n + 1) 1 n

theorem yearOf_spec (n : Nat) : 1970 ≤ (yearOf n).1 ∧
    blocks yearLength 1970 ((yearOf n).1 - 1970) + (yearOf n).2 = n ∧
      (yearOf n).2 < yearLength (yearOf n).1 := by
  obtain ⟨k, r, hloc, hsum, hr⟩ := locate_spec yearLength_pos (n + 1) 1970 n (Nat.le_succ n)
  rw [yearOf, hloc]
  dsimp only
  rw [Nat.add_sub_cancel_left]
  exact ⟨Nat.le_add_right _ _, hsum, hr⟩

theorem monthOf_spec {year n : Nat} (h : n < yearLength year) :
    1 ≤ (monthOf year n).1 ∧ (monthOf year n).1 ≤ 12 ∧
      blocks (monthLength year) 1 ((monthOf year n).1 - 1) + (monthOf year n).2 = n ∧
        (monthOf year n).2 < monthLength year (monthOf year n).1 := by
  obtain ⟨k, r, hloc, hsum, hr⟩ := locate_spec (monthLength_pos year) (n + 1) 1 n (Nat.le_succ n)
  have hk : k < 12 := by
    by_contra hge
    have htwelve := blocks_monthLength year
    have hmono : blocks (monthLength year) 1 12 ≤ blocks (monthLength year) 1 k :=
      blocks_mono (by omega)
    omega
  rw [monthOf, hloc]
  dsimp only
  rw [Nat.add_sub_cancel_left]
  exact ⟨by omega, by omega, hsum, hr⟩

/-- The date and time so many seconds after the beginning of 1970. -/
def ofSeconds (t : Nat) : DateTime :=
  let year := yearOf (t / 86400)
  let month := monthOf year.1 year.2
  have hyear := yearOf_spec (t / 86400)
  have hmonth := monthOf_spec hyear.2.2
  { year := year.1
    month := month.1
    day := month.2 + 1
    hour := t % 86400 / 3600
    minute := t % 3600 / 60
    second := t % 60
    year_ge := hyear.1
    month_pos := hmonth.1
    month_le := hmonth.2.1
    day_pos := Nat.le_add_left 1 _
    day_le := hmonth.2.2.2
    hour_lt := by omega
    minute_lt := by omega
    second_lt := by omega }

theorem days_ofSeconds (t : Nat) : (ofSeconds t).days = t / 86400 := by
  have hyear := yearOf_spec (t / 86400)
  have hmonth := monthOf_spec hyear.2.2
  unfold days ofSeconds
  dsimp only
  omega

/-- The seconds of a time are the ones it was made from. -/
theorem seconds_ofSeconds (t : Nat) : (ofSeconds t).seconds = t := by
  have hdays := days_ofSeconds t
  rw [seconds, hdays]
  unfold ofSeconds
  dsimp only
  omega

end DateTime

end Schemes
