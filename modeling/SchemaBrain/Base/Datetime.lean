import Mathlib.Data.List.Lex
import Mathlib.Data.String.Basic

/-!
# UTC datetimes and their fixed-width text

The fields of an aware `datetime` in UTC, ordered as `datetime` compares them, and the text
of `strftime("%Y-%m-%dT%H:%M:%S.%fZ")`. Every field has a fixed width, so the texts are
ordered as the instants are.
-/

namespace SchemaBrain.Base

/-! ## Decimal digits of a fixed width -/

/-- The last `w` decimal digits of a number. -/
def decimalDigits : Nat → Nat → List Char
  | 0, _ => []
  | w + 1, n => Nat.digitChar (n / 10 ^ w % 10) :: decimalDigits w n

private theorem digitChar_lt {m n : Nat} (hm : m < 10) (hn : n < 10) :
    (Nat.digitChar m < Nat.digitChar n ↔ m < n) ∧ (Nat.digitChar m = Nat.digitChar n ↔ m = n) := by
  have hall : ∀ m, m < 10 → ∀ n, n < 10 → (Nat.digitChar m < Nat.digitChar n ↔ m < n) ∧
      (Nat.digitChar m = Nat.digitChar n ↔ m = n) := by decide
  exact hall m hm n hn

private theorem mod_succ_lt_iff {w m n : Nat} {P : Prop} :
    (m % 10 ^ (w + 1) < n % 10 ^ (w + 1) ∨ m % 10 ^ (w + 1) = n % 10 ^ (w + 1) ∧ P) ↔
      m / 10 ^ w % 10 < n / 10 ^ w % 10 ∨ m / 10 ^ w % 10 = n / 10 ^ w % 10 ∧
        (m % 10 ^ w < n % 10 ^ w ∨ m % 10 ^ w = n % 10 ^ w ∧ P) := by
  have hm : m % 10 ^ w < 10 ^ w := Nat.mod_lt _ (Nat.pow_pos (by omega))
  have hn : n % 10 ^ w < 10 ^ w := Nat.mod_lt _ (Nat.pow_pos (by omega))
  rw [Nat.pow_succ, Nat.mod_mul, Nat.mod_mul]
  generalize m / 10 ^ w % 10 = c at *
  generalize n / 10 ^ w % 10 = d at *
  rcases Nat.lt_trichotomy c d with hlt | rfl | hlt
  · have := Nat.mul_le_mul_left (10 ^ w) hlt
    rw [Nat.mul_succ] at this
    constructor
    · exact fun _ => .inl hlt
    · exact fun _ => .inl (by omega)
  · simp
  · have := Nat.mul_le_mul_left (10 ^ w) hlt
    rw [Nat.mul_succ] at this
    constructor
    · rintro (h | ⟨h, -⟩) <;> omega
    · rintro (h | ⟨h, -⟩) <;> omega

/-- Digits of one width compare as their numbers, then by what follows. -/
theorem decimalDigits_append_lt_iff (w m n : Nat) (rest rest' : List Char) :
    decimalDigits w m ++ rest < decimalDigits w n ++ rest' ↔
      m % 10 ^ w < n % 10 ^ w ∨ m % 10 ^ w = n % 10 ^ w ∧ rest < rest' := by
  induction w with
  | zero => simp [decimalDigits, Nat.mod_one]
  | succ w ih =>
    obtain ⟨hlt, heq⟩ := digitChar_lt (Nat.mod_lt (m / 10 ^ w) (show 10 > 0 by omega))
      (Nat.mod_lt (n / 10 ^ w) (show 10 > 0 by omega))
    rw [decimalDigits, decimalDigits, List.cons_append, List.cons_append, List.cons_lt_cons_iff,
      hlt, heq, ih, mod_succ_lt_iff]

/-! ## Datetimes -/

/-- The days of a month in the proleptic Gregorian calendar. -/
def daysInMonth (year month : Nat) : Nat :=
  if month = 2 then
    if year % 4 = 0 ∧ (year % 100 ≠ 0 ∨ year % 400 = 0) then 29 else 28
  else if month = 4 ∨ month = 6 ∨ month = 9 ∨ month = 11 then 30
  else 31

/-- An aware `datetime` in UTC. -/
structure UtcDatetime where
  year : Nat
  month : Nat
  day : Nat
  hour : Nat
  minute : Nat
  second : Nat
  microsecond : Nat
  year_mem : 1 ≤ year ∧ year ≤ 9999
  month_mem : 1 ≤ month ∧ month ≤ 12
  day_mem : 1 ≤ day ∧ day ≤ daysInMonth year month
  hour_lt : hour < 24
  minute_lt : minute < 60
  second_lt : second < 60
  microsecond_lt : microsecond < 1000000
  deriving DecidableEq

namespace UtcDatetime

/-- The fields that a comparison reads, the largest unit first. -/
def fields (d : UtcDatetime) : List Nat :=
  [d.year, d.month, d.day, d.hour, d.minute, d.second, d.microsecond]

theorem fields_injective : Function.Injective fields := by
  rintro ⟨⟩ ⟨⟩ h
  simpa [fields] using h

/-- Datetimes of one zone compare field by field. -/
instance : LinearOrder UtcDatetime := LinearOrder.lift' fields fields_injective

theorem lt_iff_fields {d e : UtcDatetime} : d < e ↔ d.fields < e.fields := Iff.rfl

/-- The characters of `strftime("%Y-%m-%dT%H:%M:%S.%fZ")`. -/
def isoChars (d : UtcDatetime) : List Char :=
  decimalDigits 4 d.year ++ '-' :: (decimalDigits 2 d.month ++ '-' :: (decimalDigits 2 d.day ++
    'T' :: (decimalDigits 2 d.hour ++ ':' :: (decimalDigits 2 d.minute ++
      ':' :: (decimalDigits 2 d.second ++ '.' :: (decimalDigits 6 d.microsecond ++ ['Z']))))))

/-- `strftime("%Y-%m-%dT%H:%M:%S.%fZ")`. -/
def isoText (d : UtcDatetime) : String := String.ofList d.isoChars

theorem year_lt (d : UtcDatetime) : d.year < 10 ^ 4 := by
  have hyear := d.year_mem.2
  omega

theorem month_lt (d : UtcDatetime) : d.month < 10 ^ 2 := by
  have hmonth := d.month_mem.2
  omega

theorem day_lt (d : UtcDatetime) : d.day < 10 ^ 2 := by
  have hday := d.day_mem.2
  unfold daysInMonth at hday
  split at hday
  · split at hday <;> omega
  · split at hday <;> omega

/-- Texts of datetimes are ordered as the datetimes are. -/
theorem isoText_lt_iff {d e : UtcDatetime} : d.isoText < e.isoText ↔ d < e := by
  rw [String.lt_iff_toList_lt, isoText, isoText, String.toList_ofList, String.toList_ofList,
    lt_iff_fields]
  simp only [isoChars, fields, decimalDigits_append_lt_iff, List.cons_lt_cons_iff, lt_irrefl,
    false_or, true_and]
  rw [Nat.mod_eq_of_lt d.year_lt, Nat.mod_eq_of_lt e.year_lt, Nat.mod_eq_of_lt d.month_lt,
    Nat.mod_eq_of_lt e.month_lt, Nat.mod_eq_of_lt d.day_lt, Nat.mod_eq_of_lt e.day_lt,
    Nat.mod_eq_of_lt (Nat.lt_trans d.hour_lt (by omega)),
    Nat.mod_eq_of_lt (Nat.lt_trans e.hour_lt (by omega)),
    Nat.mod_eq_of_lt (Nat.lt_trans d.minute_lt (by omega)),
    Nat.mod_eq_of_lt (Nat.lt_trans e.minute_lt (by omega)),
    Nat.mod_eq_of_lt (Nat.lt_trans d.second_lt (by omega)),
    Nat.mod_eq_of_lt (Nat.lt_trans e.second_lt (by omega)),
    Nat.mod_eq_of_lt (Nat.lt_of_lt_of_le d.microsecond_lt (by omega)),
    Nat.mod_eq_of_lt (Nat.lt_of_lt_of_le e.microsecond_lt (by omega))]

theorem isoText_injective : Function.Injective isoText := by
  intro d e h
  rcases lt_trichotomy d e with hlt | rfl | hlt
  · exact absurd (isoText_lt_iff.mpr hlt) (h ▸ lt_irrefl _)
  · rfl
  · exact absurd (isoText_lt_iff.mpr hlt) (h ▸ lt_irrefl _)

end UtcDatetime

end SchemaBrain.Base
