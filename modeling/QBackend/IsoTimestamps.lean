import Mathlib.Data.Nat.Init
import Mathlib.Tactic.IntervalCases
import Mathlib.Tactic.Linarith
import Mathlib.Tactic.Ring

/-!
# Timestamps and their ISO 8601 text

A timestamp holds the fields of a calendar date and of a time of day, with the offset from UTC where
it has one. Its text has fixed widths, so reading a field consumes exactly what was written for it,
and reading the whole text gives the timestamp back.
-/

namespace QBackend.IsoTimestamps

/-! ## Decimal fields of fixed width -/

/-- The last `width` decimal digits of a number. -/
def padded : ℕ → ℕ → List Char
  | 0, _ => []
  | width + 1, n => Nat.digitChar (n / 10 ^ width % 10) :: padded width n

/-- Read `width` digits behind the number read so far. -/
def readDigits : ℕ → ℕ → List Char → Option (ℕ × List Char)
  | 0, n, text => some (n, text)
  | width + 1, n, c :: text =>
    if c.isDigit then readDigits width (10 * n + (c.toNat - 48)) text else none
  | _ + 1, _, [] => none

def readChar (expected : Char) : List Char → Option (List Char)
  | c :: text => if c = expected then some text else none
  | [] => none

theorem isDigit_digitChar {d : ℕ} (h : d < 10) :
    (Nat.digitChar d).isDigit = true ∧ (Nat.digitChar d).toNat - 48 = d := by
  interval_cases d <;> exact ⟨rfl, rfl⟩

theorem readDigits_padded (width n : ℕ) (start : ℕ) (text : List Char) :
    readDigits width start (padded width n ++ text) =
      some (10 ^ width * start + n % 10 ^ width, text) := by
  induction width generalizing start with
  | zero => simp [padded, readDigits, Nat.mod_one]
  | succ width ih =>
    obtain ⟨hdigit, hvalue⟩ := isDigit_digitChar (Nat.mod_lt (n / 10 ^ width) (by decide : 0 < 10))
    have hsplit : n % 10 ^ (width + 1) = 10 ^ width * (n / 10 ^ width % 10) + n % 10 ^ width := by
      rw [pow_succ, Nat.mod_mul]
      omega
    simp only [padded, List.cons_append, readDigits, hdigit, if_true, hvalue, ih]
    rw [hsplit, pow_succ]
    congr 2
    ring

theorem readDigits_padded_of_lt {width n : ℕ} (h : n < 10 ^ width) (text : List Char) :
    readDigits width 0 (padded width n ++ text) = some (n, text) := by
  rw [readDigits_padded, Nat.mod_eq_of_lt h]
  simp

@[simp] theorem readChar_cons (c : Char) (text : List Char) :
    readChar c (c :: text) = some text := by
  simp [readChar]

/-! ## Timestamps -/

def isLeapYear (year : ℕ) : Bool :=
  year % 4 == 0 && (year % 100 != 0 || year % 400 == 0)

def daysInMonth (year month : ℕ) : ℕ :=
  if month = 2 then (if isLeapYear year then 29 else 28)
  else if month = 4 ∨ month = 6 ∨ month = 9 ∨ month = 11 then 30
  else 31

/-- An offset from UTC in whole minutes, less than a day. -/
structure UtcOffset where
  minutes : ℤ
  lt_day : minutes.natAbs < 1440
  deriving DecidableEq

/-- A date and a time of day; without an offset it is naive. -/
structure Timestamp where
  year : ℕ
  month : ℕ
  day : ℕ
  hour : ℕ
  minute : ℕ
  second : ℕ
  microsecond : ℕ
  offset : Option UtcOffset
  year_valid : 1 ≤ year ∧ year ≤ 9999
  month_valid : 1 ≤ month ∧ month ≤ 12
  day_valid : 1 ≤ day ∧ day ≤ daysInMonth year month
  time_valid : hour < 24 ∧ minute < 60 ∧ second < 60
  microsecond_valid : microsecond < 1000000
  deriving DecidableEq

namespace Timestamp

theorem january_valid : 1 ≤ 1 ∧ 1 ≤ 12 := by decide

theorem midnight_valid : 0 < 24 ∧ 0 < 60 ∧ 0 < 60 := by decide

theorem wholeSecond_valid : 0 < 1000000 := by decide

/-- The days of the years before a year, counted from year one. -/
def daysBeforeYear (year : ℕ) : ℕ :=
  let y := year - 1
  365 * y + y / 4 - y / 100 + y / 400

def daysBeforeMonth (year month : ℕ) : ℕ :=
  ((List.range (month - 1)).map fun m => daysInMonth year (m + 1)).sum

/-- The microseconds that the wall clock shows since the start of year one. -/
def wallClock (t : Timestamp) : ℤ :=
  let days := daysBeforeYear t.year + daysBeforeMonth t.year t.month + (t.day - 1)
  (((days * 24 + t.hour) * 60 + t.minute) * 60 + t.second : ℕ) * 1000000 + t.microsecond

/-- The wall clock of UTC; a naive timestamp is taken as it stands. -/
def instant (t : Timestamp) : ℤ :=
  t.wallClock - (t.offset.map UtcOffset.minutes).getD 0 * 60000000

def isAware (t : Timestamp) : Bool := t.offset.isSome

/-- The timestamp with these fields, where they are in range. -/
def ofFields (year month day hour minute second microsecond : ℕ) (offset : Option UtcOffset) :
    Option Timestamp :=
  if h : (1 ≤ year ∧ year ≤ 9999) ∧ (1 ≤ month ∧ month ≤ 12) ∧
      (1 ≤ day ∧ day ≤ daysInMonth year month) ∧ (hour < 24 ∧ minute < 60 ∧ second < 60) ∧
      microsecond < 1000000 then
    some ⟨year, month, day, hour, minute, second, microsecond, offset, h.1, h.2.1, h.2.2.1,
      h.2.2.2.1, h.2.2.2.2⟩
  else none

@[simp] theorem ofFields_self (t : Timestamp) :
    ofFields t.year t.month t.day t.hour t.minute t.second t.microsecond t.offset = some t := by
  unfold ofFields
  rw [dif_pos ⟨t.year_valid, t.month_valid, t.day_valid, t.time_valid, t.microsecond_valid⟩]

end Timestamp

/-! ## The text of an offset -/

/-- `+HH:MM` or `-HH:MM`. -/
def UtcOffset.text (o : UtcOffset) : List Char :=
  (if o.minutes < 0 then '-' else '+') ::
    (padded 2 (o.minutes.natAbs / 60) ++ ':' :: padded 2 (o.minutes.natAbs % 60))

/-- The same, with `Z` for UTC itself. -/
def UtcOffset.zuluText (o : UtcOffset) : List Char :=
  if o.minutes = 0 then ['Z'] else o.text

def readSign : List Char → Option (ℤ × List Char)
  | '+' :: text => some (1, text)
  | '-' :: text => some (-1, text)
  | _ => none

/-- What stands behind the time of day up to the end of the text. -/
def readOffset : List Char → Option (Option UtcOffset)
  | [] => some none
  | ['Z'] => some (some ⟨0, by decide⟩)
  | text => do
    let (sign, text) ← readSign text
    let (hours, text) ← readDigits 2 0 text
    let text ← readChar ':' text
    let (minutes, text) ← readDigits 2 0 text
    if h : text = [] ∧ minutes < 60 ∧ (sign * (60 * hours + minutes : ℕ)).natAbs < 1440 then
      some (some ⟨sign * (60 * hours + minutes : ℕ), h.2.2⟩)
    else none

theorem sign_mul_natAbs (z : ℤ) : (if z < 0 then -1 else 1) * (z.natAbs : ℤ) = z := by
  split <;> omega

theorem readOffset_text (o : UtcOffset) : readOffset o.text = some (some o) := by
  obtain ⟨minutes, hlt⟩ := o
  have hsign : readSign ((UtcOffset.mk minutes hlt).text) =
      some (if minutes < 0 then -1 else 1,
        padded 2 (minutes.natAbs / 60) ++ ':' :: padded 2 (minutes.natAbs % 60)) := by
    by_cases hneg : minutes < 0
    · simp [UtcOffset.text, readSign, hneg]
    · simp [UtcOffset.text, readSign, hneg]
  have hhours : minutes.natAbs / 60 < 10 ^ 2 := by omega
  have hminutes : minutes.natAbs % 60 < 10 ^ 2 := by omega
  have hvalue : (if minutes < 0 then -1 else 1) *
      ((60 * (minutes.natAbs / 60) + minutes.natAbs % 60 : ℕ) : ℤ) = minutes := by
    rw [Nat.div_add_mod]
    exact sign_mul_natAbs minutes
  have hread := readDigits_padded_of_lt hminutes []
  rw [List.append_nil] at hread
  unfold readOffset
  split
  next htext => simp [UtcOffset.text] at htext
  next htext => simp [UtcOffset.text, padded] at htext
  next =>
    simp only [hsign, Option.bind_eq_bind, Option.bind_some, readDigits_padded_of_lt hhours,
      readChar_cons, hread, hvalue]
    rw [dif_pos ⟨trivial, Nat.mod_lt _ (by decide), hlt⟩]

theorem readOffset_zuluText (o : UtcOffset) : readOffset o.zuluText = some (some o) := by
  by_cases hzero : o.minutes = 0
  · obtain ⟨minutes, hlt⟩ := o
    simp only at hzero
    subst hzero
    rfl
  · rw [UtcOffset.zuluText, if_neg hzero, readOffset_text]

/-! ## The text of a timestamp -/

/-- The fraction of a second is written with six digits, and not at all where it is zero. -/
def fractionText (microsecond : ℕ) : List Char :=
  if microsecond = 0 then [] else '.' :: padded 6 microsecond

def readFraction : List Char → Option (ℕ × List Char)
  | '.' :: text => readDigits 6 0 text
  | text => some (0, text)

theorem readFraction_fractionText {microsecond : ℕ} (h : microsecond < 1000000)
    {text : List Char} (htext : text.head? ≠ some '.') :
    readFraction (fractionText microsecond ++ text) = some (microsecond, text) := by
  by_cases hzero : microsecond = 0
  · subst hzero
    simp only [fractionText, if_true, List.nil_append]
    unfold readFraction
    split
    next => simp at htext
    next => rfl
  · simp only [fractionText, if_neg hzero, List.cons_append, readFraction]
    exact readDigits_padded_of_lt (by simpa using h) text

namespace Timestamp

/-- `YYYY-MM-DDTHH:MM:SS`, the fraction and the offset, the last as given. -/
def textWith (offsetText : UtcOffset → List Char) (t : Timestamp) : List Char :=
  padded 4 t.year ++ '-' :: (padded 2 t.month ++ '-' :: (padded 2 t.day ++
    'T' :: (padded 2 t.hour ++ ':' :: (padded 2 t.minute ++ ':' :: (padded 2 t.second ++
      (fractionText t.microsecond ++ (t.offset.map offsetText).getD []))))))

def isoformat (t : Timestamp) : String := String.ofList (t.textWith UtcOffset.text)

/-- The form that writes `Z` for UTC. -/
def zuluformat (t : Timestamp) : String := String.ofList (t.textWith UtcOffset.zuluText)

/-- Read either form back. -/
def fromisoformat (text : String) : Option Timestamp := do
  let (year, rest) ← readDigits 4 0 text.toList
  let rest ← readChar '-' rest
  let (month, rest) ← readDigits 2 0 rest
  let rest ← readChar '-' rest
  let (day, rest) ← readDigits 2 0 rest
  let rest ← readChar 'T' rest
  let (hour, rest) ← readDigits 2 0 rest
  let rest ← readChar ':' rest
  let (minute, rest) ← readDigits 2 0 rest
  let rest ← readChar ':' rest
  let (second, rest) ← readDigits 2 0 rest
  let (microsecond, rest) ← readFraction rest
  let offset ← readOffset rest
  ofFields year month day hour minute second microsecond offset

theorem daysInMonth_le (year month : ℕ) : daysInMonth year month ≤ 31 := by
  unfold daysInMonth
  split_ifs <;> omega

theorem fromisoformat_textWith (t : Timestamp) {offsetText : UtcOffset → List Char}
    (hread : ∀ o, readOffset (offsetText o) = some (some o))
    (hstart : ∀ o, (offsetText o).head? ≠ some '.') :
    fromisoformat (String.ofList (t.textWith offsetText)) = some t := by
  have hyear := t.year_valid.2
  have hmonth := t.month_valid.2
  have hday := t.day_valid.2
  obtain ⟨hhour, hminute, hsecond⟩ := t.time_valid
  have hdays := daysInMonth_le t.year t.month
  have hoffset : readOffset ((t.offset.map offsetText).getD []) = some t.offset := by
    cases t.offset with
    | none => rfl
    | some o => exact hread o
  have hhead : ((t.offset.map offsetText).getD []).head? ≠ some '.' := by
    cases t.offset with
    | none => simp
    | some o => exact hstart o
  have hfraction := readFraction_fractionText t.microsecond_valid hhead
  unfold fromisoformat textWith
  simp only [String.toList_ofList, Option.bind_eq_bind, Option.bind_some, readChar_cons,
    readDigits_padded_of_lt (show t.year < 10 ^ 4 by omega),
    readDigits_padded_of_lt (show t.month < 10 ^ 2 by omega),
    readDigits_padded_of_lt (show t.day < 10 ^ 2 by omega),
    readDigits_padded_of_lt (show t.hour < 10 ^ 2 by omega),
    readDigits_padded_of_lt (show t.minute < 10 ^ 2 by omega),
    readDigits_padded_of_lt (show t.second < 10 ^ 2 by omega), hfraction, hoffset, ofFields_self]

theorem head_offsetText (o : UtcOffset) : o.text.head? ≠ some '.' := by
  simp only [UtcOffset.text, List.head?_cons]
  split <;> decide

theorem head_zuluText (o : UtcOffset) : o.zuluText.head? ≠ some '.' := by
  unfold UtcOffset.zuluText
  split
  · decide
  · exact head_offsetText o

@[simp] theorem fromisoformat_isoformat (t : Timestamp) :
    fromisoformat t.isoformat = some t :=
  fromisoformat_textWith t readOffset_text head_offsetText

@[simp] theorem fromisoformat_zuluformat (t : Timestamp) :
    fromisoformat t.zuluformat = some t :=
  fromisoformat_textWith t readOffset_zuluText head_zuluText

end Timestamp

end QBackend.IsoTimestamps
