import QBackend.CausalSeries

/-!
# Series at the rows of a mask

A mask picks rows of a series. What is computed from the picked rows goes back to them and the
other rows are filled. Reading the picked row before each picked row this way is a recurrence over
all rows that holds the last picked value, so it does not look ahead.
-/

namespace QBackend.CausalSeries

variable {α β : Type*}

/-- The values of the rows that the mask picks. -/
def picked : List Bool → List α → List α
  | true :: mask, x :: xs => x :: picked mask xs
  | false :: mask, _ :: xs => picked mask xs
  | _, _ => []

/-- The values at the rows that the mask picks, one after the other, and `fill` elsewhere. -/
def scattered (fill : α) : List Bool → List α → List α
  | [], _ => []
  | false :: mask, ys => fill :: scattered fill mask ys
  | true :: mask, [] => fill :: scattered fill mask []
  | true :: mask, y :: ys => y :: scattered fill mask ys

/-- One row of the recurrence: the value held so far is what a picked row gets. -/
def holdStep (fill : α) (held : α) (row : Bool × α) : α × α :=
  (if row.1 then row.2 else held, if row.1 then held else fill)

@[simp] theorem length_scattered (fill : α) (mask : List Bool) (ys : List α) :
    (scattered fill mask ys).length = mask.length := by
  induction mask generalizing ys with
  | nil => rfl
  | cons pick mask ih =>
    cases pick with
    | false => simp [scattered, ih]
    | true => cases ys <;> simp [scattered, ih]

theorem map_picked (f : α → β) (mask : List Bool) (xs : List α) :
    (picked mask xs).map f = picked mask (xs.map f) := by
  induction mask generalizing xs with
  | nil => cases xs <;> rfl
  | cons pick mask ih =>
    cases xs with
    | nil => cases pick <;> rfl
    | cons x xs => cases pick <;> simp [picked, ih]

theorem shift_one (fill : α) (xs : List α) : shift fill 1 xs = (fill :: xs).take xs.length := by
  cases xs with
  | nil => rfl
  | cons x xs => simp [shift]

theorem map_shift (f : α → β) (fill : α) (k : ℤ) (xs : List α) :
    (shift fill k xs).map f = shift (f fill) k (xs.map f) := by
  unfold shift
  split <;> simp

/-- By induction on the mask, for any value held before its first row. -/
theorem scattered_held (fill held : α) {mask : List Bool} {xs : List α}
    (h : mask.length = xs.length) :
    scattered fill mask ((held :: picked mask xs).take (picked mask xs).length) =
      scan (holdStep fill) held (List.zip mask xs) := by
  induction mask generalizing held xs with
  | nil => rfl
  | cons pick mask ih =>
    cases xs with
    | nil => cases h
    | cons x xs =>
      have hlength : mask.length = xs.length := by simpa using h
      cases pick with
      | true =>
        simp only [picked, List.length_cons, List.take_succ_cons, scattered, List.zip_cons_cons,
          scan, holdStep, if_true]
        rw [ih x hlength]
      | false =>
        simp only [picked, scattered, List.zip_cons_cons, scan, holdStep, Bool.false_eq_true,
          if_false]
        rw [ih held hlength]

theorem scattered_previous (fill held first : α) (f : α → α) (hf : f first = held)
    {mask : List Bool} {xs : List α} (h : mask.length = xs.length) :
    scattered fill mask ((shift first 1 (picked mask xs)).map f) =
      scan (holdStep fill) held (List.zip mask (xs.map f)) := by
  rw [map_shift, hf, map_picked, shift_one]
  exact scattered_held fill held (by simpa using h)

end QBackend.CausalSeries
