import Mathlib.Data.List.Basic
import Mathlib.Data.List.TakeDrop
import Mathlib.Data.Int.Notation
import Mathlib.Tactic.Common

/-!
# Series and the operators that do not look ahead

A series is the list of its values, one for each row. An operator is causal when it commutes with
cutting the series after any row: what it gives for a row depends on that row and those before it.
-/

namespace QBackend.CausalSeries

variable {α β γ σ : Type*}

/-- What the operator gives for a prefix is the prefix of what it gives. -/
def Causal (f : List α → List β) : Prop := ∀ n xs, f (xs.take n) = (f xs).take n

/-! ## Shifts -/

/-- The series moved down by `k` rows, or up for negative `k`; rows without a value get `fill`. -/
def shift (fill : α) (k : ℤ) (xs : List α) : List α :=
  if 0 ≤ k then List.replicate (min k.toNat xs.length) fill ++ xs.take (xs.length - k.toNat)
  else xs.drop (-k).toNat ++ List.replicate (min (-k).toNat xs.length) fill

@[simp] theorem length_shift (fill : α) (k : ℤ) (xs : List α) :
    (shift fill k xs).length = xs.length := by
  unfold shift
  split
  · simp only [List.length_append, List.length_replicate, List.length_take]
    omega
  · simp only [List.length_append, List.length_replicate, List.length_drop]
    omega

theorem shift_causal (fill : α) {k : ℤ} (hk : 0 ≤ k) : Causal (shift fill k) := by
  intro n xs
  simp only [shift, if_pos hk, List.length_take, List.take_take, List.take_append,
    List.take_replicate, List.length_replicate]
  congr 2
  · omega
  · omega

/-! ## Values of the rows so far -/

/-- At each row, the value of `g` on the rows up to it. -/
def trailing (g : List α → β) (xs : List α) : List β :=
  (List.range xs.length).map fun i => g (xs.take (i + 1))

@[simp] theorem length_trailing (g : List α → β) (xs : List α) :
    (trailing g xs).length = xs.length := by
  simp [trailing]

theorem trailing_causal (g : List α → β) : Causal (trailing g) := by
  intro n xs
  simp only [trailing, List.length_take, ← List.map_take, List.take_range]
  refine List.map_congr_left fun i hi => ?_
  have hlt : i < min n xs.length := List.mem_range.mp hi
  rw [List.take_take]
  congr 2
  omega

/-- The last `w` of the rows so far. -/
def window (w : ℕ) (xs : List α) : List α := xs.drop (xs.length - w)

/-- A value of the last `w` rows, at each row. -/
def rolling (w : ℕ) (g : List α → β) : List α → List β := trailing (g ∘ window w)

@[simp] theorem length_rolling (w : ℕ) (g : List α → β) (xs : List α) :
    (rolling w g xs).length = xs.length :=
  length_trailing _ xs

theorem rolling_causal (w : ℕ) (g : List α → β) : Causal (rolling w g) := trailing_causal _

/-! ## Recurrences -/

/-- The outputs of a recurrence that goes through the rows in order. -/
def scan (step : σ → α → σ × β) : σ → List α → List β
  | _, [] => []
  | s, x :: xs => (step s x).2 :: scan step (step s x).1 xs

@[simp] theorem length_scan (step : σ → α → σ × β) (s : σ) (xs : List α) :
    (scan step s xs).length = xs.length := by
  induction xs generalizing s with
  | nil => rfl
  | cons x xs ih => simp [scan, ih]

theorem scan_causal (step : σ → α → σ × β) (s : σ) : Causal (scan step s) := by
  intro n xs
  induction xs generalizing s n with
  | nil => simp [scan]
  | cons x xs ih =>
    cases n with
    | zero => rfl
    | succ n => simp [scan, ih]

/-- A row of a recurrence, from the state that the rows before it leave. -/
theorem getElem?_scan (step : σ → α → σ × β) (s : σ) (xs : List α) (i : ℕ) :
    (scan step s xs)[i]? =
      xs[i]?.map fun x => (step ((xs.take i).foldl (fun s x => (step s x).1) s) x).2 := by
  induction xs generalizing s i with
  | nil => simp [scan]
  | cons x xs ih =>
    cases i with
    | zero => rfl
    | succ i => simpa [scan] using ih (step s x).1 i

/-! ## Row by row -/

theorem zipWith_take (f : α → β → γ) (n : ℕ) (xs : List α) (ys : List β) :
    List.zipWith f (xs.take n) (ys.take n) = (List.zipWith f xs ys).take n :=
  List.take_zipWith.symm

end QBackend.CausalSeries
