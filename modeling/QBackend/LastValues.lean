import QBackend.CausalSeries

/-!
# The last value of a series

Filling a series forward leaves at each row the last value that the rows up to it have.
-/

namespace QBackend.CausalSeries

variable {α : Type}

/-- The value that a filled series holds before a row. -/
def heldBefore (xs : List (Option α)) (row : ℕ) : Option α :=
  (xs.take row).foldl (fun held x => x.or held) none

/-- Missing values are those of the row before. -/
def forwardFill (xs : List (Option α)) : List (Option α) :=
  scan (fun held x => (x.or held, x.or held)) none xs

/-- The row has a value, and those up to the given one have none. -/
def IsLast (xs : List (Option α)) (row : ℕ) (a : α) : Prop :=
  ∃ j ≤ row, xs[j]? = some (some a) ∧ ∀ k, j < k → k ≤ row → xs[k]? = some none

variable {xs : List (Option α)} {row : ℕ} {a : α}

@[simp] theorem length_forwardFill : (forwardFill xs).length = xs.length := length_scan _ _ _

theorem heldBefore_succ {x : Option α} (h : xs[row]? = some x) :
    heldBefore xs (row + 1) = x.or (heldBefore xs row) := by
  unfold heldBefore
  rw [List.take_add_one, h, Option.toList_some, List.foldl_append]
  rfl

theorem getElem?_forwardFill {x : Option α} (h : xs[row]? = some x) :
    (forwardFill xs)[row]? = some (heldBefore xs (row + 1)) := by
  rw [heldBefore_succ h, forwardFill, getElem?_scan, h]
  rfl

theorem heldBefore_eq_none (h : row ≤ xs.length) :
    heldBefore xs row = none ↔ ∀ k < row, xs[k]? = some none := by
  induction row with
  | zero => simp [heldBefore]
  | succ row ih =>
    obtain ⟨x, hx⟩ : ∃ x, xs[row]? = some x := ⟨_, List.getElem?_eq_getElem h⟩
    rw [heldBefore_succ hx, Option.or_eq_none_iff, ih (Nat.le_of_succ_le h),
      Nat.forall_lt_succ_right, hx, Option.some.injEq, and_comm]

theorem heldBefore_eq_some (h : row < xs.length) :
    heldBefore xs (row + 1) = some a ↔ IsLast xs row a := by
  induction row with
  | zero =>
    obtain ⟨x, hx⟩ : ∃ x, xs[0]? = some x := ⟨_, List.getElem?_eq_getElem h⟩
    rw [heldBefore_succ hx, show heldBefore xs 0 = none from rfl, Option.or_none]
    constructor
    · rintro rfl
      exact ⟨0, Nat.le_refl _, hx, fun k hk hle => absurd hk (Nat.not_lt.mpr hle)⟩
    · rintro ⟨j, hj, hat, -⟩
      rw [Nat.le_zero.mp hj, hx] at hat
      exact Option.some.inj hat
  | succ row ih =>
    obtain ⟨x, hx⟩ : ∃ x, xs[row + 1]? = some x := ⟨_, List.getElem?_eq_getElem h⟩
    rw [heldBefore_succ hx]
    cases x with
    | some b =>
      -- the row has a value of its own
      rw [Option.some_or]
      constructor
      · rintro hb
        exact ⟨row + 1, Nat.le_refl _, hx.trans (congrArg some hb), fun k hk hle =>
          absurd hk (Nat.not_lt.mpr hle)⟩
      · rintro ⟨j, hj, hat, hlater⟩
        obtain hlt | rfl := Nat.lt_or_eq_of_le hj
        · have hnone := hlater (row + 1) hlt (Nat.le_refl _)
          rw [hx] at hnone
          cases hnone
        · exact Option.some.inj (hx.symm.trans hat)
    | none =>
      rw [Option.none_or, ih (Nat.lt_of_succ_lt h)]
      constructor
      · rintro ⟨j, hj, hat, hlater⟩
        refine ⟨j, Nat.le_succ_of_le hj, hat, fun k hk hle => ?_⟩
        obtain hle | rfl := Nat.le_succ_iff.mp hle
        · exact hlater k hk hle
        · exact hx
      · rintro ⟨j, hj, hat, hlater⟩
        obtain hle | rfl := Nat.le_succ_iff.mp hj
        · exact ⟨j, hle, hat, fun k hk hkr => hlater k hk (Nat.le_succ_of_le hkr)⟩
        · rw [hx] at hat
          cases hat

end QBackend.CausalSeries
