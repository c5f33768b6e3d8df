import QBackend.FallibleSteps
import QBackend.IsoTimestamps

/-!
# JSON values and the readers of their fields

The trees that pass through the text of a JSON document, over any type of floating point numbers.
What is dumped and loaded again is the same tree, so a staged document is its tree. A reader takes a
field of an object apart and raises what the field access or the conversion raises.
-/

namespace QBackend.JsonValues

open IsoTimestamps

inductive Json (F : Type) where
  | null
  | bool (b : Bool)
  | int (n : ℤ)
  | float (x : F)
  | str (s : String)
  | list (items : List (Json F))
  | obj (fields : List (String × Json F))

/-- The fields of an object, in their order of insertion. -/
abbrev Dict (F : Type) := List (String × Json F)

/-- The exceptions of the readers. -/
inductive Failure where
  | keyError (key : String)
  | typeError
  | valueError (message : String)
  deriving DecidableEq, Repr

variable {F : Type}

/-- A field that must be there. -/
def require (fields : Dict F) (key : String) : Except Failure (Json F) :=
  match fields.lookup key with
  | some value => .ok value
  | none => .error (.keyError key)

/-- A field that counts as null where it is missing. -/
def getOrNull (fields : Dict F) (key : String) : Json F := (fields.lookup key).getD .null

/-- Write one field: it keeps its place where it is there. -/
def setField (fields : Dict F) (key : String) (value : Json F) : Dict F :=
  if (fields.lookup key).isSome then
    fields.map fun field => if field.1 = key then (key, value) else field
  else fields ++ [(key, value)]

/-- The fields of both; those of the second win. -/
def mergeFields (fields updates : Dict F) : Dict F :=
  updates.foldl (fun all field => setField all field.1 field.2) fields

/-! ## What a write leaves to read -/

theorem lookup_map_set {fields : Dict F} {key : String} {value : Json F}
    (hkey : (fields.lookup key).isSome) :
    (fields.map fun field => if field.1 = key then (key, value) else field).lookup key =
      some value := by
  induction fields with
  | nil => cases hkey
  | cons field fields ih =>
    obtain ⟨name, old⟩ := field
    by_cases h : name = key
    · simp [h]
    · have hrest : (fields.lookup key).isSome := by
        simpa [List.lookup_cons, beq_eq_false_iff_ne.mpr (Ne.symm h)] using hkey
      simp [List.lookup_cons, h, beq_eq_false_iff_ne.mpr (Ne.symm h), ih hrest]

theorem lookup_map_set_of_ne {fields : Dict F} {key other : String} {value : Json F}
    (h : other ≠ key) :
    (fields.map fun field => if field.1 = key then (key, value) else field).lookup other =
      fields.lookup other := by
  induction fields with
  | nil => rfl
  | cons field fields ih =>
    obtain ⟨name, old⟩ := field
    by_cases hname : name = key
    · subst hname
      simp [List.lookup_cons, beq_eq_false_iff_ne.mpr h, ih]
    · simp [List.lookup_cons, hname, ih]

@[simp] theorem lookup_setField (fields : Dict F) (key other : String) (value : Json F) :
    (setField fields key value).lookup other =
      if other = key then some value else fields.lookup other := by
  by_cases hkey : (fields.lookup key).isSome
  · by_cases h : other = key
    · subst h
      simp [setField, hkey, lookup_map_set hkey]
    · simp [setField, hkey, h, lookup_map_set_of_ne h]
  · have hnone : fields.lookup key = none := Option.not_isSome_iff_eq_none.mp hkey
    by_cases h : other = key
    · subst h
      simp [setField, List.lookup_append, hnone]
    · simp [setField, hnone, List.lookup_append, List.lookup_cons, h,
        beq_eq_false_iff_ne.mpr h]

theorem lookup_eq_none_of_not_mem {fields : Dict F} {key : String}
    (h : key ∉ fields.map Prod.fst) : fields.lookup key = none := by
  rw [List.lookup_eq_none_iff]
  intro field hfield
  have hne : field.1 ≠ key := fun heq => h (heq ▸ List.mem_map_of_mem hfield)
  exact bne_iff_ne.mpr hne.symm

/-- Where no key of the updates is there twice, a field of theirs is read before the others. -/
theorem lookup_mergeFields (fields : Dict F) {updates : Dict F}
    (hnd : (updates.map Prod.fst).Nodup) (key : String) :
    (mergeFields fields updates).lookup key = (updates.lookup key).or (fields.lookup key) := by
  induction updates generalizing fields with
  | nil => rfl
  | cons update updates ih =>
    obtain ⟨name, value⟩ := update
    rw [List.map_cons, List.nodup_cons] at hnd
    show (mergeFields (setField fields name value) updates).lookup key = _
    rw [ih _ hnd.2, lookup_setField]
    by_cases h : key = name
    · subst h
      simp [lookup_eq_none_of_not_mem hnd.1]
    · simp [List.lookup_cons, h, beq_eq_false_iff_ne.mpr h]

theorem lookup_filter_key (fields : Dict F) (keep : String → Bool) (key : String) :
    (fields.filter fun field => keep field.1).lookup key =
      if keep key then fields.lookup key else none := by
  induction fields with
  | nil => simp
  | cons field fields ih =>
    obtain ⟨name, value⟩ := field
    by_cases h : key = name
    · subst h
      cases hkeep : keep key
      · simp [hkeep, ih]
      · simp [hkeep]
    · cases hkeep : keep name
      · simp [hkeep, ih, List.lookup_cons, beq_eq_false_iff_ne.mpr h]
      · simp [hkeep, ih, List.lookup_cons, beq_eq_false_iff_ne.mpr h]

namespace Json

def asObject : Json F → Except Failure (Dict F)
  | .obj fields => .ok fields
  | _ => .error .typeError

def asText : Json F → Except Failure String
  | .str s => .ok s
  | _ => .error .typeError

def asNat : Json F → Except Failure ℕ
  | .int (.ofNat n) => .ok n
  | _ => .error .typeError

def asList : Json F → Except Failure (List (Json F))
  | .list items => .ok items
  | _ => .error .typeError

def asTimestamp : Json F → Except Failure Timestamp
  | .str s =>
    match Timestamp.fromisoformat s with
    | some t => .ok t
    | none => .error (.valueError "Invalid isoformat string")
  | _ => .error .typeError

/-- A number as a floating point number. -/
def asFloat [IntCast F] : Json F → Except Failure F
  | .float x => .ok x
  | .int n => .ok (n : F)
  | .bool b => .ok ((if b then (1 : ℤ) else 0 : ℤ) : F)
  | _ => .error .typeError

/-- Null, or what the reader takes. -/
def asOption {α : Type} (read : Json F → Except Failure α) : Json F → Except Failure (Option α)
  | .null => .ok none
  | value => (read value).map some

/-- Null for a value that is not there. -/
def ofOption {α : Type} (write : α → Json F) : Option α → Json F
  | none => .null
  | some a => write a

/-- A reader that gives back what is written gives back what is written optionally, as long as
nothing is written as null. -/
theorem asOption_ofOption {α : Type} {write : α → Json F} {read : Json F → Except Failure α}
    (hread : ∀ a, read (write a) = .ok a) (hnull : ∀ a, write a ≠ .null) (x : Option α) :
    asOption read (ofOption write x) = .ok x := by
  cases x with
  | none => rfl
  | some a =>
    show asOption read (write a) = .ok (some a)
    have hsome : asOption read (write a) = (read (write a)).map some := by
      cases hwrite : write a with
      | null => exact (hnull a hwrite).elim
      | bool | int | float | str | list | obj => rfl
    rw [hsome, hread]
    rfl

@[simp] theorem asTimestamp_isoformat (t : Timestamp) :
    asTimestamp (.str t.isoformat : Json F) = .ok t := by
  simp [asTimestamp]

@[simp] theorem asTimestamp_zuluformat (t : Timestamp) :
    asTimestamp (.str t.zuluformat : Json F) = .ok t := by
  simp [asTimestamp]

theorem mapM_map_ok {α : Type} {write : α → Json F} {read : Json F → Except Failure α}
    (hread : ∀ a, read (write a) = .ok a) (items : List α) :
    (items.map write).mapM read = .ok items := by
  induction items with
  | nil => rfl
  | cons a items ih =>
    rw [List.map_cons, List.mapM_cons, hread, ih]
    rfl

end Json

end QBackend.JsonValues
