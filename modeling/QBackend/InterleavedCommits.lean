import QBackend.FallibleSteps
import QBackend.KeyedTables

/-!
# Interleaved transactions on one store

A session loads rows of a store, changes its copies and writes the changed columns back; other
sessions commit in between. `mergeColumn` is one column of such a write, `mergeKeyed` and
`mergeRows` are tables, and `writeThrough` is a transaction that writes step by step. A run is a
list of commits, each with the rows that its session had loaded.
-/

namespace QBackend.InterleavedCommits

open KeyedTables FallibleSteps

/-! ## Columns and rows -/

section Columns

variable {Value : Type*} [DecidableEq Value]

/-- A column after a write: the written value where the session changed it. -/
def mergeColumn (loaded written stored : Value) : Value :=
  if written = loaded then stored else written

@[simp] theorem mergeColumn_unchanged (loaded stored : Value) :
    mergeColumn loaded loaded stored = stored := by
  simp [mergeColumn]

/-- A session that loaded what is stored writes its own value. -/
@[simp] theorem mergeColumn_current (loaded written : Value) :
    mergeColumn loaded written loaded = written := by
  by_cases h : written = loaded
  · simp [mergeColumn, h]
  · simp [mergeColumn, h]

end Columns

section Tables

variable {Row Key : Type*} [DecidableEq Key] (key : Row → Key) (mergeRow : Row → Row → Row → Row)

/-- A row of the store after a session that loaded and left the given tables. -/
def mergeStored (loaded written : List Row) (stored : Row) : Option Row :=
  match lookup key loaded (key stored), lookup key written (key stored) with
  | some l, some w => some (mergeRow l w stored)
  | some _, none => none
  | none, _ => some stored

/-- A table with a primary key: updates, deletions, then the new rows. -/
def mergeKeyed (loaded written stored : List Row) : List Row :=
  stored.filterMap (mergeStored key mergeRow loaded written) ++
    written.filter (fun w => (lookup key loaded (key w)).isNone)

/-- A table whose rows are only updated and appended: a row keeps its place. -/
def mergeRows : List Row → List Row → List Row → List Row
  | [], written, stored => stored ++ written
  | _ :: _, [], stored => stored
  | _ :: loaded, _ :: written, [] => mergeRows loaded written []
  | l :: loaded, w :: written, s :: stored => mergeRow l w s :: mergeRows loaded written stored

variable {key mergeRow} {loaded written stored : List Row} {k : Key} {f : Row → Row}

theorem filter_isNone_of_keys (h : ∀ w ∈ written, (lookup key loaded (key w)).isSome) :
    written.filter (fun w => (lookup key loaded (key w)).isNone) = [] := by
  rw [List.filter_eq_nil_iff]
  intro w hw
  have := h w hw
  simpa [Option.isSome_iff_ne_none] using this

theorem isSome_lookup_of_mem {table : List Row} {r : Row} (h : r ∈ table) :
    (lookup key table (key r)).isSome := by
  by_contra hnone
  rw [Bool.not_eq_true, Option.isSome_eq_false_iff, Option.isNone_iff_eq_none] at hnone
  exact lookup_eq_none.mp hnone r h rfl

/-- A table that the session left alone is as stored. -/
theorem mergeKeyed_self (hkeep : ∀ l s, mergeRow l l s = s) :
    mergeKeyed key mergeRow loaded loaded stored = stored := by
  have hrow : ∀ s ∈ stored, mergeStored key mergeRow loaded loaded s = some s := by
    intro s _
    unfold mergeStored
    cases lookup key loaded (key s) with
    | none => rfl
    | some l => simp [hkeep]
  unfold mergeKeyed
  rw [filter_isNone_of_keys (fun w hw => isSome_lookup_of_mem hw), List.append_nil,
    List.filterMap_congr hrow]
  simp

theorem mergeKeyed_modify (hkeep : ∀ l s, mergeRow l l s = s) (hf : ∀ r, key (f r) = key r) :
    mergeKeyed key mergeRow loaded (modify key loaded k f) stored =
      stored.map (fun s => if key s = k then
        ((lookup key loaded k).map (fun l => mergeRow l (f l) s)).getD s else s) := by
  have hrow : ∀ s ∈ stored, mergeStored key mergeRow loaded (modify key loaded k f) s =
      some (if key s = k then
        ((lookup key loaded k).map (fun l => mergeRow l (f l) s)).getD s else s) := by
    intro s _
    unfold mergeStored
    by_cases hs : key s = k
    · rw [hs, lookup_modify_self hf]
      cases lookup key loaded k <;> simp
    · rw [lookup_modify_of_ne hf hs]
      cases lookup key loaded (key s) with
      | none => simp [hs]
      | some l => simp [hs, hkeep]
  have hkeys : ∀ w ∈ modify key loaded k f, (lookup key loaded (key w)).isSome := by
    intro w hw
    rcases mem_modify.mp hw with ⟨r, hr, -, rfl⟩ | ⟨hw, -⟩
    · rw [hf]
      exact isSome_lookup_of_mem hr
    · exact isSome_lookup_of_mem hw
  unfold mergeKeyed
  rw [filter_isNone_of_keys hkeys, List.append_nil, List.filterMap_congr hrow]
  simp

theorem mergeKeyed_modify_current {r : Row} (hkeep : ∀ l s, mergeRow l l s = s)
    (hf : ∀ r, key (f r) = key r) (hnodup : (stored.map key).Nodup)
    (hloaded : lookup key loaded k = some r) (hstored : lookup key stored k = some r)
    (hwrite : mergeRow r (f r) r = f r) :
    mergeKeyed key mergeRow loaded (modify key loaded k f) stored = modify key stored k f := by
  rw [mergeKeyed_modify hkeep hf, KeyedTables.modify]
  apply List.map_congr_left
  intro s hs
  by_cases hk : key s = k
  · have hsr : s = r := eq_of_mem_of_key hnodup hs (mem_of_lookup hstored)
      (hk.trans (key_of_lookup hstored).symm)
    simp [hloaded, hsr, hwrite]
  · simp [hk]

theorem lookup_mergeKeyed {s s' : Row} (hkey : ∀ l w s, key (mergeRow l w s) = key s)
    (hstored : lookup key stored k = some s)
    (hs : mergeStored key mergeRow loaded written s = some s') :
    lookup key (mergeKeyed key mergeRow loaded written stored) k = some s' := by
  have hother : ∀ x x', mergeStored key mergeRow loaded written x = some x' → key x' = key x := by
    intro x x' hx
    unfold mergeStored at hx
    split at hx
    · cases hx
      exact hkey _ _ _
    · cases hx
    · cases hx
      rfl
  have hfound : lookup key (stored.filterMap (mergeStored key mergeRow loaded written)) k =
      some s' := by
    induction stored with
    | nil => cases hstored
    | cons a rest ih =>
      by_cases ha : key a = k
      · have has : a = s := by simpa [lookup, ha] using hstored
        subst has
        have hs' : key s' = k := (hother _ _ hs).trans ha
        simp [lookup, hs, hs']
      · have hrest : lookup key rest k = some s := by simpa [lookup, ha] using hstored
        cases hx : mergeStored key mergeRow loaded written a with
        | none => simpa [lookup, hx] using ih hrest
        | some x =>
          have hxk : key x ≠ k := fun e => ha ((hother _ _ hx).symm.trans e)
          simpa [lookup, hx, hxk] using ih hrest
  unfold mergeKeyed
  unfold lookup at hfound ⊢
  rw [List.find?_append, hfound]
  rfl

omit [DecidableEq Key] in
theorem mergeRows_append (hkeep : ∀ l s, mergeRow l l s = s) (new : List Row) :
    mergeRows mergeRow loaded (loaded ++ new) stored = stored ++ new := by
  induction loaded generalizing stored with
  | nil => simp [mergeRows]
  | cons l loaded ih =>
    cases stored with
    | nil =>
      have hrest := @ih []
      simpa [mergeRows] using hrest
    | cons s stored => simpa [mergeRows, hkeep] using ih

omit [DecidableEq Key] in
theorem mergeRows_self (hkeep : ∀ l s, mergeRow l l s = s) :
    mergeRows mergeRow loaded loaded stored = stored := by
  have hnone : mergeRows mergeRow loaded (loaded ++ []) stored = stored ++ [] :=
    mergeRows_append hkeep []
  simpa using hnone

omit [DecidableEq Key] in
theorem mergeRows_map (p : Row → Prop) [DecidablePred p] (hkeep : ∀ l s, mergeRow l l s = s)
    (hwrite : ∀ r, p r → mergeRow r (f r) r = f r)
    (hloaded : ∀ (i : ℕ) r, loaded[i]? = some r → p r → stored[i]? = some r)
    (hstored : ∀ (i : ℕ) r, stored[i]? = some r → p r → loaded[i]? = some r) :
    mergeRows mergeRow loaded (loaded.map (fun r => if p r then f r else r)) stored =
      stored.map (fun r => if p r then f r else r) := by
  induction loaded generalizing stored with
  | nil =>
    have hnone : ∀ r ∈ stored, ¬ p r := by
      intro r hr hp
      obtain ⟨i, hi⟩ := List.getElem?_of_mem hr
      have := hstored i r hi hp
      simp at this
    have hmap : stored.map (fun r => if p r then f r else r) = stored := by
      conv_rhs => rw [← List.map_id stored]
      apply List.map_congr_left
      intro r hr
      simp [hnone r hr]
    rw [hmap]
    simp [mergeRows]
  | cons l loaded ih =>
    cases stored with
    | nil =>
      have hrest := @ih [] (fun i r hi hp => by simpa using hloaded (i + 1) r hi hp)
        (fun i r hi _ => by simp at hi)
      simpa [mergeRows] using hrest
    | cons s stored =>
      have hrest := @ih stored (fun i r hi hp => hloaded (i + 1) r hi hp)
        (fun i r hi hp => hstored (i + 1) r hi hp)
      have hhead : mergeRow l (if p l then f l else l) s = if p s then f s else s := by
        by_cases hl : p l
        · have hsl : s = l := by simpa using hloaded 0 l rfl hl
          simp [hsl, hl, hwrite l hl]
        · by_cases hs : p s
          · have hls : l = s := by simpa using hstored 0 s rfl hs
            exact absurd (hls ▸ hs) hl
          · simp [hl, hs, hkeep]
      rw [List.map_cons, mergeRows, hrest, hhead, List.map_cons]

omit [DecidableEq Key] in
theorem find?_eq_of_rows (p : Row → Bool)
    (hloaded : ∀ (i : ℕ) r, loaded[i]? = some r → p r → stored[i]? = some r)
    (hstored : ∀ (i : ℕ) r, stored[i]? = some r → p r → loaded[i]? = some r) :
    stored.find? p = loaded.find? p := by
  induction loaded generalizing stored with
  | nil =>
    rw [List.find?_nil, List.find?_eq_none]
    intro r hr hp
    obtain ⟨i, hi⟩ := List.getElem?_of_mem hr
    have := hstored i r hi hp
    simp at this
  | cons l loaded ih =>
    have hrest := @ih stored.tail
      (fun i r hi hp => by simpa using hloaded (i + 1) r hi hp)
      (fun i r hi hp => by simpa using hstored (i + 1) r (by simpa using hi) hp)
    cases stored with
    | nil =>
      have hl : ¬ p l := fun hp => by simpa using hloaded 0 l rfl hp
      rw [List.find?_cons_of_neg hl, ← hrest]
      rfl
    | cons s stored =>
      by_cases hl : p l
      · have hsl : s = l := by simpa using hloaded 0 l rfl hl
        rw [hsl, List.find?_cons_of_pos hl, List.find?_cons_of_pos hl]
      · by_cases hs : p s
        · have hls : l = s := by simpa using hstored 0 s rfl hs
          exact absurd (hls ▸ hs) hl
        · rw [List.find?_cons_of_neg hl, List.find?_cons_of_neg hs]
          exact hrest

end Tables

/-! ## Transactions -/

section Transactions

variable {ε : Type*} {Store : Type} {Write : Type*}
  (apply : Write → Store → Except ε Store) (merge : Store → Store → Store → Except ε Store)

/-- The writes of a transaction, each computed from what the session has loaded and written
through to the store. -/
def writeThrough : List Write → Store → Store → Except ε (Store × Store)
  | [], loaded, stored => .ok (loaded, stored)
  | w :: ws, loaded, stored => do
    let written ← apply w loaded
    let stored ← merge loaded written stored
    writeThrough ws written stored

/-- Every write of the transaction meets the condition on what is loaded and stored by then. -/
def Along (condition : Write → Store → Store → Prop) : List Write → Store → Store → Prop
  | [], _, _ => True
  | w :: ws, loaded, stored => condition w loaded stored ∧
      ∀ written stored', apply w loaded = .ok written → merge loaded written stored = .ok stored' →
        Along condition ws written stored'

variable {apply merge} {condition : Write → Store → Store → Prop} {ws : List Write}
  {loaded stored loaded' stored' : Store}

/-- What every write that meets the condition keeps of the store, the transaction keeps. -/
theorem writeThrough_invariant (Inv : Store → Prop)
    (hstep : ∀ w ∈ ws, ∀ loaded stored written stored', condition w loaded stored →
      apply w loaded = .ok written → merge loaded written stored = .ok stored' → Inv stored →
      Inv stored')
    (halong : Along apply merge condition ws loaded stored)
    (h : writeThrough apply merge ws loaded stored = .ok (loaded', stored')) (h0 : Inv stored) :
    Inv stored' := by
  induction ws generalizing loaded stored with
  | nil =>
    cases h
    exact h0
  | cons w ws ih =>
    simp only [writeThrough, bind_eq_ok] at h
    obtain ⟨written, hwritten, next, hnext, h⟩ := h
    exact ih (fun x hx => hstep x (by simp [hx])) (halong.2 _ _ hwritten hnext) h
      (hstep w (by simp) _ _ _ _ halong.1 hwritten hnext h0)

theorem along_of_forall (h : ∀ w loaded stored, condition w loaded stored) (ws : List Write)
    (loaded stored : Store) : Along apply merge condition ws loaded stored := by
  induction ws generalizing loaded stored with
  | nil => trivial
  | cons w ws ih => exact ⟨h w loaded stored, fun written stored' _ _ => ih written stored'⟩

end Transactions

/-! ## Runs -/

/-- A commit: the transaction, what its session had loaded, and the store before and after. -/
structure Commit (Store Transaction : Type*) where
  transaction : Transaction
  loaded : Store
  before : Store
  after : Store

section Runs

variable {ε Store Transaction : Type*} (visible : List Store → Store → Prop)
  (execute : Transaction → Store → Store → Except ε Store)

/-- The commits of any number of sessions in their order. What a session has loaded is visible in
the states committed before. -/
inductive Interleaving (start : Store) : List (Commit Store Transaction) → Store → Prop
  | start : Interleaving start [] start
  | commit {commits : List (Commit Store Transaction)} {store : Store}
      (c : Commit Store Transaction) (h : Interleaving start commits store)
      (hbefore : c.before = store) (hloaded : visible (start :: commits.map Commit.after) c.loaded)
      (hrun : execute c.transaction c.loaded store = .ok c.after) :
      Interleaving start (commits ++ [c]) c.after

variable {visible execute} {start : Store} {commits : List (Commit Store Transaction)} {store : Store}

theorem Interleaving.executed (h : Interleaving visible execute start commits store) :
    ∀ c ∈ commits, execute c.transaction c.loaded c.before = .ok c.after := by
  induction h with
  | start => simp
  | commit c _ hbefore _ hrun ih =>
    intro x hx
    rcases List.mem_append.mp hx with hx | hx
    · exact ih x hx
    · rw [List.mem_singleton.mp hx, hbefore]
      exact hrun

/-- What every commit of the run keeps holds in every committed state. -/
theorem Interleaving.invariant (Inv : Store → Prop)
    (h : Interleaving visible execute start commits store) (h0 : Inv start)
    (hstep : ∀ c ∈ commits, execute c.transaction c.loaded c.before = .ok c.after → Inv c.before →
      Inv c.after) :
    Inv store ∧ ∀ s ∈ start :: commits.map Commit.after, Inv s := by
  induction h with
  | start => exact ⟨h0, by simpa using h0⟩
  | @commit commits store c _ hbefore hloaded hrun ih =>
    obtain ⟨hstore, hall⟩ := ih (fun x hx => hstep x (by simp [hx]))
    have hafter : Inv c.after := by
      apply hstep c (by simp)
      · rw [hbefore]
        exact hrun
      · rw [hbefore]
        exact hstore
    refine ⟨hafter, fun s hs => ?_⟩
    rw [List.map_append, ← List.cons_append, List.mem_append] at hs
    rcases hs with hs | hs
    · exact hall s hs
    · have hsafter : s = c.after := by simpa using hs
      rw [hsafter]
      exact hafter

end Runs

end QBackend.InterleavedCommits
