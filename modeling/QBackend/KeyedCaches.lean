import Mathlib.Data.List.Nodup
import Mathlib.Logic.Function.Basic

/-!
# Caches under short keys

A cache keeps values under keys and may lose them. A request computes its value from an input and
finds it again under its key, which need not say everything about the input. What the cache holds
under a key was computed from the input of the request that put it there; an answer is right where
that input is the one of the request.
-/

namespace QBackend.KeyedCaches

variable {S Key Val In ε : Type*}

/-- A cache: a lookup may reorder the entries, and to put one in may drop others. -/
structure Cache (S Key Val : Type*) where
  lookup : S → Key → Option Val
  touch : S → Key → S
  put : S → Key → Val → S
  lookup_touch : ∀ {s k j v}, lookup (touch s k) j = some v → lookup s j = some v
  lookup_put : ∀ {s k v j w}, lookup (put s k v) j = some w →
    (j = k ∧ w = v) ∨ (j ≠ k ∧ lookup s j = some w)

namespace Cache

variable (c : Cache S Key Val)

/-- What is in the cache, else what is computed, which the cache then holds. -/
def serve (compute : In → Except ε Val) (s : S) (k : Key) (i : In) : Except ε Val × S :=
  match c.lookup s k with
  | some v => (.ok v, c.touch s k)
  | none =>
    match compute i with
    | .ok v => (.ok v, c.put s k v)
    | .error e => (.error e, s)

/-- The inputs of the entries, after a request. -/
def note [DecidableEq Key] (compute : In → Except ε Val) (s : S) (origin : Key → Option In)
    (k : Key) (i : In) : Key → Option In :=
  match c.lookup s k, compute i with
  | none, .ok _ => Function.update origin k (some i)
  | _, _ => origin

/-- Every entry was computed from the input noted for its key. -/
def Backed (compute : In → Except ε Val) (origin : Key → Option In) (s : S) : Prop :=
  ∀ k v, c.lookup s k = some v → ∃ i, origin k = some i ∧ compute i = .ok v

variable {c} {compute : In → Except ε Val} {origin : Key → Option In} {s : S} {k : Key} {v : Val}
  {i : In}

theorem Backed.touch (h : c.Backed compute origin s) (k : Key) :
    c.Backed compute origin (c.touch s k) := fun j v hv => h j v (c.lookup_touch hv)

theorem Backed.put [DecidableEq Key] (h : c.Backed compute origin s) (k : Key)
    (hv : compute i = .ok v) :
    c.Backed compute (Function.update origin k (some i)) (c.put s k v) := by
  intro j w hw
  obtain ⟨rfl, rfl⟩ | ⟨hne, hw⟩ := c.lookup_put hw
  · exact ⟨i, Function.update_self _ _ _, hv⟩
  · rw [Function.update_of_ne hne]
    exact h j w hw

theorem Backed.serve [DecidableEq Key] (h : c.Backed compute origin s) (k : Key) (i : In) :
    c.Backed compute (c.note compute s origin k i) (c.serve compute s k i).2 := by
  unfold Cache.serve note
  cases hfound : c.lookup s k with
  | some v => exact h.touch k
  | none =>
    cases hvalue : compute i with
    | ok v => exact h.put k hvalue
    | error e => exact h

theorem Backed.serve_eq (h : c.Backed compute origin s)
    (hsame : c.lookup s k ≠ none → origin k = some i) :
    (c.serve compute s k i).1 = compute i := by
  unfold Cache.serve
  split
  next v hv =>
    obtain ⟨i', horigin, hcomputed⟩ := h k v hv
    rw [hsame (by rw [hv]; simp)] at horigin
    cases horigin
    exact hcomputed.symm
  next =>
    split
    next v hv => exact hv.symm
    next e he => exact he.symm

theorem note_eq_some [DecidableEq Key] {j : Key} {i' : In}
    (h : c.note compute s origin k i j = some i') : origin j = some i' ∨ (j = k ∧ i' = i) := by
  have hnote : c.note compute s origin k i = origin ∨
      c.note compute s origin k i = Function.update origin k (some i) := by
    unfold note
    split
    · exact Or.inr rfl
    · exact Or.inl rfl
  obtain hnote | hnote := hnote
  · exact Or.inl (hnote ▸ h)
  · rw [hnote] at h
    by_cases hj : j = k
    · subst hj
      rw [Function.update_self] at h
      exact Or.inr ⟨rfl, (Option.some.inj h).symm⟩
    · rw [Function.update_of_ne hj] at h
      exact Or.inl h

end Cache

/-! ## The least recently used entry goes -/

/-- Entries of distinct keys, from the oldest use to the latest. -/
structure Recent (Key Val : Type*) where
  entries : List (Key × Val)
  nodup : (entries.map Prod.fst).Nodup

namespace Recent

variable [DecidableEq Key] (r : Recent Key Val)

def empty : Recent Key Val := ⟨[], List.nodup_nil⟩

def lookup (k : Key) : Option Val := r.entries.lookup k

/-- The entry as the latest; one with the same key goes. -/
def latest (k : Key) (v : Val) : List (Key × Val) :=
  r.entries.filter (fun entry => entry.1 ≠ k) ++ [(k, v)]

theorem nodup_latest (k : Key) (v : Val) : ((r.latest k v).map Prod.fst).Nodup := by
  rw [latest, List.map_append, List.nodup_append]
  refine ⟨(List.filter_sublist.map Prod.fst).nodup r.nodup, List.nodup_singleton _, ?_⟩
  intro j hj k' hk' heq
  obtain ⟨entry, hentry, rfl⟩ := List.mem_map.mp hj
  have hne : entry.1 ≠ k := of_decide_eq_true (List.mem_filter.mp hentry).2
  exact hne (heq.trans (List.mem_singleton.mp hk'))

/-- `move_to_end`. -/
def moveToEnd (k : Key) : Recent Key Val :=
  match r.lookup k with
  | some v => ⟨r.latest k v, r.nodup_latest k v⟩
  | none => r

/-- The entry is set as the latest; the oldest go while there are more than the limit. -/
def put (limit : ℕ) (k : Key) (v : Val) : Recent Key Val :=
  ⟨(r.latest k v).drop ((r.latest k v).length - limit),
    ((List.drop_sublist _ _).map Prod.fst).nodup (r.nodup_latest k v)⟩

variable {r} {k j : Key} {v w : Val}

theorem lookup_eq_some : r.lookup k = some v ↔ (k, v) ∈ r.entries := by
  obtain ⟨entries, hnodup⟩ := r
  unfold lookup
  induction entries with
  | nil => simp
  | cons entry entries ih =>
    obtain ⟨hfirst, hrest⟩ := List.nodup_cons.mp hnodup
    by_cases hk : k = entry.1
    · have hnot : (k, v) ∉ entries := fun hmem =>
        hfirst (hk ▸ List.mem_map_of_mem (f := Prod.fst) hmem)
      obtain ⟨k', v'⟩ := entry
      cases hk
      simp only [List.lookup_cons_self, List.mem_cons, hnot, or_false, Prod.mk.injEq, true_and,
        Option.some.injEq, eq_comm]
    · obtain ⟨k', v'⟩ := entry
      have hb : (k == k') = false := beq_false_of_ne hk
      have hne : (k, v) ≠ (k', v') := fun heq => hk (congrArg Prod.fst heq)
      simp only [List.lookup_cons, hb, List.mem_cons, hne, false_or]
      exact ih hrest

theorem mem_latest (h : (j, w) ∈ r.latest k v) :
    (j = k ∧ w = v) ∨ (j ≠ k ∧ r.lookup j = some w) := by
  obtain h | h := List.mem_append.mp h
  · obtain ⟨hmem, hne⟩ := List.mem_filter.mp h
    exact Or.inr ⟨of_decide_eq_true hne, lookup_eq_some.mpr hmem⟩
  · cases List.mem_singleton.mp h
    exact Or.inl ⟨rfl, rfl⟩

theorem lookup_moveToEnd (h : (r.moveToEnd k).lookup j = some w) : r.lookup j = some w := by
  unfold moveToEnd at h
  split at h
  next v hv =>
    obtain ⟨rfl, rfl⟩ | ⟨-, h⟩ := mem_latest (lookup_eq_some.mp h)
    · exact hv
    · exact h
  next => exact h

theorem lookup_put {limit : ℕ} (h : (r.put limit k v).lookup j = some w) :
    (j = k ∧ w = v) ∨ (j ≠ k ∧ r.lookup j = some w) :=
  mem_latest (List.mem_of_mem_drop (lookup_eq_some.mp h))

/-- A cache with a limit, from which the least recently used entries go. -/
def cache (limit : ℕ) : Cache (Recent Key Val) Key Val where
  lookup := lookup
  touch := moveToEnd
  put := fun r k v => r.put limit k v
  lookup_touch := lookup_moveToEnd
  lookup_put := lookup_put

end Recent

end QBackend.KeyedCaches
