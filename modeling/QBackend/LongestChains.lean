import QBackend.GraphReach
import Mathlib.Data.List.Chain
import Mathlib.Data.Set.Finite.Basic
import Mathlib.Order.Bounds.Basic
import Mathlib.Order.WellFounded

/-!
# Longest chains of parents

A graph in which each id lists its parents is ordered as a whole just when no id reaches itself. In
such a graph a chain of parents has no id twice, so that there is a longest chain that ends in an id,
and its length is one more than that of the parents.
-/

namespace QBackend.LongestChains

open TopologicalOrder Relation

variable {κ : Type*} {parents : κ → List κ} {ids : List κ}

/-! ## Cycles -/

theorem mem_before_of_transGen {order before after : List κ} {n p : κ}
    (h : ParentsFirst parents order) (hsplit : order = before ++ n :: after)
    (hreach : TransGen (fun a b => b ∈ parents a) n p) : p ∈ before := by
  induction hreach with
  | single hedge => exact h.mem_before hsplit hedge
  | @tail m _ _ hedge ih =>
    obtain ⟨first, rest, hbefore⟩ := List.append_of_mem ih
    have hsplit' : order = first ++ m :: (rest ++ n :: after) := by
      rw [hsplit, hbefore, List.append_assoc, List.cons_append]
    rw [hbefore]
    exact List.mem_append_left _ (h.mem_before hsplit' hedge)

theorem mem_of_transGen (hids : ∀ n ∈ ids, ∀ p ∈ parents n, p ∈ ids) {n p : κ} (hn : n ∈ ids)
    (hreach : TransGen (fun a b => b ∈ parents a) n p) : p ∈ ids := by
  induction hreach with
  | single hedge => exact hids n hn _ hedge
  | tail _ hedge ih => exact hids _ ih _ hedge

theorem exists_without_parent (hids : ∀ n ∈ ids, ∀ p ∈ parents n, p ∈ ids)
    (hacyclic : ∀ n ∈ ids, ¬ TransGen (fun a b => b ∈ parents a) n n) {P : κ → Prop} {n : κ}
    (hn : n ∈ ids) (hP : P n) : ∃ m ∈ ids, P m ∧ ∀ p ∈ parents m, ¬ P p := by
  let above : {n // n ∈ ids} → {n // n ∈ ids} → Prop :=
    fun p n => TransGen (fun a b => b ∈ parents a) n.1 p.1
  have htrans : IsTrans _ above := ⟨fun _ _ _ hab hbc => hbc.trans hab⟩
  have hirrefl : Std.Irrefl above := ⟨fun n hcycle => hacyclic n.1 n.2 hcycle⟩
  have hfinite : Finite {n // n ∈ ids} := List.finite_toSet ids
  obtain ⟨⟨m, hm⟩, hPm, hmin⟩ :=
    (Finite.wellFounded_of_trans_of_irrefl above).has_min {n | P n.1} ⟨⟨n, hn⟩, hP⟩
  exact ⟨m, hm, hPm, fun p hp hPp => hmin ⟨p, hids m hm p hp⟩ hPp (.single hp)⟩

theorem length_kahn_iff [DecidableEq κ] (hnd : ids.Nodup)
    (hids : ∀ n ∈ ids, ∀ p ∈ parents n, p ∈ ids) : (kahn ids parents).length = ids.length ↔
      ∀ n ∈ ids, ¬ TransGen (fun a b => b ∈ parents a) n n := by
  constructor
  · intro hlen n hn hcycle
    obtain ⟨before, after, hsplit⟩ := List.append_of_mem (GraphReach.mem_kahn hnd hlen hn)
    have hmem := mem_before_of_transGen (kahn_parentsFirst hnd) hsplit hcycle
    have hnodup : (kahn ids parents).Nodup := kahn_nodup hnd
    rw [hsplit] at hnodup
    exact (List.nodup_append.mp hnodup).2.2 n hmem n List.mem_cons_self rfl
  · intro hacyclic
    refine Nat.le_antisymm (length_kahn_le hnd) (List.subperm_of_subset hnd ?_).length_le
    intro n hn
    by_contra hnot
    obtain ⟨m, hm, hleft, hparents⟩ := exists_without_parent hids hacyclic
      (P := fun n => n ∉ kahn ids parents) hn hnot
    exact hleft (mem_kahn_of_parents hnd hm fun p hp => not_not.mp (hparents p hp))

/-! ## Chains -/

/-- Each id of the chain is a parent of the next one, and the last one is the id. -/
def EndsIn (parents : κ → List κ) (chain : List κ) (n : κ) : Prop :=
  chain.IsChain (fun a b => a ∈ parents b) ∧ chain.getLast? = some n

/-- How many ids are on the chains that end in the id. -/
def chainLengths (parents : κ → List κ) (n : κ) : Set ℕ :=
  {k | ∃ chain, EndsIn parents chain n ∧ chain.length = k}

/-- The chains that end in the id are not longer than this. -/
def Bounded (parents : κ → List κ) (bound : ℕ) (n : κ) : Prop :=
  ∀ chain, EndsIn parents chain n → chain.length ≤ bound

theorem endsIn_singleton (n : κ) : EndsIn parents [n] n := ⟨List.isChain_singleton n, rfl⟩

theorem EndsIn.snoc {chain : List κ} {n p : κ} (h : EndsIn parents chain p) (hp : p ∈ parents n) :
    EndsIn parents (chain ++ [n]) n := by
  refine ⟨List.isChain_append.mpr ⟨h.1, List.isChain_singleton n, ?_⟩, List.getLast?_concat⟩
  intro last hlast first hfirst
  obtain rfl : p = last := Option.some.inj (h.2.symm.trans hlast)
  obtain rfl : n = first := Option.some.inj hfirst
  exact hp

/-- A chain is the id alone, or goes through a parent. -/
theorem EndsIn.eq_or_snoc {chain : List κ} {n : κ} (h : EndsIn parents chain n) :
    chain = [n] ∨ ∃ before p, chain = before ++ [n] ∧ p ∈ parents n ∧ EndsIn parents before p := by
  obtain ⟨hchain, hlast⟩ := h
  obtain rfl | ⟨before, last, rfl⟩ := List.eq_nil_or_concat chain
  · cases hlast
  · rw [List.concat_eq_append] at hchain hlast ⊢
    rw [List.getLast?_concat] at hlast
    obtain rfl := Option.some.inj hlast
    obtain ⟨hbefore, -, hlink⟩ := List.isChain_append.mp hchain
    cases hp : before.getLast? with
    | none =>
      left
      rw [List.getLast?_eq_none_iff.mp hp, List.nil_append]
    | some p => exact .inr ⟨before, p, rfl, hlink p hp last rfl, hbefore, hp⟩

theorem Bounded.parent {bound : ℕ} {n p : κ} (h : Bounded parents (bound + 1) n)
    (hp : p ∈ parents n) : Bounded parents bound p := by
  intro chain hchain
  have hle := h _ (hchain.snoc hp)
  rw [List.length_append, List.length_singleton] at hle
  omega

theorem not_bounded_zero {n : κ} : ¬ Bounded parents 0 n := fun h =>
  absurd (h [n] (endsIn_singleton n)) (by simp)

theorem bounded_ids (hids : ∀ n ∈ ids, ∀ p ∈ parents n, p ∈ ids)
    (hacyclic : ∀ n ∈ ids, ¬ TransGen (fun a b => b ∈ parents a) n n) {n : κ} (hn : n ∈ ids) :
    Bounded parents ids.length n := by
  intro chain h
  have hreaches : chain.Pairwise fun a b => TransGen (fun a b => b ∈ parents a) b a := by
    have htrans : IsTrans κ fun a b => TransGen (fun a b => b ∈ parents a) b a :=
      ⟨fun _ _ _ hab hbc => hbc.trans hab⟩
    exact List.isChain_iff_pairwise.mp (h.1.imp fun _ _ hedge => .single hedge)
  have hmem : ∀ a ∈ chain, a ∈ ids := by
    obtain rfl | ⟨before, last, rfl⟩ := List.eq_nil_or_concat chain
    · exact fun a ha => by cases ha
    · rw [List.concat_eq_append] at h hreaches ⊢
      have hlast := h.2
      rw [List.getLast?_concat] at hlast
      obtain rfl := Option.some.inj hlast
      intro a ha
      obtain ha | ha := List.mem_append.mp ha
      · exact mem_of_transGen hids hn
          ((List.pairwise_append.mp hreaches).2.2 a ha last (List.mem_singleton_self last))
      · exact List.mem_singleton.mp ha ▸ hn
  have hnodup : chain.Nodup := by
    refine hreaches.imp_of_mem fun {a b} ha _ hab heq => ?_
    subst heq
    exact hacyclic a (hmem a ha) hab
  exact (List.subperm_of_subset hnodup hmem).length_le

/-! ## The longest chain -/

theorem isGreatest_succ {n : κ} {longest : ℕ}
    (hle : ∀ p ∈ parents n, ∃ d ≤ longest, IsGreatest (chainLengths parents p) d)
    (hreached : longest = 0 ∨ ∃ p ∈ parents n, IsGreatest (chainLengths parents p) longest) :
    IsGreatest (chainLengths parents n) (1 + longest) := by
  constructor
  · obtain rfl | ⟨p, hp, ⟨chain, hchain, hlen⟩, -⟩ := hreached
    · exact ⟨[n], endsIn_singleton n, rfl⟩
    · refine ⟨chain ++ [n], hchain.snoc hp, ?_⟩
      rw [List.length_append, hlen, List.length_singleton, Nat.add_comm]
  · rintro _ ⟨chain, hchain, rfl⟩
    obtain rfl | ⟨before, p, rfl, hp, hbefore⟩ := hchain.eq_or_snoc
    · exact Nat.le_add_right 1 longest
    · obtain ⟨d, hd, hgreatest⟩ := hle p hp
      have hlen := hgreatest.2 ⟨before, hbefore, rfl⟩
      rw [List.length_append, List.length_singleton]
      omega

end QBackend.LongestChains
