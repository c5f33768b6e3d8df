import QBackend.GeneticOrchestrator
import QBackend.OrderedSeries

/-!
# The ranking of candidates

The key of `_rank_results` reads a robustness score of zero as no score. Where no candidate that is
ranked has that score beside one that is lower or missing, the key orders the candidates as their
scores do.
-/

namespace QBackend.GeneticSearch

open OrderedSeries

/-! ## A correct leaderboard -/

namespace CandidateResult

/-- The score, where none is below every score. -/
def score (result : CandidateResult) : WithBot ℚ := result.robustnessScore

/-- Past the gates, with an objective value and a robustness score. -/
def Passing (result : CandidateResult) : Prop :=
  isRanked result = true ∧ result.robustnessScore.isSome = true

def unranked (result : CandidateResult) : CandidateResult := { result with rank := none }

/-- The same candidate, or another one with the same rank and the same score. -/
def Tied (result other : CandidateResult) : Prop :=
  result = other ∨ result.rank.isSome = true ∧ result.rank = other.rank ∧
    result.robustnessScore = other.robustnessScore

end CandidateResult

open CandidateResult

/-- The passing candidates by score with the ranks from 1 on, and the others after them. -/
def PassingFirst (ranked : List CandidateResult) : Prop :=
  ∃ passing others, ranked = passing ++ others ∧ (∀ r ∈ passing, r.Passing) ∧
    (∀ r ∈ others, ¬ r.Passing) ∧ passing.Pairwise (fun a b => b.score ≤ a.score) ∧
    (∀ i (h : i < passing.length), passing[i].rank = some (i + 1)) ∧
    ∀ r ∈ others, ∀ n ∈ r.rank, passing.length < n

structure CorrectlyRanked (results : List CandidateResult) : Prop where
  perm : ((rankResults results).map unranked).Perm results
  passingFirst : PassingFirst (rankResults results)
  best_isSome : (∃ r ∈ results, r.Passing) → (bestOf [results]).isSome = true
  best_passing : ∀ best ∈ bestOf [results], best.Passing ∧
    ∀ r ∈ results, r.Passing → r.score ≤ best.score
  permuted : ∀ results', results'.Perm results →
    List.Forall₂ Tied (rankResults results') (rankResults results)

/-- No score of zero beside a lower or a missing one, and a score among the ranked candidates. -/
structure ScoresCount (results : List CandidateResult) : Prop where
  zero : ∀ z ∈ results, isRanked z = true → z.robustnessScore = some 0 →
    ∀ r ∈ results, isRanked r = true → ∃ s, r.robustnessScore = some s ∧ 0 ≤ s
  scored : (∃ r ∈ results, isRanked r = true) → ∃ r ∈ results, r.Passing

theorem score_eq_bot {r : CandidateResult} : r.score = ⊥ ↔ r.robustnessScore = none := Iff.rfl

theorem passing_iff {r : CandidateResult} (h : isRanked r = true) : r.Passing ↔ r.score ≠ ⊥ := by
  unfold Passing
  rw [Ne, score_eq_bot, Option.isSome_iff_ne_none]
  exact and_iff_right h

/-! ## The key -/

theorem rankKey_eq_score {r : CandidateResult} (h : r.robustnessScore ≠ some 0) :
    rankKey r = r.score := by
  unfold rankKey CandidateResult.score
  cases hs : r.robustnessScore with
  | none => rfl
  | some s =>
    have hne : s ≠ 0 := fun hzero => h (by rw [hs, hzero])
    exact if_neg hne

theorem rankKey_zero {r : CandidateResult} (h : r.robustnessScore = some 0) : rankKey r = ⊥ := by
  unfold rankKey
  rw [h]
  exact if_pos rfl

theorem rankKey_some {r : CandidateResult} {s : ℚ} (h : r.robustnessScore = some s) (hs : s ≠ 0) :
    rankKey r = s := by
  unfold rankKey
  rw [h]
  exact if_neg hs

theorem score_some {r : CandidateResult} {s : ℚ} (h : r.robustnessScore = some s) :
    r.score = s := h

/-- Scores that are not negative are ordered by the key. -/
theorem rankKey_le_iff_of_nonneg {a b : CandidateResult} {s t : ℚ}
    (ha : a.robustnessScore = some s) (hs : 0 ≤ s) (hb : b.robustnessScore = some t) (ht : 0 ≤ t) :
    rankKey b ≤ rankKey a ↔ b.score ≤ a.score := by
  rw [score_some ha, score_some hb, WithBot.coe_le_coe]
  by_cases hszero : s = 0
  · subst hszero
    rw [rankKey_zero ha, le_bot_iff]
    by_cases htzero : t = 0
    · subst htzero
      exact iff_of_true (rankKey_zero hb) le_rfl
    · rw [rankKey_some hb htzero]
      exact iff_of_false (WithBot.coe_ne_bot) fun h => htzero (le_antisymm h ht)
  · rw [rankKey_some ha hszero]
    by_cases htzero : t = 0
    · subst htzero
      rw [rankKey_zero hb]
      exact iff_of_true bot_le hs
    · rw [rankKey_some hb htzero, WithBot.coe_le_coe]

theorem ScoresCount.rankKey_le_iff {results : List CandidateResult} (h : ScoresCount results)
    {a b : CandidateResult} (ha : a ∈ results) (haranked : isRanked a = true) (hb : b ∈ results)
    (hbranked : isRanked b = true) : rankKey b ≤ rankKey a ↔ b.score ≤ a.score := by
  by_cases hzero : ∃ z ∈ results, isRanked z = true ∧ z.robustnessScore = some 0
  · obtain ⟨z, hz, hzranked, hz0⟩ := hzero
    obtain ⟨s, has, hs⟩ := h.zero z hz hzranked hz0 a ha haranked
    obtain ⟨t, hbt, ht⟩ := h.zero z hz hzranked hz0 b hb hbranked
    exact rankKey_le_iff_of_nonneg has hs hbt ht
  · have hkey : ∀ r ∈ results, isRanked r = true → rankKey r = r.score := fun r hr hranked =>
      rankKey_eq_score fun hscore => hzero ⟨r, hr, hranked, hscore⟩
    rw [hkey a ha haranked, hkey b hb hbranked]

/-! ## The two parts of the ranking -/

/-- The ranked candidates in order. -/
def leaders (results : List CandidateResult) : List CandidateResult :=
  (results.filter isRanked).insertionSort fun a b => rankKey b ≤ rankKey a

def assignRanks (results : List CandidateResult) : List CandidateResult :=
  results.mapIdx fun i result => { result with rank := some (i + 1) }

/-- The candidates without a rank in order. -/
def trailing (results : List CandidateResult) : List CandidateResult :=
  (results.filter fun result => !isRanked result).insertionSort trailingLe

theorem rankResults_eq (results : List CandidateResult) :
    rankResults results = assignRanks (leaders results) ++ trailing results := rfl

variable {results results' : List CandidateResult} {r : CandidateResult}

theorem mem_leaders : r ∈ leaders results ↔ r ∈ results ∧ isRanked r = true := by
  unfold leaders
  rw [List.mem_insertionSort, List.mem_filter]

theorem mem_trailing : r ∈ trailing results ↔ r ∈ results ∧ isRanked r = false := by
  unfold trailing
  rw [List.mem_insertionSort, List.mem_filter, Bool.not_eq_true']

theorem leaders_append_trailing_perm (results : List CandidateResult) :
    (leaders results ++ trailing results).Perm results :=
  ((List.perm_insertionSort _ _).append (List.perm_insertionSort _ _)).trans
    (List.filter_append_perm isRanked results)

@[simp] theorem length_assignRanks : (assignRanks results).length = results.length :=
  List.length_mapIdx

theorem assignRanks_cons (a : CandidateResult) (rest : List CandidateResult) :
    ∃ ranked, assignRanks (a :: rest) = { a with rank := some 1 } :: ranked :=
  ⟨_, List.mapIdx_cons⟩

theorem getElem_assignRanks {i : ℕ} (h : i < (assignRanks results).length) :
    (assignRanks results)[i] =
      { results.get ⟨i, by simpa using h⟩ with rank := some (i + 1) } :=
  List.getElem_mapIdx

theorem map_assignRanks {β : Type*} {f : CandidateResult → β}
    (hf : ∀ (r : CandidateResult) n, f { r with rank := some n } = f r) :
    (assignRanks results).map f = results.map f := by
  refine List.ext_getElem (by simp) fun i hi hi' => ?_
  rw [List.getElem_map, List.getElem_map, getElem_assignRanks]
  exact hf _ _

theorem rankResults_unranked_perm (hunranked : ∀ r ∈ results, r.rank = none) :
    ((rankResults results).map unranked).Perm results := by
  have hself : ∀ r ∈ leaders results ++ trailing results, r.unranked = r := by
    intro r hr
    have hrank := hunranked r ((leaders_append_trailing_perm results).subset hr)
    unfold unranked
    rw [← hrank]
  have hmap : (rankResults results).map unranked =
      (leaders results ++ trailing results).map unranked := by
    rw [rankResults_eq, List.map_append, List.map_append, map_assignRanks fun r n => rfl]
  rw [hmap, List.map_congr_left hself, List.map_id']
  exact leaders_append_trailing_perm results

/-! ## Scores that count -/

theorem ScoresCount.pairwise_leaders (h : ScoresCount results) :
    (leaders results).Pairwise fun a b => b.score ≤ a.score := by
  refine (pairwise_bestFirst rankKey _).imp_of_mem fun ha hb hab => ?_
  obtain ⟨ha, haranked⟩ := mem_leaders.mp ha
  obtain ⟨hb, hbranked⟩ := mem_leaders.mp hb
  exact (h.rankKey_le_iff ha haranked hb hbranked).mp hab

theorem ScoresCount.passingFirst (h : ScoresCount results)
    (hunranked : ∀ r ∈ results, r.rank = none) : PassingFirst (rankResults results) := by
  obtain ⟨scored, unscored, hsplit, hscored, hunscored⟩ := exists_split_bot h.pairwise_leaders
  have hranks : assignRanks (leaders results) =
      (assignRanks (leaders results)).take scored.length ++
        (assignRanks (leaders results)).drop scored.length :=
    (List.take_append_drop _ _).symm
  have hlength : (leaders results).length = scored.length + unscored.length := by
    rw [hsplit, List.length_append]
  have hrank : ∀ i (hi : i < (assignRanks (leaders results)).length),
      (assignRanks (leaders results))[i].rank = some (i + 1) := fun i hi => by
    rw [getElem_assignRanks]
  have hpassing : ∀ i (hi : i < (leaders results).length),
      (leaders results)[i].Passing ↔ i < scored.length := by
    intro i hi
    rw [passing_iff (mem_leaders.mp (List.getElem_mem hi)).2]
    simp only [hsplit]
    by_cases hlt : i < scored.length
    · rw [List.getElem_append_left hlt]
      exact iff_of_true (hscored _ (List.getElem_mem hlt)) hlt
    · rw [List.getElem_append_right (not_lt.mp hlt)]
      exact iff_of_false (fun hne => hne (hunscored _ (List.getElem_mem _))) hlt
  refine ⟨(assignRanks (leaders results)).take scored.length,
    (assignRanks (leaders results)).drop scored.length ++ trailing results, ?_, ?_, ?_, ?_, ?_, ?_⟩
  · rw [rankResults_eq, ← List.append_assoc, ← hranks]
  · intro r hr
    obtain ⟨i, hi, rfl⟩ := List.mem_take_iff_getElem.mp hr
    rw [getElem_assignRanks]
    exact (hpassing i (by simp at hi; omega)).mpr (by omega)
  · intro r hr hpass
    obtain hr | hr := List.mem_append.mp hr
    · obtain ⟨i, hi, rfl⟩ := List.mem_drop_iff_getElem.mp hr
      rw [getElem_assignRanks] at hpass
      have hlt := (hpassing _ (by simp at hi; omega)).mp hpass
      omega
    · have hnone := (mem_trailing.mp hr).2
      rw [hpass.1] at hnone
      cases hnone
  · refine List.Pairwise.sublist (List.take_sublist _ _) ?_
    rw [← List.pairwise_map (f := CandidateResult.score) (R := fun s t => t ≤ s),
      map_assignRanks fun r n => rfl, List.pairwise_map]
    exact h.pairwise_leaders
  · intro i hi
    rw [List.getElem_take]
    exact hrank i _
  · intro r hr n hn
    have hlen : ((assignRanks (leaders results)).take scored.length).length = scored.length := by
      rw [List.length_take, length_assignRanks, hlength]
      omega
    rw [hlen]
    obtain hr | hr := List.mem_append.mp hr
    · obtain ⟨i, hi, rfl⟩ := List.mem_drop_iff_getElem.mp hr
      rw [hrank] at hn
      obtain rfl := Option.some.inj hn
      omega
    · rw [hunranked r (mem_trailing.mp hr).1] at hn
      cases hn

theorem bestOf_eq (hunranked : ∀ r ∈ results, r.rank = none) :
    bestOf [results] = (assignRanks (leaders results)).head? := by
  unfold bestOf
  rw [List.getLast?_singleton]
  simp only [rankResults_eq]
  cases hleaders : leaders results with
  | nil =>
    cases htrailing : trailing results with
    | nil => rfl
    | cons t rest =>
      have hnone : t.rank = none :=
        hunranked t (mem_trailing.mp (htrailing ▸ List.mem_cons_self)).1
      show (if t.rank = some 1 then some t else none) = none
      rw [hnone]
      rfl
  | cons a rest =>
    obtain ⟨ranked, hranked⟩ := assignRanks_cons a rest
    rw [hranked]
    exact if_pos rfl

theorem ScoresCount.best_passing (h : ScoresCount results)
    (hunranked : ∀ r ∈ results, r.rank = none) {best : CandidateResult}
    (hbest : best ∈ bestOf [results]) :
    best.Passing ∧ ∀ r ∈ results, r.Passing → r.score ≤ best.score := by
  rw [bestOf_eq hunranked] at hbest
  have hsorted := h.pairwise_leaders
  have hmem : ∀ r, r ∈ leaders results ↔ r ∈ results ∧ isRanked r = true := fun r => mem_leaders
  cases hleaders : leaders results with
  | nil =>
    rw [hleaders] at hbest
    cases hbest
  | cons a rest =>
    obtain ⟨ranked, hranked⟩ := assignRanks_cons a rest
    rw [hleaders, hranked] at hbest
    rw [hleaders] at hsorted hmem
    obtain rfl := Option.some.inj hbest
    have htop : ∀ r ∈ results, r.Passing → r.score ≤ a.score := by
      intro r hr hpassing
      obtain rfl | hrest := List.mem_cons.mp ((hmem r).mpr ⟨hr, hpassing.1⟩)
      · exact le_rfl
      · exact (List.pairwise_cons.mp hsorted).1 r hrest
    have ha := (hmem a).mp List.mem_cons_self
    obtain ⟨p, hp, hpassing⟩ := h.scored ⟨a, ha⟩
    have hscore : a.score ≠ ⊥ := by
      intro hbot
      have hle := (htop p hp hpassing).trans hbot.le
      exact (passing_iff hpassing.1).mp hpassing (le_bot_iff.mp hle)
    exact ⟨(passing_iff ha.2).mpr hscore, htop⟩

/-! ## Permutations -/

theorem trailingLe_trans {a b c : CandidateResult} (hab : trailingLe a b) (hbc : trailingLe b c) :
    trailingLe a c := by
  rcases hab with hab | ⟨hab, hidab⟩
  · rcases hbc with hbc | ⟨hbc, -⟩
    · exact .inl (hab.trans hbc)
    · exact .inl (hbc ▸ hab)
  · rcases hbc with hbc | ⟨hbc, hidbc⟩
    · exact .inl (hab ▸ hbc)
    · exact .inr ⟨hab.trans hbc, String.le_trans hidab hidbc⟩

theorem trailingLe_total (a b : CandidateResult) : trailingLe a b ∨ trailingLe b a := by
  rcases lt_trichotomy (trailingTier a) (trailingTier b) with h | h | h
  · exact .inl (.inl h)
  · rcases String.le_total a.candidateId b.candidateId with hid | hid
    · exact .inl (.inr ⟨h, hid⟩)
    · exact .inr (.inr ⟨h.symm, hid⟩)
  · exact .inr (.inl h)

theorem trailingLe_antisymm {a b : CandidateResult} (hab : trailingLe a b)
    (hba : trailingLe b a) : a.candidateId = b.candidateId := by
  rcases hab with hab | ⟨htier, hidab⟩
  · rcases hba with hba | ⟨hba, -⟩
    · exact absurd hab hba.asymm
    · exact absurd hba hab.ne'
  · rcases hba with hba | ⟨-, hidba⟩
    · exact absurd htier hba.ne'
    · exact String.le_antisymm hidab hidba

theorem pairwise_trailing (results : List CandidateResult) :
    (trailing results).Pairwise trailingLe := by
  have htotal : Std.Total trailingLe := ⟨trailingLe_total⟩
  have htrans : IsTrans CandidateResult trailingLe := ⟨fun a b c => trailingLe_trans⟩
  exact List.pairwise_insertionSort _ _

theorem trailing_perm (hids : (results.map candidateId).Nodup) (hperm : results'.Perm results) :
    trailing results' = trailing results := by
  have hsame : (trailing results').Perm (trailing results) :=
    (List.perm_insertionSort _ _).trans ((hperm.filter _).trans (List.perm_insertionSort _ _).symm)
  refine hsame.eq_of_pairwise ?_ (pairwise_trailing _) (pairwise_trailing _)
  intro a b ha hb hab hba
  have ha' := (mem_trailing.mp (hsame.subset ha)).1
  exact List.inj_on_of_nodup_map hids ha' (mem_trailing.mp hb).1 (trailingLe_antisymm hab hba)

theorem ScoresCount.permuted (h : ScoresCount results) (hids : (results.map candidateId).Nodup)
    (hperm : results'.Perm results) :
    List.Forall₂ Tied (rankResults results') (rankResults results) := by
  have hkeys : (leaders results').map rankKey = (leaders results).map rankKey :=
    map_key_bestFirst rankKey (hperm.filter isRanked)
  have hlength : (leaders results').length = (leaders results).length := by
    rw [← List.length_map (f := rankKey), hkeys, List.length_map]
  rw [rankResults_eq, rankResults_eq, trailing_perm hids hperm]
  refine List.rel_append ?_ (List.forall₂_same.mpr fun r hr => .inl rfl)
  rw [List.forall₂_iff_get]
  refine ⟨by simpa using hlength, fun i hi hi' => ?_⟩
  rw [List.get_eq_getElem, List.get_eq_getElem, getElem_assignRanks, getElem_assignRanks]
  rw [length_assignRanks] at hi hi'
  have hkey : rankKey (leaders results')[i] = rankKey (leaders results)[i] := by
    rw [← List.getElem_map rankKey (h := by simpa using hi), ← List.getElem_map rankKey
      (h := by simpa using hi')]
    simp only [hkeys]
  obtain ⟨ha, haranked⟩ := mem_leaders.mp (List.getElem_mem hi)
  obtain ⟨hb, hbranked⟩ := mem_leaders.mp (List.getElem_mem hi')
  have ha := hperm.subset ha
  refine .inr ⟨rfl, rfl, ?_⟩
  exact le_antisymm (α := WithBot ℚ) ((h.rankKey_le_iff hb hbranked ha haranked).mp hkey.le)
    ((h.rankKey_le_iff ha haranked hb hbranked).mp hkey.ge)

theorem ScoresCount.correctlyRanked (h : ScoresCount results)
    (hunranked : ∀ r ∈ results, r.rank = none) (hids : (results.map candidateId).Nodup) :
    CorrectlyRanked results where
  perm := rankResults_unranked_perm hunranked
  passingFirst := h.passingFirst hunranked
  best_isSome := by
    rintro ⟨r, hr, hpassing⟩
    rw [bestOf_eq hunranked]
    have hleader : r ∈ leaders results := mem_leaders.mpr ⟨hr, hpassing.1⟩
    cases hleaders : leaders results with
    | nil =>
      rw [hleaders] at hleader
      cases hleader
    | cons a rest =>
      obtain ⟨ranked, hranked⟩ := assignRanks_cons a rest
      rw [hranked]
      rfl
  best_passing := fun best hbest => h.best_passing hunranked hbest
  permuted := fun results' hperm => h.permuted hids hperm

/-! ## Rankings that are correct -/

theorem exists_copy (hunranked : ∀ r ∈ results, r.rank = none) (hr : r ∈ results) :
    ∃ r' ∈ rankResults results, r'.unranked = r :=
  List.mem_map.mp ((rankResults_unranked_perm hunranked).symm.subset hr)

theorem pairwise_rankKey (results : List CandidateResult) :
    (rankResults results).Pairwise fun a b => isRanked b = true → rankKey b ≤ rankKey a := by
  rw [rankResults_eq, List.pairwise_append]
  have htrailing : ∀ b ∈ trailing results, isRanked b ≠ true := fun b hb hranked => by
    rw [(mem_trailing.mp hb).2] at hranked
    cases hranked
  refine ⟨?_, ?_, fun a _ b hb hranked => absurd hranked (htrailing b hb)⟩
  · have hkeys : (assignRanks (leaders results)).Pairwise fun a b => rankKey b ≤ rankKey a := by
      rw [← List.pairwise_map (f := rankKey) (R := fun s t => t ≤ s),
        map_assignRanks fun r n => rfl, List.pairwise_map]
      exact pairwise_bestFirst rankKey _
    refine hkeys.imp ?_
    intro a b hab _
    exact hab
  · refine List.Pairwise.imp_of_mem ?_ (pairwise_trailing results)
    intro a b _ hb _ hranked
    exact absurd hranked (htrailing b hb)

theorem PassingFirst.pairwise {ranked : List CandidateResult} (h : PassingFirst ranked) :
    ranked.Pairwise fun a b => b.Passing → a.Passing ∧ b.score ≤ a.score := by
  obtain ⟨passing, others, rfl, hpassing, hothers, hsorted, -, -⟩ := h
  rw [List.pairwise_append]
  refine ⟨?_, ?_, fun a _ b hb hpass => absurd hpass (hothers b hb)⟩
  · exact hsorted.imp_of_mem fun ha _ hab _ => ⟨hpassing _ ha, hab⟩
  · exact List.pairwise_of_forall_mem_list fun a _ b hb hpass => absurd hpass (hothers b hb)

theorem CorrectlyRanked.not_neg (h : CorrectlyRanked results)
    (hunranked : ∀ r ∈ results, r.rank = none) {z : CandidateResult} (hz : z ∈ results)
    (hzranked : isRanked z = true) (hzero : z.robustnessScore = some 0) (hr : r ∈ results)
    (hranked : isRanked r = true) {s : ℚ} (hs : r.robustnessScore = some s) : 0 ≤ s := by
  obtain ⟨z', hz', rfl⟩ := exists_copy hunranked hz
  obtain ⟨r', hr', rfl⟩ := exists_copy hunranked hr
  replace hzero : z'.robustnessScore = some 0 := hzero
  replace hs : r'.robustnessScore = some s := hs
  by_contra hneg
  have hzpass : z'.Passing := ⟨hzranked, by rw [hzero]; rfl⟩
  have hrpass : r'.Passing := ⟨hranked, by rw [hs]; rfl⟩
  have hne : z' ≠ r' := by
    rintro rfl
    rw [hzero] at hs
    exact hneg (Option.some.inj hs).le
  obtain ⟨hkey, hscore⟩ | ⟨hkey, hscore⟩ :=
    pairwise_rel_or ((pairwise_rankKey results).and h.passingFirst.pairwise) hz' hr' hne
  · have hle := hkey hranked
    rw [rankKey_zero hzero, rankKey_some hs (fun h0 => hneg h0.ge)] at hle
    exact WithBot.coe_ne_bot (le_bot_iff.mp hle)
  · have hle := (hscore hzpass).2
    rw [score_some hzero, score_some hs, WithBot.coe_le_coe] at hle
    exact hneg hle

theorem rankResults_scores (results : List CandidateResult) :
    (rankResults results).map robustnessScore =
      (leaders results).map robustnessScore ++ (trailing results).map robustnessScore := by
  rw [rankResults_eq, List.map_append, map_assignRanks fun r n => rfl]

theorem CorrectlyRanked.scores_perm (h : CorrectlyRanked results)
    (hperm : results'.Perm results) :
    (leaders results').map robustnessScore = (leaders results).map robustnessScore := by
  have hscores : (rankResults results').map robustnessScore =
      (rankResults results).map robustnessScore := by
    have htied := h.permuted results' hperm
    have hmap : List.Forall₂ (fun a b : CandidateResult => a.robustnessScore = b.robustnessScore)
        (rankResults results') (rankResults results) :=
      htied.imp fun a b hab => hab.elim (fun heq => by rw [heq]) fun hab => hab.2.2
    rw [← List.forall₂_eq_eq_eq, List.forall₂_map_left_iff, List.forall₂_map_right_iff]
    exact hmap
  rw [rankResults_scores, rankResults_scores] at hscores
  refine (List.append_inj hscores ?_).1
  have hleaders : (leaders results').Perm (leaders results) :=
    (List.perm_insertionSort _ _).trans ((hperm.filter _).trans (List.perm_insertionSort _ _).symm)
  rw [List.length_map, List.length_map, hleaders.length_eq]

theorem PassingFirst.pairwise_leaders (h : PassingFirst (rankResults results)) :
    ((leaders results).map robustnessScore).Pairwise fun s t => s = none → t = none := by
  have hpair := h.pairwise
  rw [rankResults_eq] at hpair
  have hleaders := (List.pairwise_append.mp hpair).1
  rw [← map_assignRanks fun r n => rfl, List.pairwise_map]
  refine hleaders.imp_of_mem fun {a b} ha hb hab hnone => ?_
  by_contra hsome
  have hbranked : isRanked b = true := by
    obtain ⟨i, hi, rfl⟩ := List.getElem_of_mem hb
    rw [getElem_assignRanks]
    exact (mem_leaders.mp (List.getElem_mem _)).2
  have hpass := (hab ⟨hbranked, Option.isSome_iff_ne_none.mpr hsome⟩).1.2
  rw [hnone] at hpass
  cases hpass

theorem CorrectlyRanked.not_missing (h : CorrectlyRanked results) {z : CandidateResult}
    (hz : z ∈ results) (hzranked : isRanked z = true) (hzero : z.robustnessScore = some 0)
    (hr : r ∈ results) (hranked : isRanked r = true) : r.robustnessScore ≠ none := by
  intro hnone
  obtain ⟨before, after, rfl⟩ := List.append_of_mem hr
  have hperm : (r :: (before ++ after)).Perm (before ++ r :: after) := List.perm_middle.symm
  have hmem : z ∈ (before ++ after).filter isRanked := by
    refine List.mem_filter.mpr ⟨?_, hzranked⟩
    obtain rfl | hmem := List.mem_cons.mp (hperm.symm.subset hz)
    · rw [hnone] at hzero
      cases hzero
    · exact hmem
  have hpair : [r, z].Sublist ((r :: (before ++ after)).filter isRanked) := by
    rw [List.filter_cons_of_pos hranked]
    exact (List.singleton_sublist.mpr hmem).cons_cons r
  have hkey : rankKey z ≤ rankKey r := by
    rw [rankKey_zero hzero]
    exact bot_le
  have hsorted := (List.pair_sublist_insertionSort (r := fun a b => rankKey b ≤ rankKey a) hkey
    hpair).map robustnessScore
  have hscores := h.passingFirst.pairwise_leaders
  rw [← h.scores_perm hperm] at hscores
  have hlast := (List.pairwise_cons.mp (hscores.sublist hsorted)).1 z.robustnessScore
    List.mem_cons_self hnone
  rw [hlast] at hzero
  cases hzero

theorem CorrectlyRanked.scoresCount (h : CorrectlyRanked results)
    (hunranked : ∀ r ∈ results, r.rank = none) : ScoresCount results where
  zero := by
    intro z hz hzranked hzero r hr hranked
    cases hs : r.robustnessScore with
    | none => exact absurd hs (h.not_missing hz hzranked hzero hr hranked)
    | some s => exact ⟨s, rfl, h.not_neg hunranked hz hzranked hzero hr hranked hs⟩
  scored := by
    rintro ⟨r, hr, hranked⟩
    have hleader : r ∈ leaders results := mem_leaders.mpr ⟨hr, hranked⟩
    have hbest := bestOf_eq hunranked
    cases hleaders : leaders results with
    | nil =>
      rw [hleaders] at hleader
      cases hleader
    | cons a rest =>
      obtain ⟨ranked, hranked⟩ := assignRanks_cons a rest
      rw [hleaders, hranked] at hbest
      have hpassing := (h.best_passing _ hbest).1
      have ha : a ∈ results := (mem_leaders.mp (hleaders ▸ List.mem_cons_self)).1
      exact ⟨a, ha, hpassing⟩

/-- The ranking is correct exactly where no score of zero meets a lower or a missing one, and the
ranked candidates are not all without a score. -/
theorem leaderboard_correct_iff (hunranked : ∀ r ∈ results, r.rank = none)
    (hids : (results.map candidateId).Nodup) : CorrectlyRanked results ↔ ScoresCount results := by
  constructor
  · intro h
    exact h.scoresCount hunranked
  · intro h
    exact h.correctlyRanked hunranked hids

/-! ## Losing and breaking even -/

/-- A candidate past the gates with this score. -/
def scoredCandidate (candidateId : String) (score : ℚ) : CandidateResult where
  candidateId
  strategy := "CompositeStrategy"
  status := .completed
  objectiveValue := some score
  robustnessScore := some score
  passedGates := true

theorem leaderboard_correct_iff_two :
    (CorrectlyRanked [scoredCandidate "a" 1, scoredCandidate "b" 2] ↔
      ScoresCount [scoredCandidate "a" 1, scoredCandidate "b" 2]) :=
  leaderboard_correct_iff (by simp [scoredCandidate]) (by decide)

/-- A score of -1 is ranked before a score of 0, and is the best. -/
theorem zero_ranked_last :
    bestOf [[scoredCandidate "losing" (-1), scoredCandidate "even" 0]] =
        some { scoredCandidate "losing" (-1) with rank := some 1 } ∧
      ¬ CorrectlyRanked [scoredCandidate "losing" (-1), scoredCandidate "even" 0] := by
  have hbest : bestOf [[scoredCandidate "losing" (-1), scoredCandidate "even" 0]] =
      some { scoredCandidate "losing" (-1) with rank := some 1 } := rfl
  refine ⟨hbest, fun h => ?_⟩
  have hle := (h.best_passing _ hbest).2 (scoredCandidate "even" 0) (by simp)
    ⟨rfl, rfl⟩
  have hlt : (0 : ℚ) ≤ -1 := WithBot.coe_le_coe.mp hle
  norm_num at hlt

end QBackend.GeneticSearch
