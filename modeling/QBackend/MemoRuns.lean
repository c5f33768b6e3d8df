import QBackend.FallibleSteps
import Mathlib.Data.List.Basic
import Mathlib.Tactic.Common

/-!
# Runs of jobs with a cache

Jobs change an environment one after another. What a job adds is kept under its key, and a job
whose key is in the cache is replaced by putting back what is kept there. The cache outlives a run,
also one that fails. Starting a run again with what an earlier start of it has left in the cache
changes nothing.
-/

namespace QBackend.MemoRuns

variable {Job Key Val Env ε : Type} [DecidableEq Key]

structure Memo (Job Key Val Env ε : Type) where
  key : Job → Key
  /-- Whether the value of a job with this key is kept. -/
  keeps : Key → Bool
  compute : Env → Job → Except ε Env
  capture : Env → Job → Except ε Val
  restore : Env → Job → Val → Except ε Env

namespace Memo

variable (m : Memo Job Key Val Env ε)

def step (cache : List (Key × Val)) (env : Env) (job : Job) :
    Except ε Env × List (Key × Val) :=
  match cache.lookup (m.key job) with
  | some v => (m.restore env job v, cache)
  | none =>
    match m.compute env job with
    | .error e => (.error e, cache)
    | .ok env' =>
      if m.keeps (m.key job) then
        match m.capture env' job with
        | .error e => (.error e, cache)
        | .ok v => (.ok env', (m.key job, v) :: cache)
      else (.ok env', cache)

def run (cache : List (Key × Val)) (env : Env) : List Job → Except ε Env × List (Key × Val)
  | [] => (.ok env, cache)
  | job :: jobs =>
    match m.step cache env job with
    | (.error e, cache') => (.error e, cache')
    | (.ok env', cache') => run cache' env' jobs

/-- Putting back what the job added has the same effect as the job. -/
def Restores (job : Job) : Prop :=
  ∀ env env' v, m.compute env job = .ok env' → m.capture env' job = .ok v →
    m.restore env job v = .ok env'

end Memo

/-! ## Caches that hold more -/

/-- Everything that is in the first cache is in the second. -/
def Extends (a b : List (Key × Val)) : Prop := ∀ k v, a.lookup k = some v → b.lookup k = some v

theorem Extends.refl (a : List (Key × Val)) : Extends a a := fun _ _ h => h

theorem Extends.trans {a b c : List (Key × Val)} (hab : Extends a b) (hbc : Extends b c) :
    Extends a c := fun k v h => hbc k v (hab k v h)

theorem Extends.nil (a : List (Key × Val)) : Extends [] a := fun _ _ h => by cases h

theorem lookup_cons_of_ne {j k : Key} (v : Val) (a : List (Key × Val)) (h : j ≠ k) :
    ((k, v) :: a).lookup j = a.lookup j := by
  have hb : (j == k) = false := beq_false_of_ne h
  simp [List.lookup_cons, hb]

theorem Extends.cons_of_none {a : List (Key × Val)} {k : Key} (h : a.lookup k = none) (v : Val) :
    Extends a ((k, v) :: a) := by
  intro j w hj
  have hne : j ≠ k := by
    intro heq
    rw [heq, h] at hj
    cases hj
  rw [lookup_cons_of_ne v a hne]
  exact hj

theorem Extends.cons {a b : List (Key × Val)} (h : Extends a b) (k : Key) (v : Val) :
    Extends ((k, v) :: a) ((k, v) :: b) := by
  intro j w hj
  by_cases hjk : j = k
  · subst hjk
    rw [List.lookup_cons_self] at hj ⊢
    exact hj
  · rw [lookup_cons_of_ne v _ hjk] at hj ⊢
    exact h j w hj

/-- A new entry that the larger cache already holds. -/
theorem Extends.cons_left {a b : List (Key × Val)} (h : Extends a b) {k : Key} {v : Val}
    (hk : b.lookup k = some v) : Extends ((k, v) :: a) b := by
  intro j w hj
  by_cases hjk : j = k
  · subst hjk
    rw [List.lookup_cons_self] at hj
    rw [← hj]
    exact hk
  · rw [lookup_cons_of_ne v _ hjk] at hj
    exact h j w hj

/-! ## Starting again -/

namespace Memo

variable {m : Memo Job Key Val Env ε}

theorem step_cases (m : Memo Job Key Val Env ε) (cache : List (Key × Val)) (env : Env) (job : Job) :
    (∃ v, cache.lookup (m.key job) = some v ∧ m.step cache env job = (m.restore env job v, cache)) ∨
    (cache.lookup (m.key job) = none ∧
      ((∃ e, m.step cache env job = (.error e, cache) ∧
          ∀ cache', cache'.lookup (m.key job) = none →
            m.step cache' env job = (.error e, cache')) ∨
        (∃ env', m.compute env job = .ok env' ∧ m.keeps (m.key job) = false ∧
          m.step cache env job = (.ok env', cache)) ∨
        (∃ env' v, m.compute env job = .ok env' ∧ m.keeps (m.key job) = true ∧
          m.capture env' job = .ok v ∧
          m.step cache env job = (.ok env', (m.key job, v) :: cache)))) := by
  cases hl : cache.lookup (m.key job) with
  | some v => exact .inl ⟨v, rfl, by simp [step, hl]⟩
  | none =>
    refine .inr ⟨rfl, ?_⟩
    cases hc : m.compute env job with
    | error e => exact .inl ⟨e, by simp [step, hl, hc], fun c hc' => by simp [step, hc', hc]⟩
    | ok env' =>
      cases hk : m.keeps (m.key job) with
      | false => exact .inr (.inl ⟨env', rfl, rfl, by simp [step, hl, hc, hk]⟩)
      | true =>
        cases hv : m.capture env' job with
        | error e =>
          exact .inl ⟨e, by simp [step, hl, hc, hk, hv], fun c hc' => by
            simp [step, hc', hc, hk, hv]⟩
        | ok v => exact .inr (.inr ⟨env', v, rfl, rfl, hv, by simp [step, hl, hc, hk, hv]⟩)

theorem extends_step (cache : List (Key × Val)) (env : Env) (job : Job) :
    Extends cache (m.step cache env job).2 := by
  rcases m.step_cases cache env job with ⟨v, -, h⟩ | ⟨hn, ⟨e, h, -⟩ | ⟨env', -, -, h⟩ |
      ⟨env', v, -, -, -, h⟩⟩
  · rw [h]; exact Extends.refl cache
  · rw [h]; exact Extends.refl cache
  · rw [h]; exact Extends.refl cache
  · rw [h]; exact Extends.cons_of_none hn v

theorem extends_run (cache : List (Key × Val)) (env : Env) (jobs : List Job) :
    Extends cache (m.run cache env jobs).2 := by
  induction jobs generalizing cache env with
  | nil => exact Extends.refl cache
  | cons job jobs ih =>
    have hstep := m.extends_step cache env job
    simp only [run]
    rcases hs : m.step cache env job with ⟨r, cache'⟩
    rw [hs] at hstep
    cases r with
    | error e => exact hstep
    | ok env' => exact hstep.trans (ih cache' env')

/-- The cache has no key whose values are not kept. -/
def Clean (m : Memo Job Key Val Env ε) (cache : List (Key × Val)) : Prop :=
  ∀ k v, cache.lookup k = some v → m.keeps k = true

theorem Clean.step {cache : List (Key × Val)} (h : m.Clean cache) (env : Env) (job : Job) :
    m.Clean (m.step cache env job).2 := by
  rcases m.step_cases cache env job with ⟨v, -, hs⟩ | ⟨-, ⟨e, hs, -⟩ | ⟨env', -, -, hs⟩ |
      ⟨env', v, -, hk, -, hs⟩⟩
  · rw [hs]; exact h
  · rw [hs]; exact h
  · rw [hs]; exact h
  · rw [hs]
    intro k w hw
    by_cases hkey : k = m.key job
    · rw [hkey]; exact hk
    · rw [lookup_cons_of_ne v cache hkey] at hw
      exact h k w hw

theorem Clean.run {cache : List (Key × Val)} (h : m.Clean cache) (env : Env) (jobs : List Job) :
    m.Clean (m.run cache env jobs).2 := by
  induction jobs generalizing cache env with
  | nil => exact h
  | cons job jobs ih =>
    have hstep := h.step env job
    simp only [Memo.run]
    rcases hs : m.step cache env job with ⟨r, cache'⟩
    rw [hs] at hstep
    cases r with
    | error e => exact hstep
    | ok env' => exact ih hstep env'

theorem Clean.nil : m.Clean [] := fun _ _ h => by cases h

/-- A run that starts with part of what it would itself put into the cache ends in the same
environment, with a cache that holds the same. The two caches of the induction are the one of the
first start and the one of the second, which holds as much or more. -/
theorem run_resume {a b : List (Key × Val)} {env : Env} {jobs : List Job}
    (hm : ∀ job ∈ jobs, m.Restores job) (hclean : m.Clean a) (hab : Extends a b) (hb : Extends b (m.run a env jobs).2) :
    (m.run b env jobs).1 = (m.run a env jobs).1 ∧
      Extends (m.run a env jobs).2 (m.run b env jobs).2 ∧
      Extends (m.run b env jobs).2 (m.run a env jobs).2 := by
  induction jobs generalizing a b env with
  | nil => exact ⟨rfl, hab, hb⟩
  | cons job jobs ih =>
    have hrest : ∀ j ∈ jobs, m.Restores j := fun j hj => hm j (List.mem_cons_of_mem job hj)
    have hkept : ∀ v, b.lookup (m.key job) = some v → m.keeps (m.key job) = true := fun v hv =>
      hclean.run env (job :: jobs) _ v (hb _ v hv)
    rcases m.step_cases a env job with ⟨v, hv, hsa⟩ | ⟨hn, ⟨e, hsa, hagain⟩ |
        ⟨env', hc, hk, hsa⟩ | ⟨env', v, hc, hk, hcap, hsa⟩⟩
    · -- the first start finds the key, so the second does
      have hsb : m.step b env job = (m.restore env job v, b) := by
        simp [step, hab _ _ hv]
      simp only [run, hsa, hsb] at hb ⊢
      cases hr : m.restore env job v with
      | error e =>
        simp only [hr] at hb ⊢
        exact ⟨trivial, hab, hb⟩
      | ok env' =>
        simp only [hr] at hb ⊢
        exact ih hrest hclean hab hb
    · -- the first start fails here and has kept nothing more
      simp only [run, hsa] at hb
      have hnb : b.lookup (m.key job) = none := by
        cases hl : b.lookup (m.key job) with
        | none => rfl
        | some v =>
          have hcontra := hb _ _ hl
          rw [hn] at hcontra
          cases hcontra
      simp only [run, hsa, hagain b hnb]
      exact ⟨trivial, hab, hb⟩
    · -- the value is not kept, so neither cache has the key
      have hnb : b.lookup (m.key job) = none := by
        cases hl : b.lookup (m.key job) with
        | none => rfl
        | some v =>
          have hcontra := hkept v hl
          rw [hk] at hcontra
          cases hcontra
      have hsb : m.step b env job = (.ok env', b) := by simp [step, hnb, hc, hk]
      simp only [run, hsa, hsb] at hb ⊢
      exact ih hrest hclean hab hb
    · -- the first start computes and keeps; the second puts the same back or does as the first
      have hclean' : m.Clean ((m.key job, v) :: a) := by
        have h := hclean.step env job
        rw [hsa] at h
        exact h
      simp only [run, hsa] at hb ⊢
      have hfinal : (m.run ((m.key job, v) :: a) env' jobs).2.lookup (m.key job) = some v :=
        m.extends_run _ env' jobs _ _ List.lookup_cons_self
      cases hl : b.lookup (m.key job) with
      | none =>
        have hsb : m.step b env job = (.ok env', (m.key job, v) :: b) := by
          simp [step, hl, hc, hk, hcap]
        simp only [hsb]
        exact ih hrest hclean' (hab.cons _ v) (hb.cons_left hfinal)
      | some w =>
        have hw : w = v := by
          have h := hb _ _ hl
          rw [hfinal] at h
          exact (Option.some.inj h).symm
        have hsb : m.step b env job = (.ok env', b) := by
          simp [step, hl, hw, hm job (by simp) env env' v hc hcap]
        simp only [hsb]
        exact ih hrest hclean' (hab.cons_left (hw ▸ hl)) hb

end Memo

/-! ## Runs on transformed data -/

section Transformed

open FallibleSteps

variable {Val' Env' : Type}

theorem lookup_map_snd (d : Val → Val') (cache : List (Key × Val)) (k : Key) :
    (cache.map fun entry => (entry.1, d entry.2)).lookup k = (cache.lookup k).map d := by
  induction cache with
  | nil => rfl
  | cons entry cache ih =>
    obtain ⟨j, v⟩ := entry
    simp only [List.map_cons, List.lookup_cons]
    cases k == j with
    | true => rfl
    | false => exact ih

/-- The second memo does on transformed environments and values what the first one does; putting
back is only asked of values that were captured. -/
structure Memo.Commutes (m : Memo Job Key Val Env ε) (m' : Memo Job Key Val' Env' ε)
    (c : Env → Env') (d : Val → Val') (Captured : Val → Prop) (job : Job) : Prop where
  key : m'.key job = m.key job
  keeps : m'.keeps (m'.key job) = m.keeps (m.key job)
  compute : ∀ env, MapsTo c (m.compute env job) (m'.compute (c env) job)
  capture : ∀ env, MapsTo d (m.capture env job) (m'.capture (c env) job)
  captured : ∀ env v, m.capture env job = .ok v → Captured v
  restore : ∀ env v, Captured v → MapsTo c (m.restore env job v) (m'.restore (c env) job (d v))

variable {m : Memo Job Key Val Env ε} {m' : Memo Job Key Val' Env' ε} {c : Env → Env'}
  {d : Val → Val'} {Captured : Val → Prop}

theorem Memo.Commutes.step {job : Job} (h : m.Commutes m' c d Captured job)
    {cache : List (Key × Val)} (hcache : ∀ entry ∈ cache, Captured entry.2) (env : Env) :
    MapsTo c (m.step cache env job).1
        (m'.step (cache.map fun entry => (entry.1, d entry.2)) (c env) job).1 ∧
      (m'.step (cache.map fun entry => (entry.1, d entry.2)) (c env) job).2 =
        (m.step cache env job).2.map (fun entry => (entry.1, d entry.2)) ∧
      ∀ entry ∈ (m.step cache env job).2, Captured entry.2 := by
  have hlookup : (cache.map fun entry => (entry.1, d entry.2)).lookup (m'.key job) =
      (cache.lookup (m.key job)).map d := by rw [h.key, lookup_map_snd]
  have hcompute := h.compute env
  unfold Memo.step
  rw [hlookup]
  cases hv : cache.lookup (m.key job) with
  | some v =>
    have hmem : Captured v := by
      obtain ⟨before, after, rfl, -⟩ := List.lookup_eq_some_iff.mp hv
      exact hcache (m.key job, v) (by simp)
    exact ⟨h.restore env v hmem, rfl, hcache⟩
  | none =>
    cases he : m.compute env job with
    | error e =>
      rw [(mapsTo_error_iff hcompute).mpr he]
      exact ⟨rfl, rfl, hcache⟩
    | ok env' =>
      rw [mapsTo_of_ok hcompute he]
      simp only [Option.map_none, h.keeps]
      cases hk : m.keeps (m.key job) with
      | false => exact ⟨rfl, rfl, hcache⟩
      | true =>
        have hcapture := h.capture env'
        cases hc : m.capture env' job with
        | error e =>
          rw [(mapsTo_error_iff hcapture).mpr hc]
          exact ⟨rfl, rfl, hcache⟩
        | ok v =>
          rw [mapsTo_of_ok hcapture hc]
          refine ⟨rfl, by simp [h.key], ?_⟩
          intro entry hentry
          obtain rfl | hentry := List.mem_cons.mp hentry
          · exact h.captured env' v hc
          · exact hcache entry hentry

theorem Memo.run_commutes {jobs : List Job} (h : ∀ job ∈ jobs, m.Commutes m' c d Captured job)
    {cache : List (Key × Val)} (hcache : ∀ entry ∈ cache, Captured entry.2) (env : Env) :
    MapsTo c (m.run cache env jobs).1
      (m'.run (cache.map fun entry => (entry.1, d entry.2)) (c env) jobs).1 := by
  induction jobs generalizing cache env with
  | nil => exact mapsTo_ok rfl
  | cons job jobs ih =>
    obtain ⟨hresult, hcaches, hcaptured⟩ := (h job (by simp)).step hcache env
    simp only [Memo.run]
    rcases hs : m.step cache env job with ⟨r, cache'⟩
    rcases hs' : m'.step (cache.map fun entry => (entry.1, d entry.2)) (c env) job with
      ⟨r', cache''⟩
    rw [hs] at hresult hcaches hcaptured
    rw [hs'] at hresult hcaches
    simp only at hresult hcaches hcaptured
    subst hcaches
    cases r with
    | error e =>
      rw [hs', (mapsTo_error_iff hresult).mpr rfl]
      exact mapsTo_error
    | ok env' =>
      rw [hs', mapsTo_of_ok hresult rfl]
      exact ih (fun j hj => h j (List.mem_cons_of_mem job hj)) hcaptured env'

end Transformed

/-! ## When a run goes through -/

section Successes

open FallibleSteps

variable {m : Memo Job Key Val Env ε} {Inv : List Job → List (Key × Val) → Env → Prop}
  {Ok : List Job → Job → Prop}

/-- A job goes through just when its condition after the jobs done is met, and keeps the
invariant. -/
structure Memo.Advances (m : Memo Job Key Val Env ε)
    (Inv : List Job → List (Key × Val) → Env → Prop) (Ok : List Job → Job → Prop)
    (done : List Job) (job : Job) : Prop where
  succeeds : ∀ cache env, Inv done cache env → (Succeeds (m.step cache env job).1 ↔ Ok done job)
  keeps : ∀ cache env env' cache', Inv done cache env →
    m.step cache env job = (.ok env', cache') → Inv (done ++ [job]) cache' env'

/-- A run goes through just when the condition of every job is met after the jobs before it. -/
theorem Memo.run_succeeds {done jobs : List Job}
    (h : ∀ before job after, jobs = before ++ job :: after →
      m.Advances Inv Ok (done ++ before) job)
    {cache : List (Key × Val)} {env : Env} (hinv : Inv done cache env) :
    (Succeeds (m.run cache env jobs).1 ↔
        ∀ before job after, jobs = before ++ job :: after → Ok (done ++ before) job) ∧
      ∀ env', (m.run cache env jobs).1 = .ok env' → ∃ cache', Inv (done ++ jobs) cache' env' := by
  induction jobs generalizing done cache env with
  | nil =>
    refine ⟨iff_of_true succeeds_ok fun before job after hsplit => by simp at hsplit, ?_⟩
    intro env' henv
    obtain rfl := Except.ok.inj henv
    exact ⟨cache, by simpa using hinv⟩
  | cons job jobs ih =>
    have hfirst : m.Advances Inv Ok done job := by
      have hadvances := h [] job jobs rfl
      rwa [List.append_nil] at hadvances
    have hsplits : (∀ before j after, job :: jobs = before ++ j :: after → Ok (done ++ before) j) ↔
        Ok done job ∧ ∀ before j after, jobs = before ++ j :: after →
          Ok (done ++ [job] ++ before) j := by
      constructor
      · intro hall
        refine ⟨by simpa using hall [] job jobs rfl, fun before j after hsplit => ?_⟩
        have hlater := hall (job :: before) j after (by rw [hsplit, List.cons_append])
        rwa [List.append_cons] at hlater
      · rintro ⟨hjob, hrest⟩ before j after hsplit
        cases before with
        | nil =>
          obtain ⟨rfl, -⟩ := List.cons.inj hsplit
          rwa [List.append_nil]
        | cons _ before =>
          obtain ⟨rfl, hjobs⟩ := List.cons.inj hsplit
          rw [List.append_cons]
          exact hrest before j after hjobs
    rw [hsplits]
    rcases hs : m.step cache env job with ⟨r, cache'⟩
    have hok := hfirst.succeeds cache env hinv
    rw [hs] at hok
    simp only [Memo.run, hs]
    cases r with
    | error e =>
      refine ⟨iff_of_false not_succeeds_error fun hall => ?_, fun env' henv => by cases henv⟩
      exact not_succeeds_error (hok.mpr hall.1)
    | ok env' =>
      have hjob : Ok done job := hok.mp succeeds_ok
      have hlater : ∀ before j after, jobs = before ++ j :: after →
          m.Advances Inv Ok (done ++ [job] ++ before) j := by
        intro before j after hsplit
        have hadvances := h (job :: before) j after (by rw [hsplit, List.cons_append])
        rwa [List.append_cons] at hadvances
      have hrest := ih hlater (hfirst.keeps cache env env' cache' hinv hs)
      have hall : done ++ job :: jobs = done ++ [job] ++ jobs := List.append_cons done job jobs
      rw [hall, and_iff_right hjob]
      exact hrest

end Successes

end QBackend.MemoRuns
