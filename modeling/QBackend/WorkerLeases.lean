import QBackend.ExecutionRuns

/-!
# Mutual exclusion by worker leases

The lease table under calls of any number of workers, one call at a time. A deployment has one
lease row, and a pair of worker id and token passes the lease check of `process_completed_bar`
only as the owner of that row. Tokens are fresh, so a pair that lost its lease is gone for good.
-/

namespace QBackend.Execution

open KeyedTables RunInvariants

/-- One call of the repository. -/
inductive LeaseCall where
  | acquire (deploymentId : ℕ) (workerId leaseToken : String) (ttl now : Time)
  | heartbeat (deploymentId : ℕ) (workerId leaseToken : String) (ttl now : Time)
  | release (deploymentId : ℕ) (workerId leaseToken : String)
  | releaseExpired (now : Time)

/-- The table after a call; a call that raises leaves it. -/
def leaseStep (db : Database) : LeaseCall → Database
  | .acquire d w t ttl now => (db.acquireWorkerLease d w t ttl now).toOption.getD db
  | .heartbeat d w t ttl now => (db.heartbeatWorkerLease d w t ttl now).toOption.getD db
  | .release d w t => (db.releaseWorkerLease d w t).toOption.getD db
  | .releaseExpired now => db.releaseExpiredLeases now

/-- `release_worker_lease` returns true: there was a lease and it was the caller's. -/
def releaseSucceeds (db : Database) (deploymentId : ℕ) (workerId leaseToken : String) : Bool :=
  (db.getWorkerLease deploymentId).isSome &&
    (db.releaseWorkerLease deploymentId workerId leaseToken).toOption.isSome

/-- The pair owns the lease: it passes the pre-trade check, its heartbeats and its release. -/
theorem leaseHeld_iff {db : Database} {d : ℕ} {w t : String} :
    leaseHeld db d w t = true ↔
      ∃ lease, db.getWorkerLease d = some lease ∧ lease.workerId = w ∧ lease.leaseToken = t := by
  unfold leaseHeld
  cases db.getWorkerLease d with
  | none => simp
  | some lease => simp

/-- The tokens that `acquire` calls bring. -/
def LeaseCall.token? : LeaseCall → Option String
  | .acquire _ _ t _ _ => some t
  | _ => none

def acquiredTokens (calls : List LeaseCall) : List String := calls.filterMap LeaseCall.token?

/-- One lease row for each deployment, the primary key of the table. -/
def Database.LeaseKeys (db : Database) : Prop :=
  (db.leases.map ExecutionWorkerLease.deploymentId).Nodup

/-- The deployment and the owner of a lease row. -/
def ExecutionWorkerLease.claim (l : ExecutionWorkerLease) : ℕ × String × String :=
  (l.deploymentId, l.workerId, l.leaseToken)

theorem leaseHeld_iff_mem {db : Database} (hkeys : db.LeaseKeys) {d : ℕ} {w t : String} :
    leaseHeld db d w t = true ↔ (d, w, t) ∈ db.leases.map ExecutionWorkerLease.claim := by
  rw [leaseHeld_iff, List.mem_map]
  constructor
  · rintro ⟨lease, hlease, rfl, rfl⟩
    have hid : lease.deploymentId = d := key_of_lookup hlease
    exact ⟨lease, mem_of_lookup hlease, by rw [ExecutionWorkerLease.claim, hid]⟩
  · rintro ⟨lease, hmem, hclaim⟩
    simp only [ExecutionWorkerLease.claim, Prod.mk.injEq] at hclaim
    obtain ⟨rfl, rfl, rfl⟩ := hclaim
    exact ⟨lease, lookup_of_mem hkeys hmem, rfl, rfl⟩

/-! ## One call -/

section Calls

variable {db db' : Database} {d : ℕ} {w t : String} {ttl now : Time} {c : LeaseCall}

/-- What a call may do to the rows: keep them, drop some, or bring one with the token of the call. -/
structure LeaseRows (db db' : Database) (token : Option String) : Prop where
  keys : db.LeaseKeys → db'.LeaseKeys
  claims : ∀ k ∈ db'.leases.map ExecutionWorkerLease.claim,
    k ∈ db.leases.map ExecutionWorkerLease.claim ∨ token = some k.2.2

theorem LeaseRows.refl (db : Database) (token : Option String) : LeaseRows db db token :=
  ⟨fun h => h, fun _ hk => .inl hk⟩

theorem LeaseRows.filter {token : Option String} {p : ExecutionWorkerLease → Bool}
    (h : db'.leases = db.leases.filter p) : LeaseRows db db' token := by
  have hsub : db'.leases.Sublist db.leases := h ▸ List.filter_sublist
  exact ⟨fun hkeys => hkeys.sublist (hsub.map _), fun k hk => .inl ((hsub.map _).subset hk)⟩

/-- A rewrite of the row of a deployment that keeps its owner or gives it to the token. -/
theorem LeaseRows.modify {token : Option String} {f : ExecutionWorkerLease → ExecutionWorkerLease}
    (h : db'.leases = modify ExecutionWorkerLease.deploymentId db.leases d f)
    (hid : ∀ l, (f l).deploymentId = l.deploymentId)
    (hf : ∀ l, (f l).claim = l.claim ∨ token = some (f l).leaseToken) : LeaseRows db db' token := by
  refine ⟨fun hkeys => ?_, fun k hk => ?_⟩
  · rw [Database.LeaseKeys, h, map_modify hid]
    exact hkeys
  · obtain ⟨x, hx, rfl⟩ := List.mem_map.mp hk
    rw [h] at hx
    rcases mem_modify.mp hx with ⟨l, hl, -, rfl⟩ | ⟨hx, -⟩
    · rcases hf l with hsame | htoken
      · exact .inl (List.mem_map.mpr ⟨l, hl, hsame.symm⟩)
      · exact .inr htoken
    · exact .inl (List.mem_map_of_mem hx)

theorem acquireWorkerLease_rows (h : db.acquireWorkerLease d w t ttl now = .ok db') :
    LeaseRows db db' (some t) := by
  unfold Database.acquireWorkerLease at h
  split at h
  · split at h
    · cases h
    · cases h
      exact LeaseRows.modify rfl (fun _ => rfl) (fun _ => .inr rfl)
  next hnone =>
    cases h
    refine ⟨fun hkeys => ?_, fun k hk => ?_⟩
    · simp only [Database.LeaseKeys, List.map_append, List.map_singleton]
      refine List.Nodup.append hkeys (by simp) (List.disjoint_singleton.mpr fun hmem => ?_)
      obtain ⟨l, hl, hkey⟩ := List.mem_map.mp hmem
      exact lookup_eq_none.mp hnone l hl hkey
    · simp only [List.map_append, List.mem_append, List.map_singleton, List.mem_singleton] at hk
      rcases hk with hk | rfl
      · exact .inl hk
      · exact .inr rfl

theorem heartbeatWorkerLease_rows (h : db.heartbeatWorkerLease d w t ttl now = .ok db') :
    leaseHeld db d w t = true ∧ LeaseRows db db' none := by
  unfold Database.heartbeatWorkerLease at h
  split at h
  · cases h
  next lease hlease =>
    split at h
    · cases h
    next hown =>
      push Not at hown
      cases h
      exact ⟨leaseHeld_iff.mpr ⟨lease, hlease, hown⟩,
        LeaseRows.modify rfl (fun _ => rfl) (fun _ => .inl rfl)⟩

theorem releaseWorkerLease_rows (h : db.releaseWorkerLease d w t = .ok db') :
    ((db.getWorkerLease d).isSome = true → leaseHeld db d w t = true) ∧ LeaseRows db db' none := by
  unfold Database.releaseWorkerLease at h
  split at h
  next hnone =>
    cases h
    exact ⟨by simp [hnone], .refl _ _⟩
  next lease hlease =>
    split at h
    · cases h
    next hown =>
      push Not at hown
      cases h
      exact ⟨fun _ => leaseHeld_iff.mpr ⟨lease, hlease, hown⟩, LeaseRows.filter rfl⟩

theorem leaseStep_rows (db : Database) (c : LeaseCall) : LeaseRows db (leaseStep db c) c.token? := by
  cases c with
  | acquire d w t ttl now =>
    simp only [leaseStep]
    cases h : db.acquireWorkerLease d w t ttl now with
    | error e => exact .refl _ _
    | ok db' => exact acquireWorkerLease_rows h
  | heartbeat d w t ttl now =>
    simp only [leaseStep]
    cases h : db.heartbeatWorkerLease d w t ttl now with
    | error e => exact .refl _ _
    | ok db' => exact (heartbeatWorkerLease_rows h).2
  | release d w t =>
    simp only [leaseStep]
    cases h : db.releaseWorkerLease d w t with
    | error e => exact .refl _ _
    | ok db' => exact (releaseWorkerLease_rows h).2
  | releaseExpired now => exact LeaseRows.filter rfl

theorem acquireWorkerLease_free (h : db.acquireWorkerLease d w t ttl now = .ok db') :
    ∀ lease, db.getWorkerLease d = some lease → now < lease.expiresAt → lease.workerId = w := by
  intro lease hlease hlive
  by_contra hother
  unfold Database.acquireWorkerLease at h
  rw [hlease] at h
  simp only [hlive, hother, ne_eq, not_false_eq_true, and_self, if_true] at h
  cases h

end Calls

/-! ## Runs -/

section Runs

variable {db : Database} {calls : List LeaseCall}

theorem run_leaseKeys (hkeys : db.LeaseKeys) : (run leaseStep db calls).LeaseKeys :=
  invariant Database.LeaseKeys hkeys (fun s c hs => (leaseStep_rows s c).keys hs) calls

theorem run_claims : ∀ k ∈ (run leaseStep db calls).leases.map ExecutionWorkerLease.claim,
    k ∈ db.leases.map ExecutionWorkerLease.claim ∨ k.2.2 ∈ acquiredTokens calls := by
  induction calls generalizing db with
  | nil => exact fun k hk => .inl hk
  | cons c calls ih =>
    intro k hk
    rcases ih k hk with hold | hnew
    · rcases (leaseStep_rows db c).claims k hold with hold | htoken
      · exact .inl hold
      · refine .inr (List.mem_filterMap.mpr ⟨c, by simp, htoken⟩)
    · obtain ⟨x, hx, htoken⟩ := List.mem_filterMap.mp hnew
      exact .inr (List.mem_filterMap.mpr ⟨x, List.mem_cons_of_mem c hx, htoken⟩)

end Runs

/-- What it means for a pair to be locked out: it fails the check, its heartbeats and its release. -/
structure LockedOut (db : Database) (d : ℕ) (w t : String) : Prop where
  check : leaseHeld db d w t = false
  heartbeat : ∀ ttl now db', db.heartbeatWorkerLease d w t ttl now ≠ .ok db'
  release : releaseSucceeds db d w t = false

theorem LockedOut.of_not_held {db : Database} {d : ℕ} {w t : String}
    (h : leaseHeld db d w t = false) : LockedOut db d w t := by
  refine ⟨h, fun ttl now db' hbeat => ?_, ?_⟩
  · rw [(heartbeatWorkerLease_rows hbeat).1] at h
    cases h
  · unfold releaseSucceeds
    cases hrelease : db.releaseWorkerLease d w t with
    | error e => simp [Except.toOption]
    | ok db' =>
      cases hlease : db.getWorkerLease d with
      | none => rfl
      | some lease =>
        have hheld := (releaseWorkerLease_rows hrelease).1 (by simp [hlease])
        rw [h] at hheld
        cases hheld

/-- Mutual exclusion, for every sequence of lease calls whose `acquire` calls bring fresh tokens.
At every moment one pair at most passes the lease check; an `acquire` that succeeds met no live
lease of another worker; and a pair that held a lease and lost it is locked out for good. -/
theorem worker_lease_mutual_exclusion (db : Database) (hkeys : db.LeaseKeys)
    (calls : List LeaseCall) (hunique : (acquiredTokens calls).Nodup)
    (hfresh : ∀ t ∈ acquiredTokens calls, t ∉ db.leases.map ExecutionWorkerLease.leaseToken) :
    (∀ before, before <+: calls → ∀ d w t w' t',
      leaseHeld (run leaseStep db before) d w t = true →
      leaseHeld (run leaseStep db before) d w' t' = true → (w, t) = (w', t')) ∧
    (∀ before, before <+: calls → ∀ d w t ttl now db',
      (run leaseStep db before).acquireWorkerLease d w t ttl now = .ok db' →
      ∀ lease, (run leaseStep db before).getWorkerLease d = some lease → now < lease.expiresAt →
        lease.workerId = w) ∧
    (∀ before later rest, calls = before ++ later ++ rest → ∀ d w t,
      leaseHeld (run leaseStep db before) d w t = true →
      leaseHeld (run leaseStep db (before ++ later)) d w t = false →
      LockedOut (run leaseStep db calls) d w t) := by
  refine ⟨fun before _ d w t w' t' h h' => ?_, fun before _ d w t ttl now db' h => ?_,
    fun before later rest hcalls d w t hheld hlost => ?_⟩
  · obtain ⟨lease, hlease, rfl, rfl⟩ := leaseHeld_iff.mp h
    obtain ⟨lease', hlease', rfl, rfl⟩ := leaseHeld_iff.mp h'
    rw [hlease] at hlease'
    cases hlease'
    rfl
  · exact acquireWorkerLease_free h
  · subst hcalls
    -- The token was used up before, so no later call brings it.
    have hused : t ∈ db.leases.map ExecutionWorkerLease.leaseToken ∨ t ∈ acquiredTokens before := by
      rcases run_claims _ ((leaseHeld_iff_mem (run_leaseKeys hkeys)).mp hheld) with hold | hnew
      · obtain ⟨l, hl, hclaim⟩ := List.mem_map.mp hold
        refine .inl (List.mem_map.mpr ⟨l, hl, ?_⟩)
        exact congrArg (fun k => k.2.2) hclaim
      · exact .inr hnew
    have hgone : t ∉ acquiredTokens rest := by
      intro hagain
      rcases hused with hold | hbefore
      · refine hfresh t ?_ hold
        simp only [acquiredTokens, List.filterMap_append, List.mem_append]
        exact .inr hagain
      · simp only [acquiredTokens, List.filterMap_append] at hunique hbefore hagain
        exact (List.disjoint_of_nodup_append hunique) (List.mem_append_left _ hbefore) hagain
    refine .of_not_held (Bool.eq_false_iff.mpr fun hback => ?_)
    rw [leaseHeld_iff_mem (run_leaseKeys hkeys), run_append] at hback
    rcases run_claims _ hback with hclaim | htoken
    · rw [(leaseHeld_iff_mem (run_leaseKeys hkeys)).mpr hclaim] at hlost
      cases hlost
    · exact hgone htoken

/-- A takeover after expiry: the first worker is locked out, also when it comes back late. -/
def takeoverCalls : List LeaseCall :=
  [.acquire 7 "a" "t1" 60 0, .acquire 7 "b" "t2" 60 30, .acquire 7 "b" "t3" 60 60,
    .heartbeat 7 "a" "t1" 60 61, .release 7 "a" "t1"]

theorem worker_lease_takeover :
    leaseHeld (run leaseStep {} takeoverCalls) 7 "b" "t3" = true ∧
    LockedOut (run leaseStep {} takeoverCalls) 7 "a" "t1" := by
  refine ⟨by decide, ?_⟩
  have hnew : ∀ t ∈ acquiredTokens takeoverCalls,
      t ∉ ([] : List ExecutionWorkerLease).map ExecutionWorkerLease.leaseToken := by simp
  exact (worker_lease_mutual_exclusion {} List.nodup_nil takeoverCalls (by decide) hnew).2.2
    (takeoverCalls.take 1) ((takeoverCalls.drop 1).take 2) (takeoverCalls.drop 3) rfl 7 "a" "t1"
    (by decide) (by decide)

end QBackend.Execution
