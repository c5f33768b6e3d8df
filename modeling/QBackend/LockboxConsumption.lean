import Mathlib.Logic.Function.Basic
import QBackend.RunInvariants

/-!
# The consumption record of a lock-box

`check_lockbox_consumption`, `assert_lockbox_available` and `record_lockbox_consumption` on the
record file of a split manifest, and the acceptance runs and alpha-research jobs that call them
around one evaluation of the lock-box. A run is one execution of the lock-box stage; a job that is
resumed executes it once more. The steps of all runs are interleaved, and each read and each write
of the file is a step of its own.
-/

namespace QBackend.Research

open RunInvariants

variable {Metrics : Type}

/-! ## The record file -/

structure LockboxConsumptionRecord (Metrics : Type) where
  manifestHash : String
  championHash : String
  consumedAt : String
  lockboxMetrics : Metrics
  verdict : String
  candidateId : Option String := none

/-- The file `record.json` of a manifest. Opening it for a write truncates it. -/
inductive RecordFile (Metrics : Type) where
  | missing
  | truncated
  | stored (record : LockboxConsumptionRecord Metrics)

inductive HoldoutError where
  /-- `json.JSONDecodeError` on a truncated file -/
  | unreadable
  | holdoutConsumed (manifestHash existingChampionHash : String)

inductive LockboxConsumptionCheck (Metrics : Type) where
  | available
  | sameChampion (record : LockboxConsumptionRecord Metrics)
  | manifestConsumed (record : LockboxConsumptionRecord Metrics)

def checkLockboxConsumption (file : RecordFile Metrics) (championHash : String) :
    Except HoldoutError (LockboxConsumptionCheck Metrics) :=
  match file with
  | .missing => .ok .available
  | .truncated => .error .unreadable
  | .stored record =>
    if record.championHash = championHash then .ok (.sameChampion record)
    else .ok (.manifestConsumed record)

def assertLockboxAvailable (file : RecordFile Metrics) (manifestHash championHash : String) :
    Except HoldoutError (Option (LockboxConsumptionRecord Metrics)) :=
  match checkLockboxConsumption file championHash with
  | .error e => .error e
  | .ok .available => .ok none
  | .ok (.sameChampion record) => .ok (some record)
  | .ok (.manifestConsumed record) => .error (.holdoutConsumed manifestHash record.championHash)

/-! ## One run -/

inductive Service where
  | acceptance (persist : Bool)
  | alphaResearch (jobId : String)
  deriving DecidableEq

/-- How a run leaves its lock-box stage. -/
inductive Ending (Metrics : Type) where
  | blocked
  | cached (metrics : Metrics)
  | recorded (metrics : Metrics)
  /-- The metrics are computed, and no record of them is written. -/
  | unrecorded (metrics : Metrics)
  /-- Stopped by an exception or killed before anything is computed. -/
  | failed

/-- The place of a run in its lock-box stage. -/
inductive Stage (Metrics : Type) where
  | entering
  /-- The check found no record; `assert_lockbox_available` comes next. -/
  | available
  | cleared
  | evaluated (metrics : Metrics)
  /-- `record_lockbox_consumption` found no record and is about to write one. -/
  | recording (metrics : Metrics) (consumedAt verdict : String)
  | writing (metrics : Metrics) (consumedAt verdict : String)
  | ended (ending : Ending Metrics)

structure Run (Metrics : Type) where
  service : Service
  manifestHash : String
  championHash : String
  candidateId : Option String := none
  stage : Stage Metrics := .entering

def Run.at (run : Run Metrics) (stage : Stage Metrics) : Run Metrics := { run with stage := stage }

@[simp] theorem Run.at_stage (run : Run Metrics) (stage : Stage Metrics) :
    (run.at stage).stage = stage := rfl

@[simp] theorem Run.at_manifestHash (run : Run Metrics) (stage : Stage Metrics) :
    (run.at stage).manifestHash = run.manifestHash := rfl

@[simp] theorem Run.at_championHash (run : Run Metrics) (stage : Stage Metrics) :
    (run.at stage).championHash = run.championHash := rfl

def Run.record (run : Run Metrics) (metrics : Metrics) (consumedAt verdict : String) :
    LockboxConsumptionRecord Metrics where
  manifestHash := run.manifestHash
  championHash := run.championHash
  consumedAt := consumedAt
  lockboxMetrics := metrics
  verdict := verdict
  candidateId := run.candidateId

inductive Move (Metrics : Type) where
  | check
  | recheck
  | evaluate (metrics : Metrics)
  | record (consumedAt verdict : String)
  | openFile
  | fill
  /-- An exception of anything in between. -/
  | raise
  | kill

/-- What a move of a run leaves: the run, the file, the metrics that an alpha-research job puts into
its checkpoint, and whether the move computed the metrics or found another champion's record. -/
structure Effect (Metrics : Type) where
  run : Run Metrics
  file : RecordFile Metrics
  checkpoint : Option Metrics := none
  computed : Bool := false
  refused : Bool := false

/-- The metrics that the run holds and has not recorded. -/
def Stage.pendingMetrics : Stage Metrics → Option Metrics
  | .evaluated metrics | .recording metrics _ _ | .writing metrics _ _ => some metrics
  | .entering | .available | .cleared | .ended _ => none

/-- A run that stops: the exception handler of an alpha-research job saves its checkpoint, in which
the lock-box counts as consumed from the evaluation on. -/
def Run.stop (run : Run Metrics) (file : RecordFile Metrics) (handled refused : Bool) :
    Effect Metrics :=
  match run.stage with
  | .ended _ => { run, file }
  | stage =>
    match stage.pendingMetrics with
    | some metrics =>
      { run := run.at (.ended (.unrecorded metrics)), file, refused,
        checkpoint := if handled then some metrics else none }
    | none => { run := run.at (.ended .failed), file, refused }

def Run.check (run : Run Metrics) (file : RecordFile Metrics) : Effect Metrics :=
  match checkLockboxConsumption file run.championHash with
  | .error _ => run.stop file true false
  | .ok .available =>
    match run.service with
    | .acceptance _ => { run := run.at .available, file }
    | .alphaResearch _ => { run := run.at .cleared, file }
  | .ok (.sameChampion record) =>
    { run := run.at (.ended (.cached record.lockboxMetrics)), file,
      checkpoint := some record.lockboxMetrics }
  | .ok (.manifestConsumed _) => { run := run.at (.ended .blocked), file, refused := true }

/-- The answer of `assert_lockbox_available` is not read: a record of the same champion does not
stop the evaluation. -/
def Run.recheck (run : Run Metrics) (file : RecordFile Metrics) : Effect Metrics :=
  match assertLockboxAvailable file run.manifestHash run.championHash with
  | .ok _ => { run := run.at .cleared, file }
  | .error .unreadable => run.stop file true false
  | .error (.holdoutConsumed _ _) => run.stop file true true

/-- The check of `record_lockbox_consumption`; an acceptance run that does not persist skips it. -/
def Run.startRecord (run : Run Metrics) (metrics : Metrics) (file : RecordFile Metrics)
    (consumedAt verdict : String) : Effect Metrics :=
  if run.service = .acceptance false then
    { run := run.at (.ended (.unrecorded metrics)), file }
  else
    match checkLockboxConsumption file run.championHash with
    | .error _ => run.stop file true false
    | .ok .available => { run := run.at (.recording metrics consumedAt verdict), file }
    | .ok (.sameChampion _) =>
      { run := run.at (.ended (.recorded metrics)), file, checkpoint := some metrics }
    | .ok (.manifestConsumed _) => run.stop file true true

/-- A move that does not fit the stage of the run does nothing. -/
def Run.act (run : Run Metrics) (file : RecordFile Metrics) : Move Metrics → Effect Metrics
  | .check =>
    match run.stage with
    | .entering => run.check file
    | _ => { run, file }
  | .recheck =>
    match run.stage with
    | .available => run.recheck file
    | _ => { run, file }
  | .evaluate metrics =>
    match run.stage with
    | .cleared => { run := run.at (.evaluated metrics), file, computed := true }
    | _ => { run, file }
  | .record consumedAt verdict =>
    match run.stage with
    | .evaluated metrics => run.startRecord metrics file consumedAt verdict
    | _ => { run, file }
  | .openFile =>
    match run.stage with
    | .recording metrics consumedAt verdict =>
      { run := run.at (.writing metrics consumedAt verdict), file := .truncated }
    | _ => { run, file }
  | .fill =>
    match run.stage with
    | .writing metrics consumedAt verdict =>
      { run := run.at (.ended (.recorded metrics)),
        file := .stored (run.record metrics consumedAt verdict), checkpoint := some metrics }
    | _ => { run, file }
  | .raise => run.stop file true false
  | .kill => run.stop file false false

/-! ## All runs -/

structure Computation where
  runId : ℕ
  manifestHash : String
  championHash : String
  deriving DecidableEq

/-- The files of all manifests, the lock-box metrics in the checkpoints of the jobs, and the runs,
with the history of the evaluations and of the runs that found another champion's record. -/
structure World (Metrics : Type) where
  files : String → RecordFile Metrics
  checkpoints : String → Option Metrics
  runs : ℕ → Option (Run Metrics) := fun _ => none
  computed : List Computation := []
  refused : List ℕ := []

inductive LockboxEvent (Metrics : Type) where
  /-- A run reaches its lock-box stage with its champion. -/
  | start (runId : ℕ) (service : Service) (manifestHash championHash : String)
      (candidateId : Option String)
  | move (runId : ℕ) (move : Move Metrics)

def Service.save (service : Service) (metrics : Option Metrics)
    (checkpoints : String → Option Metrics) : String → Option Metrics :=
  match service, metrics with
  | .alphaResearch jobId, some metrics => Function.update checkpoints jobId (some metrics)
  | _, _ => checkpoints

/-- A job whose checkpoint says that the lock-box is consumed takes the metrics from there. -/
def Service.firstStage (service : Service) (checkpoints : String → Option Metrics) :
    Stage Metrics :=
  match service with
  | .acceptance _ => .entering
  | .alphaResearch jobId =>
    match checkpoints jobId with
    | some metrics => .ended (.cached metrics)
    | none => .entering

def World.apply (w : World Metrics) (runId : ℕ) (run : Run Metrics) (effect : Effect Metrics) :
    World Metrics where
  files := Function.update w.files run.manifestHash effect.file
  checkpoints := run.service.save effect.checkpoint w.checkpoints
  runs := Function.update w.runs runId (some effect.run)
  computed :=
    if effect.computed then ⟨runId, run.manifestHash, run.championHash⟩ :: w.computed
    else w.computed
  refused := if effect.refused then runId :: w.refused else w.refused

def World.step (w : World Metrics) : LockboxEvent Metrics → World Metrics
  | .start runId service manifestHash championHash candidateId =>
    match w.runs runId with
    | some _ => w
    | none =>
      let stage := service.firstStage w.checkpoints
      let run : Run Metrics := { service, manifestHash, championHash, candidateId, stage }
      { w with runs := Function.update w.runs runId (some run) }
  | .move runId move =>
    match w.runs runId with
    | none => w
    | some run => w.apply runId run (run.act (w.files run.manifestHash) move)

/-- For each manifest the metrics of at most one champion are computed, and a run that finds the
record of another champion computes none. -/
structure World.OneShot (w : World Metrics) : Prop where
  oneChampion : ∀ a ∈ w.computed, ∀ b ∈ w.computed, a.manifestHash = b.manifestHash →
    a.championHash = b.championHash
  refused : ∀ runId ∈ w.refused, ∀ a ∈ w.computed, a.runId ≠ runId

/-- The run has found the lock-box free, and neither its champion is recorded nor has the run
stopped before its evaluation. -/
def Stage.Claiming : Stage Metrics → Prop
  | .available | .cleared | .evaluated _ | .recording _ _ _ | .writing _ _ _
  | .ended (.unrecorded _) => True
  | .entering | .ended _ => False

/-- A run that finds no record finds no run of the manifest with another champion that found none
and has not recorded it. -/
def World.NoRival (w : World Metrics) : LockboxEvent Metrics → Prop
  | .move runId .check => ∀ run, w.runs runId = some run → run.stage = .entering →
      w.files run.manifestHash = .missing →
      ∀ otherId other, w.runs otherId = some other → other.manifestHash = run.manifestHash →
        other.stage.Claiming → other.championHash = run.championHash
  | _ => True

/-! ## What a move can do -/

/-- The metrics are computed and not recorded. -/
def Stage.Unrecorded : Stage Metrics → Prop
  | .evaluated _ | .recording _ _ _ | .writing _ _ _ | .ended (.unrecorded _) => True
  | .entering | .available | .cleared | .ended _ => False

/-- The metrics are computed. -/
def Stage.Computed : Stage Metrics → Prop
  | .evaluated _ | .recording _ _ _ | .writing _ _ _ | .ended (.unrecorded _)
  | .ended (.recorded _) => True
  | .entering | .available | .cleared | .ended _ => False

/-- The run has ended with nothing computed. -/
def Stage.Barred : Stage Metrics → Prop
  | .ended .blocked | .ended .failed => True
  | _ => False

theorem Stage.Unrecorded.claiming {stage : Stage Metrics} (h : stage.Unrecorded) :
    stage.Claiming := by
  unfold Stage.Unrecorded at h
  split at h
  · trivial
  · trivial
  · trivial
  · trivial
  all_goals exact h.elim

theorem Stage.Unrecorded.computed {stage : Stage Metrics} (h : stage.Unrecorded) :
    stage.Computed := by
  unfold Stage.Unrecorded at h
  split at h
  · trivial
  · trivial
  · trivial
  · trivial
  all_goals exact h.elim

theorem Stage.Barred.not_computed {stage : Stage Metrics} (h : stage.Barred) :
    ¬ stage.Computed := by
  unfold Stage.Barred at h
  split at h
  · exact id
  · exact id
  · exact h.elim

/-- The file holds the record of the champion. -/
def RecordFile.Holds (file : RecordFile Metrics) (championHash : String) : Prop :=
  ∃ record, file = .stored record ∧ record.championHash = championHash

/-- What every move of a run keeps to, on the file of its manifest. -/
structure Effect.Lawful (run : Run Metrics) (file : RecordFile Metrics) (move : Move Metrics)
    (effect : Effect Metrics) : Prop where
  manifestHash : effect.run.manifestHash = run.manifestHash
  championHash : effect.run.championHash = run.championHash
  claiming : effect.run.stage.Claiming →
    run.stage.Claiming ∨ move = .check ∧ run.stage = .entering ∧ file = .missing
  written : effect.file = file ∨ effect.file = .truncated ∧ run.stage.Unrecorded ∨
    effect.file.Holds run.championHash ∧ run.stage.Unrecorded
  unrecorded : run.stage.Unrecorded →
    effect.run.stage.Unrecorded ∨ effect.file.Holds run.championHash
  computed : effect.computed = true → run.stage.Claiming ∧ effect.run.stage.Unrecorded
  computed_mono : run.stage.Computed → effect.run.stage.Computed
  barred : run.stage.Barred → effect.run.stage.Barred ∧ effect.computed = false
  refused : effect.refused = true → effect.run.stage.Barred ∨
    run.stage.Unrecorded ∧ ∃ record, file = .stored record ∧ record.championHash ≠ run.championHash

section Moves

variable {run : Run Metrics} {file : RecordFile Metrics} {move : Move Metrics}

theorem Effect.Lawful.idle : Effect.Lawful run file move { run, file } where
  manifestHash := rfl
  championHash := rfl
  claiming := .inl
  written := .inl rfl
  unrecorded := .inl
  computed := nofun
  computed_mono := id
  barred h := ⟨h, rfl⟩
  refused := nofun

theorem Effect.Lawful.leave {ending : Ending Metrics} {checkpoint : Option Metrics} {refused : Bool}
    (hstage : ¬ run.stage.Computed) (hbarred : ¬ run.stage.Barred)
    (hending : ∀ metrics, ending ≠ .unrecorded metrics)
    (hrefused : refused = true → (Stage.ended ending).Barred) :
    Effect.Lawful run file move
      { run := run.at (.ended ending), file, checkpoint, refused } where
  manifestHash := rfl
  championHash := rfl
  claiming h := by
    cases ending with
    | unrecorded metrics => exact (hending metrics rfl).elim
    | blocked | cached | recorded | failed => exact h.elim
  written := .inl rfl
  unrecorded h := (hstage h.computed).elim
  computed := nofun
  computed_mono h := (hstage h).elim
  barred h := (hbarred h).elim
  refused h := .inl (hrefused h)

theorem Effect.Lawful.abandon {metrics : Metrics} {checkpoint : Option Metrics} {refused : Bool}
    (hstage : run.stage.Unrecorded) (hbarred : ¬ run.stage.Barred)
    (hrefused : refused = true →
      ∃ record, file = .stored record ∧ record.championHash ≠ run.championHash) :
    Effect.Lawful run file move
      { run := run.at (.ended (.unrecorded metrics)), file, checkpoint, refused } where
  manifestHash := rfl
  championHash := rfl
  claiming _ := .inl hstage.claiming
  written := .inl rfl
  unrecorded _ := .inl trivial
  computed := nofun
  computed_mono _ := trivial
  barred h := (hbarred h).elim
  refused h := .inr ⟨hstage, hrefused h⟩

theorem stop_lawful {handled refused : Bool}
    (hrefused : refused = true → run.stage.Unrecorded →
      ∃ record, file = .stored record ∧ record.championHash ≠ run.championHash) :
    Effect.Lawful run file move (run.stop file handled refused) := by
  unfold Run.stop
  cases hstage : run.stage with
  | ended ending => exact .idle
  | entering =>
    exact .leave (by rw [hstage]; exact id) (by rw [hstage]; exact id) (fun _ => nofun)
      (fun _ => trivial)
  | available =>
    exact .leave (by rw [hstage]; exact id) (by rw [hstage]; exact id) (fun _ => nofun)
      (fun _ => trivial)
  | cleared =>
    exact .leave (by rw [hstage]; exact id) (by rw [hstage]; exact id) (fun _ => nofun)
      (fun _ => trivial)
  | evaluated metrics =>
    have hun : run.stage.Unrecorded := by rw [hstage]; trivial
    exact .abandon hun (by rw [hstage]; exact id) fun h => hrefused h hun
  | recording metrics consumedAt verdict =>
    have hun : run.stage.Unrecorded := by rw [hstage]; trivial
    exact .abandon hun (by rw [hstage]; exact id) fun h => hrefused h hun
  | writing metrics consumedAt verdict =>
    have hun : run.stage.Unrecorded := by rw [hstage]; trivial
    exact .abandon hun (by rw [hstage]; exact id) fun h => hrefused h hun

theorem check_lawful (hstage : run.stage = .entering) :
    Effect.Lawful run file .check (run.check file) := by
  have hcomputed : ¬ run.stage.Computed := by rw [hstage]; exact id
  have hbarred : ¬ run.stage.Barred := by rw [hstage]; exact id
  have hunrecorded : ¬ run.stage.Unrecorded := fun h => hcomputed h.computed
  unfold Run.check
  cases file with
  | truncated => exact stop_lawful nofun
  | missing =>
    -- the one move that claims the lock-box
    have hclaim : ∀ stage : Stage Metrics, ¬ stage.Barred →
        Effect.Lawful run .missing .check { run := run.at stage, file := .missing } := by
      intro stage hstage'
      exact {
        manifestHash := rfl
        championHash := rfl
        claiming := fun _ => .inr ⟨rfl, hstage, rfl⟩
        written := .inl rfl
        unrecorded := fun h => (hunrecorded h).elim
        computed := nofun
        computed_mono := fun h => (hcomputed h).elim
        barred := fun h => (hbarred h).elim
        refused := nofun }
    cases hservice : run.service with
    | acceptance persist => simpa [checkLockboxConsumption, hservice] using hclaim .available id
    | alphaResearch jobId => simpa [checkLockboxConsumption, hservice] using hclaim .cleared id
  | stored record =>
    by_cases h : record.championHash = run.championHash
    · simp only [checkLockboxConsumption, h, if_true]
      exact .leave hcomputed hbarred (fun _ => nofun) nofun
    · simp only [checkLockboxConsumption, h, if_false]
      exact .leave hcomputed hbarred (fun _ => nofun) (fun _ => trivial)

theorem Effect.Lawful.advance {stage : Stage Metrics} {computed : Bool}
    (hclaiming : run.stage.Claiming) (hcomputed : ¬ run.stage.Computed)
    (hbarred : ¬ run.stage.Barred) (hnext : computed = true → stage.Unrecorded) :
    Effect.Lawful run file move { run := run.at stage, file, computed } where
  manifestHash := rfl
  championHash := rfl
  claiming _ := .inl hclaiming
  written := .inl rfl
  unrecorded h := (hcomputed h.computed).elim
  computed h := ⟨hclaiming, hnext h⟩
  computed_mono h := (hcomputed h).elim
  barred h := (hbarred h).elim
  refused := nofun

theorem recheck_lawful (hstage : run.stage = .available) :
    Effect.Lawful run file move (run.recheck file) := by
  have hclaiming : run.stage.Claiming := by rw [hstage]; trivial
  have hcomputed : ¬ run.stage.Computed := by rw [hstage]; exact id
  have hbarred : ¬ run.stage.Barred := by rw [hstage]; exact id
  unfold Run.recheck assertLockboxAvailable
  cases file with
  | truncated => exact stop_lawful nofun
  | missing => exact .advance hclaiming hcomputed hbarred nofun
  | stored record =>
    by_cases h : record.championHash = run.championHash
    · simp only [checkLockboxConsumption, h, if_true]
      exact .advance hclaiming hcomputed hbarred nofun
    · simp only [checkLockboxConsumption, h, if_false]
      exact stop_lawful fun _ hun => (hcomputed hun.computed).elim

theorem Effect.Lawful.settle {stage : Stage Metrics} {file' : RecordFile Metrics}
    {checkpoint : Option Metrics} (hun : run.stage.Unrecorded) (hbarred : ¬ run.stage.Barred)
    (hcomputed : stage.Computed)
    (hfile : file' = file ∨ file' = .truncated ∨ file'.Holds run.championHash)
    (hnext : stage.Unrecorded ∨ file'.Holds run.championHash) :
    Effect.Lawful run file move { run := run.at stage, file := file', checkpoint } where
  manifestHash := rfl
  championHash := rfl
  claiming _ := .inl hun.claiming
  written := by
    obtain h | h | h := hfile
    · exact .inl h
    · exact .inr (.inl ⟨h, hun⟩)
    · exact .inr (.inr ⟨h, hun⟩)
  unrecorded _ := hnext
  computed := nofun
  computed_mono _ := hcomputed
  barred h := (hbarred h).elim
  refused := nofun

theorem startRecord_lawful {metrics : Metrics} {consumedAt verdict : String}
    (hstage : run.stage = .evaluated metrics) :
    Effect.Lawful run file move (run.startRecord metrics file consumedAt verdict) := by
  have hun : run.stage.Unrecorded := by rw [hstage]; trivial
  have hbarred : ¬ run.stage.Barred := by rw [hstage]; exact id
  unfold Run.startRecord
  by_cases hpersist : run.service = .acceptance false
  · rw [if_pos hpersist]
    exact .settle hun hbarred trivial (.inl rfl) (.inl trivial)
  · rw [if_neg hpersist]
    cases file with
    | truncated => exact stop_lawful nofun
    | missing => exact .settle hun hbarred trivial (.inl rfl) (.inl trivial)
    | stored record =>
      by_cases h : record.championHash = run.championHash
      · simp only [checkLockboxConsumption, h, if_true]
        exact .settle hun hbarred trivial (.inl rfl) (.inr ⟨record, rfl, h⟩)
      · simp only [checkLockboxConsumption, h, if_false]
        exact stop_lawful fun _ _ => ⟨record, rfl, h⟩

theorem act_lawful (run : Run Metrics) (file : RecordFile Metrics) (move : Move Metrics) :
    Effect.Lawful run file move (run.act file move) := by
  cases move with
  | raise => exact stop_lawful nofun
  | kill => exact stop_lawful nofun
  | check =>
    simp only [Run.act]
    split
    · next hstage => exact check_lawful hstage
    · exact .idle
  | recheck =>
    simp only [Run.act]
    split
    · next hstage => exact recheck_lawful hstage
    · exact .idle
  | evaluate metrics =>
    simp only [Run.act]
    split
    · next hstage =>
      exact .advance (by rw [hstage]; trivial) (by rw [hstage]; exact id) (by rw [hstage]; exact id)
        fun _ => trivial
    · exact .idle
  | record consumedAt verdict =>
    simp only [Run.act]
    split
    · next hstage => exact startRecord_lawful hstage
    · exact .idle
  | openFile =>
    simp only [Run.act]
    split
    · next hstage =>
      exact .settle (by rw [hstage]; trivial) (by rw [hstage]; exact id) trivial (.inr (.inl rfl))
        (.inl trivial)
    · exact .idle
  | fill =>
    simp only [Run.act]
    split
    · next hstage =>
      exact .settle (by rw [hstage]; trivial) (by rw [hstage]; exact id) trivial
        (.inr (.inr ⟨_, rfl, rfl⟩)) (.inr ⟨_, rfl, rfl⟩)
    · exact .idle

end Moves

/-! ## What every run of the world keeps -/

/-- A run of the manifest with the champion is at a stage that satisfies the predicate. -/
def World.HasRun (w : World Metrics) (manifestHash championHash : String)
    (P : Stage Metrics → Prop) : Prop :=
  ∃ runId run, w.runs runId = some run ∧ run.manifestHash = manifestHash ∧
    run.championHash = championHash ∧ P run.stage

/-- The champion has the lock-box of the manifest, by a run or by the record. -/
def World.Claimed (w : World Metrics) (manifestHash championHash : String) : Prop :=
  w.HasRun manifestHash championHash Stage.Claiming ∨ (w.files manifestHash).Holds championHash

structure World.Exclusive (w : World Metrics) : Prop where
  claimed : ∀ manifestHash c c', w.Claimed manifestHash c → w.Claimed manifestHash c' → c = c'
  computed : ∀ a ∈ w.computed, w.HasRun a.manifestHash a.championHash Stage.Unrecorded ∨
    (w.files a.manifestHash).Holds a.championHash
  computedBy : ∀ a ∈ w.computed, ∃ run, w.runs a.runId = some run ∧ run.stage.Computed
  refused : ∀ runId ∈ w.refused, ∃ run, w.runs runId = some run ∧ run.stage.Barred

theorem World.HasRun.mono {w : World Metrics} {manifestHash championHash : String}
    {P Q : Stage Metrics → Prop} (h : w.HasRun manifestHash championHash P)
    (himp : ∀ stage, P stage → Q stage) : w.HasRun manifestHash championHash Q := by
  obtain ⟨runId, run, hrun, hmanifest, hchampion, hP⟩ := h
  exact ⟨runId, run, hrun, hmanifest, hchampion, himp _ hP⟩

theorem RecordFile.Holds.unique {file : RecordFile Metrics} {c c' : String} (h : file.Holds c)
    (h' : file.Holds c') : c = c' := by
  obtain ⟨record, hfile, rfl⟩ := h
  obtain ⟨record', hfile', rfl⟩ := h'
  rw [hfile] at hfile'
  cases hfile'
  rfl

theorem World.Exclusive.oneShot {w : World Metrics} (h : w.Exclusive) : w.OneShot where
  oneChampion a ha b hb hmanifest := by
    have hclaim : ∀ x ∈ w.computed, w.Claimed x.manifestHash x.championHash := by
      intro x hx
      obtain hrun | hfile := h.computed x hx
      · exact .inl (hrun.mono fun _ => Stage.Unrecorded.claiming)
      · exact .inr hfile
    have hb' := hclaim b hb
    rw [← hmanifest] at hb'
    exact h.claimed _ _ _ (hclaim a ha) hb'
  refused runId hrefused a ha heq := by
    obtain ⟨run, hrun, hcomputed⟩ := h.computedBy a ha
    obtain ⟨run', hrun', hbarred⟩ := h.refused runId hrefused
    rw [heq, hrun'] at hrun
    cases hrun
    exact hbarred.not_computed hcomputed

theorem exclusive_initial (files : String → RecordFile Metrics)
    (checkpoints : String → Option Metrics) :
    World.Exclusive { files, checkpoints : World Metrics } where
  claimed manifestHash c c' h h' := by
    obtain ⟨_, _, hrun, _⟩ | hfile := h
    · cases hrun
    · obtain ⟨_, _, hrun, _⟩ | hfile' := h'
      · cases hrun
      · exact hfile.unique hfile'
  computed := nofun
  computedBy := nofun
  refused := nofun

theorem firstStage_cases (service : Service) (checkpoints : String → Option Metrics) :
    service.firstStage checkpoints = .entering ∨
      ∃ metrics, service.firstStage checkpoints = .ended (.cached metrics) := by
  cases service with
  | acceptance persist => exact .inl rfl
  | alphaResearch jobId =>
    cases hjob : checkpoints jobId with
    | none => exact .inl (by simp [Service.firstStage, hjob])
    | some metrics => exact .inr ⟨metrics, by simp [Service.firstStage, hjob]⟩

/-- A run that begins has no part in the lock-box yet. -/
theorem exclusive_start {w : World Metrics} (h : w.Exclusive) {runId : ℕ} {run : Run Metrics}
    (hnone : w.runs runId = none)
    (hstage : run.stage = .entering ∨ ∃ metrics, run.stage = .ended (.cached metrics)) :
    World.Exclusive { w with runs := Function.update w.runs runId (some run) } := by
  have hclaiming : ¬ run.stage.Claiming := by
    obtain hs | ⟨metrics, hs⟩ := hstage
    · rw [hs]; exact id
    · rw [hs]; exact id
  have hkept : ∀ id r, w.runs id = some r →
      Function.update w.runs runId (some run) id = some r := by
    intro id r hr
    rw [Function.update_of_ne]
    · exact hr
    · rintro rfl
      rw [hnone] at hr
      cases hr
  have hclaimed : ∀ manifestHash c,
      World.Claimed { w with runs := Function.update w.runs runId (some run) } manifestHash c →
        w.Claimed manifestHash c := by
    intro manifestHash c hc
    obtain ⟨id, r, hr, hm, hch, hcl⟩ | hfile := hc
    · by_cases hid : id = runId
      · subst hid
        simp only [Function.update_self, Option.some.injEq] at hr
        subst hr
        exact (hclaiming hcl).elim
      · simp only [Function.update_of_ne hid] at hr
        exact .inl ⟨id, r, hr, hm, hch, hcl⟩
    · exact .inr hfile
  exact {
    claimed := fun manifestHash c c' hc hc' =>
      h.claimed manifestHash c c' (hclaimed _ _ hc) (hclaimed _ _ hc')
    computed := by
      intro a ha
      obtain ⟨id, r, hr, hrest⟩ | hfile := h.computed a ha
      · exact .inl ⟨id, r, hkept id r hr, hrest⟩
      · exact .inr hfile
    computedBy := by
      intro a ha
      obtain ⟨r, hr, hc⟩ := h.computedBy a ha
      exact ⟨r, hkept _ r hr, hc⟩
    refused := by
      intro id hid
      obtain ⟨r, hr, hb⟩ := h.refused id hid
      exact ⟨r, hkept _ r hr, hb⟩ }

section Applied

variable {w : World Metrics} {runId : ℕ} {run : Run Metrics} {move : Move Metrics}
  {effect : Effect Metrics} {manifestHash c : String}

/-- A move gives the lock-box to no champion that had it not, but by a check that finds no
record. -/
theorem claimed_apply (hrun : w.runs runId = some run)
    (hlawful : effect.Lawful run (w.files run.manifestHash) move)
    (hclaimed : (w.apply runId run effect).Claimed manifestHash c) :
    w.Claimed manifestHash c ∨ manifestHash = run.manifestHash ∧ c = run.championHash ∧
      move = .check ∧ run.stage = .entering ∧ w.files run.manifestHash = .missing := by
  obtain ⟨id, r, hr, hm, hch, hcl⟩ | hfile := hclaimed
  · by_cases hid : id = runId
    · subst hid
      simp only [World.apply, Function.update_self, Option.some.injEq] at hr
      subst hr
      rw [hlawful.manifestHash] at hm
      rw [hlawful.championHash] at hch
      obtain hold | hcheck := hlawful.claiming hcl
      · exact .inl (.inl ⟨id, run, hrun, hm, hch, hold⟩)
      · exact .inr ⟨hm.symm, hch.symm, hcheck⟩
    · simp only [World.apply, Function.update_of_ne hid] at hr
      exact .inl (.inl ⟨id, r, hr, hm, hch, hcl⟩)
  · by_cases hm : manifestHash = run.manifestHash
    · subst hm
      simp only [World.apply, Function.update_self] at hfile
      obtain hsame | ⟨htruncated, -⟩ | ⟨hholds, hun⟩ := hlawful.written
      · rw [hsame] at hfile
        exact .inl (.inr hfile)
      · rw [htruncated] at hfile
        obtain ⟨_, hstored, _⟩ := hfile
        cases hstored
      · exact .inl (.inl ⟨runId, run, hrun, rfl, hholds.unique hfile, hun.claiming⟩)
    · simp only [World.apply, Function.update_of_ne hm] at hfile
      exact .inl (.inr hfile)

theorem unrecorded_apply (h : w.Exclusive) (hrun : w.runs runId = some run)
    (hlawful : effect.Lawful run (w.files run.manifestHash) move)
    (hold : w.HasRun manifestHash c Stage.Unrecorded ∨ (w.files manifestHash).Holds c) :
    (w.apply runId run effect).HasRun manifestHash c Stage.Unrecorded ∨
      ((w.apply runId run effect).files manifestHash).Holds c := by
  have hown : run.manifestHash = manifestHash → run.championHash = c → run.stage.Unrecorded →
      (w.apply runId run effect).HasRun manifestHash c Stage.Unrecorded ∨
        ((w.apply runId run effect).files manifestHash).Holds c := by
    rintro rfl rfl hun
    obtain hnext | hfile := hlawful.unrecorded hun
    · exact .inl ⟨runId, effect.run, by simp [World.apply], hlawful.manifestHash,
        hlawful.championHash, hnext⟩
    · exact .inr (by simpa [World.apply] using hfile)
  obtain ⟨id, r, hr, hm, hch, hun⟩ | hfile := hold
  · by_cases hid : id = runId
    · subst hid
      rw [hrun] at hr
      cases hr
      exact hown hm hch hun
    · exact .inl ⟨id, r, by simpa [World.apply, Function.update_of_ne hid] using hr, hm, hch, hun⟩
  · by_cases hm : manifestHash = run.manifestHash
    · subst hm
      have hagree : run.stage.Unrecorded → run.championHash = c := fun hun =>
        h.claimed _ _ _ (.inl ⟨runId, run, hrun, rfl, rfl, hun.claiming⟩) (.inr hfile)
      obtain hsame | ⟨-, hun⟩ | ⟨-, hun⟩ := hlawful.written
      · exact .inr (by simpa [World.apply, hsame] using hfile)
      · exact hown rfl (hagree hun) hun
      · exact hown rfl (hagree hun) hun
    · exact .inr (by simpa [World.apply, Function.update_of_ne hm] using hfile)

theorem exclusive_apply (h : w.Exclusive) (hrun : w.runs runId = some run)
    (hlawful : effect.Lawful run (w.files run.manifestHash) move)
    (hrival : w.NoRival (.move runId move)) : (w.apply runId run effect).Exclusive where
  claimed manifestHash c c' hc hc' := by
    have hnew : ∀ d, move = .check → run.stage = .entering →
        w.files run.manifestHash = .missing → w.Claimed run.manifestHash d →
          d = run.championHash := by
      rintro d rfl hentering hmissing (⟨id, r, hr, hm, rfl, hcl⟩ | ⟨record, hstored, -⟩)
      · exact hrival run hrun hentering hmissing id r hr hm hcl
      · rw [hmissing] at hstored
        cases hstored
    obtain hold | ⟨rfl, rfl, hcheck, hentering, hmissing⟩ := claimed_apply hrun hlawful hc
    · obtain hold' | ⟨rfl, rfl, hcheck, hentering, hmissing⟩ := claimed_apply hrun hlawful hc'
      · exact h.claimed _ _ _ hold hold'
      · exact hnew c hcheck hentering hmissing hold
    · obtain hold' | ⟨-, rfl, -⟩ := claimed_apply hrun hlawful hc'
      · exact (hnew c' hcheck hentering hmissing hold').symm
      · rfl
  computed a ha := by
    by_cases hcomputed : effect.computed = true
    · simp only [World.apply, hcomputed, if_true, List.mem_cons] at ha
      obtain rfl | ha := ha
      · exact .inl ⟨runId, effect.run, by simp [World.apply], hlawful.manifestHash,
          hlawful.championHash, (hlawful.computed hcomputed).2⟩
      · exact unrecorded_apply h hrun hlawful (h.computed a ha)
    · simp only [World.apply, hcomputed] at ha
      exact unrecorded_apply h hrun hlawful (h.computed a ha)
  computedBy a ha := by
    have hold : a ∈ w.computed →
        ∃ r, (w.apply runId run effect).runs a.runId = some r ∧ r.stage.Computed := by
      intro ha
      obtain ⟨r, hr, hcomputed⟩ := h.computedBy a ha
      by_cases hid : a.runId = runId
      · rw [hid, hrun] at hr
        cases hr
        exact ⟨effect.run, by simp [World.apply, hid], hlawful.computed_mono hcomputed⟩
      · exact ⟨r, by simpa [World.apply, Function.update_of_ne hid] using hr, hcomputed⟩
    by_cases hcomputed : effect.computed = true
    · simp only [World.apply, hcomputed, if_true, List.mem_cons] at ha
      obtain rfl | ha := ha
      · exact ⟨effect.run, by simp [World.apply], (hlawful.computed hcomputed).2.computed⟩
      · exact hold ha
    · simp only [World.apply, hcomputed] at ha
      exact hold ha
  refused id hid := by
    have hold : id ∈ w.refused →
        ∃ r, (w.apply runId run effect).runs id = some r ∧ r.stage.Barred := by
      intro hid
      obtain ⟨r, hr, hbarred⟩ := h.refused id hid
      by_cases heq : id = runId
      · subst heq
        rw [hrun] at hr
        cases hr
        exact ⟨effect.run, by simp [World.apply], (hlawful.barred hbarred).1⟩
      · exact ⟨r, by simpa [World.apply, Function.update_of_ne heq] using hr, hbarred⟩
    by_cases hrefused : effect.refused = true
    · simp only [World.apply, hrefused, if_true, List.mem_cons] at hid
      obtain rfl | hid := hid
      · obtain hbarred | ⟨hun, record, hstored, hne⟩ := hlawful.refused hrefused
        · exact ⟨effect.run, by simp [World.apply], hbarred⟩
        · -- a run that has claimed the lock-box never finds another champion's record
          have := h.claimed _ _ _ (.inl ⟨id, run, hrun, rfl, rfl, hun.claiming⟩)
            (.inr ⟨record, hstored, rfl⟩)
          exact (hne this.symm).elim
      · exact hold hid
    · simp only [World.apply, hrefused] at hid
      exact hold hid

end Applied

theorem exclusive_step {w : World Metrics} (h : w.Exclusive) {event : LockboxEvent Metrics}
    (hrival : w.NoRival event) : (w.step event).Exclusive := by
  cases event with
  | start runId service manifestHash championHash candidateId =>
    cases hrun : w.runs runId with
    | some run => simpa only [World.step, hrun] using h
    | none =>
      simp only [World.step, hrun]
      exact exclusive_start h hrun (firstStage_cases service w.checkpoints)
  | move runId move =>
    cases hrun : w.runs runId with
    | none => simpa only [World.step, hrun] using h
    | some run =>
      simp only [World.step, hrun]
      exact exclusive_apply h hrun (act_lawful run _ move) hrival

/-- In every run of acceptance runs and alpha-research jobs, with exceptions, kills and resumes at
any point: where each check that finds no record meets no rival that found none, the lock-box of a
manifest is evaluated for one champion, and a run that finds it consumed evaluates nothing. -/
theorem lockbox_oneShot (files : String → RecordFile Metrics)
    (checkpoints : String → Option Metrics) (events : List (LockboxEvent Metrics))
    (hrivals : Admissible World.step World.NoRival { files, checkpoints } events) :
    (run World.step { files, checkpoints } events).OneShot :=
  (invariant_of_admissible World.Exclusive hrivals (exclusive_initial files checkpoints)
    fun _ _ hrival h => exclusive_step h hrival).oneShot

/-- A run evaluates and records its champion, and a later run with another champion is blocked. -/
def oneAfterAnother : List (LockboxEvent ℕ) :=
  [.start 0 (.acceptance true) "manifest" "a" none, .move 0 .check, .move 0 .recheck,
    .move 0 (.evaluate 7), .move 0 (.record "2024-01-01T00:00:00Z" "ready"), .move 0 .openFile,
    .move 0 .fill, .start 1 (.alphaResearch "job") "manifest" "b" none, .move 1 .check,
    .move 1 (.evaluate 8)]

theorem lockbox_oneShot_oneAfterAnother :
    (run World.step { files := fun _ => .missing, checkpoints := fun _ => none }
      oneAfterAnother).OneShot := by
  refine lockbox_oneShot _ _ oneAfterAnother ⟨trivial, ?_, trivial, trivial, trivial, trivial,
    trivial, trivial, ?_, trivial, trivial⟩
  · intro run hrun _ _ otherId other hother _ _
    by_cases hid : otherId = 0
    · subst hid
      rw [hrun] at hother
      cases hother
      rfl
    · simp [World.step, Function.update_of_ne hid] at hother
  · intro run hrun _ hmissing
    cases hrun
    cases hmissing

/-- Two runs check the lock-box before either records its champion, and both evaluate it. -/
theorem lockbox_evaluated_for_two_champions :
    ¬ (run World.step { files := fun _ => .missing, checkpoints := fun _ => none }
      [.start 0 (.acceptance true) "manifest" "a" none,
        .start 1 (.alphaResearch "job") "manifest" "b" none, .move 0 .check, .move 1 .check,
        .move 0 .recheck, .move 0 (.evaluate (7 : ℕ)), .move 1 (.evaluate 8)]).OneShot := by
  intro h
  have hsame : "a" = "b" :=
    h.oneChampion ⟨0, "manifest", "a"⟩ (by decide) ⟨1, "manifest", "b"⟩ (by decide) rfl
  exact absurd hsame (by decide)

end QBackend.Research
