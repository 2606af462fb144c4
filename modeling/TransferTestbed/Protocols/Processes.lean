import Mathlib.Logic.Function.Basic
import TransferTestbed.Library.Transition
import TransferTestbed.Protocols.Invocations

/-!
# Processes on several output trees

The manual CLI and the runner, one process after the other, on a file system with
any number of output trees. The runner creates its runs in `output`, which is also
the containers' tree; everything else the host does goes to the tree of its
`OUTPUT_DIR` variable. A process performs its events one by one and may go on to
the next experiment, or end, after any of them, which covers every failure.

Results:
* `outputDir_imported`: the host's processes have an `OUTPUT_DIR`.
* `readManifest_place`: measurements do not change a manifest.
* `step_begin`: what the beginning of an experiment does.
-/

namespace TransferTestbed.Processes

open Runs WriteCsv BenchmarkManager Invocations

/-! ## Directories and environments -/

/-- How paths resolve on the host. The directory `output` is mounted as the
    containers' `/app/output`. -/
structure Site where
  resolve : String → String
  output : String
  resolve_output : resolve "output" = output
  resolve_dotOutput : resolve "./output" = output

/-- The output trees by their resolved directory. -/
abbrev Trees := String → OutputTree

/-- The environment that a process starts with. -/
structure Environ where
  vars : Env
  nodup : vars.keys.Nodup

/-- `os.environ` after the import of `benchmark_manager` (line 36). -/
def imported (env : Environ) : Environ :=
  match env.vars.get? "OUTPUT_DIR" with
  | some _ => env
  | none => ⟨env.vars.insert "OUTPUT_DIR" "./output", Dict.nodup_keys_insert env.nodup _ _⟩

/-- `default_output_dir()` on the host, and what it reads elsewhere in `benchmark_manager`. -/
def defaultDir (site : Site) (env : Env) : String :=
  site.resolve (getenv env "OUTPUT_DIR" "./output")

theorem outputDir_imported (env : Environ) :
    ∃ dir, (imported env).vars.get? "OUTPUT_DIR" = some dir := by
  unfold imported
  cases h : env.vars.get? "OUTPUT_DIR" with
  | some dir => exact ⟨dir, h⟩
  | none => exact ⟨"./output", by rw [Dict.get?_insert, if_pos rfl]⟩

/-! ## Processes -/

/-- One protocol and profile of a sweep. `RUN_ID` is not set in the containers. -/
structure Pair where
  now : Now
  protocol : Protocol
  profile : String
  runId : Option String
  container : Env
  container_runId : container.get? "RUN_ID" = none

/-- The experiment of a pair, with what it writes. -/
def Pair.experiment (p : Pair) (products : List Product) (cleanedUp : Bool) : Experiment :=
  ⟨p.now, p.protocol, p.profile, p.runId, p.container, products, cleanedUp⟩

def Pair.rid (p : Pair) : String := (p.experiment [] false).rid

/-- The environment of an experiment over `BASE_ENV`. -/
def Pair.env (base : Env) (p : Pair) : Env := experimentEnv base (p.experiment [] false)

/-- A manual invocation. -/
structure Command where
  now : Now
  /-- The first of its `--protocol` arguments. -/
  protocol : Protocol
  env : Environ
  container : Env
  container_runId : container.get? "RUN_ID" = none

inductive Process where
  | idle
  | manual (envs : Envs)
  /-- between two experiments: `BASE_ENV` and `os.environ` -/
  | sweep (base : Environ) (env : Env)
  | experiment (base : Environ) (p : Pair) (envs : Envs)

/-- The environments of a process that transfers files. -/
def Process.envs? : Process → Option Envs
  | .idle => none
  | .manual envs => some envs
  | .sweep _ _ => none
  | .experiment _ _ envs => some envs

/-- `BASE_ENV` of the runner. -/
def Process.base? : Process → Option Environ
  | .idle => none
  | .manual _ => none
  | .sweep base _ => some base
  | .experiment base _ _ => some base

structure State where
  trees : Trees
  process : Process

/-- What `run_protocol` records in the manifest (lines 158–176). -/
inductive Patch where
  | files (sizes : List ℕ) (names : List String)
  | qosLevels (levels : List ℤ)

def Patch.apply (m : Manifest) : Patch → Manifest
  | .files sizes names => { m with fileSizes := some sizes, files := some names }
  | .qosLevels levels => { m with qosLevels := some levels }

inductive Event where
  /-- the manual CLI starts, as far as `_ensure_run` -/
  | manual (c : Command)
  /-- the runner starts, in this environment -/
  | sweep (env : Environ)
  /-- `run_experiment`, as far as the marker -/
  | begin (p : Pair)
  /-- a patch of the active run's manifest -/
  | record (patch : Patch)
  /-- a transfer is executed -/
  | transfer (filename : String) (qos : Option ℤ)
  | write (p : Product)
  /-- the `finally` clause of `run_experiment`; `down` is false if the compose command raises -/
  | finish (down : Bool)
  /-- the process ends -/
  | exit

/-! ## Steps -/

/-- The tree a side works on. On the host `OUTPUT_DIR` is set by then, so that the defaults
    of the CSV writer and of the run registry, which differ, are not used. -/
def dirOf (site : Site) (envs : Envs) : Side → String
  | .host => defaultDir site envs.host
  | .container => site.output

def startManual (site : Site) (trees : Trees) (c : Command) : State :=
  let env := (imported c.env).vars
  let dir := defaultDir site env
  match ensureRun env c.now (trees dir) c.protocol with
  | .error _ => ⟨trees, .idle⟩
  | .ok (_, env, t) => ⟨Function.update trees dir t, .manual ⟨env, c.container⟩⟩

/-- `run_experiment` (lines 76–100): the environment is published before the run is
    created; a run that exists raises. -/
def beginExperiment (site : Site) (trees : Trees) (base : Environ) (env : Env)
    (p : Pair) : State :=
  let env := env.update (p.env base.vars)
  match newRun env p.now (trees site.output) p.protocol.name (some p.profile) (some p.rid) none with
  | .error _ => ⟨trees, .sweep base env⟩
  | .ok (rid, t) =>
    ⟨Function.update trees site.output (writeMarker t rid),
      .experiment base p ⟨env, p.container⟩⟩

/-- `if run_id: update_manifest(…)` (lines 158–176). -/
def record (site : Site) (trees : Trees) (envs : Envs) (patch : Patch) : Trees :=
  let dir := defaultDir site envs.host
  match activeRunId envs.host (trees dir) with
  | none => trees
  | some rid =>
    Function.update trees dir (updateManifest (trees dir) rid fun m => patch.apply m)

def write (site : Site) (trees : Trees) (envs : Envs) (p : Product) : Trees :=
  let dir := dirOf site envs p.side
  Function.update trees dir (place envs (trees dir) p)

def step (site : Site) (s : State) : Event → Option State
  | .manual c =>
    match s.process with
    | .idle => some (startManual site s.trees c)
    | _ => none
  | .sweep env =>
    match s.process with
    | .idle => some ⟨s.trees, .sweep (imported env) (imported env).vars⟩
    | _ => none
  | .begin p =>
    match s.process with
    | .sweep base env => some (beginExperiment site s.trees base env p)
    | _ => none
  | .record patch => s.process.envs?.map fun envs => ⟨record site s.trees envs patch, s.process⟩
  | .transfer _ _ => s.process.envs?.map fun _ => s
  | .write p => s.process.envs?.map fun envs => ⟨write site s.trees envs p, s.process⟩
  | .finish down =>
    match s.process with
    | .experiment base _ envs =>
      some ⟨if down then Function.update s.trees site.output (clearMarker (s.trees site.output))
        else s.trees, .sweep base envs.host⟩
    | _ => none
  | .exit =>
    match s.process with
    | .manual _ => some ⟨s.trees, .idle⟩
    | .sweep _ _ => some ⟨s.trees, .idle⟩
    | _ => none

/-! ## What a step can do -/

theorem step_manual {site : Site} {s t : State} {c : Command}
    (h : step site s (.manual c) = some t) :
    s.process = .idle ∧ t = startManual site s.trees c := by
  cases hp : s.process <;> simp only [step, hp] at h <;> cases h
  exact ⟨rfl, rfl⟩

theorem step_sweep {site : Site} {s t : State} {env : Environ}
    (h : step site s (.sweep env) = some t) :
    s.process = .idle ∧ t = ⟨s.trees, .sweep (imported env) (imported env).vars⟩ := by
  cases hp : s.process <;> simp only [step, hp] at h <;> cases h
  exact ⟨rfl, rfl⟩

theorem step_begin {site : Site} {s t : State} {p : Pair} (h : step site s (.begin p) = some t) :
    ∃ base env, s.process = .sweep base env ∧ t = beginExperiment site s.trees base env p := by
  cases hp : s.process <;> simp only [step, hp] at h <;> cases h
  exact ⟨_, _, rfl, rfl⟩

theorem step_record {site : Site} {s t : State} {patch : Patch}
    (h : step site s (.record patch) = some t) :
    ∃ envs, s.process.envs? = some envs ∧ t = ⟨record site s.trees envs patch, s.process⟩ := by
  obtain ⟨envs, henvs, rfl⟩ := Option.map_eq_some_iff.1 h
  exact ⟨envs, henvs, rfl⟩

theorem step_transfer {site : Site} {s t : State} {filename : String} {qos : Option ℤ}
    (h : step site s (.transfer filename qos) = some t) :
    t = s ∧ ∃ envs, s.process.envs? = some envs := by
  obtain ⟨envs, henvs, rfl⟩ := Option.map_eq_some_iff.1 h
  exact ⟨rfl, envs, henvs⟩

theorem step_write {site : Site} {s t : State} {p : Product} (h : step site s (.write p) = some t) :
    ∃ envs, s.process.envs? = some envs ∧ t = ⟨write site s.trees envs p, s.process⟩ := by
  obtain ⟨envs, henvs, rfl⟩ := Option.map_eq_some_iff.1 h
  exact ⟨envs, henvs, rfl⟩

theorem step_finish {site : Site} {s t : State} {down : Bool}
    (h : step site s (.finish down) = some t) :
    ∃ base p envs, s.process = .experiment base p envs ∧
      t = ⟨if down then Function.update s.trees site.output (clearMarker (s.trees site.output))
        else s.trees, .sweep base envs.host⟩ := by
  cases hp : s.process <;> simp only [step, hp] at h <;> cases h
  exact ⟨_, _, _, rfl, rfl⟩

theorem step_exit {site : Site} {s t : State} (h : step site s .exit = some t) :
    t = ⟨s.trees, .idle⟩ := by
  cases hp : s.process <;> simp only [step, hp] at h <;> cases h
  · rfl
  · rfl

/-- A manual invocation begins with its run, or ends because the id is taken. -/
theorem startManual_cases (site : Site) (trees : Trees) (c : Command) :
    startManual site trees c = ⟨trees, .idle⟩ ∨
      ∃ created env t, ensureRun (imported c.env).vars c.now
          (trees (defaultDir site (imported c.env).vars)) c.protocol = .ok (created, env, t) ∧
        startManual site trees c =
          ⟨Function.update trees (defaultDir site (imported c.env).vars) t,
            .manual ⟨env, c.container⟩⟩ := by
  simp only [startManual]
  cases hensure : ensureRun (imported c.env).vars c.now
      (trees (defaultDir site (imported c.env).vars)) c.protocol with
  | error e => exact Or.inl rfl
  | ok r =>
    obtain ⟨created, env, t⟩ := r
    exact Or.inr ⟨created, env, t, rfl, rfl⟩

theorem record_cases (site : Site) (trees : Trees) (envs : Envs) (patch : Patch) :
    record site trees envs patch = trees ∨
      ∃ rid, record site trees envs patch =
        Function.update trees (defaultDir site envs.host)
          (updateManifest (trees (defaultDir site envs.host)) rid fun m => patch.apply m) := by
  simp only [record]
  cases activeRunId envs.host (trees (defaultDir site envs.host)) with
  | none => exact Or.inl rfl
  | some rid => exact Or.inr ⟨rid, rfl⟩

/-! ## Manifests -/

theorem readManifest_modify (t : OutputTree) (dest : Option String)
    (f : Measurements → Measurements) (rid : String) :
    readManifest (t.modify dest f) rid = readManifest t rid := by
  cases dest with
  | none => rfl
  | some rid' =>
    simp only [readManifest, OutputTree.modify, Dict.get?_insert]
    split_ifs with h
    · rw [h]
      cases t.runs.get? rid' with
      | none => rfl
      | some d => rfl
    · rfl

/-- Measurements do not change a manifest. -/
theorem readManifest_place (envs : Envs) (t : OutputTree) (p : Product) (rid : String) :
    readManifest (place envs t p) rid = readManifest t rid := by
  cases p with
  | row side kind timestamp cells =>
    show readManifest (writeMeasurement _ _ _ _ _ _).1 rid = _
    simp only [writeMeasurement]
    split
    · rfl
    · dsimp only
      exact readManifest_modify t _ _ rid
  | pcap name =>
    simp only [place]
    exact readManifest_modify t _ _ rid

theorem readManifest_updateManifest (t : OutputTree) (rid rid' : String)
    (patch : Manifest → Manifest) :
    readManifest (updateManifest t rid' patch) rid =
      if rid = rid' then (readManifest t rid).map patch else readManifest t rid := by
  unfold updateManifest
  cases hrun : t.runs.get? rid' with
  | none =>
    split_ifs with h
    · rw [h, readManifest, hrun]
      rfl
    · rfl
  | some d =>
    simp only [readManifest, Dict.get?_insert]
    split_ifs with h
    · rw [h, hrun]
      rfl
    · rfl

theorem marker_updateManifest (t : OutputTree) (rid : String) (patch : Manifest → Manifest) :
    (updateManifest t rid patch).marker = t.marker := by
  unfold updateManifest
  cases t.runs.get? rid with
  | none => rfl
  | some d => rfl

/-- A new run's manifest; those of other runs stay. -/
theorem readManifest_newRun {env : Env} {now : Now} {t t' : OutputTree} {protocol rid : String}
    {profile runId flow : Option String}
    (h : newRun env now t protocol profile runId flow = .ok (rid, t')) (rid' : String) :
    readManifest t' rid' =
      if rid' = rid then some (newManifest env now rid protocol profile flow)
      else readManifest t rid' := by
  simp only [newRun] at h
  split_ifs at h with hrun
  obtain ⟨rfl, rfl⟩ := Prod.mk.inj (Except.ok.inj h)
  simp only [readManifest, Dict.get?_insert]
  split_ifs with heq
  · rfl
  · rfl

/-! ## The environment of an experiment -/

/-- What an experiment publishes over `BASE_ENV`. -/
def Pair.published (p : Pair) : Env :=
  [("COMPOSE_FILE", "docker-compose.automated.yaml"), ("COMPOSE_PROFILES", p.protocol.name),
    ("NETWORK_PROFILE", p.profile),
    ("MEASUREMENT_SUFFIX", p.protocol.name ++ "_" ++ p.profile), ("RUN_ID", p.rid)]

theorem nodup_published (p : Pair) : p.published.keys.Nodup := by
  show ["COMPOSE_FILE", "COMPOSE_PROFILES", "NETWORK_PROFILE", "MEASUREMENT_SUFFIX",
    "RUN_ID"].Nodup
  decide

/-- A variable of `os.environ` in an experiment: published, or else as the runner found it. -/
theorem get?_experiment (env : Env) (base : Environ) (p : Pair) (k : String) :
    (env.update (p.env base.vars)).get? k =
      (p.published.get? k).or ((base.vars.get? k).or (env.get? k)) := by
  have hnodup : (base.vars.update p.published).keys.Nodup :=
    Dict.nodup_keys_update base.nodup p.published
  show (env.update (base.vars.update p.published)).get? k = _
  rw [Dict.get?_update env hnodup, Dict.get?_update base.vars (nodup_published p), Option.or_assoc]

theorem rid_ne_empty (p : Pair) : p.rid ≠ "" :=
  orElse_ne_empty (ne_empty_of_mem (mem_runIdFor _ _ _))

/-- An experiment goes on if its run has been created, and `run_experiment` raises
    if the run exists. -/
theorem beginExperiment_cases (site : Site) (trees : Trees) (base : Environ) (env : Env)
    (p : Pair) :
    beginExperiment site trees base env p = ⟨trees, .sweep base (env.update (p.env base.vars))⟩ ∨
      ∃ t, newRun (env.update (p.env base.vars)) p.now (trees site.output) p.protocol.name
          (some p.profile) (some p.rid) none = .ok (p.rid, t) ∧
        beginExperiment site trees base env p =
          ⟨Function.update trees site.output (writeMarker t p.rid),
            .experiment base p ⟨env.update (p.env base.vars), p.container⟩⟩ := by
  simp only [beginExperiment]
  cases hnew : newRun (env.update (p.env base.vars)) p.now (trees site.output) p.protocol.name
      (some p.profile) (some p.rid) none with
  | error e => exact Or.inl rfl
  | ok r =>
    obtain ⟨rid, t⟩ := r
    have hrid : rid = p.rid := by
      rw [(newRun_ok hnew).1, orElse_of_ne_empty (rid_ne_empty p)]
    subst hrid
    exact Or.inr ⟨t, rfl, rfl⟩

theorem activeRunId_of_runId {env : Env} {rid : String} (h : env.get? "RUN_ID" = some rid)
    (hne : strip rid ≠ "") (t : OutputTree) : activeRunId env t = some (strip rid) := by
  simp only [activeRunId, getenv, h, Option.getD_some]
  exact if_neg hne

/-- The containers' tree of a host with the sources in `/srv`. -/
def sampleSite : Site where
  resolve path := if path = "output" ∨ path = "./output" then "/srv/output" else path
  output := "/srv/output"
  resolve_output := rfl
  resolve_dotOutput := rfl

def samplePair (stamp : String) (protocol : Protocol) (profile : String) : Pair where
  now := ⟨stamp, "2026-01-01T00:00:00+00:00", none, none⟩
  protocol := protocol
  profile := profile
  runId := none
  container := []
  container_runId := rfl

end TransferTestbed.Processes
