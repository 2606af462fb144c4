import TransferTestbed.Protocols.Processes

/-!
# Measurements without a run

Everything that is written goes to the active run of its tree, and the directory is
made if it is missing. It belongs to a run with a manifest only if each process
finds an active run that its own tree records.

Results:
* `extends_step`: runs and files are never lost.
* `Sound.step`: recorded active runs, over one step.
* `filed_of_tracked`: in runs whose processes find a recorded run, everything
  written lies in one.
-/

namespace TransferTestbed.Processes

open Runs WriteCsv BenchmarkManager Invocations Transition

/-! ## The property -/

/-- `run.json` of the run names it. -/
def Recorded (t : OutputTree) (rid : String) : Prop :=
  ∃ m, readManifest t rid = some m ∧ m.runId = rid

/-- `list_runs`: the ids that have a manifest, newest first. -/
def listRuns (t : OutputTree) : List String :=
  (t.runs.keys.filter fun rid => (readManifest t rid).isSome).mergeSort fun a b => b ≤ a

/-- A product that a process writes: in a tree, for a run or in the flat directory. -/
structure Entry where
  dir : String
  dest : Option String
  product : Product

/-- Where a process writes a product. -/
def entryOf (site : Site) (s : State) (p : Product) : Option Entry :=
  s.process.envs?.map fun envs =>
    ⟨dirOf site envs p.side, destination envs (s.trees (dirOf site envs p.side)) p, p⟩

/-- A row with a run id, and every pcap, lies in a run of its tree that has a manifest
    with this id; `list_runs` has the run and `load_csv` finds the row's file. -/
def Entry.Filed (trees : Trees) (e : Entry) : Prop :=
  match e.product with
  | .row _ kind _ _ => ∀ rid, e.dest = some rid → Recorded (trees e.dir) rid ∧
      rid ∈ listRuns (trees e.dir) ∧ loadCsv (trees e.dir) rid kind.name ≠ none
  | .pcap _ => ∃ rid, e.dest = some rid ∧ Recorded (trees e.dir) rid ∧ rid ∈ listRuns (trees e.dir)

/-- In the state a run leads to, everything written on the way is filed. -/
def NoOrphans (site : Site) (s₀ : State) (es : List Event) : Prop :=
  ∀ before p after s t, es = before ++ .write p :: after → run (step site) s₀ before = some s →
    run (step site) s₀ es = some t → ∀ e, entryOf site s p = some e → e.Filed t.trees

/-- The active run of the process that starts is recorded, or created under an id
    that is resolved to itself; a sweep works on the tree it creates its runs in. -/
def Tracked (site : Site) (s : State) : Event → Prop
  | .manual c =>
    let env := (imported c.env).vars
    let t := s.trees (defaultDir site env)
    if strip (getenv env "RUN_ID" "") ≠ "" then Recorded t (strip (getenv env "RUN_ID" ""))
    else readMarker t = none → ∀ side,
      resolved side (runIdFor c.now.stamp c.protocol.name (env.get? "NETWORK_PROFILE")) =
        runIdFor c.now.stamp c.protocol.name (env.get? "NETWORK_PROFILE")
  | .sweep env => defaultDir site (imported env).vars = site.output
  | .begin p => ∀ side, resolved side p.rid = p.rid
  | _ => True

/-- Every marker names a run that its tree records. -/
def MarkersRecorded (trees : Trees) : Prop :=
  ∀ dir rid, readMarker (trees dir) = some rid → Recorded (trees dir) rid

/-- A run with a manifest is listed. -/
theorem mem_listRuns_of_readManifest {t : OutputTree} {rid : String} {m : Manifest}
    (hm : readManifest t rid = some m) : rid ∈ listRuns t := by
  rw [listRuns, List.mem_mergeSort, List.mem_filter, hm]
  refine ⟨?_, rfl⟩
  by_contra hnot
  rw [readManifest, Dict.get?_eq_none_iff.2 hnot] at hm
  cases hm

theorem mem_listRuns {t : OutputTree} {rid : String} (h : Recorded t rid) : rid ∈ listRuns t := by
  obtain ⟨m, hm, -⟩ := h
  exact mem_listRuns_of_readManifest hm

/-! ## Trees grow -/

/-- Runs stay recorded and files stay there. -/
structure Extends (t t' : OutputTree) : Prop where
  recorded : ∀ rid, Recorded t rid → Recorded t' rid
  text : ∀ rid kind, measurementText t (some rid) kind ≠ none →
    measurementText t' (some rid) kind ≠ none

theorem Extends.refl (t : OutputTree) : Extends t t := ⟨fun _ h => h, fun _ _ h => h⟩

theorem Extends.trans {t t' t'' : OutputTree} (h : Extends t t') (h' : Extends t' t'') :
    Extends t t'' :=
  ⟨fun rid hr => h'.recorded rid (h.recorded rid hr), fun rid kind ht => h'.text rid kind
    (h.text rid kind ht)⟩

theorem extends_marker (t : OutputTree) (marker : Option String) :
    Extends t { t with marker := marker } := ⟨fun _ h => h, fun _ _ h => h⟩

theorem extends_updateManifest (t : OutputTree) (rid : String) (patch : Patch) :
    Extends t (updateManifest t rid fun m => patch.apply m) := by
  constructor
  · rintro r ⟨m, hm, hid⟩
    rw [Recorded, readManifest_updateManifest]
    split_ifs with hr
    · refine ⟨patch.apply m, by rw [hm]; rfl, ?_⟩
      cases patch with
      | files sizes names => exact hid
      | qosLevels levels => exact hid
    · exact ⟨m, hm, hid⟩
  · intro r kind h
    have hsame : (updateManifest t rid fun m => patch.apply m).measurements (some r) =
        t.measurements (some r) := by
      unfold updateManifest
      cases hrun : t.runs.get? rid with
      | none => rfl
      | some d =>
        simp only [OutputTree.measurements, Dict.get?_insert]
        split_ifs with hr
        · rw [hr, hrun]
          rfl
        · rfl
    rw [measurementText, hsame]
    exact h

theorem extends_newRun {env : Env} {now : Now} {t t' : OutputTree} {protocol rid : String}
    {profile runId flow : Option String}
    (h : newRun env now t protocol profile runId flow = .ok (rid, t')) : Extends t t' := by
  obtain ⟨-, hfree, -, -, hother⟩ := newRun_ok h
  have hne {r : String} (hr : t.hasRun r) : r ≠ rid := fun heq => hfree (heq ▸ hr)
  constructor
  · rintro r ⟨m, hm, hid⟩
    have hrun : t.hasRun r := by
      rw [hasRun_iff]
      intro hnone
      rw [readManifest, hnone] at hm
      cases hm
    exact ⟨m, by rw [readManifest_newRun h, if_neg (hne hrun), hm], hid⟩
  · intro r kind htext
    have hrun : t.hasRun r := by
      rw [hasRun_iff]
      intro hnone
      rw [measurementText, OutputTree.measurements, hnone] at htext
      exact htext rfl
    rw [measurementText, hother (some r) fun heq => hne hrun (Option.some.inj heq)]
    exact htext

/-- A CSV text that is there is not removed by new texts and pcaps. -/
theorem measurementText_modify {t : OutputTree} (dest : Option String)
    {f : Measurements → Measurements} {kind : String}
    (hf : ∀ m, m.csv.get? kind ≠ none → (f m).csv.get? kind ≠ none) {rid : String}
    (h : measurementText t (some rid) kind ≠ none) :
    measurementText (t.modify dest f) (some rid) kind ≠ none := by
  by_cases hdest : some rid = dest
  · subst hdest
    rw [measurementText, measurements_modify_self, Option.bind_some]
    apply hf
    rw [measurementText] at h
    cases hm : t.measurements (some rid) with
    | none =>
      rw [hm] at h
      exact absurd rfl h
    | some m =>
      rw [hm] at h
      exact h
  · rw [measurementText, measurements_modify_of_ne t hdest]
    exact h

theorem extends_place (envs : Envs) (t : OutputTree) (p : Product) :
    Extends t (place envs t p) := by
  constructor
  · rintro rid ⟨m, hm, hid⟩
    exact ⟨m, by rw [readManifest_place, hm], hid⟩
  · intro rid kind h
    cases p with
    | row side k timestamp cells =>
      show measurementText (writeMeasurement k.name k.fieldnames (envs.of side) timestamp t
        [cells]).1 (some rid) kind ≠ none
      simp only [writeMeasurement]
      split
      · exact h
      · dsimp only
        refine measurementText_modify _ (fun m hm => ?_) h
        rw [Dict.get?_insert]
        split_ifs
        · simp
        · exact hm
    | pcap name =>
      have hkeep : ∀ m : Measurements, m.csv.get? kind ≠ none →
          ({ m with pcap := m.pcap ++ [name] } : Measurements).csv.get? kind ≠ none :=
        fun m hm => hm
      simp only [place]
      exact measurementText_modify (activeRunId envs.host t) hkeep h

theorem extends_update {trees : Trees} {dir : String} {t : OutputTree} (h : Extends (trees dir) t)
    (d : String) : Extends (trees d) (Function.update trees dir t d) := by
  by_cases hd : d = dir
  · subst hd
    rwa [Function.update_self]
  · rw [Function.update_of_ne hd]
    exact Extends.refl _

theorem ensureRun_cases {env env' : Env} {now : Now} {t t' : OutputTree} {protocol : Protocol}
    {created : Option String} (h : ensureRun env now t protocol = .ok (created, env', t')) :
    (∃ rid, activeRunId env t = some rid) ∧ env' = env ∧ t' = t ∨
      ∃ rid t₁, activeRunId env t = none ∧
        newRun env now t protocol.name (env.get? "NETWORK_PROFILE") none (some "manual") =
          .ok (rid, t₁) ∧ env' = env.insert "RUN_ID" rid ∧ t' = writeMarker t₁ rid := by
  unfold ensureRun at h
  cases hactive : activeRunId env t with
  | some rid =>
    simp only [hactive] at h
    cases h
    exact Or.inl ⟨⟨rid, rfl⟩, rfl, rfl⟩
  | none =>
    simp only [hactive] at h
    cases hnew : newRun env now t protocol.name (env.get? "NETWORK_PROFILE") none
        (some "manual") with
    | error e =>
      rw [hnew] at h
      cases h
    | ok r =>
      obtain ⟨rid, t₁⟩ := r
      rw [hnew] at h
      cases h
      exact Or.inr ⟨rid, t₁, rfl, rfl, rfl, rfl⟩

/-- **Runs and files are never lost**, in any tree and by any step. -/
theorem extends_step {site : Site} {s t : State} {e : Event} (h : step site s e = some t)
    (dir : String) : Extends (s.trees dir) (t.trees dir) := by
  cases e with
  | manual c =>
    obtain ⟨-, ht⟩ := step_manual h
    rw [ht]
    rcases startManual_cases site s.trees c with heq | ⟨created, env, t, hensure, heq⟩
    · rw [heq]
      exact Extends.refl _
    · rw [heq]
      refine extends_update ?_ dir
      rcases ensureRun_cases hensure with ⟨-, -, rfl⟩ | ⟨rid, t₁, -, hnew, -, rfl⟩
      · exact Extends.refl _
      · exact (extends_newRun hnew).trans (extends_marker t₁ _)
  | sweep env =>
    obtain ⟨-, rfl⟩ := step_sweep h
    exact Extends.refl _
  | begin p =>
    obtain ⟨base, env, -, rfl⟩ := step_begin h
    rcases beginExperiment_cases site s.trees base env p with heq | ⟨t, hnew, heq⟩
    · rw [heq]
      exact Extends.refl _
    · rw [heq]
      exact extends_update ((extends_newRun hnew).trans (extends_marker t _)) dir
  | record patch =>
    obtain ⟨envs, -, rfl⟩ := step_record h
    dsimp only
    rcases record_cases site s.trees envs patch with heq | ⟨rid, heq⟩
    · rw [heq]
      exact Extends.refl _
    · rw [heq]
      exact extends_update (extends_updateManifest _ _ patch) dir
  | transfer filename qos =>
    obtain ⟨rfl, -⟩ := step_transfer h
    exact Extends.refl _
  | write p =>
    obtain ⟨envs, -, rfl⟩ := step_write h
    exact extends_update (extends_place envs _ p) dir
  | finish down =>
    obtain ⟨_, _, _, -, rfl⟩ := step_finish h
    dsimp only
    split_ifs
    · exact extends_update (extends_marker _ _) dir
    · exact Extends.refl _
  | exit =>
    obtain rfl := step_exit h
    exact Extends.refl _

theorem extends_run {site : Site} {s t : State} (es : List Event)
    (h : run (step site) s es = some t) (dir : String) : Extends (s.trees dir) (t.trees dir) := by
  induction es generalizing s with
  | nil =>
    cases h
    exact Extends.refl _
  | cons e es ih =>
    obtain ⟨u, hu, h⟩ := run_cons_eq_some.1 h
    exact (extends_step hu dir).trans (ih h)

/-! ## Active runs -/

/-- The host's active run is recorded in the host's tree, and the containers have no
    other one than the marker's. -/
structure Active (site : Site) (trees : Trees) (envs : Envs) : Prop where
  host : ∃ rid, activeRunId envs.host (trees (defaultDir site envs.host)) = some rid ∧
    Recorded (trees (defaultDir site envs.host)) rid
  container_runId : envs.container.get? "RUN_ID" = none

structure Sound (site : Site) (s : State) : Prop where
  markers : MarkersRecorded s.trees
  active : ∀ envs, s.process.envs? = some envs → Active site s.trees envs
  /-- What a sweep publishes leaves its tree. -/
  base : ∀ base, s.process.base? = some base →
    ∃ dir, base.vars.get? "OUTPUT_DIR" = some dir ∧ site.resolve dir = site.output

/-- Steps that leave the markers and the process. -/
theorem Sound.congr {site : Site} {s : State} {trees' : Trees} (h : Sound site s)
    (hmarker : ∀ dir, (trees' dir).marker = (s.trees dir).marker)
    (hextends : ∀ dir, Extends (s.trees dir) (trees' dir)) : Sound site ⟨trees', s.process⟩ where
  markers dir rid hrid := by
    have hsame : readMarker (trees' dir) = readMarker (s.trees dir) := by
      rw [readMarker, readMarker, hmarker]
    exact (hextends dir).recorded rid (h.markers dir rid (hsame ▸ hrid))
  active envs henvs := by
    obtain ⟨⟨rid, hactive, hrecorded⟩, hcontainer⟩ := h.active envs henvs
    refine ⟨⟨rid, ?_, (hextends _).recorded rid hrecorded⟩, hcontainer⟩
    rw [activeRunId_congr (hmarker _), hactive]
  base := h.base

theorem marker_update {trees : Trees} {dir : String} {t : OutputTree}
    (h : t.marker = (trees dir).marker) (d : String) :
    (Function.update trees dir t d).marker = (trees d).marker := by
  by_cases hd : d = dir
  · subst hd
    rw [Function.update_self, h]
  · rw [Function.update_of_ne hd]

/-- A new run, with its marker: its id is what the host reads, and what the marker gives. -/
theorem recorded_newRun {env : Env} {now : Now} {t t' : OutputTree} {protocol rid : String}
    {profile runId flow : Option String}
    (h : newRun env now t protocol profile runId flow = .ok (rid, t')) :
    Recorded (writeMarker t' rid) rid := by
  refine ⟨newManifest env now rid protocol profile flow, ?_, rfl⟩
  show readManifest t' rid = _
  rw [readManifest_newRun h, if_pos rfl]

theorem readMarker_writeMarker {t : OutputTree} {rid : String} (h : resolved .container rid = rid)
    (hne : rid ≠ "") : readMarker (writeMarker t rid) = some rid := by
  have hmarker : strip (String.ofList (universalNewlines rid.toList)) = rid := h
  simp only [readMarker, writeMarker, hmarker]
  exact if_neg hne

theorem markersRecorded_update {trees : Trees} {dir rid : String} {t : OutputTree}
    (h : MarkersRecorded trees) (hmarker : readMarker t = some rid) (hrecorded : Recorded t rid) :
    MarkersRecorded (Function.update trees dir t) := by
  intro d r hr
  by_cases hd : d = dir
  · subst hd
    rw [Function.update_self] at hr ⊢
    rw [hmarker] at hr
    obtain rfl := Option.some.inj hr
    exact hrecorded
  · rw [Function.update_of_ne hd] at hr ⊢
    exact h d r hr

theorem defaultDir_of_get? {site : Site} {env : Env} {dir : String}
    (h : env.get? "OUTPUT_DIR" = some dir) : defaultDir site env = site.resolve dir := by
  rw [defaultDir, getenv, h]
  rfl

/-- A host that has just created its run. -/
theorem active_created {site : Site} {trees : Trees} {env : Env} {container : Env} {rid : String}
    {t : OutputTree} (hcontainer : container.get? "RUN_ID" = none)
    (hrunId : env.get? "RUN_ID" = some rid) (hresolved : resolved .host rid = rid) (hne : rid ≠ "")
    (hrecorded : Recorded t rid) :
    Active site (Function.update trees (defaultDir site env) t) ⟨env, container⟩ := by
  have hstrip : strip rid = rid := hresolved
  refine ⟨⟨rid, ?_, ?_⟩, hcontainer⟩
  · rw [activeRunId_of_runId hrunId (by rwa [hstrip]), hstrip]
  · rw [Function.update_self]
    exact hrecorded

theorem sound_idle (site : Site) {trees : Trees} (h : MarkersRecorded trees) :
    Sound site ⟨trees, .idle⟩ where
  markers := h
  active _ henvs := absurd henvs (by simp [Process.envs?])
  base _ hbase := absurd hbase (by simp [Process.base?])

/-- The manual CLI finds a recorded run or creates one. -/
theorem Sound.manual {site : Site} {s : State} (h : Sound site s) {c : Command}
    (htracked : Tracked site s (.manual c)) : Sound site (startManual site s.trees c) := by
  rcases startManual_cases site s.trees c with heq | ⟨created, env, t, hensure, heq⟩
  · rw [heq]
    exact sound_idle site h.markers
  rw [heq]
  simp only [Tracked] at htracked
  rcases ensureRun_cases hensure with ⟨⟨rid, hactive⟩, rfl, rfl⟩ | ⟨rid, t₁, hnone, hnew, rfl, rfl⟩
  · -- the run is active already
    rw [Function.update_eq_self]
    refine ⟨h.markers, ?_, fun _ hbase => absurd hbase (by simp [Process.base?])⟩
    intro envs henvs
    obtain rfl := Option.some.inj henvs
    refine ⟨⟨rid, hactive, ?_⟩, c.container_runId⟩
    rw [activeRunId] at hactive
    by_cases hblank : strip (getenv (imported c.env).vars "RUN_ID" "") = ""
    · rw [if_pos hblank] at hactive
      exact h.markers _ rid hactive
    · rw [if_neg hblank] at hactive
      rw [if_pos hblank] at htracked
      exact Option.some.inj hactive ▸ htracked
  · -- the run is new
    obtain ⟨hblank, hmarker⟩ : strip (getenv (imported c.env).vars "RUN_ID" "") = "" ∧
        readMarker (s.trees (defaultDir site (imported c.env).vars)) = none := by
      rw [activeRunId] at hnone
      split_ifs at hnone with hblank
      · exact ⟨hblank, hnone⟩
    rw [if_neg (not_not.2 hblank)] at htracked
    have hresolved := htracked hmarker
    have hrid : rid = runIdFor c.now.stamp c.protocol.name
        ((imported c.env).vars.get? "NETWORK_PROFILE") := (newRun_ok hnew).1
    rw [← hrid] at hresolved
    have hne : rid ≠ "" := by
      rw [hrid]
      exact ne_empty_of_mem (mem_runIdFor _ _ _)
    have hrecorded := recorded_newRun hnew
    have hdir : defaultDir site ((imported c.env).vars.insert "RUN_ID" rid) =
        defaultDir site (imported c.env).vars := by
      rw [defaultDir, defaultDir, getenv, getenv, Dict.get?_insert, if_neg (by decide)]
    refine ⟨markersRecorded_update h.markers (readMarker_writeMarker (hresolved .container) hne)
      hrecorded, ?_, fun _ hbase => absurd hbase (by simp [Process.base?])⟩
    intro envs henvs
    obtain rfl := Option.some.inj henvs
    rw [← hdir]
    exact active_created c.container_runId (by rw [Dict.get?_insert, if_pos rfl]) (hresolved .host)
      hne hrecorded

/-- An experiment creates its run in the tree that the host works on. -/
theorem Sound.begin {site : Site} {s : State} (h : Sound site s) {base : Environ} {env : Env}
    (hprocess : s.process = .sweep base env) {p : Pair} (htracked : Tracked site s (.begin p)) :
    Sound site (beginExperiment site s.trees base env p) := by
  have hbase : ∃ dir, base.vars.get? "OUTPUT_DIR" = some dir ∧ site.resolve dir = site.output :=
    h.base base (by rw [hprocess]; rfl)
  rcases beginExperiment_cases site s.trees base env p with heq | ⟨t, hnew, heq⟩
  · rw [heq]
    refine ⟨h.markers, fun _ henvs => absurd henvs (by simp [Process.envs?]), ?_⟩
    intro base' hbase'
    obtain rfl := Option.some.inj hbase'
    exact hbase
  · rw [heq]
    have hrecorded := recorded_newRun hnew
    have hvar := get?_experiment env base p
    have hdir : defaultDir site (env.update (p.env base.vars)) = site.output := by
      obtain ⟨dir, hget, hresolve⟩ := hbase
      have houtput : (env.update (p.env base.vars)).get? "OUTPUT_DIR" = some dir := by
        rw [hvar, hget]
        rfl
      rw [defaultDir_of_get? houtput, hresolve]
    refine ⟨markersRecorded_update h.markers
      (readMarker_writeMarker (htracked .container) (rid_ne_empty p)) hrecorded, ?_, ?_⟩
    · intro envs henvs
      obtain rfl := Option.some.inj henvs
      rw [← hdir]
      exact active_created p.container_runId (hvar "RUN_ID") (htracked .host) (rid_ne_empty p)
        hrecorded
    · intro base' hbase'
      obtain rfl := Option.some.inj hbase'
      exact hbase

/-- **One step**: active runs are recorded. -/
theorem Sound.step {site : Site} {s t : State} {e : Event} (h : Sound site s)
    (htracked : Tracked site s e) (hstep : Processes.step site s e = some t) : Sound site t := by
  have hextends := extends_step hstep
  cases e with
  | manual c =>
    obtain ⟨-, ht⟩ := step_manual hstep
    have hsound := h.manual htracked
    rwa [← ht] at hsound
  | sweep env =>
    obtain ⟨-, rfl⟩ := step_sweep hstep
    refine ⟨h.markers, fun _ henvs => absurd henvs (by simp [Process.envs?]), ?_⟩
    intro base hbase
    obtain rfl := Option.some.inj hbase
    obtain ⟨dir, hdir⟩ := outputDir_imported env
    exact ⟨dir, hdir, (defaultDir_of_get? hdir).symm.trans htracked⟩
  | begin p =>
    obtain ⟨base, env, hprocess, rfl⟩ := step_begin hstep
    exact h.begin hprocess htracked
  | record patch =>
    obtain ⟨envs, henvs, rfl⟩ := step_record hstep
    dsimp only at hextends
    refine h.congr (fun dir => ?_) hextends
    rcases record_cases site s.trees envs patch with heq | ⟨rid, heq⟩
    · rw [heq]
    · rw [heq]
      exact marker_update (marker_updateManifest _ _ _) dir
  | transfer filename qos =>
    obtain ⟨rfl, -⟩ := step_transfer hstep
    exact h
  | write p =>
    obtain ⟨envs, henvs, rfl⟩ := step_write hstep
    exact h.congr (marker_update (marker_place envs _ p)) hextends
  | finish down =>
    obtain ⟨base, p, envs, hprocess, rfl⟩ := step_finish hstep
    refine ⟨?_, fun _ henvs => absurd henvs (by simp [Process.envs?]), ?_⟩
    · intro dir rid hrid
      refine (hextends dir).recorded rid (h.markers dir rid ?_)
      -- a cleared marker names no run
      cases down with
      | false => exact hrid
      | true =>
        by_cases hdir : dir = site.output
        · subst hdir
          simp [readMarker, clearMarker] at hrid
        · simpa [Function.update_of_ne hdir] using hrid
    · intro base' hbase
      obtain rfl := Option.some.inj hbase
      exact h.base base (by rw [hprocess]; rfl)
  | exit =>
    obtain rfl := step_exit hstep
    exact sound_idle site h.markers

/-! ## Runs -/

theorem loadCsv_ne_none_iff {t : OutputTree} {rid kind : String} :
    loadCsv t rid kind ≠ none ↔ measurementText t (some rid) kind ≠ none := by
  have heq : loadCsv t rid kind = (measurementText t (some rid) kind).map Csv.readDicts := rfl
  rw [heq, Ne, Option.map_eq_none_iff]

/-- A row's file is there once the row has been written. -/
theorem loadCsv_place {envs : Envs} {t : OutputTree} {side : Side} {kind : Kind}
    {timestamp : String} {cells : Row} {rid : String}
    (h : activeRunId (envs.of side) t = some rid) :
    loadCsv (place envs t (.row side kind timestamp cells)) rid kind.name ≠ none := by
  have htext := measurementText_writeMeasurement kind.name kind.fieldnames (envs.of side) timestamp
    t [cells]
  rw [h, writeToCsv, if_neg (by simp)] at htext
  rw [loadCsv_ne_none_iff]
  show measurementText (writeMeasurement kind.name kind.fieldnames (envs.of side) timestamp t
    [cells]).1 (some rid) kind.name ≠ none
  rw [htext]
  simp

/-- A row goes to a recorded run if it goes to a run. -/
theorem Active.recorded {site : Site} {s : State} {envs : Envs} (h : Sound site s)
    (hactive : Active site s.trees envs) {side : Side} {rid : String}
    (hrid : activeRunId (envs.of side) (s.trees (dirOf site envs side)) = some rid) :
    Recorded (s.trees (dirOf site envs side)) rid := by
  obtain ⟨⟨r, hhost, hrecorded⟩, hcontainer⟩ := hactive
  cases side with
  | host =>
    have hsame : some r = some rid := by rw [← hhost, ← hrid]; rfl
    exact Option.some.inj hsame ▸ hrecorded
  | container =>
    have hmarker : readMarker (s.trees site.output) = some rid := by
      rw [← activeRunId_of_unset hcontainer]
      exact hrid
    exact h.markers site.output rid hmarker

/-- What a process with a recorded active run writes is filed. -/
theorem filed_of_sound {site : Site} {s t : State} (h : Sound site s) {p : Product}
    (hstep : step site s (.write p) = some t) {e : Entry} (he : entryOf site s p = some e) :
    e.Filed t.trees := by
  have hextends := extends_step hstep
  obtain ⟨envs, henvs, rfl⟩ := step_write hstep
  rw [entryOf, henvs, Option.map_some, Option.some.injEq] at he
  rw [← he]
  have hactive := h.active envs henvs
  cases p with
  | pcap name =>
    obtain ⟨⟨rid, hhost, hrecorded⟩, -⟩ := hactive
    have hgrown := (hextends (defaultDir site envs.host)).recorded rid hrecorded
    refine ⟨rid, ?_, hgrown, mem_listRuns hgrown⟩
    simp only [destination, Product.side, dirOf]
    exact hhost
  | row side kind timestamp cells =>
    intro r hrid
    simp only [destination, Product.side] at hrid
    have hgrown := (hextends (dirOf site envs side)).recorded r (hactive.recorded h hrid)
    refine ⟨hgrown, mem_listRuns hgrown, ?_⟩
    show loadCsv (Function.update s.trees (dirOf site envs side) _ (dirOf site envs side)) r
      kind.name ≠ none
    rw [Function.update_self]
    exact loadCsv_place hrid

theorem Entry.Filed.extends {trees trees' : Trees} {e : Entry} (h : e.Filed trees)
    (hextends : ∀ dir, Extends (trees dir) (trees' dir)) : e.Filed trees' := by
  obtain ⟨dir, dest, product⟩ := e
  cases product with
  | pcap name =>
    obtain ⟨rid, hdest, hrecorded, -⟩ := h
    have hgrown := (hextends dir).recorded rid hrecorded
    exact ⟨rid, hdest, hgrown, mem_listRuns hgrown⟩
  | row side kind timestamp cells =>
    intro rid hdest
    obtain ⟨hrecorded, -, hcsv⟩ := h rid hdest
    have hgrown := (hextends dir).recorded rid hrecorded
    rw [loadCsv_ne_none_iff] at hcsv
    exact ⟨hgrown, mem_listRuns hgrown, loadCsv_ne_none_iff.2
      ((hextends dir).text rid kind.name hcsv)⟩

/-- **No orphan measurements** in any run of manual invocations and sweeps that starts
    with recorded markers and whose processes find a recorded run or create theirs
    under an id that is resolved to itself, sweeps in the tree they work on. -/
theorem filed_of_tracked (site : Site) (s₀ : State) (hidle : s₀.process = .idle)
    (hmarkers : MarkersRecorded s₀.trees) (es : List Event)
    (htracked : Along (step site) (Tracked site) s₀ es) : NoOrphans site s₀ es := by
  intro before p after s t hes hbefore hrun e he
  have hstart : Sound site s₀ := by
    obtain ⟨trees, process⟩ := s₀
    obtain rfl : process = .idle := hidle
    exact sound_idle site hmarkers
  subst hes
  obtain ⟨s', hs', hafter⟩ := run_append_eq_some.1 hrun
  obtain rfl : s' = s := Option.some.inj (hs'.symm.trans hbefore)
  obtain ⟨u, hwrite, hrest⟩ := run_cons_eq_some.1 hafter
  have hsound : Sound site s' :=
    run_invariant_along (I := Sound site) (fun _ _ _ h ht hstep => h.step ht hstep) before hstart
      (along_of_append htracked) hbefore
  exact (filed_of_sound hsound hwrite he).extends (extends_run after hrest)

def sampleCommand : Command where
  now := ⟨"20260101T000000", "2026-01-01T00:00:00+00:00", none, none⟩
  protocol := .http
  env := ⟨[], List.nodup_nil⟩
  container := []
  container_runId := Dict.get?_nil "RUN_ID"

/-- A manual invocation and a sweep. -/
def sampleHistory : List Event :=
  [.manual sampleCommand, .write (.pcap "http_a.bin.pcap"), .exit, .sweep ⟨[], List.nodup_nil⟩,
    .begin (samplePair "20260101T000100" .coap "mobile"), .write (.pcap "coap_a.bin.pcap")]

theorem filed_of_tracked_history :
    Along (step sampleSite) (Tracked sampleSite) ⟨fun _ => emptyTree, .idle⟩ sampleHistory ∧
      NoOrphans sampleSite ⟨fun _ => emptyTree, .idle⟩ sampleHistory := by
  have hmarkers : MarkersRecorded fun _ => emptyTree := by
    intro dir rid h
    cases h
  have hmanual : Tracked sampleSite ⟨fun _ => emptyTree, .idle⟩ (.manual sampleCommand) := by
    intro _ side
    cases side <;> decide +kernel
  have hbegin (s : State) :
      Tracked sampleSite s (.begin (samplePair "20260101T000100" .coap "mobile")) := by
    intro side
    cases side <;> decide +kernel
  have htracked : Along (step sampleSite) (Tracked sampleSite) ⟨fun _ => emptyTree, .idle⟩
      sampleHistory :=
    ⟨hmanual, fun _ _ => ⟨trivial, fun _ _ => ⟨trivial, fun _ _ => ⟨rfl, fun _ _ =>
      ⟨hbegin _, fun _ _ => ⟨trivial, fun _ _ => trivial⟩⟩⟩⟩⟩⟩
  exact ⟨htracked, filed_of_tracked sampleSite _ rfl hmarkers sampleHistory htracked⟩

/-- A sweep with `OUTPUT_DIR` set to another directory: the run is created in `output`,
    and the pcap is copied to a directory without a manifest. -/
def elsewhere : List Event :=
  [.sweep ⟨[("OUTPUT_DIR", "/data/results")], List.nodup_singleton _⟩,
    .begin (samplePair "20260101T000000" .http "mobile")]

theorem not_noOrphans_elsewhere :
    ¬ NoOrphans sampleSite ⟨fun _ => emptyTree, .idle⟩
      (elsewhere ++ [.write (.pcap "http_a.bin.pcap")]) := by
  intro h
  obtain ⟨s, hs, envs, henvs, hdir, htree⟩ : ∃ s,
      run (step sampleSite) ⟨fun _ => emptyTree, .idle⟩ elsewhere = some s ∧
      ∃ envs, s.process.envs? = some envs ∧
        defaultDir sampleSite envs.host = "/data/results" ∧ s.trees "/data/results" = emptyTree :=
    ⟨_, rfl, _, rfl, rfl, rfl⟩
  have hstep : step sampleSite s (.write (.pcap "http_a.bin.pcap")) =
      some ⟨write sampleSite s.trees envs (.pcap "http_a.bin.pcap"), s.process⟩ := by
    rw [step, henvs]
    rfl
  have hrun := run_concat_eq_some.2 ⟨s, hs, hstep⟩
  obtain ⟨rid, -, ⟨m, hm, -⟩, -⟩ := h elsewhere _ [] s _ rfl hs hrun _
    (by rw [entryOf, henvs]; rfl)
  have hwritten : readManifest (write sampleSite s.trees envs (.pcap "http_a.bin.pcap")
      (dirOf sampleSite envs .host)) rid = some m := hm
  have hempty : s.trees (dirOf sampleSite envs .host) = emptyTree := by
    rw [dirOf, hdir, htree]
  rw [write, Product.side, Function.update_self, readManifest_place, hempty] at hwritten
  cases hwritten

end TransferTestbed.Processes
