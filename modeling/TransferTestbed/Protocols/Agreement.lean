import TransferTestbed.Protocols.Processes

/-!
# Host and containers agree on the experiment

In a sweep with generated run ids, whatever raises and wherever: as long as an
experiment has not been finished, the host's `RUN_ID`, the marker that the
containers read, the manifest and the published variables are those of this
experiment.

Results:
* `resolved_rid`: generated ids are resolved to themselves.
* `Agreed.step`: what one step does to an experiment that goes on.
* `agrees_at_transfer`: agreement at every transfer of every run.
-/

namespace TransferTestbed.Processes

open Runs WriteCsv BenchmarkManager Invocations Transition

/-! ## Generated ids -/

/-- `strftime("%Y%m%dT%H%M%S")` gives digits and a `T`. -/
def IsStamp (stamp : String) : Prop := ∀ c ∈ stamp.toList, c.isDigit = true ∨ c = 'T'

instance : DecidablePred IsStamp := fun stamp =>
  inferInstanceAs (Decidable (∀ c ∈ stamp.toList, _))

/-- The profiles that `network_chaos.sh` accepts; the empty one is `iot`. -/
def acceptedProfiles : List String := ["", "good", "iot", "harsh", "mobile", "satellite"]

/-- Sweeps without `--run-id` and with accepted profiles. -/
def Generated : Event → Prop
  | .begin p => p.runId = none ∧ IsStamp p.now.stamp ∧ p.profile ∈ acceptedProfiles
  | _ => True

theorem isSpace_stamp {stamp : String} (h : IsStamp stamp) {c : Char} (hc : c ∈ stamp.toList) :
    isSpace c = false := by
  rcases h c hc with hdigit | rfl
  · have hbounds : 48 ≤ c.toNat ∧ c.toNat ≤ 57 := by
      simpa [Char.isDigit, UInt32.le_iff_toNat_le] using hdigit
    simp only [isSpace, Bool.or_eq_false_iff, Bool.and_eq_false_iff, decide_eq_false_iff_not]
    omega
  · decide

/-- No space in the name of a protocol, in a separator and in an accepted profile. -/
theorem isSpace_name {protocol : Protocol} {profile : String} (h : profile ∈ acceptedProfiles) :
    ∀ c ∈ protocol.name.toList ++ '_' :: profile.toList, isSpace c = false := by
  have hall : ((protocol.name.toList ++ '_' :: profile.toList).all fun c => !isSpace c) = true := by
    simp only [acceptedProfiles, List.mem_cons, List.not_mem_nil, or_false] at h
    rcases h with rfl | rfl | rfl | rfl | rfl | rfl
    all_goals cases protocol <;> decide +kernel
  intro c hc
  simpa using List.all_eq_true.1 hall c hc

/-- The id of a pair of a sweep without `--run-id`. -/
theorem rid_eq {p : Pair} (h : p.runId = none) :
    p.rid = runIdFor p.now.stamp p.protocol.name (some p.profile) := by
  show orElse p.runId _ = _
  rw [h]
  rfl

theorem isSpace_rid {p : Pair} (h : Generated (.begin p)) :
    ∀ c ∈ p.rid.toList, isSpace c = false := by
  obtain ⟨hrun, hstamp, hprofile⟩ := h
  have hname := @isSpace_name p.protocol _ hprofile
  intro c hc
  rw [rid_eq hrun, runIdFor] at hc
  have hparts : c ∈ p.now.stamp.toList ∨ c = '_' ∨
      c ∈ p.protocol.name.toList ++ '_' :: p.profile.toList := by
    split_ifs at hc with hempty
    · simp only [String.toList_append, List.mem_append] at hc ⊢
      rcases hc with (hc | hc) | hc
      · exact Or.inl hc
      · exact Or.inr (Or.inl (by simpa using hc))
      · exact Or.inr (Or.inr (Or.inl hc))
    · simp only [String.toList_append, List.mem_append, List.mem_cons] at hc ⊢
      rcases hc with (((hc | hc) | hc) | hc) | hc
      · exact Or.inl hc
      · exact Or.inr (Or.inl (by simpa using hc))
      · exact Or.inr (Or.inr (Or.inl hc))
      · exact Or.inr (Or.inl (by simpa using hc))
      · exact Or.inr (Or.inr (Or.inr (Or.inr hc)))
  rcases hparts with hc | rfl | hc
  · exact isSpace_stamp hstamp hc
  · decide
  · exact hname c hc

/-- Generated ids are resolved to themselves. -/
theorem resolved_rid {p : Pair} (h : Generated (.begin p)) (side : Side) :
    resolved side p.rid = p.rid := by
  have hspace := isSpace_rid h
  cases side with
  | host => exact strip_eq_self hspace
  | container =>
    have hcr : ∀ c ∈ p.rid.toList, c ≠ Csv.cr := by
      rintro c hc rfl
      exact absurd (hspace _ hc) (by decide)
    show strip (String.ofList (universalNewlines p.rid.toList)) = p.rid
    rw [universalNewlines_eq_self hcr, String.ofList_toList]
    exact strip_eq_self hspace

/-! ## Agreement -/

/-- The manifest of the pair's run. -/
structure Describes (m : Manifest) (p : Pair) : Prop where
  runId : m.runId = p.rid
  protocol : m.protocol = p.protocol.name
  networkProfile : m.networkProfile = p.profile
  envNetworkProfile : m.env.get? "NETWORK_PROFILE" = some p.profile
  envMeasurementSuffix :
    m.env.get? "MEASUREMENT_SUFFIX" = some (p.protocol.name ++ "_" ++ p.profile)

/-- Host and containers agree on the experiment of a pair. -/
structure Agrees (site : Site) (trees : Trees) (envs : Envs) (p : Pair) : Prop where
  host : activeRunId envs.host (trees (defaultDir site envs.host)) = some p.rid
  container : activeRunId envs.container (trees site.output) = some p.rid
  manifest : ∃ m, readManifest (trees site.output) p.rid = some m ∧ Describes m p
  runId : envs.host.get? "RUN_ID" = some p.rid
  networkProfile : envs.host.get? "NETWORK_PROFILE" = some p.profile
  measurementSuffix :
    envs.host.get? "MEASUREMENT_SUFFIX" = some (p.protocol.name ++ "_" ++ p.profile)
  composeProfiles : envs.host.get? "COMPOSE_PROFILES" = some p.protocol.name

/-- Agreement rests on the marker and the manifest of the containers' tree. -/
theorem Agrees.congr {site : Site} {trees trees' : Trees} {envs : Envs} {p : Pair}
    (h : Agrees site trees envs p) (hmarker : ∀ dir, (trees' dir).marker = (trees dir).marker)
    (hmanifest : ∀ m, readManifest (trees site.output) p.rid = some m → Describes m p →
      ∃ m', readManifest (trees' site.output) p.rid = some m' ∧ Describes m' p) :
    Agrees site trees' envs p where
  host := by rw [activeRunId_congr (hmarker _), h.host]
  container := by rw [activeRunId_congr (hmarker _), h.container]
  manifest := by
    obtain ⟨m, hm, hdescribes⟩ := h.manifest
    exact hmanifest m hm hdescribes
  runId := h.runId
  networkProfile := h.networkProfile
  measurementSuffix := h.measurementSuffix
  composeProfiles := h.composeProfiles

theorem Describes.apply {m : Manifest} {p : Pair} (h : Describes m p) (patch : Patch) :
    Describes (patch.apply m) p := by
  cases patch with
  | files sizes names =>
    exact ⟨h.runId, h.protocol, h.networkProfile, h.envNetworkProfile, h.envMeasurementSuffix⟩
  | qosLevels levels =>
    exact ⟨h.runId, h.protocol, h.networkProfile, h.envNetworkProfile, h.envMeasurementSuffix⟩

theorem Agrees.record {site : Site} {trees : Trees} {envs : Envs} {p : Pair}
    (h : Agrees site trees envs p) (patch : Patch) :
    Agrees site (record site trees envs patch) envs p := by
  simp only [Processes.record, h.host]
  refine h.congr (fun dir => ?_) fun m hm hdescribes => ?_
  · by_cases hdir : dir = defaultDir site envs.host
    · rw [hdir, Function.update_self, marker_updateManifest]
    · rw [Function.update_of_ne hdir]
  · by_cases hdir : site.output = defaultDir site envs.host
    · refine ⟨patch.apply m, ?_, hdescribes.apply patch⟩
      rw [hdir] at hm ⊢
      rw [Function.update_self, readManifest_updateManifest, if_pos rfl, hm]
      rfl
    · exact ⟨m, by rw [Function.update_of_ne hdir, hm], hdescribes⟩

theorem Agrees.write {site : Site} {trees : Trees} {envs : Envs} {p : Pair}
    (h : Agrees site trees envs p) (product : Product) :
    Agrees site (write site trees envs product) envs p := by
  unfold Processes.write
  refine h.congr (fun dir => ?_) fun m hm hdescribes => ⟨m, ?_, hdescribes⟩
  · by_cases hdir : dir = dirOf site envs product.side
    · rw [hdir, Function.update_self, marker_place]
    · rw [Function.update_of_ne hdir]
  · by_cases hdir : site.output = dirOf site envs product.side
    · rw [hdir] at hm ⊢
      rw [Function.update_self, readManifest_place, hm]
    · rw [Function.update_of_ne hdir, hm]

/-! ## Steps -/

theorem get?_newManifest (env : Env) (now : Now) (rid protocol : String)
    (profile flow : Option String) {k : String} (hk : k ∈ manifestEnvKeys) :
    (newManifest env now rid protocol profile flow).env.get? k = some (getenv env k "") :=
  Dict.get?_map_pair (fun key => getenv env key "") hk

/-- A manifest written in the published environment. -/
theorem describes_newManifest {env : Env} {p : Pair}
    (hprofile : env.get? "NETWORK_PROFILE" = some p.profile)
    (hsuffix : env.get? "MEASUREMENT_SUFFIX" = some (p.protocol.name ++ "_" ++ p.profile)) :
    Describes (newManifest env p.now p.rid p.protocol.name (some p.profile) none) p where
  runId := rfl
  protocol := rfl
  networkProfile := by
    have hgetenv : getenv env "NETWORK_PROFILE" "" = p.profile := by rw [getenv, hprofile]; rfl
    simp only [newManifest, orElse, hgetenv]
    exact ite_self _
  envNetworkProfile := by
    rw [get?_newManifest _ _ _ _ _ _ (by simp [manifestEnvKeys]), getenv, hprofile]
    rfl
  envMeasurementSuffix := by
    rw [get?_newManifest _ _ _ _ _ _ (by simp [manifestEnvKeys]), getenv, hsuffix]
    rfl

/-- A run created in an environment that has the pair's variables, and its marker. -/
theorem agrees_created {site : Site} {trees : Trees} {env : Env} {p : Pair} {t : OutputTree}
    (hp : Generated (.begin p)) (hrunId : env.get? "RUN_ID" = some p.rid)
    (hprofile : env.get? "NETWORK_PROFILE" = some p.profile)
    (hsuffix : env.get? "MEASUREMENT_SUFFIX" = some (p.protocol.name ++ "_" ++ p.profile))
    (hcompose : env.get? "COMPOSE_PROFILES" = some p.protocol.name)
    (hnew : newRun env p.now (trees site.output) p.protocol.name (some p.profile) (some p.rid)
      none = .ok (p.rid, t)) :
    Agrees site (Function.update trees site.output (writeMarker t p.rid)) ⟨env, p.container⟩ p := by
  have hstrip : strip p.rid = p.rid := resolved_rid hp .host
  have hmarker : strip (String.ofList (universalNewlines p.rid.toList)) = p.rid :=
    resolved_rid hp .container
  have hne := rid_ne_empty p
  refine ⟨?_, ?_, ?_, hrunId, hprofile, hsuffix, hcompose⟩
  · rw [activeRunId_of_runId hrunId (by rwa [hstrip]), hstrip]
  · rw [Function.update_self, activeRunId_of_unset p.container_runId]
    simp only [readMarker, writeMarker, hmarker]
    exact if_neg hne
  · refine ⟨_, ?_, describes_newManifest hprofile hsuffix⟩
    rw [Function.update_self]
    show readManifest t p.rid = _
    rw [readManifest_newRun hnew, if_pos rfl]

/-- An experiment begins with agreement: the environment has been published before
    the manifest is written, and the marker is written before anything is started. -/
theorem agrees_begin {site : Site} {trees : Trees} {base : Environ} {env : Env} {p : Pair}
    {t : OutputTree} (hp : Generated (.begin p))
    (hnew : newRun (env.update (p.env base.vars)) p.now (trees site.output) p.protocol.name
      (some p.profile) (some p.rid) none = .ok (p.rid, t)) :
    Agrees site (Function.update trees site.output (writeMarker t p.rid))
      ⟨env.update (p.env base.vars), p.container⟩ p := by
  have hvar := get?_experiment env base p
  apply agrees_created hp (hvar "RUN_ID") (hvar "NETWORK_PROFILE") (hvar "MEASUREMENT_SUFFIX")
    (hvar "COMPOSE_PROFILES") hnew

/-- In an experiment, host and containers agree. -/
def Agreed (site : Site) (s : State) : Prop :=
  ∀ base p envs, s.process = .experiment base p envs → Agrees site s.trees envs p

/-- **One step** keeps the agreement. -/
theorem Agreed.step {site : Site} {s t : State} {e : Event} (h : Agreed site s)
    (he : Generated e) (hstep : Processes.step site s e = some t) : Agreed site t := by
  intro base p envs hp
  cases e with
  | manual c =>
    obtain ⟨-, ht⟩ := step_manual hstep
    rw [ht] at hp
    rcases startManual_cases site s.trees c with heq | ⟨_, _, _, -, heq⟩
    · rw [heq] at hp
      cases hp
    · rw [heq] at hp
      cases hp
  | sweep env =>
    obtain ⟨-, rfl⟩ := step_sweep hstep
    cases hp
  | begin q =>
    obtain ⟨base', env, -, rfl⟩ := step_begin hstep
    rcases beginExperiment_cases site s.trees base' env q with heq | ⟨r, hnew, heq⟩
    · rw [heq] at hp
      cases hp
    · rw [heq] at hp ⊢
      cases hp
      exact agrees_begin he hnew
  | record patch =>
    obtain ⟨envs', henvs, rfl⟩ := step_record hstep
    dsimp only at hp
    rw [hp] at henvs
    obtain rfl := Option.some.inj henvs
    show Agrees site (Processes.record site s.trees envs patch) envs p
    exact (h base p envs hp).record patch
  | transfer filename qos =>
    obtain ⟨rfl, -⟩ := step_transfer hstep
    exact h base p envs hp
  | write product =>
    obtain ⟨envs', henvs, rfl⟩ := step_write hstep
    dsimp only at hp
    rw [hp] at henvs
    obtain rfl := Option.some.inj henvs
    exact (h base p envs hp).write product
  | finish down =>
    obtain ⟨_, _, _, -, rfl⟩ := step_finish hstep
    cases hp
  | exit =>
    obtain rfl := step_exit hstep
    cases hp

/-! ## Runs -/

/-- **Host and containers agree** whenever a transfer of an experiment is executed: in
    every run of sweeps with generated ids, over any trees, whatever was left behind
    by the experiments before it. -/
theorem agrees_at_transfer (site : Site) (s₀ t : State) (hidle : s₀.process = .idle)
    (before after : List Event) (filename : String) (qos : Option ℤ)
    (hgenerated : ∀ e ∈ before, Generated e)
    (hrun : run (step site) s₀ (before ++ .transfer filename qos :: after) = some t) :
    ∃ s, run (step site) s₀ before = some s ∧
      ∀ base p envs, s.process = .experiment base p envs → Agrees site s.trees envs p := by
  have hstart : Agreed site s₀ := by
    intro base p envs hexperiment
    rw [hidle] at hexperiment
    cases hexperiment
  obtain ⟨s, hs, -⟩ := run_append_eq_some.1 hrun
  refine ⟨s, hs, ?_⟩
  exact run_invariant_along (I := Agreed site) (fun _ _ _ h he hstep => h.step he hstep) before
    hstart (along_of_forall hgenerated s₀) hs

/-- An experiment whose stack does not come up and that leaves its marker, and a second one. -/
def sampleSweep : List Event :=
  [.sweep ⟨[], List.nodup_nil⟩, .begin (samplePair "20260101T000000" .mqtt "mobile"),
    .finish false, .begin (samplePair "20260101T000100" .http ""),
    .record (.files [1] ["a.bin"])]

theorem agrees_at_transfer_second :
    ∃ s base envs, run (step sampleSite) ⟨fun _ => emptyTree, .idle⟩ sampleSweep = some s ∧
      s.process = .experiment base (samplePair "20260101T000100" .http "") envs ∧
      Agrees sampleSite s.trees envs (samplePair "20260101T000100" .http "") := by
  have hgenerated : ∀ e ∈ sampleSweep, Generated e := by
    have hfirst : IsStamp "20260101T000000" := by simp [IsStamp]
    have hsecond : IsStamp "20260101T000100" := by simp [IsStamp]
    simp only [sampleSweep, List.forall_mem_cons, List.not_mem_nil, false_implies, implies_true,
      and_true]
    exact ⟨trivial, ⟨rfl, hfirst, by simp [samplePair, acceptedProfiles]⟩, trivial,
      ⟨rfl, hsecond, by simp [samplePair, acceptedProfiles]⟩, trivial⟩
  have hrun : ∃ t, run (step sampleSite) ⟨fun _ => emptyTree, .idle⟩
      (sampleSweep ++ .transfer "a.bin" none :: []) = some t := ⟨_, rfl⟩
  obtain ⟨t, ht⟩ := hrun
  obtain ⟨s, hs, hagrees⟩ := agrees_at_transfer sampleSite ⟨fun _ => emptyTree, .idle⟩ t rfl
    sampleSweep [] "a.bin" none hgenerated ht
  have hprocess : ∃ base envs, (run (step sampleSite) ⟨fun _ => emptyTree, .idle⟩ sampleSweep).map
      State.process = some (.experiment base (samplePair "20260101T000100" .http "") envs) :=
    ⟨_, _, rfl⟩
  obtain ⟨base, envs, hprocess⟩ := hprocess
  rw [hs] at hprocess
  have hp := Option.some.inj hprocess
  exact ⟨s, base, envs, hs, hp, hagrees base _ envs hp⟩

end TransferTestbed.Processes
