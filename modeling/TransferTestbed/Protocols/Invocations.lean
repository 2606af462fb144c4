import TransferTestbed.Protocols.BenchmarkManager

/-!
# Manual invocations and sweeps

`_ensure_run` and `main` of `protocols/benchmark_manager.py`, `run_experiment` of
`runner.py`, and histories of both on one output tree. What an invocation writes
is an arbitrary list of products (`runTransfer` gives such lists), placed by the
active run that the writing side resolves.

A manual invocation leaves its marker behind, and nothing but a later sweep
removes it.

Results:
* `readMarker_manual`: the marker after a manual invocation.
* `manual_fresh_iff`: in any history, when a manual invocation is a fresh run.
-/

namespace TransferTestbed.Invocations

open Runs WriteCsv BenchmarkManager

/-! ## Manual invocations -/

/-- One process of the manual CLI. `RUN_ID` is set neither in its environment nor
    in the containers. -/
structure Manual where
  now : Now
  /-- The first of its `--protocol` arguments. -/
  protocol : Protocol
  envs : Envs
  host_runId : envs.host.get? "RUN_ID" = none
  container_runId : envs.container.get? "RUN_ID" = none
  products : List Product

/-- `_ensure_run(protocols)` (lines 193–213): the run it creates, if it creates
    one, with the environment and the tree it leaves. -/
def ensureRun (env : Env) (now : Now) (t : OutputTree) (protocol : Protocol) :
    Except FileExistsError (Option String × Env × OutputTree) :=
  match activeRunId env t with
  | some _ => .ok (none, env, t)
  | none =>
    match newRun env now t protocol.name (env.get? "NETWORK_PROFILE") none (some "manual") with
    | .error e => .error e
    | .ok (rid, t) => .ok (some rid, env.insert "RUN_ID" rid, writeMarker t rid)

/-- The id of the run that a manual invocation creates when it creates one. -/
def Manual.runId (m : Manual) : String :=
  runIdFor m.now.stamp m.protocol.name (m.envs.host.get? "NETWORK_PROFILE")

/-- `main()` of the manual CLI, on the output tree. -/
def runManual (t : OutputTree) (m : Manual) : OutputTree :=
  match ensureRun m.envs.host m.now t m.protocol with
  | .error _ => t
  | .ok (_, env, t) => placeAll { m.envs with host := env } t m.products

/-- The invocation creates a run that did not exist, and all it writes goes there. -/
def Fresh (t : OutputTree) (m : Manual) : Prop :=
  ∃ rid env t', ensureRun m.envs.host m.now t m.protocol = .ok (some rid, env, t') ∧
    ¬ t.hasRun rid ∧ t'.hasRun rid ∧
    ∀ d ∈ destinations { m.envs with host := env } t' m.products, d = some rid

/-! ## Sweeps -/

/-- One call of `run_experiment`; `cleanedUp` says that `docker compose down` did not
    raise, so that the marker was cleared after it. -/
structure Experiment where
  now : Now
  protocol : Protocol
  profile : String
  runId : Option String
  container : Env
  products : List Product
  cleanedUp : Bool

def Experiment.rid (e : Experiment) : String :=
  orElse e.runId (runIdFor e.now.stamp e.protocol.name (some e.profile))

/-- The environment `run_experiment` publishes, over that of the sweep. -/
def experimentEnv (base : Env) (e : Experiment) : Env :=
  base.update [("COMPOSE_FILE", "docker-compose.automated.yaml"),
    ("COMPOSE_PROFILES", e.protocol.name), ("NETWORK_PROFILE", e.profile),
    ("MEASUREMENT_SUFFIX", e.protocol.name ++ "_" ++ e.profile), ("RUN_ID", e.rid)]

/-- `run_experiment(protocol, profile, run_id)` (`runner.py`, lines 76–122); the
    products are those written before it ends or fails. -/
def runExperiment (base : Env) (t : OutputTree) (e : Experiment) : OutputTree :=
  let env := experimentEnv base e
  match newRun env e.now t e.protocol.name (some e.profile) (some e.rid) none with
  | .error _ => t
  | .ok (rid, t) =>
    let t := placeAll ⟨env, e.container⟩ (writeMarker t rid) e.products
    if e.cleanedUp then clearMarker t else t

/-! ## Histories -/

inductive Invocation where
  | manual (m : Manual)
  | sweep (base : Env) (experiments : List Experiment)

def runInvocation (t : OutputTree) : Invocation → OutputTree
  | .manual m => runManual t m
  | .sweep base es => es.foldl (runExperiment base) t

/-- The tree after a history, from the tree `t`. -/
def runHistory (t : OutputTree) (history : List Invocation) : OutputTree :=
  history.foldl runInvocation t

/-- `P` holds of every manual invocation of the history, in the tree it finds. -/
def EveryManual (P : OutputTree → Manual → Prop) (t : OutputTree) (history : List Invocation) :
    Prop :=
  ∀ before m after, history = before ++ .manual m :: after → P (runHistory t before) m

/-- The id a process of one side resolves for a run id: the host from the `RUN_ID`
    variable, a container from the text of the marker. -/
def resolved : Side → String → String
  | .host, rid => strip rid
  | .container, rid => strip (String.ofList (universalNewlines rid.toList))

/-- No run is named by the marker, the id is free, and it is resolved to itself by
    whatever side writes something. -/
def FreshCondition (t : OutputTree) (m : Manual) : Prop :=
  readMarker t = none ∧ ¬ t.hasRun m.runId ∧
    ∀ p ∈ m.products, resolved p.side m.runId = m.runId

/-! ## One invocation -/

theorem activeRunId_of_unset {env : Env} (h : env.get? "RUN_ID" = none) (t : OutputTree) :
    activeRunId env t = readMarker t := by
  apply activeRunId_of_marker
  rw [getenv, h]
  rfl

theorem ne_empty_of_mem {c : Char} {s : String} (h : c ∈ s.toList) : s ≠ "" := by
  rintro rfl
  simp at h

theorem orElse_ne_empty {a : Option String} {b : String} (h : b ≠ "") : orElse a b ≠ "" := by
  cases a with
  | none => exact h
  | some s =>
    rw [orElse]
    split_ifs with hempty
    · exact h
    · exact hempty

theorem orElse_of_ne_empty {a : String} (h : a ≠ "") (b : String) : orElse (some a) b = a :=
  if_neg h

theorem resolved_ne_empty (side : Side) (stamp protocol : String) (profile : Option String) :
    resolved side (runIdFor stamp protocol profile) ≠ "" := by
  have hmem := mem_runIdFor stamp protocol profile
  cases side with
  | host => exact ne_empty_of_mem (mem_strip hmem (by decide))
  | container =>
    refine ne_empty_of_mem (c := '_') (mem_strip ?_ (by decide))
    rw [String.toList_ofList]
    exact mem_universalNewlines hmem (by decide) (by decide)

/-- Where the products of an invocation go once it has created its run. -/
theorem destination_created (m : Manual) (t : OutputTree) (p : Product) :
    destination { m.envs with host := m.envs.host.insert "RUN_ID" m.runId }
      (writeMarker t m.runId) p = some (resolved p.side m.runId) := by
  have hne := resolved_ne_empty p.side m.now.stamp m.protocol.name
    (m.envs.host.get? "NETWORK_PROFILE")
  unfold destination
  cases hside : p.side with
  | host =>
    rw [hside] at hne
    simp only [Envs.of, activeRunId, getenv, Dict.get?_insert, if_true, Option.getD_some]
    exact if_neg hne
  | container =>
    rw [hside] at hne
    simp only [Envs.of]
    rw [activeRunId_of_unset m.container_runId]
    simp only [readMarker, writeMarker]
    exact if_neg hne

/-- `_ensure_run` creates a run exactly when the marker is blank and the id free. -/
theorem ensureRun_created_iff (m : Manual) (t : OutputTree) {rid : String} {env : Env}
    {t' : OutputTree} :
    ensureRun m.envs.host m.now t m.protocol = .ok (some rid, env, t') ↔
      readMarker t = none ∧ rid = m.runId ∧ env = m.envs.host.insert "RUN_ID" m.runId ∧
        ∃ t₁, newRun m.envs.host m.now t m.protocol.name (m.envs.host.get? "NETWORK_PROFILE") none
          (some "manual") = .ok (m.runId, t₁) ∧ t' = writeMarker t₁ m.runId := by
  unfold ensureRun
  rw [activeRunId_of_unset m.host_runId]
  cases hmarker : readMarker t with
  | some r => simp
  | none =>
    cases hnew : newRun m.envs.host m.now t m.protocol.name (m.envs.host.get? "NETWORK_PROFILE")
        none (some "manual") with
    | error e => simp
    | ok r =>
      obtain ⟨rid₁, t₁⟩ := r
      obtain rfl : rid₁ = m.runId := (newRun_ok hnew).1
      constructor
      · intro h
        cases h
        exact ⟨rfl, rfl, rfl, t₁, rfl, rfl⟩
      · rintro ⟨-, rfl, rfl, t₂, h, rfl⟩
        cases h
        rfl

/-- One invocation, in the tree it finds. -/
theorem fresh_iff_condition (t : OutputTree) (m : Manual) : Fresh t m ↔ FreshCondition t m := by
  constructor
  · rintro ⟨rid, env, t', hensure, hfree, -, hdest⟩
    obtain ⟨hmarker, rfl, rfl, t₁, -, rfl⟩ := (ensureRun_created_iff m t).1 hensure
    refine ⟨hmarker, hfree, fun p hp => ?_⟩
    rw [destinations_eq] at hdest
    have := hdest _ (List.mem_map_of_mem hp)
    rw [destination_created] at this
    exact Option.some.inj this
  · rintro ⟨hmarker, hfree, hresolved⟩
    cases hnew : newRun m.envs.host m.now t m.protocol.name (m.envs.host.get? "NETWORK_PROFILE")
        none (some "manual") with
    | error e => exact absurd (newRun_error_iff.1 ⟨e, hnew⟩) hfree
    | ok r =>
      obtain ⟨rid₁, t₁⟩ := r
      have hok := newRun_ok hnew
      obtain rfl : rid₁ = m.runId := hok.1
      have hensure := (ensureRun_created_iff m t).2 ⟨hmarker, rfl, rfl, t₁, hnew, rfl⟩
      refine ⟨m.runId, _, _, hensure, hfree, hok.2.2.1, ?_⟩
      intro d hd
      rw [destinations_eq] at hd
      obtain ⟨p, hp, rfl⟩ := List.mem_map.1 hd
      rw [destination_created, hresolved p hp]

/-- A manual invocation that creates its run leaves the marker behind. -/
theorem readMarker_manual (t : OutputTree) (m : Manual) (hmarker : readMarker t = none)
    (hfree : ¬ t.hasRun m.runId) :
    readMarker (runManual t m) = some (resolved .container m.runId) := by
  cases hnew : newRun m.envs.host m.now t m.protocol.name (m.envs.host.get? "NETWORK_PROFILE")
      none (some "manual") with
  | error e => exact absurd (newRun_error_iff.1 ⟨e, hnew⟩) hfree
  | ok r =>
    obtain ⟨rid₁, t₁⟩ := r
    obtain rfl : rid₁ = m.runId := (newRun_ok hnew).1
    have hensure := (ensureRun_created_iff m t).2 ⟨hmarker, rfl, rfl, t₁, hnew, rfl⟩
    have hne := resolved_ne_empty .container m.now.stamp m.protocol.name
      (m.envs.host.get? "NETWORK_PROFILE")
    rw [runManual, hensure]
    simp only [readMarker, marker_placeAll]
    exact if_neg hne

/-! ## Histories -/

/-- **When manual runs are fresh.** In every history of manual invocations and
    sweeps, every manual invocation is fresh iff each of them finds the marker
    absent or blank and its id free, and its id survives being resolved. -/
theorem manual_fresh_iff (t : OutputTree) (history : List Invocation) :
    EveryManual Fresh t history ↔ EveryManual FreshCondition t history := by
  constructor
  · intro h before m after heq
    exact (fresh_iff_condition _ m).1 (h before m after heq)
  · intro h before m after heq
    exact (fresh_iff_condition _ m).2 (h before m after heq)

/-- A manual HTTP invocation at some time that copies one pcap. -/
def sampleManual (stamp : String) : Manual where
  now := ⟨stamp, "2026-01-01T00:00:00+00:00", none, none⟩
  protocol := .http
  envs := ⟨[], []⟩
  host_runId := rfl
  container_runId := rfl
  products := [.pcap "http_a.bin.pcap"]

/-- The second of two manual invocations finds the marker of the first and writes
    into its run. -/
theorem not_everyManual_fresh :
    ¬ EveryManual Fresh emptyTree
        [.manual (sampleManual "20260101T000000"), .manual (sampleManual "20260101T000100")] ∧
      destinations (sampleManual "20260101T000100").envs
          (runHistory emptyTree [.manual (sampleManual "20260101T000000")])
          (sampleManual "20260101T000100").products = [some "20260101T000000_http"] := by
  constructor
  · intro h
    have hsecond := h [.manual (sampleManual "20260101T000000")] (sampleManual "20260101T000100")
      [] rfl
    have hmarker := ((fresh_iff_condition _ _).1 hsecond).1
    have hleft := readMarker_manual emptyTree (sampleManual "20260101T000000") rfl
      (by simp [OutputTree.hasRun, emptyTree, Dict.keys])
    rw [runHistory, List.foldl_cons, List.foldl_nil, runInvocation, hleft] at hmarker
    cases hmarker
  · decide +kernel

end TransferTestbed.Invocations
