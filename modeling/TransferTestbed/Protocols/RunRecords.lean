import TransferTestbed.Common.RunFiles
import TransferTestbed.Protocols.RunCoverage

/-!
# Records of runs, and the files that hold them

The output tree has a record for the manifest of a run, and the harness patches its fields. Here
the same calls are made on the files: `new_run` with the `flow` that the caller passes as `meta`,
and `update_manifest` with the dictionaries that `run_protocol` passes.

Results:

* `represents_newRun`, `represents_update`: the dictionary that a record stands for.
* `simulates_step`: one call on the tree and on the registry.
* `records_agree`: the tree and the files, after every sequence of calls.
-/

namespace TransferTestbed.RunRecords

open Runs JsonStream JsonDocument ManifestFiles
open Processes (Patch)

/-! ## Dictionaries of records -/

def intList (zs : List ℤ) : Value := .list (zs.map Value.int)

def strList (ss : List String) : Value := .list (ss.map Value.str)

/-- The members of a manifest: `none` is a key that it does not have. -/
def entries (m : Manifest) : List (String × Option Value) :=
  [("run_id", some (.str m.runId)), ("created_at", some (.str m.createdAt)),
    ("protocol", some (.str m.protocol)), ("network_profile", some (.str m.networkProfile)),
    ("env", some (.dict (m.env.map fun p => (p.1, .str p.2)))),
    ("docker", some (optionText m.docker)), ("tshark", some (optionText m.tshark)),
    ("flow", m.flow.map Value.str),
    ("file_sizes", m.fileSizes.map fun sizes => intList (sizes.map fun n : ℕ => (n : ℤ))),
    ("files", m.files.map strList), ("qos_levels", m.qosLevels.map intList)]

/-- The dictionary has the members of the manifest. -/
def Represents (m : Manifest) (d : Document) : Prop :=
  ∀ e ∈ entries m, d.members.get? e.1 = e.2

theorem exactAll_intList (zs : List ℤ) : Exact (intList zs) := by
  show ExactAll (zs.map Value.int)
  induction zs with
  | nil => trivial
  | cons z zs ih => exact ⟨trivial, ih⟩

theorem exactAll_strList (ss : List String) : Exact (strList ss) := by
  show ExactAll (ss.map Value.str)
  induction ss with
  | nil => trivial
  | cons s ss ih => exact ⟨trivial, ih⟩

/-- `{"flow": flow}` (benchmark_manager.py, line 199), or nothing. -/
def flowDocument (flow : Option String) : Document where
  members := (flow.map fun f => [("flow", Value.str f)]).getD []
  exact := by
    cases flow with
    | none => exact ⟨List.nodup_nil, trivial⟩
    | some f => exact ⟨List.nodup_singleton _, trivial, trivial⟩

/-- The dictionaries that `run_protocol` passes (benchmark_manager.py, lines 163–176). -/
def patchDocument : Patch → Document
  | .files sizes names =>
    { members :=
        [("file_sizes", intList (sizes.map fun n : ℕ => (n : ℤ))), ("files", strList names)]
      exact := ⟨by simp, exactAll_intList _, exactAll_strList _, trivial⟩ }
  | .qosLevels levels =>
    { members := [("qos_levels", intList levels)]
      exact := ⟨List.nodup_singleton _, exactAll_intList _, trivial⟩ }

theorem keys_nodup (d : Document) : d.members.keys.Nodup := d.exact.1

theorem get?_update (d e : Document) (key : String) :
    (d.update e).members.get? key = (e.members.get? key).or (d.members.get? key) :=
  Dict.get?_update d.members (keys_nodup e) key

theorem represents_newRun (env : Env) (now : Now) (rid protocol : String)
    (profile flow : Option String) :
    Represents (newManifest env now rid protocol profile flow)
      ((newDocument env now rid protocol profile).update (flowDocument flow)) := by
  intro e he
  have hflow : (flowDocument flow).members.get? e.1 =
      if "flow" = e.1 then flow.map Value.str else none := by
    cases flow with
    | none => simp [flowDocument]
    | some f => simp [flowDocument, Dict.get?_cons]
  rw [get?_update, hflow]
  simp only [entries, List.mem_cons, List.not_mem_nil, or_false] at he
  rcases he with rfl | rfl | rfl | rfl | rfl | rfl | rfl | rfl | rfl | rfl | rfl <;>
    simp [newDocument, newMembers, newManifest, Dict.get?_cons]

theorem represents_update {m : Manifest} {d : Document} (h : Represents m d) (patch : Patch) :
    Represents (patch.apply m) (d.update (patchDocument patch)) := by
  simp only [Represents, entries, List.forall_mem_cons, get?_update] at h ⊢
  obtain ⟨hid, hcreated, hprotocol, hprofile, henv, hdocker, htshark, hflow, hsizes, hfiles, hqos,
    -⟩ := h
  cases patch with
  | files sizes names =>
    simp [patchDocument, Dict.get?_cons, Patch.apply, hid, hcreated, hprotocol, hprofile, henv,
      hdocker, htshark, hflow, hqos]
  | qosLevels levels =>
    simp [patchDocument, Dict.get?_cons, Patch.apply, hid, hcreated, hprotocol, hprofile, henv,
      hdocker, htshark, hflow, hsizes, hfiles]

/-! ## One call -/

/-- A call of the harness on the output tree; `place` is what writes measurements of a run, which
    makes its directory if it is missing. -/
inductive RecordCall where
  | newRun (env : Env) (now : Now) (protocol : String) (profile runId flow : Option String)
  | updateManifest (rid : String) (patch : Patch)
  | place (rid : String) (f : Measurements → Measurements)

/-- The same call, on the files. -/
def RecordCall.toCall : RecordCall → Call
  | .newRun env now protocol profile runId flow =>
    .newRun env now protocol profile runId (flowDocument flow)
  | .updateManifest rid patch => .updateManifest rid (patchDocument patch)
  | .place rid _ => .makeRunDir rid

/-- A call, on the records. -/
def treeStep (t : OutputTree) : RecordCall → Reply × OutputTree
  | .newRun env now protocol profile runId flow =>
    match Runs.newRun env now t protocol profile runId flow with
    | .error e => (.fileExists e, t)
    | .ok (rid, t') => (.created rid, t')
  | .updateManifest rid patch => (.returned, Runs.updateManifest t rid fun m => patch.apply m)
  | .place rid f => (.returned, t.modify (some rid) f)

/-- The registry has the runs of the tree, and represents their manifests. -/
structure Records (t : OutputTree) (r : Registry) : Prop where
  names : t.runs.keys = r.names
  manifests : ∀ rid, Option.Rel Represents (Runs.readManifest t rid) (r.documents.get? rid)

/-- A run has neither a record nor a dictionary, or both. -/
theorem Records.cases {t : OutputTree} {r : Registry} (h : Records t r) (rid : String) :
    (Runs.readManifest t rid = none ∧ r.documents.get? rid = none) ∨
      ∃ m d, Runs.readManifest t rid = some m ∧ r.documents.get? rid = some d ∧
        Represents m d := by
  have hrel := h.manifests rid
  generalize Runs.readManifest t rid = a at hrel
  generalize r.documents.get? rid = b at hrel
  cases hrel with
  | none => exact .inl ⟨rfl, rfl⟩
  | some hrep => exact .inr ⟨_, _, rfl, rfl, hrep⟩

theorem records_empty : Records emptyTree Registry.empty := ⟨rfl, fun _ => .none⟩

theorem names_ensure (r : Registry) (rid : String) :
    (r.ensure rid).names = if rid ∈ r.names then r.names else r.names ++ [rid] := by
  unfold Registry.ensure
  split_ifs
  · rfl
  · rfl

theorem documents_ensure (r : Registry) (rid : String) :
    (r.ensure rid).documents = r.documents := by
  unfold Registry.ensure
  split_ifs
  · rfl
  · rfl

/-- Assigning to a run gives the tree the runs that the registry then has. -/
theorem Records.keys_insert {t : OutputTree} {r : Registry} (h : Records t r) (rid : String)
    (d : RunDir) : (t.runs.insert rid d).keys = (r.ensure rid).names := by
  rw [Dict.keys_insert, names_ensure, h.names]

theorem Records.put {t t' : OutputTree} {r : Registry} (h : Records t r) {rid : String}
    {m : Manifest} {d : Document} (hnames : t'.runs.keys = (r.ensure rid).names)
    (hmanifest : ∀ k, Runs.readManifest t' k =
      if k = rid then some m else Runs.readManifest t k)
    (hrep : Represents m d) : Records t' (r.put rid d) where
  names := hnames
  manifests k := by
    rw [hmanifest, Registry.put, Dict.get?_insert]
    split_ifs
    · exact .some hrep
    · exact h.manifests k

theorem keys_newRun {env : Env} {now : Now} {t t' : OutputTree} {protocol rid : String}
    {profile runId flow : Option String}
    (h : Runs.newRun env now t protocol profile runId flow = .ok (rid, t')) :
    ∃ d, t'.runs = t.runs.insert rid d := by
  simp only [Runs.newRun] at h
  split_ifs at h
  obtain ⟨rfl, rfl⟩ := Prod.mk.inj (Except.ok.inj h)
  exact ⟨_, rfl⟩

theorem keys_updateManifest (t : OutputTree) (rid : String) (patch : Manifest → Manifest) :
    (Runs.updateManifest t rid patch).runs.keys = t.runs.keys := by
  unfold Runs.updateManifest
  cases hrun : t.runs.get? rid with
  | none => rfl
  | some d =>
    have hmem : rid ∈ t.runs.keys := by
      by_contra hnot
      rw [Dict.get?_eq_none_iff.2 hnot] at hrun
      cases hrun
    exact (Dict.keys_insert t.runs rid _).trans (if_pos hmem)

/-- A run that has a dictionary has a directory. -/
theorem ensure_of_get? {r : Registry} {rid : String} {d : Document}
    (h : r.documents.get? rid = some d) : r.ensure rid = r := by
  have hlisted : rid ∈ r.names := by
    apply r.listed
    by_contra hnot
    rw [Dict.get?_eq_none_iff.2 hnot] at h
    cases h
  exact dif_pos hlisted

theorem Records.updateManifest {t : OutputTree} {r : Registry} (h : Records t r) (rid : String)
    (patch : Patch) :
    Records (Runs.updateManifest t rid fun m => patch.apply m)
      (r.step (.updateManifest rid (patchDocument patch))).2 := by
  have hkeys := keys_updateManifest t rid fun m => patch.apply m
  have hmanifest := fun k => Processes.readManifest_updateManifest t k rid fun m => patch.apply m
  simp only [Registry.step]
  rcases h.cases rid with ⟨hnone, hdoc⟩ | ⟨m, d, hm, hdoc, hrep⟩
  · simp only [hdoc]
    refine ⟨hkeys.trans h.names, fun k => ?_⟩
    rw [hmanifest]
    split_ifs with hk
    · rw [hk, hnone, hdoc]
      exact .none
    · exact h.manifests k
  · simp only [hdoc]
    refine h.put ?_ ?_ (represents_update hrep patch)
    · rw [hkeys, h.names, ensure_of_get? hdoc]
    · intro k
      rw [hmanifest]
      split_ifs with hk
      · rw [hk, hm]
        rfl
      · rfl

/-- **One call on the tree and on the registry.** -/
theorem simulates_step :
    Simulation.Simulates Records RecordCall.toCall treeStep Registry.step := by
  intro t r call h
  cases call with
  | newRun env now protocol profile runId flow =>
    obtain ⟨rid, hrid⟩ : ∃ rid, orElse runId (runIdFor now.stamp protocol profile) = rid := ⟨_, rfl⟩
    have hhas : t.hasRun rid ↔ rid ∈ r.names := by rw [OutputTree.hasRun, h.names]
    by_cases hmem : rid ∈ r.names
    · have htree : Runs.newRun env now t protocol profile runId flow = .error ⟨rid⟩ := by
        simp only [Runs.newRun, hrid, if_pos (hhas.2 hmem)]
      simp only [treeStep, htree, RecordCall.toCall, Registry.step, hrid, if_pos hmem]
      exact ⟨trivial, h⟩
    · obtain ⟨t', htree⟩ : ∃ t',
          Runs.newRun env now t protocol profile runId flow = .ok (rid, t') := by
        simp only [Runs.newRun, hrid, if_neg (mt hhas.1 hmem)]
        exact ⟨_, rfl⟩
      obtain ⟨d, hd⟩ := keys_newRun htree
      simp only [treeStep, htree, RecordCall.toCall, Registry.step, hrid, if_neg hmem]
      refine ⟨trivial, h.put ?_ (Processes.readManifest_newRun htree) ?_⟩
      · rw [hd, h.keys_insert]
      · exact represents_newRun env now rid protocol profile flow
  | updateManifest rid patch =>
    refine ⟨?_, h.updateManifest rid patch⟩
    simp only [treeStep, RecordCall.toCall, Registry.step]
    cases r.documents.get? rid with
    | none => rfl
    | some d => rfl
  | place rid f =>
    refine ⟨rfl, ?_, fun k => ?_⟩
    · exact h.keys_insert rid _
    · rw [treeStep, Processes.readManifest_modify]
      show Option.Rel Represents _ ((r.ensure rid).documents.get? k)
      rw [documents_ensure]
      exact h.manifests k

/-! ## Queries -/

theorem Records.listRuns {t : OutputTree} {r : Registry} (h : Records t r) :
    Processes.listRuns t = r.list := by
  rw [Processes.listRuns, Registry.list, h.names]
  have hsome : ∀ rid, (Runs.readManifest t rid).isSome = (r.documents.get? rid).isSome := by
    intro rid
    rcases h.cases rid with ⟨hnone, hdoc⟩ | ⟨m, d, hm, hdoc, -⟩
    · rw [hnone, hdoc]
      rfl
    · rw [hm, hdoc]
      rfl
  simp only [hsome]

theorem passes_iff {key : String} {value : String} {d : Document}
    (h : d.members.get? key = some (.str value)) (filter : Option String) :
    (given filter).all (fun want => isStr want (d.members.get? key)) =
      RunCoverage.passes filter value := by
  rw [h]
  cases filter with
  | none => rfl
  | some want =>
    simp only [given, RunCoverage.passes]
    split_ifs with hempty
    · simp [hempty]
    · simp [isStr, hempty]

theorem Represents.matches {m : Manifest} {d : Document} (h : Represents m d)
    (protocol profile : Option String) : d.matches protocol profile =
      (RunCoverage.passes protocol m.protocol && RunCoverage.passes profile m.networkProfile) := by
  have hprotocol := h ("protocol", some (.str m.protocol)) (by simp [entries])
  have hprofile := h ("network_profile", some (.str m.networkProfile)) (by simp [entries])
  rw [Document.matches, passes_iff hprotocol, passes_iff hprofile]

theorem Records.findRuns {t : OutputTree} {r : Registry} (h : Records t r)
    (protocol profile : Option String) :
    RunCoverage.findRuns t protocol profile = r.find protocol profile := by
  rw [RunCoverage.findRuns, Registry.find, h.listRuns]
  refine List.filter_congr ?_
  intro rid _
  rcases h.cases rid with ⟨hnone, hdoc⟩ | ⟨m, d, hm, hdoc, hrep⟩
  · rw [hnone, hdoc]
    rfl
  · rw [hm, hdoc, Option.any_some, Option.any_some, hrep.matches]

/-- What `read_manifest` gives of the files for a record. -/
def ReadAs (m : Option Manifest) (v : Except FindError (Option Value)) : Prop :=
  ∃ d : Option Document, v = .ok (d.map Document.value) ∧ Option.Rel Represents m d

/-- **The files hold the records.** After any sequence of calls of the harness, the files answer
    each call, and each query, as the output tree does. -/
theorem records_agree (calls : List RecordCall) :
    let t := Simulation.replies treeStep emptyTree calls
    let s := Simulation.replies fileStep emptyStore (calls.map RecordCall.toCall)
    t.1 = s.1 ∧ Processes.listRuns t.2 = ManifestFiles.listRuns s.2 ∧
      (∀ rid, ReadAs (Runs.readManifest t.2 rid)
        (ManifestFiles.readManifest jsonReader s.2 rid)) ∧
      ∀ protocol profile, ManifestFiles.findRuns jsonReader s.2 protocol profile =
        .ok (RunCoverage.findRuns t.2 protocol profile) := by
  obtain ⟨hfiles, hholds⟩ :=
    ManifestFiles.simulates_step.run (calls.map RecordCall.toCall) holds_empty
  obtain ⟨htree, hrecords⟩ := simulates_step.run calls records_empty
  rw [List.map_id] at hfiles hholds
  refine ⟨htree.trans hfiles.symm, ?_, ?_, ?_⟩
  · rw [hrecords.listRuns, hholds.listRuns]
  · intro rid
    exact ⟨_, hholds.readManifest rid, hrecords.manifests rid⟩
  · intro protocol profile
    rw [hholds.findRuns, hrecords.findRuns]

end TransferTestbed.RunRecords
