import TransferTestbed.Common.ManifestFiles
import TransferTestbed.Common.Runs
import TransferTestbed.Library.JsonRoundTrip
import TransferTestbed.Library.Simulation

/-!
# The run registry over its files (`common/runs.py`)

What the registry is for: a dictionary for every run, made once by `new_run` and merged with
patches by `update_manifest`, found by the protocol and the network profile in it. The files
hold the text of each dictionary; every call reads it with `json.load` and writes it with
`json.dump`. A process that makes the directory of a run without a manifest is a call too.

Results:

* `Document.load_text`: the text of a dictionary is read as the dictionary.
* `simulates_step`: one call on the files and on the registry.
* `runFiles_refines`: the files answer every sequence of calls as the registry does.
-/

namespace TransferTestbed.ManifestFiles

open Runs JsonStream JsonDocument

/-! ## Documents -/

/-- A dictionary that `json.dump` writes as it is: no key is there twice, every value is
    serialisable and every float is a binary64 number. -/
structure Document where
  members : Dict String Value
  exact : Exact (.dict members)

def Document.value (d : Document) : Value := .dict d.members

def Document.text (d : Document) : List Char := fullText (pieces 0 d.value)

/-- `json.load` on the texts of files. -/
def jsonReader : JsonReader where
  load := load
  load_nil := JsonDocument.load_nil
  closes _ _ h := scan_of_load h

theorem exactMembers_iff (ms : List (String × Value)) :
    ExactMembers ms ↔ ∀ m ∈ ms, Exact m.2 := by
  induction ms with
  | nil => simp [ExactMembers]
  | cons m ms ih => rw [ExactMembers, ih, List.forall_mem_cons]

theorem exact_dict_iff (ms : Dict String Value) :
    Exact (.dict ms) ↔ ms.keys.Nodup ∧ ∀ m ∈ ms, Exact m.2 := by
  rw [Exact, exactMembers_iff]
  rfl

theorem mem_insert {d : Dict String Value} {k : String} {v : Value} {m : String × Value}
    (h : m ∈ d.insert k v) : m = (k, v) ∨ m ∈ d := by
  unfold Dict.insert at h
  split_ifs at h
  · obtain ⟨p, hp, rfl⟩ := List.mem_map.1 h
    split_ifs
    · exact .inl rfl
    · exact .inr hp
  · rcases List.mem_append.1 h with h | h
    · exact .inr h
    · exact .inl (List.mem_singleton.1 h)

theorem mem_update {d e : Dict String Value} {m : String × Value} (h : m ∈ d.update e) :
    m ∈ d ∨ m ∈ e := by
  induction e generalizing d with
  | nil => exact .inl h
  | cons p e ih =>
    rcases ih h with h | h
    · rcases mem_insert h with rfl | h
      · exact .inr List.mem_cons_self
      · exact .inl h
    · exact .inr (List.mem_cons_of_mem p h)

/-- `d.update(e)`. -/
def Document.update (d e : Document) : Document where
  members := Dict.update d.members e.members
  exact := by
    obtain ⟨hnodup, hd⟩ := (exact_dict_iff _).1 d.exact
    obtain ⟨-, he⟩ := (exact_dict_iff _).1 e.exact
    refine (exact_dict_iff _).2 ⟨Dict.nodup_keys_update hnodup _, ?_⟩
    intro m hm
    rcases mem_update hm with hm | hm
    · exact hd m hm
    · exact he m hm

/-- **The text of a dictionary is read as the dictionary.** -/
theorem Document.load_text (d : Document) : jsonReader.load d.text = some d.value :=
  load_fullText d.exact

/-- Nothing of it raises. -/
theorem Document.emitted_pieces (d : Document) : emitted (pieces 0 d.value) = d.text :=
  (emitted_eq_fullText_iff 0 d.members).2 (serialisable_of_exact d.value d.exact)

/-! ## The files -/

def optionText (v : Option String) : Value := (v.map Value.str).getD .null

/-- The manifest of a new run (runs.py, lines 171–179), before the dictionary `meta`. -/
def newMembers (env : Env) (now : Now) (rid protocol : String) (profile : Option String) :
    Dict String Value :=
  [("run_id", .str rid), ("created_at", .str now.createdAt), ("protocol", .str protocol),
    ("network_profile", .str (orElse profile (getenv env "NETWORK_PROFILE" ""))),
    ("env", .dict (manifestEnvKeys.map fun key => (key, .str (getenv env key "")))),
    ("docker", optionText now.docker), ("tshark", optionText now.tshark)]

theorem exact_optionText (v : Option String) : Exact (optionText v) := by
  cases v <;> trivial

/-- The dictionary of a new run. -/
def newDocument (env : Env) (now : Now) (rid protocol : String) (profile : Option String) :
    Document where
  members := newMembers env now rid protocol profile
  exact := by
    have henv : Exact (.dict (manifestEnvKeys.map fun key => (key, .str (getenv env key "")))) := by
      have hkeys : manifestEnvKeys.Nodup := by decide
      refine (exact_dict_iff _).2 ⟨hkeys, ?_⟩
      intro m hm
      obtain ⟨key, -, rfl⟩ := List.mem_map.1 hm
      trivial
    have hkeys : ["run_id", "created_at", "protocol", "network_profile", "env", "docker",
        "tshark"].Nodup := by decide
    refine (exact_dict_iff _).2 ⟨hkeys, ?_⟩
    simp only [newMembers, List.forall_mem_cons]
    exact ⟨trivial, trivial, trivial, trivial, henv, exact_optionText _, exact_optionText _,
      by simp⟩

/-- `new_run(output_dir, protocol, profile, run_id, meta)` (lines 151–183). -/
def newRun (env : Env) (now : Now) (s : RunStore) (protocol : String)
    (profile runId : Option String) (extra : Dict String Value) :
    Except FileExistsError (String × Outcome × RunStore) :=
  let rid := orElse runId (runIdFor now.stamp protocol profile)
  if rid ∈ s.names then .error ⟨rid⟩
  else
    let manifest := Dict.update (newMembers env now rid protocol profile) extra
    let written := writeManifest s.files rid manifest .never
    .ok (rid, written.1, ⟨s.names ++ [rid], written.2⟩)

/-- `os.makedirs(run_dir(output_dir, rid), exist_ok=True)` (file_manager.py, line 62). -/
def makeRunDir (s : RunStore) (rid : String) : RunStore :=
  if rid ∈ s.names then s else { s with names := s.names ++ [rid] }

/-- A call on the registry. -/
inductive Call where
  | newRun (env : Env) (now : Now) (protocol : String) (profile runId : Option String)
      (extra : Document)
  | updateManifest (rid : String) (patch : Document)
  | makeRunDir (rid : String)

inductive Reply where
  | returned
  | raised
  | created (rid : String)
  | fileExists (e : FileExistsError)

/-- A call, on the files. -/
def fileStep (s : RunStore) : Call → Reply × RunStore
  | .newRun env now protocol profile runId extra =>
    match newRun env now s protocol profile runId extra.members with
    | .error e => (.fileExists e, s)
    | .ok (rid, outcome, t) => (if outcome = .returned then .created rid else .raised, t)
  | .updateManifest rid patch =>
    let written := updateManifest jsonReader s.files rid patch.members .never
    (if written.1 = .returned then .returned else .raised, { s with files := written.2 })
  | .makeRunDir rid => (.returned, makeRunDir s rid)

def emptyStore : RunStore := ⟨[], FileSystem.empty⟩

/-! ## The registry -/

/-- The runs, and the dictionary of each run that was made by `new_run`. -/
structure Registry where
  names : List String
  documents : Dict String Document
  nodup : names.Nodup
  listed : ∀ rid ∈ documents.keys, rid ∈ names

def Registry.empty : Registry := ⟨[], [], List.nodup_nil, by simp [Dict.keys]⟩

theorem nodup_concat {names : List String} (h : names.Nodup) {rid : String} (hrid : rid ∉ names) :
    (names ++ [rid]).Nodup := by
  rw [List.nodup_append]
  refine ⟨h, List.nodup_singleton rid, ?_⟩
  rintro a ha b hb rfl
  rw [List.mem_singleton.1 hb] at ha
  exact hrid ha

/-- The directory of a run is made if it is missing. -/
def Registry.ensure (r : Registry) (rid : String) : Registry :=
  if h : rid ∈ r.names then r
  else ⟨r.names ++ [rid], r.documents, nodup_concat r.nodup h,
    fun k hk => List.mem_append_left _ (r.listed k hk)⟩

theorem Registry.mem_ensure (r : Registry) (rid : String) : rid ∈ (r.ensure rid).names := by
  unfold ensure
  split_ifs with h
  · exact h
  · simp

/-- The dictionary of a run. -/
def Registry.put (r : Registry) (rid : String) (d : Document) : Registry where
  names := (r.ensure rid).names
  documents := r.documents.insert rid d
  nodup := (r.ensure rid).nodup
  listed := by
    intro k hk
    rw [Dict.keys_insert] at hk
    have hkeep : k ∈ r.documents.keys → k ∈ (r.ensure rid).names := by
      intro h
      have := r.listed k h
      unfold ensure
      split_ifs
      · exact this
      · exact List.mem_append_left _ this
    split_ifs at hk
    · exact hkeep hk
    · rcases List.mem_append.1 hk with hk | hk
      · exact hkeep hk
      · rw [List.mem_singleton.1 hk]
        exact r.mem_ensure rid

/-- A call, on the registry. -/
def Registry.step (r : Registry) : Call → Reply × Registry
  | .newRun env now protocol profile runId extra =>
    let rid := orElse runId (runIdFor now.stamp protocol profile)
    if rid ∈ r.names then (.fileExists ⟨rid⟩, r)
    else (.created rid, r.put rid ((newDocument env now rid protocol profile).update extra))
  | .updateManifest rid patch =>
    match r.documents.get? rid with
    | none => (.returned, r)
    | some d => (.returned, r.put rid (d.update patch))
  | .makeRunDir rid => (.returned, r.ensure rid)

/-- The runs with a manifest, newest first. -/
def Registry.list (r : Registry) : List String :=
  (r.names.filter fun rid => (r.documents.get? rid).isSome).mergeSort fun a b => b ≤ a

/-- A dictionary has the protocol and the profile that are asked for. -/
def Document.matches (protocol profile : Option String) (d : Document) : Bool :=
  (given protocol).all (fun want => isStr want (d.members.get? "protocol")) &&
    (given profile).all fun want => isStr want (d.members.get? "network_profile")

/-- The runs found by their protocol and their profile. -/
def Registry.find (r : Registry) (protocol profile : Option String) : List String :=
  r.list.filter fun rid => (r.documents.get? rid).any (Document.matches protocol profile)

/-! ## One call -/

/-- The files hold the registry: the same runs, and the text of every dictionary. -/
structure Holds (s : RunStore) (r : Registry) : Prop where
  names : s.names = r.names
  text : ∀ rid, s.files.read rid = (r.documents.get? rid).map Document.text

theorem holds_empty : Holds emptyStore Registry.empty := ⟨rfl, fun _ => rfl⟩

theorem writeManifest_document (fs : Files) (rid : String) (d : Document) :
    writeManifest fs rid d.members .never = (.returned, writeText fs rid d.text) := by
  have hemitted := d.emitted_pieces
  rw [Document.value] at hemitted
  have htext : Stop.never.onDisk (emitted (pieces 0 (.dict d.members))) = d.text := hemitted
  have hfull : fullText (pieces 0 (.dict d.members)) = d.text := rfl
  simp only [writeManifest, htext, hfull, if_true]

theorem read_writeText_of_ne (fs : Files) {rid r : String} (h : r ≠ rid) (text : List Char) :
    (writeText fs rid text).read r = fs.read r := by
  have hne : (fs.openTruncate rid).1.names r ≠ some (fs.openTruncate rid).2.inode := by
    rw [FileSystem.names_openTruncate, Function.update_of_ne h, FileSystem.inode_openTruncate]
    exact fun hr => h (FileSystem.eq_of_names_inodeFor hr)
  rw [writeText, FileSystem.read_writeAt, if_neg hne, FileSystem.read_openTruncate, if_neg h]

theorem Holds.put {s : RunStore} {r : Registry} (h : Holds s r) (rid : String) (d : Document)
    {names : List String} (hnames : names = (r.ensure rid).names) :
    Holds ⟨names, writeText s.files rid d.text⟩ (r.put rid d) where
  names := hnames
  text k := by
    rw [Registry.put, Dict.get?_insert]
    split_ifs with hk
    · rw [hk, read_writeText]
      rfl
    · rw [read_writeText_of_ne s.files hk, h.text]

theorem Holds.ensure {s : RunStore} {r : Registry} (h : Holds s r) (rid : String) :
    Holds (makeRunDir s rid) (r.ensure rid) := by
  unfold makeRunDir Registry.ensure
  rw [h.names]
  split_ifs
  · exact h
  · exact ⟨rfl, h.text⟩

/-- **One call on the files and on the registry.** -/
theorem simulates_step : Simulation.Simulates Holds id fileStep Registry.step := by
  intro s r call h
  cases call with
  | newRun env now protocol profile runId extra =>
    obtain ⟨rid, hrid⟩ : ∃ rid, rid = orElse runId (runIdFor now.stamp protocol profile) := ⟨_, rfl⟩
    simp only [fileStep, newRun, Registry.step, ← hrid, h.names, id_eq]
    by_cases hmem : rid ∈ r.names
    · simp only [if_pos hmem]
      exact ⟨trivial, h⟩
    · have hwrite := writeManifest_document s.files rid
        ((newDocument env now rid protocol profile).update extra)
      simp only [Document.update, newDocument] at hwrite
      simp only [if_neg hmem, hwrite, if_true]
      refine ⟨trivial, h.put rid _ ?_⟩
      rw [Registry.ensure, dif_neg hmem]
  | updateManifest rid patch =>
    have hread := h.text rid
    cases hdoc : r.documents.get? rid with
    | none =>
      rw [hdoc] at hread
      simp only [fileStep, Registry.step, updateManifest, hread, hdoc, id_eq, if_true,
        Option.map_none]
      exact ⟨trivial, h⟩
    | some d =>
      rw [hdoc] at hread
      have hload := d.load_text
      have hwrite := writeManifest_document s.files rid (d.update patch)
      simp only [Document.update, Document.value] at hwrite hload
      simp only [fileStep, Registry.step, updateManifest, hread, hdoc, id_eq, Option.map_some,
        hload, hwrite, reduceCtorEq, if_false, if_true]
      refine ⟨trivial, h.put rid (d.update patch) ?_⟩
      have hlisted : rid ∈ r.names := by
        apply r.listed
        by_contra hnot
        rw [Dict.get?_eq_none_iff.2 hnot] at hdoc
        cases hdoc
      rw [Registry.ensure, dif_pos hlisted, h.names]
  | makeRunDir rid => exact ⟨rfl, h.ensure rid⟩

/-! ## Queries -/

theorem Holds.isSome_read {s : RunStore} {r : Registry} (h : Holds s r) (rid : String) :
    (s.files.read rid).isSome = (r.documents.get? rid).isSome := by
  rw [h.text, Option.isSome_map]

theorem Holds.readManifest {s : RunStore} {r : Registry} (h : Holds s r) (rid : String) :
    readManifest jsonReader s rid = .ok ((r.documents.get? rid).map Document.value) := by
  rw [ManifestFiles.readManifest, h.text]
  cases r.documents.get? rid with
  | none => rfl
  | some d => simp only [Option.map_some, d.load_text]

theorem Holds.listRuns {s : RunStore} {r : Registry} (h : Holds s r) : listRuns s = r.list := by
  rw [ManifestFiles.listRuns, Registry.list, h.names]
  simp only [h.isSome_read]

theorem Holds.findLoop {s : RunStore} {r : Registry} (h : Holds s r)
    (protocol profile : Option String) {rids : List String}
    (hrids : ∀ rid ∈ rids, (r.documents.get? rid).isSome = true) :
    findLoop jsonReader s protocol profile rids =
      .ok (rids.filter fun rid =>
        (r.documents.get? rid).any (Document.matches protocol profile)) := by
  induction rids with
  | nil => rfl
  | cons rid rids ih =>
    obtain ⟨d, hd⟩ := Option.isSome_iff_exists.1 (hrids rid List.mem_cons_self)
    have hread := h.readManifest rid
    rw [hd, Option.map_some, Document.value] at hread
    have hkeeps : keeps protocol profile (orEmpty (some (.dict d.members))) =
        .ok (d.matches protocol profile) := by
      rw [orEmpty_dict, keeps_dict]
      rfl
    rw [findLoop_cons rid rids hread hkeeps, ih fun k hk => hrids k (List.mem_cons_of_mem rid hk),
      List.filter_cons, hd, Option.any_some]
    rfl

theorem Holds.findRuns {s : RunStore} {r : Registry} (h : Holds s r)
    (protocol profile : Option String) :
    findRuns jsonReader s protocol profile = .ok (r.find protocol profile) := by
  rw [ManifestFiles.findRuns, h.listRuns]
  refine h.findLoop protocol profile ?_
  intro rid hrid
  rw [Registry.list, List.mem_mergeSort, List.mem_filter] at hrid
  exact hrid.2

/-- **The files answer as the registry does.** After any sequence of calls, each of which is
    answered as the registry answers it, reading, listing and finding runs in the files gives what
    the registry has. -/
theorem runFiles_refines (calls : List Call) :
    let s := Simulation.replies fileStep emptyStore calls
    let r := Simulation.replies Registry.step Registry.empty calls
    s.1 = r.1 ∧ listRuns s.2 = r.2.list ∧
      (∀ rid, readManifest jsonReader s.2 rid =
        .ok ((r.2.documents.get? rid).map Document.value)) ∧
      ∀ protocol profile, findRuns jsonReader s.2 protocol profile =
        .ok (r.2.find protocol profile) := by
  obtain ⟨hreplies, hholds⟩ := simulates_step.run calls holds_empty
  rw [List.map_id] at hreplies hholds
  exact ⟨hreplies, hholds.listRuns, hholds.readManifest, hholds.findRuns⟩

end TransferTestbed.ManifestFiles
