import TransferTestbed.Protocols.Orphans
import TransferTestbed.Protocols.RunProtocol

/-!
# What a manifest says of the rows of its run

Calls of `run_protocol` while one run is active. Each of them writes its files and QoS levels
over those in the manifest of the run, and its transfers append their rows to the CSVs of the
run; the protocol in the manifest is that of the creation of the run.

Results:

* `mem_rows`: the rows that a call appends are those of its combinations.
* `covered_runCall_iff`: the calls after which the manifest still describes every row.
* `covered_iff`: the sequences of calls after each of which it does.
-/

namespace TransferTestbed.RunCoverage

open Runs WriteCsv BenchmarkManager Processes Transition

/-! ## Model -/

/-- A row of one of the CSVs, as far as the manifest is about it. Rows of
    `pcap_measurements.csv` have the name and the size of the file. -/
structure Row where
  protocol : Protocol
  qos : Option ℤ
  file : Option InputFile
deriving DecidableEq, Repr

/-- A call of `run_protocol`, with the files that it is given or finds. -/
structure Call where
  protocol : Protocol
  files : List InputFile
  /-- One of the files does not exist, so that `os.path.getsize` raises. -/
  absent : Bool
  qosLevels : Option (List ℤ)
  analyze : Bool
  commands : ℕ → Commands

/-- The rows that the `i`th transfer of a call appends. -/
def transferRows (c : Call) (i : ℕ) (t : Option ℤ × InputFile) : List Row :=
  (runTransfer c.protocol t.2.name t.1 c.analyze ((c.commands i).world c.protocol t.2)).1.filterMap
    fun p =>
      match p with
      | .row _ kind _ _ => some ⟨c.protocol, t.1, if kind = .pcap then some t.2 else none⟩
      | .pcap _ => none

/-- The rows that the transfers of a call append, in order. -/
def Call.rows (c : Call) : List Row :=
  (runProtocol c.protocol c.files c.qosLevels c.analyze c.commands).1.zipIdx.flatMap fun t =>
    transferRows c t.2 t.1

/-- What a call records in the manifest (benchmark_manager.py, lines 158–176). -/
def Call.record (c : Call) (m : Manifest) : Manifest :=
  let m := Patch.apply m (.files (c.files.map InputFile.size) (c.files.map InputFile.name))
  if c.protocol.hasQos then Patch.apply m (.qosLevels (sweptQos c.qosLevels)) else m

/-- The output tree, and the rows in the CSVs of the active run. -/
structure State where
  tree : OutputTree
  rows : List Row

/-- `run_protocol(protocol, files, qos_levels, analyze)` (lines 145–182), for the run that is
    active. -/
def runCall (rid : String) (s : State) (c : Call) : State :=
  if c.files = [] then s
  else if c.absent then s
  else ⟨updateManifest s.tree rid c.record, s.rows ++ c.rows⟩

def step (rid : String) (s : State) (c : Call) : Option State := some (runCall rid s c)

/-- `filter and value != filter` fails. -/
def passes (filter : Option String) (value : String) : Bool :=
  match filter with
  | none => true
  | some want => want = "" || value = want

/-- `find_runs(output_dir, protocol, profile)` (runs.py, lines 216–230). -/
def findRuns (t : OutputTree) (protocol profile : Option String) : List String :=
  (listRuns t).filter fun rid =>
    (readManifest t rid).any fun m =>
      passes protocol m.protocol && passes profile m.networkProfile

/-! ## The property -/

/-- The manifest of the run describes every row: it has its file, with the size, and its QoS
    level, and `find_runs` finds the run by the row's protocol. -/
structure Covered (rid : String) (s : State) : Prop where
  files : ∀ row ∈ s.rows, ∀ file, row.file = some file → ∃ m names sizes,
    readManifest s.tree rid = some m ∧ m.files = some names ∧ m.fileSizes = some sizes ∧
      (file.name, file.size) ∈ names.zip sizes
  qos : ∀ row ∈ s.rows, ∀ q, row.qos = some q → ∃ m levels,
    readManifest s.tree rid = some m ∧ m.qosLevels = some levels ∧ q ∈ levels
  found : ∀ row ∈ s.rows, rid ∈ findRuns s.tree (some row.protocol.name) none

/-- The call has all files and, for MQTT, all QoS levels that the run has rows of, and if it
    appends rows it is for the protocol of the run. -/
def CoversRun (rid : String) (s : State) (c : Call) : Prop :=
  c.files ≠ [] → c.absent = false →
    (∀ row ∈ s.rows, ∀ file, row.file = some file → file ∈ c.files) ∧
    (c.protocol.hasQos = true → ∀ row ∈ s.rows, ∀ q, row.qos = some q →
      q ∈ sweptQos c.qosLevels) ∧
    (c.rows ≠ [] → ∃ m, readManifest s.tree rid = some m ∧ m.protocol = c.protocol.name)

/-! ## The rows of a call -/

theorem runTransfers_subset {protocol : Protocol} {analyze : Bool} {commands : ℕ → Commands}
    (ts : List (Option ℤ × InputFile)) (i : ℕ) :
    (runTransfers protocol analyze commands i ts).1 ⊆ ts := by
  induction ts generalizing i with
  | nil => exact List.Subset.refl _
  | cons t ts ih =>
    unfold runTransfers
    split
    · exact List.cons_subset.2 ⟨List.mem_cons_self, List.nil_subset _⟩
    · exact List.cons_subset_cons t (ih (i + 1))

theorem mem_rows {c : Call} {row : Row} (h : row ∈ c.rows) :
    ∃ t ∈ combinations c.protocol c.files c.qosLevels, row.protocol = c.protocol ∧
      row.qos = t.1 ∧ ∀ file, row.file = some file → file = t.2 := by
  obtain ⟨⟨t, i⟩, ht, hrow⟩ := List.mem_flatMap.1 h
  have hattempted : t ∈ (runProtocol c.protocol c.files c.qosLevels c.analyze c.commands).1 :=
    List.fst_mem_of_mem_zipIdx ht
  refine ⟨t, runTransfers_subset _ 0 hattempted, ?_⟩
  obtain ⟨p, -, hp⟩ := List.mem_filterMap.1 hrow
  cases p with
  | pcap name => cases hp
  | row side kind timestamp cells =>
    rw [← Option.some.inj hp]
    refine ⟨rfl, rfl, ?_⟩
    intro file hfile
    by_cases hkind : kind = .pcap
    · simp only [if_pos hkind] at hfile
      exact (Option.some.inj hfile).symm
    · simp only [if_neg hkind] at hfile
      cases hfile

theorem file_mem_of_mem_combinations {protocol : Protocol} {files : List InputFile}
    {qosLevels : Option (List ℤ)} {t : Option ℤ × InputFile}
    (h : t ∈ combinations protocol files qosLevels) : t.2 ∈ files := by
  unfold combinations at h
  split_ifs at h
  · obtain ⟨qos, -, h⟩ := List.mem_flatMap.1 h
    obtain ⟨file, hfile, rfl⟩ := List.mem_map.1 h
    exact hfile
  · obtain ⟨file, hfile, rfl⟩ := List.mem_map.1 h
    exact hfile

theorem qos_mem_of_mem_combinations {protocol : Protocol} {files : List InputFile}
    {qosLevels : Option (List ℤ)} {t : Option ℤ × InputFile}
    (h : t ∈ combinations protocol files qosLevels) {q : ℤ} (hq : t.1 = some q) :
    protocol.hasQos = true ∧ q ∈ sweptQos qosLevels := by
  unfold combinations at h
  split_ifs at h with hhas
  · obtain ⟨qos, hqos, h⟩ := List.mem_flatMap.1 h
    obtain ⟨file, -, rfl⟩ := List.mem_map.1 h
    rw [← Option.some.inj hq]
    exact ⟨hhas, hqos⟩
  · obtain ⟨file, -, rfl⟩ := List.mem_map.1 h
    cases hq

/-! ## The manifest after a call -/

section Manifests

variable {rid : String} {s : State} {c : Call} {m : Manifest}

theorem files_record (c : Call) (m : Manifest) :
    (c.record m).files = some (c.files.map InputFile.name) ∧
      (c.record m).fileSizes = some (c.files.map InputFile.size) := by
  unfold Call.record
  by_cases h : c.protocol.hasQos = true
  · rw [if_pos h]
    exact ⟨rfl, rfl⟩
  · rw [if_neg h]
    exact ⟨rfl, rfl⟩

theorem protocol_record (c : Call) (m : Manifest) : (c.record m).protocol = m.protocol := by
  unfold Call.record
  by_cases h : c.protocol.hasQos = true
  · rw [if_pos h]
    rfl
  · rw [if_neg h]
    rfl

theorem qosLevels_record (c : Call) (m : Manifest) : (c.record m).qosLevels =
    if c.protocol.hasQos then some (sweptQos c.qosLevels) else m.qosLevels := by
  unfold Call.record
  by_cases h : c.protocol.hasQos = true
  · rw [if_pos h, if_pos h]
    rfl
  · rw [if_neg h, if_neg h]
    rfl

theorem readManifest_runCall (hm : readManifest s.tree rid = some m) (hfiles : c.files ≠ [])
    (habsent : c.absent = false) :
    readManifest (runCall rid s c).tree rid = some (c.record m) := by
  rw [runCall, if_neg hfiles, habsent, if_neg Bool.false_ne_true]
  show readManifest (updateManifest s.tree rid c.record) rid = _
  rw [readManifest_updateManifest, if_pos rfl, hm, Option.map_some]

theorem rows_runCall (hfiles : c.files ≠ []) (habsent : c.absent = false) :
    (runCall rid s c).rows = s.rows ++ c.rows := by
  rw [runCall, if_neg hfiles, habsent, if_neg Bool.false_ne_true]

/-- A call without files, or without one of them, changes nothing. -/
theorem runCall_eq_self (h : c.files = [] ∨ c.absent = true) : runCall rid s c = s := by
  unfold runCall
  by_cases hfiles : c.files = []
  · rw [if_pos hfiles]
  · rw [if_neg hfiles, if_pos (h.resolve_left hfiles)]

theorem mem_findRuns_iff {t : OutputTree} (hm : readManifest t rid = some m) (protocol : Protocol) :
    rid ∈ findRuns t (some protocol.name) none ↔ m.protocol = protocol.name := by
  have hname : protocol.name ≠ "" := by cases protocol <;> decide
  rw [findRuns, List.mem_filter, and_iff_right (mem_listRuns_of_readManifest hm), hm]
  simp [passes, hname]

/-- The pairs of a name and a size in the manifest are those of the files. -/
theorem mem_zip_iff (files : List InputFile) (file : InputFile) :
    (file.name, file.size) ∈ (files.map InputFile.name).zip (files.map InputFile.size) ↔
      file ∈ files := by
  rw [List.zip_map', List.mem_map]
  constructor
  · rintro ⟨f, hf, heq⟩
    obtain ⟨hname, hsize⟩ := Prod.mk.inj heq
    have : f = file := by
      cases f
      cases file
      simp only at hname hsize
      rw [hname, hsize]
    rw [← this]
    exact hf
  · intro h
    exact ⟨file, h, rfl⟩

end Manifests

/-! ## Sequences of calls -/

section Sequences

variable {rid : String} {s : State} {c : Call} {m : Manifest}

/-- The property, in terms of the manifest. -/
theorem covered_iff_of_readManifest (hm : readManifest s.tree rid = some m) :
    Covered rid s ↔
      (∀ row ∈ s.rows, ∀ file, row.file = some file → ∃ names sizes, m.files = some names ∧
        m.fileSizes = some sizes ∧ (file.name, file.size) ∈ names.zip sizes) ∧
      (∀ row ∈ s.rows, ∀ q, row.qos = some q → ∃ levels, m.qosLevels = some levels ∧
        q ∈ levels) ∧
      ∀ row ∈ s.rows, m.protocol = row.protocol.name := by
  constructor
  · intro h
    refine ⟨?_, ?_, ?_⟩
    · intro row hrow file hfile
      obtain ⟨m', names, sizes, hm', hrest⟩ := h.files row hrow file hfile
      rw [hm] at hm'
      cases hm'
      exact ⟨names, sizes, hrest⟩
    · intro row hrow q hq
      obtain ⟨m', levels, hm', hrest⟩ := h.qos row hrow q hq
      rw [hm] at hm'
      cases hm'
      exact ⟨levels, hrest⟩
    · intro row hrow
      exact (mem_findRuns_iff hm row.protocol).1 (h.found row hrow)
  · rintro ⟨hfiles, hqos, hfound⟩
    refine ⟨?_, ?_, ?_⟩
    · intro row hrow file hfile
      obtain ⟨names, sizes, hrest⟩ := hfiles row hrow file hfile
      exact ⟨m, names, sizes, hm, hrest⟩
    · intro row hrow q hq
      obtain ⟨levels, hrest⟩ := hqos row hrow q hq
      exact ⟨m, levels, hm, hrest⟩
    · intro row hrow
      exact (mem_findRuns_iff hm row.protocol).2 (hfound row hrow)

/-- **One call**: if every row was described before, every row is described after it
    exactly if the call covers the run. -/
theorem covered_runCall_iff (hm : readManifest s.tree rid = some m) (h : Covered rid s) :
    Covered rid (runCall rid s c) ↔ CoversRun rid s c := by
  by_cases hskip : c.files = [] ∨ c.absent = true
  · rw [runCall_eq_self hskip]
    refine iff_of_true h ?_
    intro hfiles habsent
    rcases hskip with hnil | htrue
    · exact absurd hnil hfiles
    · rw [habsent] at htrue
      cases htrue
  rw [not_or, Bool.not_eq_true] at hskip
  obtain ⟨hfiles, habsent⟩ := hskip
  obtain ⟨-, hqosBefore, hfoundBefore⟩ := (covered_iff_of_readManifest hm).1 h
  obtain ⟨hnames, hsizes⟩ := files_record c m
  rw [covered_iff_of_readManifest (readManifest_runCall hm hfiles habsent),
    rows_runCall hfiles habsent, hnames, hsizes, protocol_record, qosLevels_record]
  constructor
  · rintro ⟨hfile, hqos, hfound⟩ - -
    refine ⟨?_, ?_, ?_⟩
    · intro row hrow file hf
      obtain ⟨names, sizes, hn, hs, hmem⟩ := hfile row (List.mem_append_left _ hrow) file hf
      cases hn
      cases hs
      exact (mem_zip_iff c.files file).1 hmem
    · intro hhas row hrow q hq
      obtain ⟨levels, hlevels, hmem⟩ := hqos row (List.mem_append_left _ hrow) q hq
      rw [if_pos hhas] at hlevels
      cases hlevels
      exact hmem
    · intro hne
      obtain ⟨row, hrow⟩ := List.exists_mem_of_ne_nil _ hne
      obtain ⟨t, -, hprotocol, -⟩ := mem_rows hrow
      refine ⟨m, hm, ?_⟩
      rw [← hprotocol]
      exact hfound row (List.mem_append_right _ hrow)
  · intro hcovers
    obtain ⟨hfile, hqos, hprotocol⟩ := hcovers hfiles habsent
    refine ⟨?_, ?_, ?_⟩
    · intro row hrow file hf
      refine ⟨_, _, rfl, rfl, (mem_zip_iff c.files file).2 ?_⟩
      rcases List.mem_append.1 hrow with hrow | hrow
      · exact hfile row hrow file hf
      · obtain ⟨t, ht, -, -, htfile⟩ := mem_rows hrow
        rw [htfile file hf]
        exact file_mem_of_mem_combinations ht
    · intro row hrow q hq
      rcases List.mem_append.1 hrow with hrow | hrow
      · by_cases hhas : c.protocol.hasQos = true
        · exact ⟨_, if_pos hhas, hqos hhas row hrow q hq⟩
        · rw [if_neg hhas]
          exact hqosBefore row hrow q hq
      · obtain ⟨t, ht, -, htqos, -⟩ := mem_rows hrow
        obtain ⟨hhas, hmem⟩ := qos_mem_of_mem_combinations ht (htqos ▸ hq)
        exact ⟨_, if_pos hhas, hmem⟩
    · intro row hrow
      rcases List.mem_append.1 hrow with hrow | hrow
      · exact hfoundBefore row hrow
      · obtain ⟨m', hm', hname⟩ := hprotocol (List.ne_nil_of_mem hrow)
        obtain ⟨t, -, hrowProtocol, -⟩ := mem_rows hrow
        rw [hm] at hm'
        cases hm'
        rw [hrowProtocol, hname]

theorem exists_readManifest_runCall (h : ∃ m, readManifest s.tree rid = some m) :
    ∃ m, readManifest (runCall rid s c).tree rid = some m := by
  obtain ⟨m, hm⟩ := h
  by_cases hskip : c.files = [] ∨ c.absent = true
  · rw [runCall_eq_self hskip]
    exact ⟨m, hm⟩
  · rw [not_or, Bool.not_eq_true] at hskip
    exact ⟨_, readManifest_runCall hm hskip.1 hskip.2⟩

/-- **Sequences of calls**: after each call every row of the run is described by its manifest,
    exactly if every call covers the run as it finds it. -/
theorem covered_iff {t : OutputTree} (hrun : ∃ m, readManifest t rid = some m)
    (calls : List Call) :
    Throughout (step rid) (Covered rid) ⟨t, []⟩ calls ↔
      Along (step rid) (CoversRun rid) ⟨t, []⟩ calls := by
  have hnone : Covered rid ⟨t, []⟩ := ⟨by simp, by simp, by simp⟩
  refine @throughout_iff_along _ _ _ (fun s : State => ∃ m, readManifest s.tree rid = some m)
    _ _ ?_ ?_ calls ⟨t, []⟩ hrun hnone
  · intro s c u hs hu
    cases hu
    exact exists_readManifest_runCall hs
  · intro s c hs hcovered
    obtain ⟨m, hm⟩ := hs
    rw [← covered_runCall_iff hm hcovered]
    constructor
    · intro h u hu
      cases hu
      exact h
    · intro h
      exact h _ rfl

end Sequences

/-! ## One manual invocation with two protocols -/

/-- The run that `_ensure_run(["mqtt", "http"])` creates. -/
def twoProtocolsRun : OutputTree :=
  { emptyTree with
    runs := [("r", ⟨⟨[], []⟩, some (newManifest [] ⟨"", "", none, none⟩ "r" "mqtt" none none)⟩)] }

/-- Commands that succeed; the client appends a row. -/
def appends (kind : Kind) : ℕ → Commands := fun _ =>
  { commandsOf 0 with client := ⟨[(kind, "", [])], 0⟩ }

def mqttCall : Call := ⟨.mqtt, [⟨"a.bin", 1⟩], false, none, true, appends .mqtt⟩

def httpCall : Call := ⟨.http, [⟨"a.bin", 1⟩], false, none, true, appends .http⟩

theorem readManifest_twoProtocolsRun :
    readManifest twoProtocolsRun "r" =
      some (newManifest [] ⟨"", "", none, none⟩ "r" "mqtt" none none) := rfl

theorem covered_iff_mqtt : mqttCall.rows = [⟨.mqtt, some 1, none⟩, ⟨.mqtt, some 2, none⟩] ∧
    Throughout (step "r") (Covered "r") ⟨twoProtocolsRun, []⟩ [mqttCall] := by
  refine ⟨by decide +kernel, ?_⟩
  refine (covered_iff ⟨_, readManifest_twoProtocolsRun⟩ [mqttCall]).2 ⟨?_, fun _ _ => trivial⟩
  intro _ _
  refine ⟨by simp, by simp, fun _ => ⟨_, readManifest_twoProtocolsRun, rfl⟩⟩

/-- After the second protocol the run is not found by it. -/
theorem not_covered_http :
    ¬ Throughout (step "r") (Covered "r") ⟨twoProtocolsRun, []⟩ [mqttCall, httpCall] := by
  intro h
  have hcovered := h [mqttCall, httpCall] _ List.prefix_rfl rfl
  have hfirst := @readManifest_runCall "r" ⟨twoProtocolsRun, []⟩ mqttCall _
    readManifest_twoProtocolsRun (by decide) rfl
  have hm := @readManifest_runCall "r" _ httpCall _ hfirst (by decide) rfl
  have hrow : (⟨.http, none, none⟩ : Row) ∈ httpCall.rows := by decide +kernel
  have hrows := hcovered.found ⟨.http, none, none⟩ (by
    rw [rows_runCall (by decide) rfl]
    exact List.mem_append_right _ hrow)
  have hprotocol := (mem_findRuns_iff hm .http).1 hrows
  rw [protocol_record, protocol_record] at hprotocol
  revert hprotocol
  decide

end TransferTestbed.RunCoverage
