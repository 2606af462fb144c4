import TransferTestbed.Library.Fallible
import TransferTestbed.Library.FileSystem
import TransferTestbed.Library.JsonStream

/-!
# `run.json` as a file (`common/runs.py`)

`update_manifest` opens `run.json` for writing and streams the merged dictionary into it, and
`find_runs` parses the `run.json` of every run. `json.load` is a parameter: a function of the
bytes of a file, a byte being the character with its number.

Results:

* `previousKept_iff`: the updates that keep the previous manifest if they do not complete.
* `noneHidden_iff`: the stores in which `find_runs` finds every run that matches.
* `manifests_iff`: both, for every store.
-/

namespace TransferTestbed.ManifestFiles

open JsonStream

/-! ## Model -/

/-- `json.load`, with `none` for a `ValueError`. The empty text is no document, and a
    document closes its brackets and strings. -/
structure JsonReader where
  load : List Char → Option Value
  load_nil : load [] = none
  closes : ∀ text v, load text = some v → scan closed text = closed

/-- The file `run.json` of each run. -/
abbrev Files := FileSystem String Char

def manifestOf (J : JsonReader) (fs : Files) (rid : String) : Option Value :=
  (fs.read rid).bind J.load

/-- The file holds this text after it was opened for writing. -/
def writeText (fs : Files) (rid : String) (text : List Char) : Files :=
  ((fs.openTruncate rid).1.writeAt (fs.openTruncate rid).2 text).1

/-- Where the process stops: not at all, before it opens the file for writing, or later with
    so many bytes of the text on the disk. -/
inductive Stop where
  | never
  | reading
  | writing (onDisk : ℕ)
deriving DecidableEq, Repr

inductive Outcome where
  | returned
  | raised
  | stopped
deriving DecidableEq, Repr

/-- What is on the disk of the text written. -/
def Stop.onDisk : Stop → List Char → List Char
  | .writing n, text => text.take n
  | _, text => text

/-- `write_manifest(run_dir_path, manifest)` (lines 181–183): it is complete when all of its
    text is on the disk. -/
def writeManifest (fs : Files) (rid : String) (manifest : Dict String Value)
    (stop : Stop) : Outcome × Files :=
  let text := stop.onDisk (emitted (pieces 0 (.dict manifest)))
  let outcome :=
    if text = fullText (pieces 0 (.dict manifest)) then .returned
    else if stop = .never then .raised
    else .stopped
  (outcome, writeText fs rid text)

/-- `update_manifest(output_dir, run_id, patch)` (lines 186–193). -/
def updateManifest (J : JsonReader) (fs : Files) (rid : String)
    (patch : Dict String Value) (stop : Stop) : Outcome × Files :=
  match fs.read rid with
  | none => (.returned, fs)
  | some text =>
    if stop = .reading then (.stopped, fs)
    else
      match J.load text with
      | some (.dict manifest) => writeManifest fs rid (Dict.update manifest patch) stop
      | _ => (.raised, fs)

/-- The run directories, and the `run.json` of those that have one. -/
structure RunStore where
  names : List String
  files : Files

/-- `list_runs(output_dir)` (lines 204–213). -/
def listRuns (s : RunStore) : List String :=
  (s.names.filter fun rid => (s.files.read rid).isSome).mergeSort fun a b => b ≤ a

inductive FindError where
  | jsonDecodeError
  | attributeError
deriving DecidableEq, Repr

/-- `read_manifest(output_dir, run_id)` (lines 196–201). -/
def readManifest (J : JsonReader) (s : RunStore) (rid : String) :
    Except FindError (Option Value) :=
  match s.files.read rid with
  | none => .ok none
  | some text =>
    match J.load text with
    | none => .error .jsonDecodeError
    | some v => .ok (some v)

/-- `bool(v)`. -/
def truthy : Value → Bool
  | .null => false
  | .bool b => b
  | .int z => z ≠ 0
  | .float q => q ≠ 0
  | .str s => s ≠ ""
  | .list vs => !vs.isEmpty
  | .dict ms => !ms.isEmpty
  | _ => true

/-- `manifest or {}`. -/
def orEmpty : Option Value → Value
  | none => .dict []
  | some v => if truthy v then v else .dict []

/-- A filter that is not empty. -/
def given : Option String → Option String
  | none => none
  | some want => if want = "" then none else some want

/-- `v == want`, for a string. -/
def isStr (want : String) : Option Value → Bool
  | some (.str s) => s = want
  | _ => false

/-- `not (filter and manifest.get(key) != filter)`. -/
def passes (filter : Option String) (key : String) (manifest : Value) : Except FindError Bool :=
  match given filter with
  | none => .ok true
  | some want =>
    match manifest with
    | .dict ms => .ok (isStr want (Dict.get? ms key))
    | _ => .error .attributeError

/-- The two tests of the loop of `find_runs` (lines 225–228). -/
def keeps (protocol profile : Option String) (manifest : Value) : Except FindError Bool := do
  if ← passes protocol "protocol" manifest then passes profile "network_profile" manifest
  else pure false

/-- The loop of `find_runs` (lines 222–230). -/
def findLoop (J : JsonReader) (s : RunStore) (protocol profile : Option String) :
    List String → Except FindError (List String)
  | [] => .ok []
  | rid :: rids => do
    let manifest ← readManifest J s rid
    let kept ← keeps protocol profile (orEmpty manifest)
    let matched ← findLoop J s protocol profile rids
    return if kept then rid :: matched else matched

/-- `find_runs(output_dir, protocol, profile)` (lines 216–230). -/
def findRuns (J : JsonReader) (s : RunStore) (protocol profile : Option String) :
    Except FindError (List String) :=
  findLoop J s protocol profile (listRuns s)

/-! ## The property -/

/-- An update that does not complete keeps the previous manifest. -/
def PreviousKept (J : JsonReader) (fs : Files) (rid : String)
    (patch : Dict String Value) (stop : Stop) : Prop :=
  (updateManifest J fs rid patch stop).1 ≠ .returned →
    manifestOf J (updateManifest J fs rid patch stop).2 rid = manifestOf J fs rid

/-- The update does not open the file for writing, or nothing keeps it from writing all. -/
def WholeOrUntouched (J : JsonReader) (fs : Files) (rid : String)
    (patch : Dict String Value) (stop : Stop) : Prop :=
  ∀ previous, manifestOf J fs rid = some (.dict previous) → stop = .reading ∨
    (serialisable (.dict (Dict.update previous patch)) = true ∧ ∀ n, stop = .writing n →
      (fullText (pieces 0 (.dict (Dict.update previous patch)))).length ≤ n)

/-- The manifest of a run has the protocol and the profile that are asked for. -/
def Matches (J : JsonReader) (s : RunStore) (protocol profile : Option String) (rid : String) :
    Prop :=
  ∃ ms, manifestOf J s.files rid = some (.dict ms) ∧
    (∀ want, given protocol = some want → isStr want (Dict.get? ms "protocol") = true) ∧
    ∀ want, given profile = some want → isStr want (Dict.get? ms "network_profile") = true

/-- Every run that matches is found. -/
def NoneHidden (J : JsonReader) (s : RunStore) (protocol profile : Option String) : Prop :=
  ∃ found, findRuns J s protocol profile = .ok found ∧
    ∀ rid ∈ s.names, Matches J s protocol profile rid → rid ∈ found

/-- `run.json` is a document; if it is neither an object nor false, no filter asks for a
    member of it. -/
def Readable (J : JsonReader) (s : RunStore) (protocol profile : Option String) (rid : String) :
    Prop :=
  ∃ v, manifestOf J s.files rid = some v ∧
    ((∃ ms, v = .dict ms) ∨ truthy v = false ∨ (given protocol = none ∧ given profile = none))

/-! ## Updates -/

theorem read_writeText (fs : Files) (rid : String) (text : List Char) :
    (writeText fs rid text).read rid = some text := by
  have h := (fs.atEnd_openTruncate rid).writeAt text
  exact h.read

/-- What has been written of an object before its end is no document. -/
theorem load_eq_none (J : JsonReader) {manifest : Dict String Value} {p : List Char}
    (hp : p <+: fullText (pieces 0 (.dict manifest)))
    (hne : p ≠ fullText (pieces 0 (.dict manifest))) : J.load p = none := by
  by_cases hnil : p = []
  · rw [hnil, J.load_nil]
  · cases hload : J.load p with
    | none => rfl
    | some v => exact absurd (J.closes p v hload) (scan_ne_closed hp hnil hne)

theorem onDisk_prefix (stop : Stop) (ps : List Piece) :
    stop.onDisk (emitted ps) <+: fullText ps := by
  cases stop with
  | never => exact emitted_prefix_fullText ps
  | reading => exact emitted_prefix_fullText ps
  | writing n => exact (List.take_prefix n _).trans (emitted_prefix_fullText ps)

/-- The text on the disk is whole if every value is serialisable and the process does not
    stop before its end. -/
theorem onDisk_eq_fullText_iff {stop : Stop} (hstop : stop ≠ .reading)
    (manifest : Dict String Value) :
    stop.onDisk (emitted (pieces 0 (.dict manifest))) = fullText (pieces 0 (.dict manifest)) ↔
      serialisable (.dict manifest) = true ∧ ∀ n, stop = .writing n →
        (fullText (pieces 0 (.dict manifest))).length ≤ n := by
  rw [← emitted_eq_fullText_iff 0 manifest]
  have hprefix := emitted_prefix_fullText (pieces 0 (.dict manifest))
  generalize emitted (pieces 0 (.dict manifest)) = text at *
  generalize fullText (pieces 0 (.dict manifest)) = full at *
  cases stop with
  | never => simp [Stop.onDisk]
  | reading => exact absurd rfl hstop
  | writing n =>
    show text.take n = full ↔ _
    constructor
    · intro h
      have hle : full.length ≤ text.length := by
        rw [← h]
        exact List.length_take_le' _ _
      have heq := hprefix.eq_of_length_le hle
      refine ⟨heq, ?_⟩
      rintro m hm
      cases hm
      rw [← h]
      exact List.length_take_le _ _
    · rintro ⟨rfl, hn⟩
      exact List.take_of_length_le (hn n rfl)

/-- **Which updates keep the previous manifest.** -/
theorem previousKept_iff (J : JsonReader) (fs : Files) (rid : String)
    (patch : Dict String Value) (stop : Stop) :
    PreviousKept J fs rid patch stop ↔ WholeOrUntouched J fs rid patch stop := by
  unfold PreviousKept WholeOrUntouched updateManifest manifestOf
  cases hread : fs.read rid with
  | none => simp
  | some text =>
    simp only [Option.bind_some]
    by_cases hstop : stop = .reading
    · simp [hstop, hread]
    rw [if_neg hstop]
    cases hload : J.load text with
    | none => simp [hread, hload]
    | some v =>
      cases v with
      | dict previous =>
        simp only [Option.some.injEq, Value.dict.injEq, forall_eq', hstop, false_or]
        rw [← onDisk_eq_fullText_iff hstop, writeManifest]
        simp only [read_writeText, Option.bind_some]
        have hprefix := onDisk_prefix stop (pieces 0 (.dict (Dict.update previous patch)))
        generalize stop.onDisk (emitted (pieces 0 (.dict (Dict.update previous patch)))) = p at *
        constructor
        · intro h
          by_contra hne
          rw [load_eq_none J hprefix hne, if_neg hne] at h
          split_ifs at h
          · exact absurd (h (by decide)) (by simp)
          · exact absurd (h (by decide)) (by simp)
        · intro h hout
          rw [if_pos h] at hout
          exact absurd rfl hout
      | _ => simp [hread, hload]

/-! ## Queries -/

section Queries

variable {J : JsonReader} {s : RunStore} {protocol profile : Option String}

theorem mem_listRuns {rid : String} :
    rid ∈ listRuns s ↔ rid ∈ s.names ∧ (s.files.read rid).isSome = true := by
  rw [listRuns, List.mem_mergeSort, List.mem_filter]

theorem passes_dict (filter : Option String) (key : String) (ms : Dict String Value) :
    passes filter key (.dict ms) =
      .ok ((given filter).all fun want => isStr want (Dict.get? ms key)) := by
  unfold passes
  cases given filter <;> rfl

/-- Only an object is asked for a member. -/
theorem passes_of_not_dict {v : Value} (hv : ∀ ms, v ≠ .dict ms) (filter : Option String)
    (key : String) : passes filter key v =
      if given filter = none then .ok true else .error .attributeError := by
  unfold passes
  cases given filter with
  | none => rfl
  | some want =>
    cases v with
    | dict ms => exact absurd rfl (hv ms)
    | _ => rfl

theorem keeps_dict (protocol profile : Option String) (ms : Dict String Value) :
    keeps protocol profile (.dict ms) =
      .ok ((given protocol).all (fun want => isStr want (Dict.get? ms "protocol")) &&
        (given profile).all fun want => isStr want (Dict.get? ms "network_profile")) := by
  rw [keeps, passes_dict, passes_dict]
  cases (given protocol).all fun want => isStr want (Dict.get? ms "protocol") <;> rfl

theorem exists_keeps_iff (v : Value) :
    (∃ b, keeps protocol profile v = .ok b) ↔
      (∃ ms, v = .dict ms) ∨ (given protocol = none ∧ given profile = none) := by
  by_cases hv : ∃ ms, v = .dict ms
  · obtain ⟨ms, rfl⟩ := hv
    exact iff_of_true ⟨_, keeps_dict protocol profile ms⟩ (.inl ⟨ms, rfl⟩)
  · have hne : ∀ ms, v ≠ .dict ms := fun ms h => hv ⟨ms, h⟩
    rw [keeps, passes_of_not_dict hne, passes_of_not_dict hne]
    by_cases hprotocol : given protocol = none
    · by_cases hprofile : given profile = none
      · rw [if_pos hprotocol, if_pos hprofile]
        exact iff_of_true ⟨true, rfl⟩ (.inr ⟨hprotocol, hprofile⟩)
      · rw [if_pos hprotocol, if_neg hprofile]
        refine iff_of_false ?_ ?_
        · rintro ⟨b, hb⟩
          cases hb
        · rintro (h | ⟨-, h⟩)
          · exact hv h
          · exact hprofile h
    · rw [if_neg hprotocol]
      refine iff_of_false ?_ ?_
      · rintro ⟨b, hb⟩
        cases hb
      · rintro (h | ⟨h, -⟩)
        · exact hv h
        · exact hprotocol h

theorem exists_keeps_orEmpty_iff (v : Value) :
    (∃ b, keeps protocol profile (orEmpty (some v)) = .ok b) ↔
      (∃ ms, v = .dict ms) ∨ truthy v = false ∨ (given protocol = none ∧ given profile = none) := by
  rw [exists_keeps_iff, orEmpty]
  cases htruthy : truthy v with
  | true => simp
  | false => simp

/-- A run that has a `run.json` is read and filtered, unless one of the two raises. -/
theorem readable_iff {rid : String} :
    Readable J s protocol profile rid ↔ ∃ v, readManifest J s rid = .ok (some v) ∧
      ∃ b, keeps protocol profile (orEmpty (some v)) = .ok b := by
  simp only [Readable, exists_keeps_orEmpty_iff, manifestOf, readManifest]
  cases s.files.read rid with
  | none => simp
  | some text =>
    simp only [Option.bind_some]
    cases J.load text <;> simp

/-- A run with a `run.json` has a manifest. -/
theorem exists_of_readManifest {rid : String} {manifest : Option Value}
    (hfile : (s.files.read rid).isSome = true) (h : readManifest J s rid = .ok manifest) :
    ∃ v, manifest = some v := by
  unfold readManifest at h
  cases hread : s.files.read rid with
  | none =>
    rw [hread] at hfile
    cases hfile
  | some text =>
    rw [hread] at h
    cases hload : J.load text with
    | none =>
      simp only [hload] at h
      cases h
    | some v =>
      simp only [hload] at h
      exact ⟨v, (Except.ok.inj h).symm⟩

theorem findLoop_cons (rid : String) (rids : List String) {v : Value} {b : Bool}
    (hread : readManifest J s rid = .ok (some v))
    (hkeeps : keeps protocol profile (orEmpty (some v)) = .ok b) :
    findLoop J s protocol profile (rid :: rids) =
      (findLoop J s protocol profile rids).map fun matched =>
        if b then rid :: matched else matched := by
  rw [findLoop, hread]
  simp only [bind, Except.bind, hkeeps]
  cases findLoop J s protocol profile rids <;> rfl

/-- The loop returns exactly if every run is readable. -/
theorem exists_findLoop_iff {rids : List String}
    (h : ∀ rid ∈ rids, (s.files.read rid).isSome = true) :
    (∃ found, findLoop J s protocol profile rids = .ok found) ↔
      ∀ rid ∈ rids, Readable J s protocol profile rid := by
  induction rids with
  | nil => exact iff_of_true ⟨[], rfl⟩ (by simp)
  | cons rid rids ih =>
    have hrest := ih fun r hr => h r (List.mem_cons_of_mem _ hr)
    rw [List.forall_mem_cons, ← hrest, readable_iff]
    constructor
    · rintro ⟨found, hfound⟩
      rw [findLoop] at hfound
      obtain ⟨manifest, hread, hfound⟩ := Fallible.bind_eq_ok.1 hfound
      obtain ⟨b, hkeeps, hfound⟩ := Fallible.bind_eq_ok.1 hfound
      obtain ⟨matched, hmatched, -⟩ := Fallible.bind_eq_ok.1 hfound
      obtain ⟨v, rfl⟩ := exists_of_readManifest (h rid List.mem_cons_self) hread
      exact ⟨⟨v, hread, b, hkeeps⟩, matched, hmatched⟩
    · rintro ⟨⟨v, hread, b, hkeeps⟩, found, hfound⟩
      rw [findLoop_cons rid rids hread hkeeps, hfound]
      exact ⟨_, rfl⟩

theorem readManifest_of_manifestOf {rid : String} {v : Value}
    (h : manifestOf J s.files rid = some v) : readManifest J s rid = .ok (some v) := by
  obtain ⟨text, hread, hload⟩ := Option.bind_eq_some_iff.1 h
  unfold readManifest
  rw [hread]
  simp only [hload]

theorem orEmpty_dict (ms : Dict String Value) : orEmpty (some (.dict ms)) = .dict ms := by
  cases ms <;> rfl

theorem all_given {filter : Option String} {p : String → Bool}
    (h : ∀ want, given filter = some want → p want = true) : (given filter).all p = true := by
  cases hfilter : given filter with
  | none => rfl
  | some want => exact h want hfilter

/-- What is found of the runs that match. -/
theorem mem_of_findLoop {rids found : List String}
    (h : findLoop J s protocol profile rids = .ok found) {rid : String} (hrid : rid ∈ rids)
    (hmatches : Matches J s protocol profile rid) : rid ∈ found := by
  induction rids generalizing found with
  | nil => cases hrid
  | cons r rids ih =>
    rw [findLoop] at h
    obtain ⟨manifest, hread, h⟩ := Fallible.bind_eq_ok.1 h
    obtain ⟨b, hkeeps, h⟩ := Fallible.bind_eq_ok.1 h
    obtain ⟨matched, hmatched, h⟩ := Fallible.bind_eq_ok.1 h
    have hfound : (if b then r :: matched else matched) = found := Except.ok.inj h
    rcases List.mem_cons.1 hrid with rfl | hrid
    · obtain ⟨ms, hms, hprotocol, hprofile⟩ := hmatches
      rw [readManifest_of_manifestOf hms] at hread
      rw [← Except.ok.inj hread, orEmpty_dict, keeps_dict, all_given hprotocol,
        all_given hprofile] at hkeeps
      rw [← hfound, ← Except.ok.inj hkeeps]
      exact List.mem_cons_self
    · have := ih hmatched hrid
      rw [← hfound]
      split_ifs
      · exact List.mem_cons_of_mem _ this
      · exact this

/-- **When `find_runs` finds every run that matches.** -/
theorem noneHidden_iff (J : JsonReader) (s : RunStore) (protocol profile : Option String) :
    NoneHidden J s protocol profile ↔ ∀ rid ∈ listRuns s, Readable J s protocol profile rid := by
  have hfiles : ∀ rid ∈ listRuns s, (s.files.read rid).isSome = true :=
    fun rid hrid => (mem_listRuns.1 hrid).2
  rw [← exists_findLoop_iff hfiles]
  constructor
  · rintro ⟨found, hfound, -⟩
    exact ⟨found, hfound⟩
  · rintro ⟨found, hfound⟩
    refine ⟨found, hfound, ?_⟩
    intro rid hrid hmatches
    refine mem_of_findLoop hfound (mem_listRuns.2 ⟨hrid, ?_⟩) hmatches
    obtain ⟨ms, hms, -⟩ := hmatches
    obtain ⟨text, htext, -⟩ := Option.bind_eq_some_iff.1 hms
    rw [htext]
    rfl

end Queries

/-- **Manifests.** An update that does not complete keeps the previous manifest exactly if it
    ends before it opens the file, and every run that matches is found exactly if every
    `run.json` is readable. -/
theorem manifests_iff (J : JsonReader) :
    (∀ (fs : Files) (rid : String) (patch : Dict String Value) (stop : Stop),
      PreviousKept J fs rid patch stop ↔ WholeOrUntouched J fs rid patch stop) ∧
    ∀ (s : RunStore) (protocol profile : Option String),
      NoneHidden J s protocol profile ↔ ∀ rid ∈ listRuns s, Readable J s protocol profile rid :=
  ⟨previousKept_iff J, noneHidden_iff J⟩

/-! ## A value that is not serialisable -/

def ofScalar : Json.Scalar → Value
  | .null => .null
  | .bool b => .bool b
  | .int z => .int z
  | .str s => .str s

/-- Documents that are flat objects. -/
def flatReader : JsonReader where
  load text :=
    if text = [] ∨ scan closed text ≠ closed then none
    else (Json.loads text).map fun o => .dict (o.map fun m => (m.1, ofScalar m.2))
  load_nil := if_pos (.inl rfl)
  closes text v h := by
    by_contra hne
    rw [if_pos (.inr hne)] at h
    cases h

def mqttText : List Char := "\x7b\"protocol\": \"mqtt\"\x7d".toList

theorem load_mqttText : flatReader.load mqttText = some (.dict [("protocol", .str "mqtt")]) := by
  have hopen : ¬ (mqttText = [] ∨ scan closed mqttText ≠ closed) := by decide +kernel
  have hloads : Json.loads mqttText = some [("protocol", .str "mqtt")] := by decide +kernel
  rw [flatReader]
  simp only [if_neg hopen, hloads, Option.map_some, List.map_cons, List.map_nil, ofScalar]

/-- Two runs. -/
def twoRuns : RunStore :=
  ⟨["a", "b"], writeText (writeText FileSystem.empty "a" mqttText) "b" mqttText⟩

/-- A list of paths instead of a list of names. -/
def pathPatch : Dict String Value := [("files", .list [.other])]

/-- After an update of the one run raises, its manifest is lost and the other is not found. -/
theorem not_manifests_twoRuns :
    ¬ PreviousKept flatReader twoRuns.files "a" pathPatch .never ∧
      Matches flatReader
        ⟨twoRuns.names, (updateManifest flatReader twoRuns.files "a" pathPatch .never).2⟩
        (some "mqtt") none "b" ∧
      ¬ NoneHidden flatReader
        ⟨twoRuns.names, (updateManifest flatReader twoRuns.files "a" pathPatch .never).2⟩
        (some "mqtt") none := by
  refine ⟨?_, ?_, ?_⟩
  · intro hkept
    have hlost := congrArg Option.isSome (hkept (by decide +kernel))
    revert hlost
    decide +kernel
  · have hread : (updateManifest flatReader twoRuns.files "a" pathPatch .never).2.read "b" =
        some mqttText := by decide +kernel
    refine ⟨[("protocol", .str "mqtt")], ?_, ?_, ?_⟩
    · rw [manifestOf, hread, Option.bind_some, load_mqttText]
    · intro want hwant
      rw [given, if_neg (by decide)] at hwant
      rw [← Option.some.inj hwant]
      decide
    · intro want hwant
      cases hwant
  · rw [noneHidden_iff]
    intro hall
    obtain ⟨v, hv, -⟩ := hall "a" (mem_listRuns.2 ⟨by decide, by decide +kernel⟩)
    have hlost := congrArg Option.isSome hv
    rw [Option.isSome_some] at hlost
    revert hlost
    decide +kernel

end TransferTestbed.ManifestFiles
