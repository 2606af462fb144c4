import Mathlib.Data.Int.Notation
import Mathlib.Data.List.DropRight
import Mathlib.Data.Nat.Notation
import TransferTestbed.Library.Csv

/-!
# The run registry (`common/runs.py`)

The output tree of the harness: the `.active_run` marker, the run directories
under `runs/` and the flat directory used when no run is active. Run ids are
keys of the tree (single path components), every process resolves the same
output directory, and a manifest is the record that `run.json` holds.

Results:
* `newRun_ok`: what a successful `new_run` does to the tree.
* `activeRunId_of_marker`: a process without `RUN_ID` resolves the marker.
-/

namespace TransferTestbed.Runs

/-! ## Text -/

/-- The characters that `str.strip` removes. -/
def isSpace (c : Char) : Bool :=
  let n := c.toNat
  (9 ≤ n && n ≤ 13) || (28 ≤ n && n ≤ 32) || n = 0x85 || n = 0xa0 || n = 0x1680 ||
    (0x2000 ≤ n && n ≤ 0x200a) || n = 0x2028 || n = 0x2029 || n = 0x202f || n = 0x205f || n = 0x3000

/-- `s.strip()`. -/
def strip (s : String) : String :=
  String.ofList ((s.toList.dropWhile isSpace).reverse.dropWhile isSpace).reverse

/-- What a text file reads as: CR and CR LF are translated to LF. -/
def universalNewlines : List Char → List Char
  | [] => []
  | c :: cs =>
    if c = Csv.cr then
      match cs with
      | [] => [Csv.lf]
      | d :: ds =>
        if d = Csv.lf then Csv.lf :: universalNewlines ds else Csv.lf :: universalNewlines (d :: ds)
    else c :: universalNewlines cs

/-! ## The output tree -/

/-- `run.json`. -/
structure Manifest where
  runId : String
  createdAt : String
  protocol : String
  networkProfile : String
  env : Dict String String
  docker : Option String
  tshark : Option String
  flow : Option String
  fileSizes : Option (List ℕ)
  files : Option (List String)
  qosLevels : Option (List ℤ)
deriving DecidableEq, Repr

/-- Measurements: the text of each `{kind}_measurements.csv`, and the names copied
    into `pcap/`, in order. -/
structure Measurements where
  csv : Dict String (List Char)
  pcap : List String
deriving DecidableEq, Repr

structure RunDir extends Measurements where
  manifest : Option Manifest
deriving DecidableEq, Repr

structure OutputTree where
  marker : Option String
  runs : Dict String RunDir
  flat : Measurements
deriving DecidableEq, Repr

def emptyTree : OutputTree := ⟨none, [], ⟨[], []⟩⟩

/-- `os.path.exists(run_dir(output_dir, rid))`. -/
def OutputTree.hasRun (t : OutputTree) (rid : String) : Prop := rid ∈ t.runs.keys

instance (t : OutputTree) (rid : String) : Decidable (t.hasRun rid) :=
  inferInstanceAs (Decidable (rid ∈ t.runs.keys))

/-- The environment variables of a process. -/
abbrev Env := Dict String String

def getenv (env : Env) (key : String) (default : String) : String := (env.get? key).getD default

/-! ## The active run (lines 60–86) -/

def readMarker (t : OutputTree) : Option String :=
  match t.marker with
  | none => none
  | some text =>
    let rid := strip (String.ofList (universalNewlines text.toList))
    if rid = "" then none else some rid

def writeMarker (t : OutputTree) (rid : String) : OutputTree := { t with marker := some rid }

def clearMarker (t : OutputTree) : OutputTree := { t with marker := none }

/-- `active_run_id`: the `RUN_ID` variable, then the marker. -/
def activeRunId (env : Env) (t : OutputTree) : Option String :=
  let rid := strip (getenv env "RUN_ID" "")
  if rid = "" then readMarker t else some rid

/-! ## Creating runs (lines 52–57, 151–194) -/

def runIdFor (stamp protocol : String) (profile : Option String) : String :=
  match profile with
  | none => stamp ++ "_" ++ protocol
  | some profile =>
    if profile = "" then stamp ++ "_" ++ protocol
    else stamp ++ "_" ++ protocol ++ "_" ++ profile

def manifestEnvKeys : List String :=
  ["NETWORK_PROFILE", "MEASUREMENT_SUFFIX", "DATA_DIR", "OUTPUT_DIR"]

/-- What `new_run` reads of the world: the time of its id and of its manifest, and
    the tool versions. -/
structure Now where
  stamp : String
  createdAt : String
  docker : Option String
  tshark : Option String
deriving DecidableEq, Repr

/-- Raised when the run directory exists. -/
structure FileExistsError where
  rid : String
deriving DecidableEq, Repr

def FileExistsError.message (e : FileExistsError) : String :=
  "Run directory already exists: " ++ e.rid ++
    ". Runs are immutable; pass a different --run-id or delete the old run."

/-- `a or b` on optional strings: the empty string is false. -/
def orElse (a : Option String) (b : String) : String :=
  match a with
  | none => b
  | some s => if s = "" then b else s

def newManifest (env : Env) (now : Now) (rid protocol : String) (profile flow : Option String) :
    Manifest where
  runId := rid
  createdAt := now.createdAt
  protocol := protocol
  networkProfile := orElse profile (getenv env "NETWORK_PROFILE" "")
  env := manifestEnvKeys.map fun key => (key, getenv env key "")
  docker := now.docker
  tshark := now.tshark
  flow := flow
  fileSizes := none
  files := none
  qosLevels := none

/-- `new_run(output_dir, protocol, profile, run_id, meta)`. -/
def newRun (env : Env) (now : Now) (t : OutputTree) (protocol : String)
    (profile runId flow : Option String) : Except FileExistsError (String × OutputTree) :=
  let rid := orElse runId (runIdFor now.stamp protocol profile)
  if t.hasRun rid then .error ⟨rid⟩
  else
    .ok (rid, { t with
      runs := t.runs.insert rid
        { csv := []
          pcap := []
          manifest := some (newManifest env now rid protocol profile flow) } })

/-! ## Reading and writing runs -/

def readManifest (t : OutputTree) (rid : String) : Option Manifest :=
  (t.runs.get? rid).bind RunDir.manifest

/-- `update_manifest`, for a patch of the record; without a manifest nothing happens. -/
def updateManifest (t : OutputTree) (rid : String) (patch : Manifest → Manifest) : OutputTree :=
  match t.runs.get? rid with
  | none => t
  | some d => { t with runs := t.runs.insert rid { d with manifest := d.manifest.map patch } }

/-- The measurements of a run, or of the flat directory. -/
def OutputTree.measurements (t : OutputTree) : Option String → Option Measurements
  | none => some t.flat
  | some rid => (t.runs.get? rid).map RunDir.toMeasurements

/-- Rewrites the measurements of a run, making its directory when it is missing,
    or those of the flat directory. -/
def OutputTree.modify (t : OutputTree) (dest : Option String)
    (f : Measurements → Measurements) : OutputTree :=
  match dest with
  | none => { t with flat := f t.flat }
  | some rid =>
    let d := (t.runs.get? rid).getD ⟨⟨[], []⟩, none⟩
    { t with runs := t.runs.insert rid { d with toMeasurements := f d.toMeasurements } }

/-- `load_csv(output_dir, run_id, kind)`. -/
def loadCsv (t : OutputTree) (rid kind : String) : Option (List Csv.DictRow) :=
  ((t.measurements (some rid)).bind fun m => m.csv.get? kind).map Csv.readDicts

/-! ## Text of run ids -/

theorem mem_dropWhile {p : Char → Bool} {c : Char} {l : List Char} (h : c ∈ l) (hp : p c = false) :
    c ∈ l.dropWhile p := by
  rw [← List.takeWhile_append_dropWhile (p := p) (l := l), List.mem_append] at h
  refine h.resolve_left fun htake => ?_
  have := List.all_eq_true.1 List.all_takeWhile c htake
  rw [hp] at this
  cases this

theorem mem_strip {c : Char} {s : String} (h : c ∈ s.toList) (hc : isSpace c = false) :
    c ∈ (strip s).toList := by
  rw [strip, String.toList_ofList, List.mem_reverse]
  exact mem_dropWhile (List.mem_reverse.2 (mem_dropWhile h hc)) hc

theorem mem_universalNewlines {c : Char} {l : List Char} (h : c ∈ l) (hcr : c ≠ Csv.cr)
    (hlf : c ≠ Csv.lf) : c ∈ universalNewlines l := by
  fun_induction universalNewlines l with
  | case1 => simp at h
  | case2 => simp [hcr] at h
  | case3 ds ih =>
    have hds : c ∈ ds := by simpa [hcr, hlf] using h
    exact List.mem_cons_of_mem _ (ih hds)
  | case4 d ds _ ih =>
    have hds : c ∈ d :: ds := by simpa [hcr] using h
    exact List.mem_cons_of_mem _ (ih hds)
  | case5 d ds _ ih =>
    rcases List.mem_cons.1 h with rfl | hds
    · simp
    · exact List.mem_cons_of_mem _ (ih hds)

theorem mem_runIdFor (stamp protocol : String) (profile : Option String) :
    '_' ∈ (runIdFor stamp protocol profile).toList := by
  unfold runIdFor
  split
  · simp
  · split_ifs <;> simp

theorem toList_strip (s : String) :
    (strip s).toList = (s.toList.dropWhile isSpace).rdropWhile isSpace :=
  String.toList_ofList

/-- What stands between blanks is left when it neither starts nor ends with one. -/
theorem toList_strip_between {before core after : List Char}
    (hblank : ∀ c ∈ before ++ after, isSpace c = true)
    (hhead : ∀ c ∈ core.head?, isSpace c = false)
    (hlast : ∀ c ∈ core.getLast?, isSpace c = false) :
    (strip (String.ofList (before ++ core ++ after))).toList = core := by
  have hafter : ∀ c ∈ after, isSpace c = true :=
    fun c hc => hblank c (List.mem_append_right _ hc)
  rw [toList_strip, String.toList_ofList, List.append_assoc,
    List.dropWhile_append_of_pos fun c hc => hblank c (List.mem_append_left _ hc)]
  cases core with
  | nil =>
    rw [List.nil_append, List.dropWhile_eq_nil_iff.2 hafter]
    rfl
  | cons c cs =>
    have hc := hhead c rfl
    rw [List.cons_append, List.dropWhile_cons_of_neg (by rw [hc]; simp), ← List.cons_append,
      List.rdropWhile, List.reverse_append,
      List.dropWhile_append_of_pos fun d hd => hafter d (List.mem_reverse.1 hd)]
    cases hrev : (c :: cs).reverse with
    | nil => exact absurd hrev (by simp)
    | cons d ds =>
      have hd : isSpace d = false := by
        apply hlast
        rw [← List.head?_reverse, hrev]
        rfl
      rw [List.dropWhile_cons_of_neg (by rw [hd]; simp), ← hrev, List.reverse_reverse]

/-- A text without spaces is its own strip. -/
theorem strip_eq_self {s : String} (h : ∀ c ∈ s.toList, isSpace c = false) : strip s = s := by
  have hbetween := @toList_strip_between [] s.toList [] (by simp)
    (fun c hc => h c (List.mem_of_head? hc)) (fun c hc => h c (List.mem_of_getLast? hc))
  rw [List.nil_append, List.append_nil, String.ofList_toList] at hbetween
  exact String.toList_injective hbetween

theorem universalNewlines_eq_self {l : List Char} (h : ∀ c ∈ l, c ≠ Csv.cr) :
    universalNewlines l = l := by
  induction l with
  | nil => rfl
  | cons c l ih =>
    have hc : c ≠ Csv.cr := h c List.mem_cons_self
    unfold universalNewlines
    rw [if_neg hc, ih fun d hd => h d (List.mem_cons_of_mem c hd)]

/-! ## Lemmas -/

theorem hasRun_iff (t : OutputTree) (rid : String) :
    t.hasRun rid ↔ t.runs.get? rid ≠ none := by
  rw [OutputTree.hasRun, Ne, Dict.get?_eq_none_iff, not_not]

@[simp] theorem marker_modify (t : OutputTree) (dest : Option String)
    (f : Measurements → Measurements) : (t.modify dest f).marker = t.marker := by
  cases dest <;> rfl

theorem measurements_modify_self (t : OutputTree) (dest : Option String)
    (f : Measurements → Measurements) :
    (t.modify dest f).measurements dest = some (f ((t.measurements dest).getD ⟨[], []⟩)) := by
  cases dest with
  | none => rfl
  | some rid =>
    simp only [OutputTree.modify, OutputTree.measurements, Dict.get?_insert, if_true,
      Option.map_some]
    cases t.runs.get? rid <;> rfl

theorem measurements_modify_of_ne (t : OutputTree) {dest d : Option String} (h : d ≠ dest)
    (f : Measurements → Measurements) : (t.modify dest f).measurements d = t.measurements d := by
  cases dest with
  | none =>
    cases d with
    | none => exact absurd rfl h
    | some rid => rfl
  | some rid =>
    cases d with
    | none => rfl
    | some rid' =>
      have hne : rid' ≠ rid := fun heq => h (congrArg some heq)
      simp [OutputTree.modify, OutputTree.measurements, Dict.get?_insert, hne]

/-- What a successful `new_run` does: the id was free, the run is new and empty,
    and nothing else changes. -/
theorem newRun_ok {env : Env} {now : Now} {t t' : OutputTree} {protocol rid : String}
    {profile runId flow : Option String}
    (h : newRun env now t protocol profile runId flow = .ok (rid, t')) :
    rid = orElse runId (runIdFor now.stamp protocol profile) ∧ ¬ t.hasRun rid ∧ t'.hasRun rid ∧
      t'.marker = t.marker ∧ ∀ d, d ≠ some rid → t'.measurements d = t.measurements d := by
  simp only [newRun] at h
  split_ifs at h with hrun
  obtain ⟨rfl, rfl⟩ := Prod.mk.inj (Except.ok.inj h)
  refine ⟨rfl, hrun, ?_, rfl, ?_⟩
  · rw [hasRun_iff, Dict.get?_insert, if_pos rfl]
    simp
  · intro d hd
    cases d with
    | none => rfl
    | some rid =>
      have hne : rid ≠ orElse runId (runIdFor now.stamp protocol profile) :=
        fun heq => hd (congrArg some heq)
      simp [OutputTree.measurements, Dict.get?_insert, hne]

/-- `new_run` raises exactly when the directory of its id exists. -/
theorem newRun_error_iff {env : Env} {now : Now} {t : OutputTree} {protocol : String}
    {profile runId flow : Option String} :
    (∃ e, newRun env now t protocol profile runId flow = .error e) ↔
      t.hasRun (orElse runId (runIdFor now.stamp protocol profile)) := by
  simp only [newRun]
  split_ifs with h
  · simp [h]
  · simp [h]

/-- A process without `RUN_ID` resolves the marker. -/
theorem activeRunId_of_marker {env : Env} (h : strip (getenv env "RUN_ID" "") = "")
    (t : OutputTree) : activeRunId env t = readMarker t := by
  rw [activeRunId, h]
  exact if_pos rfl

end TransferTestbed.Runs
