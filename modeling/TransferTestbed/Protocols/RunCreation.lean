import TransferTestbed.Library.Transition
import TransferTestbed.Protocols.RunHistory

/-!
# Concurrent calls of `new_run`

The file-system steps of any number of `new_run` calls (`common/runs.py`) and of
`output_directory_exists` in containers (`common/file_manager.py`), in any order. A call
checks that its run directory is absent, makes it and those around it, one at a time and
whether or not they exist by then, asks the tools for their versions, opens `run.json` and
writes it.

Results:

* `passed_of_step`: a call gets past its check where it finds no directory, and nowhere else.
* `neverMerged_iff`: runs are not merged exactly if no call makes its check while another one
  is between its check and the making of the same directory.
-/

namespace TransferTestbed.RunCreation

open RunHistory Transition

/-! ## Model -/

/-- The directories of run ids: `run_dir(output_dir, rid)`, and what `os.makedirs` makes for
    the `pcap` directory in it, outermost first. -/
structure Layout (δ : Type) where
  target : String → δ
  path : String → List δ
  target_mem : ∀ rid, target rid ∈ path rid

/-- `run.json` in a directory: what was there before, empty, or the manifest of a call. -/
inductive ManifestFile where
  | before
  | empty
  | of (call : ℕ)
deriving DecidableEq, Repr

/-- How far a call is; `making` has the directories that are still to be made. -/
inductive Phase (δ : Type) where
  | idle
  | raised
  | making (rest : List δ)
  | writing
  | returned

structure State (δ : Type) where
  dirs : δ → Bool
  manifest : δ → ManifestFile
  calls : ℕ → Phase δ
  /-- What each container is still to make. -/
  containers : ℕ → List δ

inductive Action where
  | check (i : ℕ)
  | mkdir (i : ℕ)
  | openManifest (i : ℕ)
  | writeManifest (i : ℕ)
  | enter (k : ℕ) (rid : String)
  | containerMkdir (k : ℕ)
deriving DecidableEq, Repr

section Model

variable {δ : Type} [DecidableEq δ] (L : Layout δ) (calls : ℕ → Call)

/-- The run directory of a call. -/
def dirOf (i : ℕ) : δ := L.target (calls i).rid

def State.call (s : State δ) (i : ℕ) (p : Phase δ) : State δ :=
  { s with calls := Function.update s.calls i p }

/-- One step of a call of `new_run` (runs.py, lines 158–178, and 181–183 for the file), or of
    `output_directory_exists` (file_manager.py, lines 58–61). -/
def step (s : State δ) : Action → Option (State δ)
  | .check i =>
    match s.calls i with
    | .idle =>
      if s.dirs (dirOf L calls i) then some (s.call i .raised)
      else some (s.call i (.making (L.path (calls i).rid)))
    | _ => none
  | .mkdir i =>
    match s.calls i with
    | .making (d :: rest) =>
      some { s.call i (.making rest) with dirs := Function.update s.dirs d true }
    | _ => none
  | .openManifest i =>
    match s.calls i with
    | .making [] =>
      some { s.call i .writing with
        manifest := Function.update s.manifest (dirOf L calls i) .empty }
    | _ => none
  | .writeManifest i =>
    match s.calls i with
    | .writing =>
      some { s.call i .returned with
        manifest := Function.update s.manifest (dirOf L calls i) (.of i) }
    | _ => none
  | .enter k rid => some { s with containers := Function.update s.containers k (L.path rid) }
  | .containerMkdir k =>
    match s.containers k with
    | d :: rest =>
      some { s with
        dirs := Function.update s.dirs d true
        containers := Function.update s.containers k rest }
    | [] => none

/-! ## The property -/

/-- Every call that was made has returned or raised. -/
def Finished (s : State δ) : Prop :=
  ∀ i, s.calls i = .idle ∨ s.calls i = .raised ∨ s.calls i = .returned

/-- A call that returns has its manifest in its run directory, and every other call with
    its id raised `FileExistsError`. -/
def NeverMerged (s : State δ) : Prop :=
  ∀ i, s.calls i = .returned → s.manifest (dirOf L calls i) = .of i ∧
    ∀ j, j ≠ i → (calls j).rid = (calls i).rid → s.calls j = .idle ∨ s.calls j = .raised

/-- The call found its directory absent. -/
def Phase.passed : Phase δ → Bool
  | .idle => false
  | .raised => false
  | _ => true

/-- The call is between its check and the making of its directory. -/
def Between (s : State δ) (i : ℕ) : Prop :=
  (s.calls i).passed = true ∧ s.dirs (dirOf L calls i) = false

/-- No call makes its check while another one is about to make the same directory. -/
def CheckedAlone (s : State δ) (a : Action) : Prop :=
  ∀ i, a = .check i → ∀ j, dirOf L calls j = dirOf L calls i → ¬ Between L calls s j

end Model

/-! ## The invariant -/

section Steps

variable {δ : Type} {L : Layout δ} {calls : ℕ → Call} {s t : State δ} {a : Action}

/-- Of the calls for one directory at most one is past its check, and what a call has
    returned for is on the disk. -/
structure Inv (L : Layout δ) (calls : ℕ → Call) (s : State δ) : Prop where
  alone : ∀ i j, (s.calls i).passed = true → (s.calls j).passed = true →
    dirOf L calls i = dirOf L calls j → i = j
  manifest : ∀ i, s.calls i = .returned → s.manifest (dirOf L calls i) = .of i

theorem inv_init (h : ∀ i, s.calls i = .idle) : Inv L calls s where
  alone i j hi := by
    rw [h] at hi
    cases hi
  manifest i hi := by
    rw [h] at hi
    cases hi

theorem Inv.neverMerged (hinv : Inv L calls s) : NeverMerged L calls s := by
  intro i hi
  refine ⟨hinv.manifest i hi, ?_⟩
  intro j hji hrid
  have hdir : dirOf L calls j = dirOf L calls i := by rw [dirOf, dirOf, hrid]
  cases hj : s.calls j with
  | idle => exact .inl rfl
  | raised => exact .inr rfl
  | making rest => exact absurd (hinv.alone j i (by rw [hj]; rfl) (by rw [hi]; rfl) hdir) hji
  | writing => exact absurd (hinv.alone j i (by rw [hj]; rfl) (by rw [hi]; rfl) hdir) hji
  | returned => exact absurd (hinv.alone j i (by rw [hj]; rfl) (by rw [hi]; rfl) hdir) hji

/-! ## Steps -/

/-- A step of a call past its check. -/
theorem passed_update {i : ℕ} {p : Phase δ} (hcalls : t.calls = Function.update s.calls i p)
    (hi : (s.calls i).passed = true) (hp : p.passed = true) (j : ℕ) :
    (t.calls j).passed = (s.calls j).passed := by
  rw [hcalls, Function.update_apply]
  split_ifs with hji
  · rw [hji, hi, hp]
  · rfl

/-- Only the last step of a call returns. -/
theorem returned_of_update {i : ℕ} {p : Phase δ}
    (hcalls : t.calls = Function.update s.calls i p) (hp : p ≠ .returned) {j : ℕ}
    (hj : t.calls j = .returned) : j ≠ i ∧ s.calls j = .returned := by
  rw [hcalls, Function.update_apply] at hj
  split_ifs at hj with hji
  · exact absurd hj hp
  · exact ⟨hji, hj⟩

variable [DecidableEq δ]

/-- What a step does to the calls and the manifests. -/
inductive Change (L : Layout δ) (calls : ℕ → Call) (s t : State δ) : Action → Prop
  | raise (i : ℕ) (hi : s.calls i = .idle) (hdir : s.dirs (dirOf L calls i) = true)
      (hcalls : t.calls = Function.update s.calls i .raised) (hmanifest : t.manifest = s.manifest) :
      Change L calls s t (.check i)
  | pass (i : ℕ) (hi : s.calls i = .idle) (hdir : s.dirs (dirOf L calls i) = false)
      (hcalls : t.calls = Function.update s.calls i (.making (L.path (calls i).rid)))
      (hmanifest : t.manifest = s.manifest) : Change L calls s t (.check i)
  | mkdir (i : ℕ) (d : δ) (rest : List δ) (hi : s.calls i = .making (d :: rest))
      (hcalls : t.calls = Function.update s.calls i (.making rest))
      (hmanifest : t.manifest = s.manifest) : Change L calls s t (.mkdir i)
  | openManifest (i : ℕ) (hi : s.calls i = .making [])
      (hcalls : t.calls = Function.update s.calls i .writing)
      (hmanifest : t.manifest = Function.update s.manifest (dirOf L calls i) .empty) :
      Change L calls s t (.openManifest i)
  | writeManifest (i : ℕ) (hi : s.calls i = .writing)
      (hcalls : t.calls = Function.update s.calls i .returned)
      (hmanifest : t.manifest = Function.update s.manifest (dirOf L calls i) (.of i)) :
      Change L calls s t (.writeManifest i)
  | container (a : Action) (hcheck : ∀ i, a ≠ .check i) (hcalls : t.calls = s.calls)
      (hmanifest : t.manifest = s.manifest) : Change L calls s t a

theorem change_of_step (h : step L calls s a = some t) : Change L calls s t a := by
  cases a with
  | check i =>
    simp only [step] at h
    split at h
    · rename_i hi
      split_ifs at h with hdir
      · cases h
        exact .raise i hi hdir rfl rfl
      · cases h
        exact .pass i hi (Bool.eq_false_iff.2 hdir) rfl rfl
    · cases h
  | mkdir i =>
    simp only [step] at h
    split at h
    · rename_i d rest hi
      cases h
      exact .mkdir i d rest hi rfl rfl
    · cases h
  | openManifest i =>
    simp only [step] at h
    split at h
    · rename_i hi
      cases h
      exact .openManifest i hi rfl rfl
    · cases h
  | writeManifest i =>
    simp only [step] at h
    split at h
    · rename_i hi
      cases h
      exact .writeManifest i hi rfl rfl
    · cases h
  | enter k rid =>
    cases h
    exact .container _ (fun _ => Action.noConfusion) rfl rfl
  | containerMkdir k =>
    simp only [step] at h
    split at h
    · cases h
      exact .container _ (fun _ => Action.noConfusion) rfl rfl
    · cases h

/-- The calls past their checks are those before the step, and one that found no directory. -/
theorem passed_of_step (h : step L calls s a = some t) (j : ℕ) :
    (t.calls j).passed = (s.calls j).passed ∨
      a = .check j ∧ s.calls j = .idle ∧ s.dirs (dirOf L calls j) = false := by
  cases change_of_step h with
  | raise i hi hdir hcalls hmanifest =>
    refine .inl ?_
    rw [hcalls, Function.update_apply]
    split_ifs with hji
    · rw [hji, hi]
      rfl
    · rfl
  | pass i hi hdir hcalls hmanifest =>
    by_cases hji : j = i
    · rw [hji]
      exact .inr ⟨rfl, hi, hdir⟩
    · refine .inl ?_
      rw [hcalls, Function.update_of_ne hji]
  | mkdir i d rest hi hcalls hmanifest =>
    exact .inl (passed_update hcalls (by rw [hi]; rfl) rfl j)
  | openManifest i hi hcalls hmanifest =>
    exact .inl (passed_update hcalls (by rw [hi]; rfl) rfl j)
  | writeManifest i hi hcalls hmanifest =>
    exact .inl (passed_update hcalls (by rw [hi]; rfl) rfl j)
  | container a hcheck hcalls hmanifest =>
    refine .inl ?_
    rw [hcalls]

/-- A call past its check stays so. -/
theorem step_passed (h : step L calls s a = some t) {j : ℕ} (hj : (s.calls j).passed = true) :
    (t.calls j).passed = true := by
  rcases passed_of_step h j with heq | ⟨-, hidle, -⟩
  · rw [heq]
    exact hj
  · rw [hidle] at hj
    cases hj

theorem run_passed {as : List Action} (h : run (step L calls) s as = some t) {j : ℕ}
    (hj : (s.calls j).passed = true) : (t.calls j).passed = true := by
  induction as generalizing s with
  | nil =>
    cases h
    exact hj
  | cons a as ih =>
    obtain ⟨u, hu, h⟩ := run_cons_eq_some.1 h
    exact ih h (step_passed hu hj)

/-! ## Runs -/

theorem step_alone (hinv : Inv L calls s) (hG : CheckedAlone L calls s a)
    (h : step L calls s a = some t) {j k : ℕ} (hj : (t.calls j).passed = true)
    (hk : (t.calls k).passed = true) (hjk : dirOf L calls j = dirOf L calls k) : j = k := by
  rcases passed_of_step h j with hj' | ⟨haj, -, hdir⟩
  · rcases passed_of_step h k with hk' | ⟨hak, -, hdir⟩
    · exact hinv.alone j k (hj'.symm.trans hj) (hk'.symm.trans hk) hjk
    · -- the step is the check of `k`, while `j` is between its own and the directory
      refine absurd ⟨hj'.symm.trans hj, ?_⟩ (hG k hak j hjk)
      rw [hjk]
      exact hdir
  · rcases passed_of_step h k with hk' | ⟨hak, -, -⟩
    · refine absurd ⟨hk'.symm.trans hk, ?_⟩ (hG j haj k hjk.symm)
      rw [← hjk]
      exact hdir
    · exact Action.check.inj (haj.symm.trans hak)

/-- The manifest of a returned call stands when another call past its check writes. -/
theorem Inv.manifest_update (hinv : Inv L calls s) {i j : ℕ} (hi : (s.calls i).passed = true)
    (hj : s.calls j = .returned) (hji : j ≠ i) (m : ManifestFile) :
    Function.update s.manifest (dirOf L calls i) m (dirOf L calls j) = .of j := by
  have hne : dirOf L calls j ≠ dirOf L calls i := by
    intro hdir
    exact hji (hinv.alone j i (by rw [hj]; rfl) hi hdir)
  rw [Function.update_of_ne hne]
  exact hinv.manifest j hj

theorem step_manifest (hinv : Inv L calls s) (h : step L calls s a = some t) {j : ℕ}
    (hj : t.calls j = .returned) : t.manifest (dirOf L calls j) = .of j := by
  cases change_of_step h with
  | raise i hi hdir hcalls hmanifest =>
    rw [hmanifest]
    exact hinv.manifest j (returned_of_update hcalls (by simp) hj).2
  | pass i hi hdir hcalls hmanifest =>
    rw [hmanifest]
    exact hinv.manifest j (returned_of_update hcalls (by simp) hj).2
  | mkdir i d rest hi hcalls hmanifest =>
    rw [hmanifest]
    exact hinv.manifest j (returned_of_update hcalls (by simp) hj).2
  | openManifest i hi hcalls hmanifest =>
    obtain ⟨hji, hj⟩ := returned_of_update hcalls (by simp) hj
    rw [hmanifest]
    exact hinv.manifest_update (by rw [hi]; rfl) hj hji _
  | writeManifest i hi hcalls hmanifest =>
    rw [hmanifest]
    by_cases hji : j = i
    · rw [hji, Function.update_self]
    · rw [hcalls, Function.update_of_ne hji] at hj
      exact hinv.manifest_update (by rw [hi]; rfl) hj hji _
  | container a hcheck hcalls hmanifest =>
    rw [hcalls] at hj
    rw [hmanifest]
    exact hinv.manifest j hj

theorem step_inv (hinv : Inv L calls s) (hG : CheckedAlone L calls s a)
    (h : step L calls s a = some t) : Inv L calls t where
  alone _ _ hj hk hjk := step_alone hinv hG h hj hk hjk
  manifest _ hj := step_manifest hinv h hj

/-- Two calls past their checks for one directory both return. -/
theorem not_neverMerged {as : List Action} (h : run (step L calls) s as = some t)
    (hdone : Finished t) {i j : ℕ} (hij : i ≠ j) (hi : (s.calls i).passed = true)
    (hj : (s.calls j).passed = true) (hdir : dirOf L calls i = dirOf L calls j) :
    ¬ NeverMerged L calls t := by
  have hreturned : ∀ k, (s.calls k).passed = true → t.calls k = .returned := by
    intro k hk
    have hpassed := run_passed h hk
    rcases hdone k with hk' | hk' | hk'
    · rw [hk'] at hpassed
      cases hpassed
    · rw [hk'] at hpassed
      cases hpassed
    · exact hk'
  intro hnever
  have hmi := (hnever i (hreturned i hi)).1
  have hmj := (hnever j (hreturned j hj)).1
  rw [hdir, hmj] at hmi
  exact hij (ManifestFile.of.inj hmi).symm

/-- Both calls are past their checks after a check between another check and the making of
    the directory. -/
theorem not_checkedAlone_step (h : step L calls s a = some t) (hG : ¬ CheckedAlone L calls s a) :
    ∃ i j, i ≠ j ∧ (t.calls i).passed = true ∧ (t.calls j).passed = true ∧
      dirOf L calls i = dirOf L calls j := by
  unfold CheckedAlone at hG
  push Not at hG
  obtain ⟨i, rfl, j, hji, hpassed, hdir⟩ := hG
  rw [hji] at hdir
  cases change_of_step h with
  | raise i hi hdir' hcalls hmanifest =>
    rw [hdir] at hdir'
    cases hdir'
  | pass i hi hdir' hcalls hmanifest =>
    have hne : j ≠ i := by
      rintro rfl
      rw [hi] at hpassed
      cases hpassed
    refine ⟨i, j, hne.symm, ?_, ?_, hji.symm⟩
    · rw [hcalls, Function.update_self]
      rfl
    · rw [hcalls, Function.update_of_ne hne]
      exact hpassed
  | container a hcheck hcalls hmanifest => exact absurd rfl (hcheck i)

/-- **When runs are never merged**: in a run of all calls to their ends, exactly if no check
    comes between another call's check and the making of the same directory. -/
theorem neverMerged_iff {as : List Action} (hstart : ∀ i, s.calls i = .idle)
    (h : run (step L calls) s as = some t) (hdone : Finished t) :
    NeverMerged L calls t ↔ Along (step L calls) (CheckedAlone L calls) s as := by
  constructor
  · intro hnever
    clear hstart
    induction as generalizing s with
    | nil => trivial
    | cons a as ih =>
      obtain ⟨u, hu, h⟩ := run_cons_eq_some.1 h
      rw [along_cons_iff hu]
      refine ⟨?_, ih h⟩
      by_contra hG
      obtain ⟨i, j, hij, hi, hj, hdir⟩ := not_checkedAlone_step hu hG
      exact not_neverMerged h hdone hij hi hj hdir hnever
  · intro hG
    have hinv : Inv L calls t :=
      run_invariant_along (fun s a t => step_inv) as (inv_init hstart) hG h
    exact hinv.neverMerged

end Steps

/-! ## Two calls with one id -/

/-- Ids that are names of directories. -/
def plainLayout : Layout (List String) where
  target rid := [rid]
  path rid := [[rid], [rid, "pcap"]]
  target_mem _ := List.mem_cons_self

/-- `new_run(output_dir, "mqtt", run_id="exp")`, whoever calls it. -/
def expCalls : ℕ → Call := fun _ =>
  ⟨evening, "mqtt", none, some "exp", none, [], none, none⟩

def noRuns : State (List String) := ⟨fun _ => false, fun _ => .before, fun _ => .idle, fun _ => []⟩

/-- The steps of a call that makes its run. -/
def creation (i : ℕ) : List Action := [.mkdir i, .mkdir i, .openManifest i, .writeManifest i]

/-- The first call makes its run, then the second one finds it. -/
theorem neverMerged_iff_oneAfterAnother :
    ∃ t, run (step plainLayout expCalls) noRuns (.check 0 :: creation 0 ++ [.check 1]) = some t ∧
      t.calls 0 = .returned ∧ t.calls 1 = .raised ∧ NeverMerged plainLayout expCalls t := by
  have hother {s : State (List String)} {a : Action} (h : ∀ i, a ≠ .check i) :
      CheckedAlone plainLayout expCalls s a := fun i hi => absurd hi (h i)
  refine ⟨_, rfl, rfl, rfl, ?_⟩
  refine (@neverMerged_iff _ plainLayout expCalls noRuns _ _ (.check 0 :: creation 0 ++ [.check 1])
    (fun _ => rfl) rfl ?_).2 ?_
  · intro i
    match i with
    | 0 => exact .inr (.inr rfl)
    | 1 => exact .inr (.inl rfl)
    | i + 2 => exact .inl rfl
  · refine ⟨?_, ?_⟩
    · rintro i - j - ⟨hpassed, -⟩
      cases hpassed
    rintro _ ⟨⟩
    refine ⟨hother fun _ => Action.noConfusion, ?_⟩
    rintro _ ⟨⟩
    refine ⟨hother fun _ => Action.noConfusion, ?_⟩
    rintro _ ⟨⟩
    refine ⟨hother fun _ => Action.noConfusion, ?_⟩
    rintro _ ⟨⟩
    refine ⟨hother fun _ => Action.noConfusion, ?_⟩
    rintro _ ⟨⟩
    refine ⟨?_, fun _ _ => trivial⟩
    rintro i - j - ⟨-, hdir⟩
    have hexp : dirOf plainLayout expCalls j = ["exp"] := rfl
    rw [hexp] at hdir
    exact absurd hdir (by decide)

/-- Both calls find no run, and both return. -/
theorem not_neverMerged_bothChecked :
    ∃ t, run (step plainLayout expCalls) noRuns
        (.check 0 :: .check 1 :: creation 0 ++ creation 1) = some t ∧
      Finished t ∧ ¬ NeverMerged plainLayout expCalls t := by
  refine ⟨_, rfl, ?_, ?_⟩
  · intro i
    match i with
    | 0 => exact .inr (.inr rfl)
    | 1 => exact .inr (.inr rfl)
    | i + 2 => exact .inl rfl
  · intro hnever
    have h0 := (hnever 0 rfl).1
    exact absurd h0 (by decide)

end TransferTestbed.RunCreation
