import TransferTestbed.Protocols.Agreement

/-!
# Sweeps of the runner

`main` of `runner.py`: one experiment for each protocol and profile, all with the same
`--run-id`. An exception of an experiment is caught, so that the next one begins in the
tree that this one leaves.

Results:
* `hasRun_runExperiment`: the run directories that an experiment leaves.
* `covers_iff_pairwise`: when no experiment of a list meets a run of an earlier one.
* `rid_eq_iff`: when two experiments of a sweep have the same id.
* `covers_iff`: when a sweep starts the stack of every pair.
* `covers_of_nodup`: a sweep with generated ids and without repeated pairs does.
-/

namespace TransferTestbed.Runner

open Runs WriteCsv BenchmarkManager Invocations Processes

/-! ## Model -/

/-- The name of a network profile, which becomes part of the name of a directory. -/
structure Profile where
  name : String
  slash_notMem : '/' ∉ name.toList

theorem Profile.ext {p q : Profile} (h : p.name = q.name) : p = q := by
  cases p
  cases q
  cases h
  rfl

/-- What one experiment meets: the clock, the containers, and what is written before it
    ends or fails. -/
structure Turn where
  now : Now
  isStamp : IsStamp now.stamp
  container : Env
  container_runId : container.get? "RUN_ID" = none
  products : List Product
  cleanedUp : Bool

/-- `run_experiment(protocol, profile, run_id)` at a turn. -/
def experimentOf (runId : Option String) (turn : Turn) (pair : Protocol × Profile) : Experiment :=
  ⟨turn.now, pair.1, pair.2.name, runId, turn.container, turn.products, turn.cleanedUp⟩

/-- `itertools.product(args.protocols, args.profiles)`. -/
def pairs (protocols : List Protocol) (profiles : List Profile) : List (Protocol × Profile) :=
  protocols.flatMap fun protocol => profiles.map fun profile => (protocol, profile)

/-- The experiments of `main` (runner.py, lines 178–186). -/
def sweep (protocols : List Protocol) (profiles : List Profile) (runId : Option String)
    (turns : ℕ → Turn) : List Experiment :=
  (pairs protocols profiles).mapIdx fun i pair => experimentOf runId (turns i) pair

/-- The run that a product of an experiment goes to. -/
def target (base : Env) (e : Experiment) (p : Product) : Option String :=
  destination ⟨experimentEnv base e, e.container⟩ (writeMarker emptyTree e.rid) p

/-- The stack of every experiment is started, unless its run directory was there before
    all of them: `new_run` meets no directory of an earlier one. -/
def Covers (base : Env) (t : OutputTree) (es : List Experiment) : Prop :=
  ∀ before e after, es = before ++ e :: after → ¬ t.hasRun e.rid →
    ¬ (before.foldl (runExperiment base) t).hasRun e.rid

/-- Two experiments with an explicit run id, or of one pair in the same second. -/
def SameRun (runId : Option String) (e f : Experiment) : Prop :=
  runId ≠ none ∧ runId ≠ some "" ∨
    e.now.stamp = f.now.stamp ∧ e.protocol = f.protocol ∧ e.profile = f.profile

/-! ## Run directories -/

theorem hasRun_modify {t : OutputTree} {dest : Option String} {f : Measurements → Measurements}
    {rid : String} : (t.modify dest f).hasRun rid ↔ t.hasRun rid ∨ dest = some rid := by
  cases dest with
  | none => simp [OutputTree.modify, OutputTree.hasRun]
  | some d =>
    rw [hasRun_iff, hasRun_iff, OutputTree.modify, Dict.get?_insert, Option.some.injEq]
    by_cases hd : rid = d
    · simp [hd]
    · simp [hd, Ne.symm hd]

/-- A product makes the directory of its run when it is missing. -/
theorem hasRun_place {envs : Envs} {t : OutputTree} {p : Product} {rid : String} :
    (place envs t p).hasRun rid ↔ t.hasRun rid ∨ destination envs t p = some rid := by
  cases p with
  | row side kind timestamp cells =>
    simp only [place, writeToFile, writeMeasurement, writeToCsv, List.cons_ne_nil, if_false]
    exact hasRun_modify
  | pcap name => exact hasRun_modify

theorem hasRun_placeAll {envs : Envs} {ps : List Product} {t : OutputTree} {rid : String} :
    (placeAll envs t ps).hasRun rid ↔
      t.hasRun rid ∨ ∃ p ∈ ps, destination envs t p = some rid := by
  induction ps generalizing t with
  | nil => simp [placeAll]
  | cons p ps ih =>
    have hactive (q : Product) : destination envs (place envs t p) q = destination envs t q :=
      activeRunId_congr (marker_place envs t p) _
    simp only [placeAll, ih, hasRun_place, hactive, List.exists_mem_cons_iff, or_assoc]

section Sweeps

variable {base : Env} {t : OutputTree} {e : Experiment} {es : List Experiment} {rid : String}

theorem orElse_rid (e : Experiment) (b : String) : orElse (some e.rid) b = e.rid :=
  orElse_of_ne_empty (orElse_ne_empty (ne_empty_of_mem (mem_runIdFor _ _ _))) b

/-- An experiment whose id is taken ends in `new_run`. -/
theorem runExperiment_of_hasRun (h : t.hasRun e.rid) : runExperiment base t e = t := by
  simp only [runExperiment, newRun, orElse_rid, if_pos h]

/-- An experiment under a new id creates its run, and its products make the directories
    they go to. -/
theorem hasRun_runExperiment (h : ¬ t.hasRun e.rid) :
    (runExperiment base t e).hasRun rid ↔
      t.hasRun rid ∨ rid = e.rid ∨ ∃ p ∈ e.products, target base e p = some rid := by
  have hcleared (t' : OutputTree) :
      (if e.cleanedUp then clearMarker t' else t').hasRun rid ↔ t'.hasRun rid := by
    split_ifs
    · rfl
    · rfl
  have htarget (t' : OutputTree) (p : Product) :
      destination ⟨experimentEnv base e, e.container⟩ (writeMarker t' e.rid) p =
        target base e p := activeRunId_congr rfl _
  simp only [runExperiment, newRun, orElse_rid, if_neg h, hcleared, hasRun_placeAll, htarget]
  rw [← or_assoc]
  refine or_congr_left ?_
  show rid ∈ (t.runs.insert e.rid _).keys ↔ _
  have hkeys : e.rid ∉ t.runs.keys := h
  rw [Dict.keys_insert, if_neg hkeys, List.mem_append, List.mem_singleton]
  rfl

/-- Runs are not removed. -/
theorem hasRun_mono (h : t.hasRun rid) : (runExperiment base t e).hasRun rid := by
  by_cases hid : t.hasRun e.rid
  · rwa [runExperiment_of_hasRun hid]
  · exact (hasRun_runExperiment hid).2 (.inl h)

theorem hasRun_foldl_mono (h : t.hasRun rid) : (es.foldl (runExperiment base) t).hasRun rid := by
  induction es generalizing t with
  | nil => exact h
  | cons e es ih => exact ih (hasRun_mono h)

/-- What an experiment can make: its own run, and those its products go to. -/
def Makes (base : Env) (e : Experiment) (rid : String) : Prop :=
  rid = e.rid ∨ ∃ p ∈ e.products, target base e p = some rid

/-- Where a run comes from. -/
theorem makes_of_hasRun_foldl (h : (es.foldl (runExperiment base) t).hasRun rid) :
    t.hasRun rid ∨ ∃ e ∈ es, ¬ t.hasRun e.rid ∧ Makes base e rid := by
  induction es generalizing t with
  | nil => exact .inl h
  | cons e es ih =>
    rcases ih h with hrun | ⟨f, hf, hfree, hmakes⟩
    · by_cases hid : t.hasRun e.rid
      · rw [runExperiment_of_hasRun hid] at hrun
        exact .inl hrun
      · rcases (hasRun_runExperiment hid).1 hrun with hrun | hmakes
        · exact .inl hrun
        · exact .inr ⟨e, List.mem_cons_self, hid, hmakes⟩
    · exact .inr ⟨f, List.mem_cons_of_mem e hf, fun hrun => hfree (hasRun_mono hrun), hmakes⟩

theorem pairwise_of_splits {α : Type*} {R : α → α → Prop} {l : List α}
    (h : ∀ before a mid b after, l = before ++ a :: (mid ++ b :: after) → R a b) :
    l.Pairwise R := by
  induction l with
  | nil => exact List.Pairwise.nil
  | cons a l ih =>
    refine List.Pairwise.cons (fun b hb => ?_) (ih fun before c mid b after heq => ?_)
    · obtain ⟨mid, after, rfl⟩ := List.append_of_mem hb
      exact h [] a mid b after rfl
    · exact h (a :: before) c mid b after (by rw [heq]; rfl)

/-- **A list of experiments** starts every stack iff no experiment makes the run of a
    later one, among those whose runs were not there before. -/
theorem covers_iff_pairwise : Covers base t es ↔
    es.Pairwise fun e f => ¬ t.hasRun e.rid → ¬ t.hasRun f.rid → ¬ Makes base e f.rid := by
  constructor
  · intro h
    apply pairwise_of_splits
    rintro before e mid f after rfl he hf hmakes
    have hfree := h before e (mid ++ f :: after) rfl he
    refine h (before ++ e :: mid) f after (by simp) hf ?_
    rw [List.foldl_append, List.foldl_cons]
    exact hasRun_foldl_mono ((hasRun_runExperiment hfree).2 (.inr hmakes))
  · rintro h before f after rfl hf hrun
    rcases makes_of_hasRun_foldl hrun with hrun | ⟨e, he, hfree, hmakes⟩
    · exact hf hrun
    · exact (List.pairwise_append.1 h).2.2 e he f List.mem_cons_self hfree hf hmakes

end Sweeps

/-! ## Run ids -/

theorem eq_of_append_cons_eq {α : Type*} {x : α} {a a' b b' : List α} (ha : x ∉ a) (ha' : x ∉ a')
    (h : a ++ x :: b = a' ++ x :: b') : a = a' ∧ b = b' := by
  induction a generalizing a' with
  | nil =>
    cases a' with
    | nil => exact ⟨rfl, (List.cons.inj h).2⟩
    | cons y a' => exact absurd ((List.cons.inj h).1 ▸ List.mem_cons_self) ha'
  | cons y a ih =>
    cases a' with
    | nil => exact absurd ((List.cons.inj h).1.symm ▸ List.mem_cons_self) ha
    | cons z a' =>
      obtain ⟨rfl, htail⟩ := List.cons.inj h
      obtain ⟨rfl, rfl⟩ := ih (fun hx => ha (List.mem_cons_of_mem _ hx))
        (fun hx => ha' (List.mem_cons_of_mem _ hx)) htail
      exact ⟨rfl, rfl⟩

theorem underscore_notMem_stamp {stamp : String} (h : IsStamp stamp) : '_' ∉ stamp.toList := by
  intro hmem
  rcases h '_' hmem with hdigit | heq
  · exact absurd hdigit (by decide)
  · exact absurd heq (by decide)

theorem underscore_notMem_name (protocol : Protocol) : '_' ∉ protocol.name.toList := by
  cases protocol <;> decide +kernel

theorem isSpace_protocol (protocol : Protocol) :
    ∀ c ∈ protocol.name.toList, isSpace c = false := by
  have hempty : "" ∈ acceptedProfiles := by simp [acceptedProfiles]
  intro c hc
  exact isSpace_name hempty c (List.mem_append_left _ hc)

theorem name_injective {p q : Protocol} (h : p.name.toList = q.name.toList) : p = q := by
  cases p <;> cases q <;> first | rfl | exact absurd h (by decide +kernel)

/-- The text of a generated id. -/
theorem toList_runIdFor (stamp : String) (protocol : Protocol) (profile : String) :
    (runIdFor stamp protocol.name (some profile)).toList = stamp.toList ++ '_' ::
      (protocol.name.toList ++ if profile = "" then [] else '_' :: profile.toList) := by
  simp only [runIdFor]
  split_ifs with h
  · simp [String.toList_append]
  · simp [String.toList_append]

/-- Stamps and protocols have no underscore, so generated ids are read off uniquely. -/
theorem runIdFor_injective {stamp stamp' : String} (h : IsStamp stamp) (h' : IsStamp stamp')
    {protocol protocol' : Protocol} {profile profile' : String}
    (heq : runIdFor stamp protocol.name (some profile) =
      runIdFor stamp' protocol'.name (some profile')) :
    stamp = stamp' ∧ protocol = protocol' ∧ profile = profile' := by
  have htext := congrArg String.toList heq
  rw [toList_runIdFor, toList_runIdFor] at htext
  obtain ⟨hstamp, hrest⟩ := eq_of_append_cons_eq (underscore_notMem_stamp h)
    (underscore_notMem_stamp h') htext
  have hp := underscore_notMem_name protocol
  have hp' := underscore_notMem_name protocol'
  refine ⟨String.toList_inj.1 hstamp, ?_⟩
  by_cases hempty : profile = ""
  · by_cases hempty' : profile' = ""
    · rw [if_pos hempty, if_pos hempty', List.append_nil, List.append_nil] at hrest
      exact ⟨name_injective hrest, hempty.trans hempty'.symm⟩
    · rw [if_pos hempty, if_neg hempty', List.append_nil] at hrest
      exact absurd (hrest ▸ List.mem_append_right _ List.mem_cons_self) hp
  · by_cases hempty' : profile' = ""
    · rw [if_neg hempty, if_pos hempty', List.append_nil] at hrest
      exact absurd (hrest ▸ List.mem_append_right _ List.mem_cons_self) hp'
    · rw [if_neg hempty, if_neg hempty'] at hrest
      obtain ⟨hname, hprofile⟩ := eq_of_append_cons_eq hp hp' hrest
      exact ⟨name_injective hname, String.toList_inj.1 hprofile⟩

section Experiments

variable {runId : Option String} {turn turn' : Turn} {pair pair' : Protocol × Profile}

theorem rid_experimentOf (hrun : runId = none ∨ runId = some "") :
    (experimentOf runId turn pair).rid =
      runIdFor turn.now.stamp pair.1.name (some pair.2.name) := by
  show orElse runId _ = _
  rcases hrun with h | h
  · rw [h]
    rfl
  · rw [h, orElse, if_pos rfl]
    rfl

/-- **Two experiments of a sweep have the same id** if it is explicit, or if they are of one
    pair and begin in the same second. -/
theorem rid_eq_iff : (experimentOf runId turn pair).rid = (experimentOf runId turn' pair').rid ↔
    SameRun runId (experimentOf runId turn pair) (experimentOf runId turn' pair') := by
  by_cases hrun : runId = none ∨ runId = some ""
  · rw [rid_experimentOf hrun, rid_experimentOf hrun]
    have hnot : ¬ (runId ≠ none ∧ runId ≠ some "") := by
      rintro ⟨hnone, hempty⟩
      rcases hrun with h | h
      · exact hnone h
      · exact hempty h
    rw [SameRun, or_iff_right hnot]
    constructor
    · exact runIdFor_injective turn.isStamp turn'.isStamp
    · rintro ⟨hstamp, hprotocol, hprofile⟩
      simp only [experimentOf] at hstamp hprotocol hprofile
      rw [hstamp, hprotocol, hprofile]
  · rw [not_or] at hrun
    refine iff_of_true ?_ (.inl hrun)
    cases hid : runId with
    | none => exact absurd hid hrun.1
    | some rid =>
      have hne : rid ≠ "" := fun h => hrun.2 (h ▸ hid)
      show orElse (some rid) _ = orElse (some rid) _
      rw [orElse, orElse, if_neg hne, if_neg hne]

end Experiments

/-! ## Sweeps -/

section Covers

variable (base : Env) (t : OutputTree) (protocols : List Protocol) (profiles : List Profile)
  (runId : Option String) (turns : ℕ → Turn)

theorem mem_sweep {e : Experiment} (h : e ∈ sweep protocols profiles runId turns) :
    ∃ turn pair, e = experimentOf runId turn pair := by
  obtain ⟨i, hi, rfl⟩ := List.mem_mapIdx.1 h
  exact ⟨turns i, _, rfl⟩

/-- **When a sweep covers every pair.** Whatever was in the tree, whatever the experiments
    write and whenever they begin: a stack is not started because of an earlier pair of
    the sweep iff an earlier pair has the same explicit or generated id, or writes to it. -/
theorem covers_iff : Covers base t (sweep protocols profiles runId turns) ↔
    (sweep protocols profiles runId turns).Pairwise fun e f =>
      ¬ t.hasRun e.rid → ¬ t.hasRun f.rid →
        ¬ SameRun runId e f ∧ ∀ p ∈ e.products, target base e p ≠ some f.rid := by
  rw [covers_iff_pairwise]
  refine List.Pairwise.iff_of_mem fun {e f} he hf => ?_
  obtain ⟨turn, pair, rfl⟩ := mem_sweep _ _ _ _ he
  obtain ⟨turn', pair', rfl⟩ := mem_sweep _ _ _ _ hf
  rw [Makes, eq_comm, rid_eq_iff]
  simp only [not_or, not_exists, not_and, Ne]

def sampleProfile : Profile := ⟨"mobile", by decide +kernel⟩

/-- An experiment that writes nothing. -/
def sampleTurn : Turn where
  now := ⟨"20260101T000000", "2026-01-01T00:00:00+00:00", none, none⟩
  isStamp := by simp [IsStamp]
  container := []
  container_runId := Dict.get?_nil "RUN_ID"
  products := []
  cleanedUp := true

/-- One explicit id for two protocols: the second experiment is not started. -/
theorem not_covers_explicit :
    ¬ emptyTree.hasRun "exp1" ∧
      ¬ Covers [] emptyTree
        (sweep [.http, .coap] [sampleProfile] (some "exp1") fun _ => sampleTurn) := by
  refine ⟨by simp [OutputTree.hasRun, emptyTree, Dict.keys], fun h => ?_⟩
  refine h [experimentOf (some "exp1") sampleTurn (.http, sampleProfile)]
    (experimentOf (some "exp1") sampleTurn (.coap, sampleProfile)) [] rfl ?_ ?_
  · decide +kernel
  · decide +kernel

end Covers

section Plain

variable {base : Env} {t : OutputTree} {protocols : List Protocol} {profiles : List Profile}
  {runId : Option String} {turns : ℕ → Turn}

/-- A profile without white space in its name. -/
def Profile.Plain (profile : Profile) : Prop := ∀ c ∈ profile.name.toList, isSpace c = false

theorem runId_experimentEnv (base : Env) (e : Experiment) :
    (experimentEnv base e).get? "RUN_ID" = some e.rid := by
  rw [experimentEnv, Dict.get?_update base (by simp [Dict.keys])]
  rfl

theorem isSpace_rid_experimentOf (hrun : runId = none ∨ runId = some "") (turn : Turn)
    {pair : Protocol × Profile} (hplain : pair.2.Plain) :
    ∀ c ∈ (experimentOf runId turn pair).rid.toList, isSpace c = false := by
  intro c hc
  rw [rid_experimentOf hrun, toList_runIdFor, List.mem_append, List.mem_cons,
    List.mem_append] at hc
  rcases hc with hc | rfl | hc | hc
  · exact isSpace_stamp turn.isStamp hc
  · decide
  · exact isSpace_protocol _ c hc
  · split_ifs at hc
    · cases hc
    · rcases List.mem_cons.1 hc with rfl | hc
      · decide
      · exact hplain c hc

/-- An id without white space is what every product resolves. -/
theorem target_eq_rid {e : Experiment} (hspace : ∀ c ∈ e.rid.toList, isSpace c = false)
    (hcontainer : e.container.get? "RUN_ID" = none) (p : Product) :
    target base e p = some e.rid := by
  have hne : e.rid ≠ "" := orElse_ne_empty (ne_empty_of_mem (mem_runIdFor _ _ _))
  have hstrip : strip e.rid = e.rid := strip_eq_self hspace
  rw [target, destination]
  generalize p.side = side
  cases side with
  | host =>
    rw [Envs.of, activeRunId_of_runId (runId_experimentEnv base e), hstrip]
    rwa [hstrip]
  | container =>
    have hcr : ∀ c ∈ e.rid.toList, c ≠ Csv.cr := by
      rintro c hc rfl
      exact absurd (hspace _ hc) (by decide)
    simp only [Envs.of]
    rw [activeRunId_of_unset hcontainer]
    simp only [readMarker, writeMarker, universalNewlines_eq_self hcr, String.ofList_toList, hstrip]
    exact if_neg hne

/-- Under a generated id without white space, every product goes to the experiment's run. -/
theorem target_experimentOf (hrun : runId = none ∨ runId = some "") (turn : Turn)
    {pair : Protocol × Profile} (hplain : pair.2.Plain) (p : Product) :
    target base (experimentOf runId turn pair) p = some (experimentOf runId turn pair).rid :=
  target_eq_rid (isSpace_rid_experimentOf hrun turn hplain) turn.container_runId p

theorem profile_mem_of_pairs {pair : Protocol × Profile} (h : pair ∈ pairs protocols profiles) :
    pair.2 ∈ profiles := (List.mem_product.1 h).2

/-- **A sweep with generated ids** over distinct protocols and distinct plain profiles
    starts the stack of every pair, even when all of them begin in the same second. -/
theorem covers_of_nodup (hrun : runId = none ∨ runId = some "") (hprotocols : protocols.Nodup)
    (hprofiles : profiles.Nodup) (hplain : ∀ profile ∈ profiles, profile.Plain) :
    Covers base t (sweep protocols profiles runId turns) := by
  have hpairs : (pairs protocols profiles).Nodup := hprotocols.product hprofiles
  have hapart {i j : ℕ} (hi : i < (pairs protocols profiles).length)
      (hj : j < (pairs protocols profiles).length) (hij : i < j) :
      (experimentOf runId (turns i) (pairs protocols profiles)[i]).rid ≠
        (experimentOf runId (turns j) (pairs protocols profiles)[j]).rid := by
    intro hid
    rcases rid_eq_iff.1 hid with ⟨hnone, hempty⟩ | ⟨-, hprotocol, hprofile⟩
    · rcases hrun with h | h
      · exact hnone h
      · exact hempty h
    · have hpair := Prod.ext hprotocol (Profile.ext hprofile)
      exact absurd (hpairs.getElem_inj_iff.1 hpair) hij.ne
  rw [covers_iff_pairwise, List.pairwise_iff_getElem]
  intro i j hi hj hij _ _ hmakes
  rw [sweep, List.length_mapIdx] at hi hj
  simp only [sweep, List.getElem_mapIdx] at hmakes
  have hne := hapart hi hj hij
  rcases hmakes with hid | ⟨p, -, htarget⟩
  · exact hne hid.symm
  · rw [target_experimentOf hrun _ (hplain _ (profile_mem_of_pairs (List.getElem_mem hi)))]
      at htarget
    exact hne (Option.some.inj htarget)

end Plain


end TransferTestbed.Runner
