import Mathlib.Data.List.FinRange
import TransferTestbed.Library.Transition
import TransferTestbed.Output.WriteCsv

/-!
# Concurrent calls of `write_to_csv` on one file

Calls by different processes on the same path, each in two steps: reading the
existing header, then opening for append and writing (one atomic append). The
rows of a call have columns as keys, as those of every writer of
`write_csv.py` do.

A call that saw no header writes one. When the file came into being between its
two steps, that header is not the first line.

Results:
* `step_block`: every append puts one block of records behind the file.
* `wellFormedAfter_iff`: the file ends up well formed iff every call that saw no
  header still finds no file when it appends.
-/

namespace TransferTestbed.ConcurrentAppends

open WriteCsv Transition

/-- A call with non-empty data. -/
structure Call (fieldnames : List String) where
  md : MetaRow
  rows : List (MeasurementRow fieldnames)
  rows_ne_nil : rows ≠ []

inductive Phase where
  | ready
  | seen (header : Option Csv.Record)
  | done
deriving DecidableEq, Repr

structure State (n : ℕ) where
  file : Option (List Char)
  phase : Fin n → Phase

inductive Action (n : ℕ) where
  | readHeader (i : Fin n)
  | append (i : Fin n)

variable {fieldnames : List String} {n : ℕ}

/-- One step of one of the calls. -/
def step (calls : Fin n → Call fieldnames) (s : State n) : Action n → Option (State n)
  | .readHeader i =>
    if s.phase i = .ready then
      some { s with phase := Function.update s.phase i (.seen (existingHeader s.file)) }
    else none
  | .append i =>
    match s.phase i with
    | .seen header =>
      let text := appendedText header (calls i).md fieldnames
        ((calls i).rows.map MeasurementRow.cells)
      some { file := some (s.file.getD [] ++ text.1), phase := Function.update s.phase i .done }
    | _ => none

def init (file : Option (List Char)) : State n := ⟨file, fun _ => .ready⟩

def Finished (s : State n) : Prop := ∀ i, s.phase i = .done

/-! ## Well-formed files -/

/-- The text of a file with these records; a file without records is absent. -/
def fileText (rs : List Csv.Record) : Option (List Char) :=
  if rs = [] then none else some (Csv.render rs)

/-- The header of the file: that of the file the calls start from, or the one the
    first call writes. -/
def headerOf (fieldnames : List String) (start : List Csv.Record) : Csv.Record :=
  start.head?.getD (allFields true fieldnames)

/-- The records of the rows of a call under a header. -/
def callRecords (header : Csv.Record) (c : Call fieldnames) : List Csv.Record :=
  c.rows.map fun row => rowRecord (useMeta (some header)) c.md fieldnames row.cells

/-- The file is the starting one, or a header when there was none, followed by
    every row of every call exactly once; without calls it is unchanged. -/
def WellFormedAfter (start : List Csv.Record) (calls : Fin n → Call fieldnames)
    (file : Option (List Char)) : Prop :=
  ∃ recs, recs.Perm ((List.finRange n).flatMap fun i =>
      callRecords (headerOf fieldnames start) (calls i)) ∧
    file = fileText ((if start = [] ∧ n ≠ 0 then [headerOf fieldnames start] else start) ++ recs)

/-- A call that saw no header finds no file when it appends. -/
def HeaderFresh (s : State n) (a : Action n) : Prop :=
  ∀ i, a = .append i → s.phase i = .seen none → s.file = none

theorem fileText_injective {rs ts : List Csv.Record} (h : fileText rs = fileText ts) : rs = ts := by
  unfold fileText at h
  split_ifs at h with hr ht ht
  · rw [hr, ht]
  · rw [← Csv.parse_render rs, Option.some.inj h, Csv.parse_render]

theorem existingHeader_fileText (rs : List Csv.Record) :
    existingHeader (fileText rs) = rs.head? := by
  unfold fileText
  split_ifs with h
  · rw [h]; rfl
  · rw [existingHeader, Option.bind_some, Csv.parse_render]

theorem fileText_append {rs ts : List Csv.Record} (h : ts ≠ []) :
    some ((fileText rs).getD [] ++ Csv.render ts) = fileText (rs ++ ts) := by
  have hne : rs ++ ts ≠ [] := by simp [h]
  rw [fileText, fileText, if_neg hne]
  split_ifs with hr
  · rw [hr]; rfl
  · rw [Csv.render_append]; rfl

/-! ## The invariant -/

/-- What an append adds: the rows of the call, after a header if it saw none. -/
def block (start : List Csv.Record) (calls : Fin n → Call fieldnames) (b : Fin n × Bool) :
    List Csv.Record :=
  (if b.2 then [headerOf fieldnames start] else []) ++
    callRecords (headerOf fieldnames start) (calls b.1)

/-- The state after the appends `blocks`, each with its call and whether that call
    had seen no header. -/
structure Inv (start : List Csv.Record) (calls : Fin n → Call fieldnames)
    (blocks : List (Fin n × Bool)) (s : State n) : Prop where
  file : s.file = fileText (start ++ blocks.flatMap (block start calls))
  nodup : (blocks.map Prod.fst).Nodup
  done : ∀ i, i ∈ blocks.map Prod.fst ↔ s.phase i = .done
  seen : ∀ i header, s.phase i = .seen header → header = none ∧ start = [] ∨
    header = some (headerOf fieldnames start) ∧ ¬ (start = [] ∧ blocks = [])
  first : start = [] → ∀ b ∈ blocks.head?, b.2 = true
  later : start ≠ [] → ∀ b ∈ blocks, b.2 = false

/-- No header but the first. -/
def OneHeader (blocks : List (Fin n × Bool)) : Prop := ∀ b ∈ blocks.tail, b.2 = false

variable {start : List Csv.Record} {calls : Fin n → Call fieldnames}

theorem init_inv : Inv start calls [] (init (fileText start)) where
  file := by simp [init]
  nodup := List.nodup_nil
  done := by simp [init]
  seen := by simp [init]
  first := by simp
  later := by simp

theorem block_ne_nil (b : Fin n × Bool) : block start calls b ≠ [] := by
  simp [block, callRecords, (calls b.1).rows_ne_nil]

theorem headerOf_nil : headerOf fieldnames [] = allFields true fieldnames := rfl

/-- The header a call reads: that of the file, if there is one. -/
theorem Inv.existingHeader {blocks : List (Fin n × Bool)} {s : State n}
    (h : Inv start calls blocks s) :
    existingHeader s.file =
      if start = [] ∧ blocks = [] then none else some (headerOf fieldnames start) := by
  rw [h.file, existingHeader_fileText]
  cases start with
  | cons header rs => simp [headerOf]
  | nil =>
    cases blocks with
    | nil => simp
    | cons b blocks =>
      have hb : b.2 = true := h.first rfl b (by simp)
      simp [block, hb]

theorem Inv.file_eq_none_iff {blocks : List (Fin n × Bool)} {s : State n}
    (h : Inv start calls blocks s) : s.file = none ↔ start = [] ∧ blocks = [] := by
  rw [h.file, fileText]
  cases blocks with
  | nil => simp
  | cons b blocks => simp [block_ne_nil]

/-- What an append writes, by the header its call saw. -/
theorem appendedText_block {i : Fin n} {header : Option Csv.Record}
    (h : header = none ∧ start = [] ∨ header = some (headerOf fieldnames start)) :
    (appendedText header (calls i).md fieldnames ((calls i).rows.map MeasurementRow.cells)).1 =
      Csv.render (block start calls (i, decide (header = none))) := by
  rw [appendedText_rows]
  rcases h with ⟨rfl, rfl⟩ | rfl
  · have hnone : useMeta none = true := rfl
    simp [block, callRecords, headerOf_nil, useMeta_allFields, hnone]
  · simp [block, callRecords]

/-- A call that reads the header sees that of the file, if there is one. -/
theorem Inv.readHeader {blocks : List (Fin n × Bool)} {s : State n} (h : Inv start calls blocks s)
    {i : Fin n} (hready : s.phase i = .ready) :
    Inv start calls blocks
      { s with phase := Function.update s.phase i (.seen (WriteCsv.existingHeader s.file)) } where
  file := h.file
  nodup := h.nodup
  done := by
    intro j
    by_cases hj : j = i
    · subst hj
      have hnew := (h.done j).not.2 (by simp [hready])
      simpa using hnew
    · simpa [hj] using h.done j
  seen := by
    intro j header hseen
    by_cases hj : j = i
    · subst hj
      have hheader : header = if start = [] ∧ blocks = [] then none
          else some (headerOf fieldnames start) := by
        simpa [h.existingHeader, eq_comm] using hseen
      rw [hheader]
      split_ifs with hc
      · exact Or.inl ⟨rfl, hc.1⟩
      · exact Or.inr ⟨rfl, hc⟩
    · exact h.seen j header (by simpa [hj] using hseen)
  first := h.first
  later := h.later

/-- A call that appends puts its block behind the file. -/
theorem Inv.append {blocks : List (Fin n × Bool)} {s : State n} (h : Inv start calls blocks s)
    {i : Fin n} {header : Option Csv.Record} (hseen : s.phase i = .seen header) :
    Inv start calls (blocks ++ [(i, decide (header = none))])
      { file := some (s.file.getD [] ++ (appendedText header (calls i).md fieldnames
          ((calls i).rows.map MeasurementRow.cells)).1)
        phase := Function.update s.phase i .done } := by
  have hheader := h.seen i header hseen
  have hnew : i ∉ blocks.map Prod.fst := by
    rw [h.done i, hseen]
    simp
  constructor
  case file =>
    simp only [appendedText_block (hheader.imp_right And.left), h.file]
    rw [fileText_append (block_ne_nil _), List.append_assoc, List.flatMap_append]
    simp
  case nodup =>
    rw [List.map_append, List.nodup_append]
    refine ⟨h.nodup, by simp, fun j hj k hk hjk => hnew ?_⟩
    rw [← show k = i by simpa using hk, ← hjk]
    exact hj
  case done =>
    intro j
    by_cases hj : j = i
    · simp [hj]
    · simpa [hj] using h.done j
  case seen =>
    intro j header' hseen'
    by_cases hj : j = i
    · simp [hj] at hseen'
    · rcases h.seen j header' (by simpa [hj] using hseen') with h' | h'
      · exact Or.inl h'
      · exact Or.inr ⟨h'.1, by simp⟩
  case first =>
    -- the first append is by a call that found no file
    intro hstart b hb
    cases blocks with
    | cons c blocks => exact h.first hstart b (by simpa using hb)
    | nil =>
      have hb' : b = (i, decide (header = none)) := by simpa [eq_comm] using hb
      rcases hheader with hnone | hsome
      · simp [hb', hnone.1]
      · exact absurd ⟨hstart, rfl⟩ hsome.2
  case later =>
    intro hstart b hb
    rcases List.mem_append.1 hb with hb | hb
    · exact h.later hstart b hb
    · rcases hheader with hnone | hsome
      · exact absurd hnone.2 hstart
      · simp [List.mem_singleton.1 hb, hsome.1]

/-- Reading the header adds nothing; an append adds one block. -/
theorem step_block {blocks : List (Fin n × Bool)} {s t : State n} {a : Action n}
    (h : Inv start calls blocks s) (hstep : step calls s a = some t) :
    (∃ i, a = .readHeader i ∧ Inv start calls blocks t) ∨
      ∃ i header, a = .append i ∧ s.phase i = .seen header ∧
        Inv start calls (blocks ++ [(i, decide (header = none))]) t := by
  cases a with
  | readHeader i =>
    simp only [step] at hstep
    split_ifs at hstep with hready
    cases hstep
    exact Or.inl ⟨i, rfl, h.readHeader hready⟩
  | append i =>
    simp only [step] at hstep
    split at hstep
    · rename_i header hseen
      cases hstep
      exact Or.inr ⟨i, header, rfl, hseen, h.append hseen⟩
    · cases hstep

/-! ## Runs -/

theorem oneHeader_append_left {l m : List (Fin n × Bool)} (h : OneHeader (l ++ m)) :
    OneHeader l := by
  cases l with
  | nil => simp [OneHeader]
  | cons b l => exact fun c hc => h c (by simpa using Or.inl hc)

theorem oneHeader_concat {l : List (Fin n × Bool)} (h : OneHeader l) (b : Fin n × Bool) :
    OneHeader (l ++ [b]) ↔ (l ≠ [] → b.2 = false) := by
  cases l with
  | nil => simp [OneHeader]
  | cons c l =>
    constructor
    · intro hb _
      exact hb b (by simp)
    · intro hb d hd
      rcases List.mem_append.1 (by simpa using hd : d ∈ l ++ [b]) with hd | hd
      · exact h d (by simpa using hd)
      · rw [List.mem_singleton.1 hd]
        exact hb (by simp)

/-- An append is fresh iff its block does not bring a second header. -/
theorem headerFresh_append_iff {blocks : List (Fin n × Bool)} {s : State n}
    (h : Inv start calls blocks s) (hone : OneHeader blocks) {i : Fin n}
    {header : Option Csv.Record} (hseen : s.phase i = .seen header) :
    HeaderFresh s (.append i) ↔ OneHeader (blocks ++ [(i, decide (header = none))]) := by
  rw [oneHeader_concat hone]
  constructor
  · intro hfresh hblocks
    rw [decide_eq_false_iff_not]
    rintro rfl
    exact hblocks (h.file_eq_none_iff.1 (hfresh i rfl hseen)).2
  · rintro hb j hj hnone
    cases hj
    obtain rfl : header = none := by simpa [hseen] using hnone
    rw [h.file_eq_none_iff]
    refine ⟨?_, by_contra fun hblocks => by simpa using hb hblocks⟩
    rcases h.seen i none hseen with h' | h'
    · exact h'.2
    · simp at h'

/-- A whole run: its appends, and whether they were fresh. -/
theorem run_blocks (as : List (Action n)) {s u : State n} {blocks : List (Fin n × Bool)}
    (h : Inv start calls blocks s) (hrun : run (step calls) s as = some u) :
    ∃ more, Inv start calls (blocks ++ more) u ∧ (OneHeader blocks →
      (Along (step calls) HeaderFresh s as ↔ OneHeader (blocks ++ more))) := by
  induction as generalizing s blocks with
  | nil =>
    cases hrun
    exact ⟨[], by simpa using h, fun hone => by simpa [Along] using hone⟩
  | cons a as ih =>
    obtain ⟨t, hstep, hrest⟩ := run_cons_eq_some.1 hrun
    rcases step_block h hstep with ⟨i, rfl, ht⟩ | ⟨i, header, rfl, hseen, ht⟩
    · obtain ⟨more, hu, hiff⟩ := ih ht hrest
      refine ⟨more, hu, fun hone => ?_⟩
      have hfresh : HeaderFresh s (.readHeader i) := fun j hj => by cases hj
      rw [along_cons_iff hstep, hiff hone, and_iff_right hfresh]
    · obtain ⟨more, hu, hiff⟩ := ih ht hrest
      rw [List.append_assoc] at hu hiff
      refine ⟨_, hu, fun hone => ?_⟩
      rw [along_cons_iff hstep, headerFresh_append_iff h hone hseen]
      constructor
      · rintro ⟨hb, hfresh⟩
        exact (hiff hb).1 hfresh
      · intro hall
        rw [← List.append_assoc] at hall
        have hb := oneHeader_append_left hall
        exact ⟨hb, (hiff hb).2 (by rwa [← List.append_assoc])⟩

/-! ## The final file -/

theorem flatMap_block_of_forall (start : List Csv.Record) (calls : Fin n → Call fieldnames)
    {l : List (Fin n × Bool)} (h : ∀ b ∈ l, b.2 = false) :
    l.flatMap (block start calls) =
      (l.map Prod.fst).flatMap fun i => callRecords (headerOf fieldnames start) (calls i) := by
  induction l with
  | nil => rfl
  | cons b l ih =>
    have hb : b.2 = false := h b (by simp)
    rw [List.flatMap_cons, ih fun c hc => h c (by simp [hc])]
    simp [block, hb]

theorem length_flatMap_block (l : List (Fin n × Bool)) :
    (l.flatMap (block start calls)).length = l.countP (fun b => b.2) +
      ((l.map Prod.fst).flatMap fun i =>
        callRecords (headerOf fieldnames start) (calls i)).length := by
  induction l with
  | nil => rfl
  | cons b l ih =>
    rw [List.flatMap_cons, List.length_append, ih, List.map_cons, List.flatMap_cons,
      List.length_append, List.countP_cons]
    cases hb : b.2 <;> simp [block, hb] <;> omega

/-- When all calls are done, every call has appended exactly once. -/
theorem Inv.perm {blocks : List (Fin n × Bool)} {s : State n} (h : Inv start calls blocks s)
    (hdone : Finished s) : (blocks.map Prod.fst).Perm (List.finRange n) := by
  rw [List.perm_ext_iff_of_nodup h.nodup (List.nodup_finRange n)]
  intro i
  simpa using (h.done i).2 (hdone i)

theorem Inv.ne_nil {blocks : List (Fin n × Bool)} {s : State n} (h : Inv start calls blocks s)
    (hdone : Finished s) : blocks ≠ [] ↔ n ≠ 0 := by
  have hlen := (h.perm hdone).length_eq
  rw [List.length_map, List.length_finRange] at hlen
  rw [← not_iff_not, not_not, not_not, ← List.length_eq_zero_iff, hlen]

/-- The final file is well formed iff no append brought a second header. -/
theorem Inv.wellFormed_iff {blocks : List (Fin n × Bool)} {s : State n}
    (h : Inv start calls blocks s) (hdone : Finished s) :
    WellFormedAfter start calls s.file ↔ OneHeader blocks := by
  have hperm := (h.perm hdone).flatMap_right
    fun i => callRecords (headerOf fieldnames start) (calls i)
  have hn := h.ne_nil hdone
  constructor
  · rintro ⟨recs, hrecs, hfile⟩
    have heq := congrArg List.length (fileText_injective (h.file.symm.trans hfile))
    have hlen := (hrecs.trans hperm.symm).length_eq
    rw [List.length_append, length_flatMap_block, List.length_append, hlen] at heq
    cases blocks with
    | nil => simp [OneHeader]
    | cons b blocks =>
      rcases eq_or_ne start [] with rfl | hstart
      · have hb : b.2 = true := h.first rfl b (by simp)
        have hn' : n ≠ 0 := hn.1 (by simp)
        rw [if_pos ⟨rfl, hn'⟩, List.countP_cons, if_pos hb, List.length_singleton,
          List.length_nil] at heq
        have hzero : blocks.countP (fun b => b.2) = 0 := by omega
        intro c hc
        simpa using List.countP_eq_zero.1 hzero c hc
      · exact fun c hc => h.later hstart c (List.mem_cons_of_mem _ hc)
  · intro hone
    refine ⟨_, hperm, ?_⟩
    rw [h.file]
    congr 1
    cases blocks with
    | nil =>
      have hn' : ¬ n ≠ 0 := fun hn' => hn.2 hn' rfl
      simp [hn']
    | cons b blocks =>
      rcases eq_or_ne start [] with rfl | hstart
      · have hb : b.2 = true := h.first rfl b (by simp)
        have hn' : n ≠ 0 := hn.1 (by simp)
        have htail := flatMap_block_of_forall [] calls hone
        rw [List.tail_cons] at htail
        rw [if_pos ⟨rfl, hn'⟩, List.flatMap_cons, htail, List.map_cons, List.flatMap_cons]
        simp [block, hb]
      · rw [if_neg (fun hc => hstart hc.1), flatMap_block_of_forall _ _ (h.later hstart)]

/-- **Concurrent appends leave a well-formed file exactly when no header is
    stale.** From an absent or a well-formed file, in every run in which all calls
    finish. -/
theorem wellFormedAfter_iff (start : List Csv.Record) (calls : Fin n → Call fieldnames)
    (as : List (Action n)) (s : State n)
    (hrun : run (step calls) (init (fileText start)) as = some s) (hdone : Finished s) :
    WellFormedAfter start calls s.file ↔
      Along (step calls) HeaderFresh (init (fileText start)) as := by
  obtain ⟨blocks, hinv, hiff⟩ := run_blocks as init_inv hrun
  rw [List.nil_append] at hinv hiff
  rw [hinv.wellFormed_iff hdone, hiff (by simp [OneHeader])]

/-- A row of the MQTT sender or receiver. -/
def sideRow (side : String) : MeasurementRow mqttFields :=
  have hkeys : Dict.keys [("protocol", Cell.str "mqtt"), ("side", Cell.str side)] =
    ["protocol", "side"] := rfl
  ⟨[("protocol", .str "mqtt"), ("side", .str side)], by rw [hkeys]; decide,
    by rw [hkeys]; decide⟩

/-- The sender and the receiver of one transfer. -/
def bothSides (i : Fin 2) : Call mqttFields :=
  ⟨⟨"r", "2026-01-01T00:00:00+00:00", ""⟩, [sideRow (if i = 0 then "sender" else "receiver")],
    by simp⟩

theorem wellFormedAfter_iff_bothSides :
    ∃ s, run (step bothSides) (init (fileText []))
        [.readHeader 0, .append 0, .readHeader 1, .append 1] = some s ∧ Finished s ∧
      (WellFormedAfter [] bothSides s.file ↔ Along (step bothSides) HeaderFresh (init (fileText []))
        [.readHeader 0, .append 0, .readHeader 1, .append 1]) := by
  have hdone : ∃ s, run (step bothSides) (init (fileText []))
      [.readHeader 0, .append 0, .readHeader 1, .append 1] = some s ∧ Finished s :=
    ⟨_, rfl, by intro i; fin_cases i <;> rfl⟩
  obtain ⟨s, hrun, hfin⟩ := hdone
  exact ⟨s, hrun, hfin, wellFormedAfter_iff [] bothSides _ s hrun hfin⟩

/-- Both processes look for the header before either appends: the file gets two. -/
theorem not_wellFormedAfter_bothSides :
    ∃ s, run (step bothSides) (init (fileText []))
        [.readHeader 0, .readHeader 1, .append 0, .append 1] = some s ∧ Finished s ∧
      ¬ WellFormedAfter [] bothSides s.file := by
  have hdone : ∃ s, run (step bothSides) (init (fileText []))
      [.readHeader 0, .readHeader 1, .append 0, .append 1] = some s ∧ Finished s :=
    ⟨_, rfl, by intro i; fin_cases i <;> rfl⟩
  obtain ⟨s, hrun, hfin⟩ := hdone
  refine ⟨s, hrun, hfin, fun hwell => ?_⟩
  obtain ⟨blocks, hinv, hiff⟩ := run_blocks _ init_inv hrun
  rw [List.nil_append] at hinv hiff
  have halong := (hiff (by simp [OneHeader])).2 ((hinv.wellFormed_iff hfin).1 hwell)
  -- the second append: its call saw no header, and the file is there by now
  rw [along_cons_iff rfl, along_cons_iff rfl, along_cons_iff rfl] at halong
  have hstale := halong.2.2.2.1 1 rfl rfl
  cases hstale

end TransferTestbed.ConcurrentAppends
