import TransferTestbed.Charts.ErrorBands
import TransferTestbed.Charts.Series

/-!
# The legends of the overview

`_make_overview` of `common/charts.py` draws up to nine figures as panels of grouped bars.
`_draw_bars` labels the bars of every series, and a panel shows these labels only if
`ax.legend` is called on it. The comment there and `ISSUES.md` (FIXED-4) ask for a legend
when there is more than one series; the comprehension counts the size labels.

`ax.bar` belongs to matplotlib: `accepts` says which calls it does not reject.

Results:

* `drawPanel_cases`: which figures have a panel, and the series and the legend of it.
* `legends_match_series_iff`: for which figures every legend is where it should be.
-/

namespace TransferTestbed.Charts

open Binary64 FloatStatistics

/-! ## Model -/

/-- The arguments that `_draw_bars` reads, and how the interpreter adds floats. -/
structure BarArgs where
  agg : Agg
  error : ErrorMode
  summation : Summation

/-- The data of a figure: the values by series and by size label. -/
abbrev SeriesData := Dict Key (Dict String (List (Option ℚ)))

/-- One call of `ax.bar`. -/
structure BarCall where
  x : List ℚ
  ys : List ℚ
  width : ℚ
  label : Option String
  color : String
  hatch : Option String
  yerr : Option (List ℚ × List ℚ)

/-- What drawing may raise: a `KeyError` of `COLORS` or `QOS_HATCH`, or what `ax.bar`
    raises. -/
inductive DrawError
  | color (protocol : String)
  | hatch (qos : Option String)
  | bar (call : BarCall)

/-- `_series_label(key)` (charts.py:215-217). Only the names in `COLORS` reach a chart. -/
def seriesLabel (key : Key) : String :=
  match truthy key.2 with
  | some qos => key.1.toUpper ++ " qos" ++ qos
  | none => key.1.toUpper

/-- `_series_sort_key(key)` (charts.py:220-222). -/
def seriesSortKey (key : Key) : ℕ × String :=
  ((protocols.idxOf? key.1).getD 99, key.2.getD "")

/-- `sorted(series, key=_series_sort_key)`. -/
def sortedKeys (series : SeriesData) : List Key :=
  series.keys.mergeSort fun a b =>
    let a := seriesSortKey a
    let b := seriesSortKey b
    a.1 < b.1 || (a.1 = b.1 && a.2 ≤ b.2)

/-- `{l for d in series.values() for l in d}`. -/
def sizeLabels (series : SeriesData) : List String :=
  (series.flatMap fun entry => entry.2.keys).dedup

/-- The labels by `_label_sort_key`. -/
def sortedLabels (series : SeriesData) : List String :=
  (sizeLabels series).mergeSort fun a b => labelSortKey a ≤ labelSortKey b

/-- What the loop of `_draw_bars` passes to `ax.bar` for the `i`-th of `n` series, once it
    has the styles (charts.py:374-391). -/
def barOf (series : SeriesData) (args : BarArgs) (legend : Bool) (key : Key) (i : ℕ)
    (style : String × Option String) : BarCall :=
  let labels := sortedLabels series
  let n := series.keys.length
  let width := fl (fl (8 / 10) / max n 1)
  let (ys, yerr) := bars args.summation ((series.get? key).getD []) labels args.agg args.error
  { x := (List.range labels.length).map fun j => fl (j + fl ((i - (n - 1) / 2) * width))
    ys := ys
    width := width
    label := if legend then some (seriesLabel key) else none
    color := style.1
    hatch := style.2
    yerr := yerr }

section Drawing

variable (accepts : BarCall → Bool) (args : BarArgs)

/-- One turn of the loop over the series. -/
def drawSeries (series : SeriesData) (legend : Bool) (entry : Key × ℕ) :
    Except DrawError BarCall := do
  let (key, i) := entry
  let some color := colors.get? key.1 | throw (.color key.1)
  let some hatch := qosHatch.get? key.2 | throw (.hatch key.2)
  let call := barOf series args legend key i (color, hatch)
  if accepts call then return call else throw (.bar call)

/-- `_draw_bars(ax, series, args, legend)` (charts.py:366-396): the bars in the order in
    which they are drawn. -/
def drawBars (series : SeriesData) (legend : Bool) : Except DrawError (List BarCall) :=
  if sizeLabels series = [] then .ok []
  else (sortedKeys series).zipIdx.mapM (drawSeries accepts args series legend)

/-- A figure of one metric. -/
structure Figure where
  title : String
  data : SeriesData
  ylabel : String

/-- A panel of the overview. -/
structure Panel where
  title : String
  ylabel : String
  bars : List BarCall
  xticklabels : List String
  legend : Bool

/-- One turn of the loop of `_make_overview` (charts.py:446-456). -/
def drawPanel (fig : Figure) : Except DrawError Panel := do
  let bars ← drawBars accepts args fig.data true
  return {
    title := fig.title
    ylabel := fig.ylabel
    bars := bars
    xticklabels := sortedLabels fig.data
    -- `len({key for d in data.values() for key in d}) > 1`
    legend := (sizeLabels fig.data).length > 1 }

/-- The panels that are finished, and what was raised. -/
structure Overview where
  panels : List Panel
  raised : Option DrawError

def drawPanels : List Figure → Overview
  | [] => ⟨[], none⟩
  | fig :: figs =>
    match drawPanel accepts args fig with
    | .error e => ⟨[], some e⟩
    | .ok panel => ⟨panel :: (drawPanels figs).panels, (drawPanels figs).raised⟩

/-- `_make_overview(figs, outpath, args)` (charts.py:438-461); `none` when there is nothing
    to draw. -/
def makeOverview (figs : List Figure) : Option Overview :=
  if figs = [] then none else some (drawPanels accepts args (figs.take (3 * 3)))

/-! ## The property -/

/-- Every panel has a legend exactly when two or more series are drawn in it. -/
def LegendsMatchSeries (figs : List Figure) : Prop :=
  ∀ overview, makeOverview accepts args figs = some overview →
    ∀ panel ∈ overview.panels, panel.legend = true ↔ 2 ≤ panel.bars.length

/-- A figure that does not raise: it has no size label, or each series has its styles and
    bars that `ax.bar` accepts. -/
def DrawableFigure (fig : Figure) : Prop :=
  sizeLabels fig.data = [] ∨ ∀ entry ∈ (sortedKeys fig.data).zipIdx,
    ∃ style ∈ barStyle entry.1, accepts (barOf fig.data args true entry.1 entry.2 style) = true

instance : DecidablePred (DrawableFigure accepts args) := fun _ =>
  inferInstanceAs (Decidable (_ ∨ ∀ entry ∈ _, _))

/-- The figures of which a panel is finished. -/
def drawnFigures (figs : List Figure) : List Figure :=
  (figs.take (3 * 3)).takeWhile fun fig => DrawableFigure accepts args fig

/-- "Two or more" is the same of the series as of the size labels, or there is no label and
    nothing is drawn. -/
def CountsAgree (fig : Figure) : Prop :=
  sizeLabels fig.data = [] ∨ (2 ≤ fig.data.keys.length ↔ 2 ≤ (sizeLabels fig.data).length)

/-! ## One panel -/

variable {accepts args}

theorem sortedKeys_length (series : SeriesData) :
    (sortedKeys series).zipIdx.length = series.keys.length := by
  rw [List.length_zipIdx, sortedKeys, List.length_mergeSort]

/-- The loop over the series returns when no turn raises, one call for each series. -/
theorem mapM_cases {α β ε : Type} (f : α → Except ε β) (as : List α) :
    ((∀ a ∈ as, ∃ b, f a = .ok b) ∧ ∃ bs, as.mapM f = .ok bs ∧ bs.length = as.length) ∨
      (¬ ∀ a ∈ as, ∃ b, f a = .ok b) ∧ ∃ e, as.mapM f = .error e := by
  induction as with
  | nil => exact .inl ⟨fun a ha => absurd ha List.not_mem_nil, [], rfl, rfl⟩
  | cons a as ih =>
    rw [List.mapM_cons]
    cases ha : f a with
    | error e =>
      refine .inr ⟨fun h => ?_, e, rfl⟩
      obtain ⟨b, hb⟩ := h a List.mem_cons_self
      rw [ha] at hb
      cases hb
    | ok b =>
      rcases ih with ⟨hall, bs, hbs, hlength⟩ | ⟨hnot, e, he⟩
      · refine .inl ⟨List.forall_mem_cons.2 ⟨⟨b, ha⟩, hall⟩, b :: bs, ?_, ?_⟩
        · rw [hbs]
          rfl
        · rw [List.length_cons, List.length_cons, hlength]
      · refine .inr ⟨fun h => hnot (List.forall_mem_cons.1 h).2, e, ?_⟩
        rw [he]
        rfl

theorem drawSeries_ok_iff (series : SeriesData) (legend : Bool) (entry : Key × ℕ) :
    (∃ call, drawSeries accepts args series legend entry = .ok call) ↔
      ∃ style ∈ barStyle entry.1,
        accepts (barOf series args legend entry.1 entry.2 style) = true := by
  obtain ⟨key, i⟩ := entry
  unfold drawSeries barStyle
  cases hcolor : colors.get? key.1 with
  | none => simp [hcolor, throw, throwThe, MonadExceptOf.throw]
  | some color =>
    cases hhatch : qosHatch.get? key.2 with
    | none => simp [hcolor, hhatch, throw, throwThe, MonadExceptOf.throw]
    | some hatch =>
      by_cases haccepts : accepts (barOf series args legend key i (color, hatch)) = true
      · simp [hcolor, hhatch, haccepts, pure, Except.pure]
      · simp [hcolor, hhatch, haccepts, throw, throwThe, MonadExceptOf.throw]

theorem drawableFigure_of_accepts {fig : Figure} (haccepts : ∀ call, accepts call = true)
    (hstyles : ∀ key ∈ fig.data.keys, barStyle key ≠ none) : DrawableFigure accepts args fig := by
  refine .inr fun entry hentry => ?_
  have hkey : entry.1 ∈ fig.data.keys :=
    List.mem_mergeSort.1 (List.fst_mem_of_mem_zipIdx hentry)
  obtain ⟨style, hstyle⟩ := Option.ne_none_iff_exists'.1 (hstyles entry.1 hkey)
  exact ⟨style, hstyle, haccepts _⟩

/-- Either the figure is drawable, and every series is drawn if there is a label, or its
    panel is not finished. -/
theorem drawPanel_cases (fig : Figure) :
    (DrawableFigure accepts args fig ∧ ∃ panel, drawPanel accepts args fig = .ok panel ∧
      panel.bars.length = (if sizeLabels fig.data = [] then 0 else fig.data.keys.length) ∧
      (panel.legend = true ↔ 2 ≤ (sizeLabels fig.data).length)) ∨
    ¬ DrawableFigure accepts args fig ∧ ∃ e, drawPanel accepts args fig = .error e := by
  unfold drawPanel drawBars
  by_cases hlabels : sizeLabels fig.data = []
  · rw [if_pos hlabels]
    refine .inl ⟨.inl hlabels, _, rfl, ?_, decide_eq_true_iff⟩
    rw [if_pos hlabels, List.length_nil]
  · rw [if_neg hlabels]
    rcases mapM_cases (drawSeries accepts args fig.data true) (sortedKeys fig.data).zipIdx with
      ⟨hall, bs, hbs, hlength⟩ | ⟨hnot, e, he⟩
    · refine .inl ⟨.inr fun entry hentry => ?_, ?_⟩
      · exact (drawSeries_ok_iff fig.data true entry).1 (hall entry hentry)
      · rw [hbs]
        refine ⟨_, rfl, ?_, decide_eq_true_iff⟩
        rw [if_neg hlabels]
        exact hlength.trans (sortedKeys_length fig.data)
    · refine .inr ⟨?_, e, ?_⟩
      · rintro (hnil | hdrawable)
        · exact hlabels hnil
        · exact hnot fun entry hentry =>
            (drawSeries_ok_iff fig.data true entry).2 (hdrawable entry hentry)
      · rw [he]
        rfl

/-! ## The overview -/

/-- The finished panels, figure by figure. -/
theorem drawPanels_forall (figs : List Figure) :
    (∀ panel ∈ (drawPanels accepts args figs).panels,
        panel.legend = true ↔ 2 ≤ panel.bars.length) ↔
      ∀ fig ∈ figs.takeWhile fun fig => DrawableFigure accepts args fig, CountsAgree fig := by
  induction figs with
  | nil => exact ⟨fun _ fig h => absurd h List.not_mem_nil, fun _ p h => absurd h List.not_mem_nil⟩
  | cons fig figs ih =>
    unfold drawPanels
    rcases @drawPanel_cases accepts args fig with
      ⟨hdrawable, panel, hpanel, hbars, hlegend⟩ | ⟨hnot, e, herror⟩
    · rw [hpanel, List.takeWhile_cons, if_pos (decide_eq_true hdrawable)]
      show (∀ p ∈ panel :: _, _) ↔ _
      rw [List.forall_mem_cons, List.forall_mem_cons, ih]
      refine and_congr_left fun _ => ?_
      rw [hlegend, hbars, CountsAgree]
      by_cases hlabels : sizeLabels fig.data = []
      · simp [hlabels]
      · rw [if_neg hlabels, or_iff_right hlabels]
        exact ⟨Iff.symm, Iff.symm⟩
    · rw [herror, List.takeWhile_cons, if_neg (by simpa using hnot)]
      exact ⟨fun _ fig h => absurd h List.not_mem_nil, fun _ p h => absurd h List.not_mem_nil⟩

/-- **Legends of the overview**: they are where they should be exactly when each figure that
    is drawn has no size label, or two or more of them just when it has two or more series. -/
theorem legends_match_series_iff (accepts : BarCall → Bool) (args : BarArgs)
    (figs : List Figure) : LegendsMatchSeries accepts args figs ↔
      ∀ fig ∈ drawnFigures accepts args figs, CountsAgree fig := by
  unfold LegendsMatchSeries makeOverview drawnFigures
  by_cases hfigs : figs = []
  · simp [hfigs]
  · rw [if_neg hfigs]
    refine Iff.trans ?_ (drawPanels_forall (figs.take (3 * 3)))
    constructor
    · intro h
      exact h _ rfl
    · rintro h overview hoverview
      rw [← Option.some.inj hoverview]
      exact h

/-- Two protocols compared at one size. -/
def twoProtocols : Figure where
  title := "Goodput (client-measured)"
  data := [(("http", none), [("5 MB", [some 40])]), (("coap", none), [("5 MB", [some 2])])]
  ylabel := "Mbps"

/-- Their panel has two series and no legend. -/
theorem not_legendsMatchSeries_twoProtocols :
    ¬ LegendsMatchSeries (fun _ => true) ⟨.median, .none, .compensated⟩ [twoProtocols] := by
  intro h
  have hdrawable : DrawableFigure (fun _ => true) ⟨.median, .none, .compensated⟩ twoProtocols :=
    drawableFigure_of_accepts (fun _ => rfl) (by decide)
  rcases @drawPanel_cases (fun _ => true) ⟨.median, .none, .compensated⟩ twoProtocols with
    ⟨-, panel, hpanel, hbars, hlegend⟩ | ⟨hnot, -⟩
  · have hmem : panel ∈ (drawPanels (fun _ => true) ⟨.median, .none, .compensated⟩
        [twoProtocols]).panels := by
      rw [drawPanels, hpanel]
      exact List.mem_cons_self
    have hlabels : ¬ 2 ≤ (sizeLabels twoProtocols.data).length := by decide +kernel
    refine hlabels (hlegend.1 ((h _ rfl panel hmem).2 ?_))
    rw [hbars]
    decide +kernel
  · exact hnot hdrawable

end Drawing

end TransferTestbed.Charts
