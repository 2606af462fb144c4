import TransferTestbed.Charts.Overview
import TransferTestbed.Library.Fallible

/-!
# Line charts and bar charts

`_plot_line` and `_plot_bar` of `common/charts.py`. A line chart has a line for each series,
with a point for each file size that the series has values for: the size of the label and the
aggregate of the values, with a band around it.

What matplotlib does with the numbers is not modelled, nor the size of the image. `--x-scale`,
`--y-scale` and `--chart-type` are choices that the argument parser has checked.

Results:

* `plotLine_cases`: when a line chart is drawn, and what.
* `lines_of_rows`: from the rows of the measurement files to the points.
-/

namespace TransferTestbed.Charts

/-! ## Model -/

/-- The scale of an axis. -/
inductive Scale
  | linear | log
  deriving DecidableEq, Repr

/-- The choices of `--chart-type`. -/
inductive ChartType
  | auto | line | bar
  deriving DecidableEq, Repr

/-- The arguments that the plotting functions read; `--x-scale auto` is `none`. -/
structure PlotArgs extends BarArgs where
  xScale : Option Scale
  yScale : Scale
  chartType : ChartType

/-- An entry of `points` (charts.py:326-333). -/
structure Point where
  x : ℚ
  y : ℚ
  low : Option ℚ
  high : Option ℚ

/-- One series: the arguments of `ax.plot` and of `ax.fill_between`. -/
structure Line where
  xs : List ℚ
  ys : List ℚ
  band : Option (List ℚ × List ℚ)
  color : String
  linestyle : String
  label : String

structure LineChart where
  title : String
  ylabel : String
  lines : List Line
  xscale : Scale
  yscale : Scale
  xticks : List ℚ
  xticklabels : List String

structure BarChart where
  title : String
  ylabel : String
  bars : List BarCall
  xticklabels : List String
  yscale : Scale

/-- What plotting may raise: a `KeyError` of `COLORS` or `QOS_STYLES`, or an error of
    `_draw_bars`. -/
inductive PlotError
  | color (protocol : String)
  | linestyle (qos : Option String)
  | bars (e : DrawError)

/-- The point of a label, if the series has values for it. -/
def pointOf (data : Dict String (List (Option ℚ))) (args : BarArgs) (label : String) :
    Option Point :=
  let values := (data.get? label).getD []
  (aggregate args.summation values args.agg).map fun y =>
    let (lo, hi) := errorBounds args.summation values args.error
    ⟨xCoordinate label, y, lo, hi⟩

/-- What is drawn for `points` (charts.py:336-344). -/
def lineOf (args : BarArgs) (key : Key) (style : String × String) (points : List Point) : Line where
  xs := points.map Point.x
  ys := points.map Point.y
  band :=
    if args.error = .none then none
    else some (points.map fun p => p.low.getD (p.y),
      points.map fun p => p.high.getD (p.y))
  color := style.1
  linestyle := style.2
  label := seriesLabel key

/-- One turn of the loop over the series; a series without points is skipped. -/
def drawLine (series : SeriesData) (args : BarArgs) (key : Key) :
    Except PlotError (Option Line) := do
  let points := (sortedLabels series).filterMap (pointOf ((series.get? key).getD []) args)
  if points = [] then return none
  let some color := colors.get? key.1 | throw (.color key.1)
  let some linestyle := qosStyles.get? key.2 | throw (.linestyle key.2)
  return some (lineOf args key (color, linestyle) points)

/-- The scale of the x axis (charts.py:320-322). -/
def xScaleOf (args : PlotArgs) (labels : List String) : Scale :=
  let scale := args.xScale.getD .log
  if scale = .log ∧ ∃ l ∈ labels, xCoordinate l ≤ 0 then .linear else scale

/-- The scale of the y axis (charts.py:345-350). -/
def yScaleOf (args : PlotArgs) (series : SeriesData) : Scale :=
  let values := series.flatMap fun entry => entry.2.flatMap fun d => d.2
  if args.yScale = .log ∧ ∃ v ∈ values.reduceOption, v ≤ 0 then .linear else args.yScale

/-- `_plot_line(series, title, ylabel, outpath, args)` (charts.py:313-363); `none` is a skipped
    chart. -/
def plotLine (series : SeriesData) (title ylabel : String) (args : PlotArgs) :
    Except PlotError (Option LineChart) := do
  let labels := sortedLabels series
  if labels = [] then return none
  let lines ← (sortedKeys series).mapM (drawLine series args.toBarArgs)
  let xticks := (labels.map xCoordinate).dedup.mergeSort (· ≤ ·)
  return some {
    title := title
    ylabel := ylabel
    lines := lines.reduceOption
    xscale := xScaleOf args labels
    yscale := yScaleOf args series
    xticks := xticks
    xticklabels := xticks.map fun x => Decimal.general 6 x ++ " MB" }

/-- `_plot_bar(series, title, ylabel, outpath, args)` (charts.py:399-416); `none` is a skipped
    chart. -/
def plotBar (accepts : BarCall → Bool) (series : SeriesData) (title ylabel : String)
    (args : PlotArgs) : Except PlotError (Option BarChart) := do
  let labels := sortedLabels series
  if labels = [] then return none
  let bars ← (drawBars accepts args.toBarArgs series true).mapError .bars
  return some ⟨title, ylabel, bars, labels, args.yScale⟩

/-- The dictionary of `_collect`, with values that are not `None`. -/
def seriesOf (data : Data) : SeriesData :=
  data.mapValues fun d => d.mapValues fun values => values.map some

/-! ## The property -/

/-- A line shows the entries of a key: in the color and style of the key, with a point at each
    label that has values, which is their aggregate and has their band. Sizes of the usual range
    have points of their own. -/
structure Shows (es : List (Key × String × ℚ)) (args : BarArgs) (key : Key)
    (labels : List String) (line : Line) : Prop where
  style : lineStyle key = some (line.color, line.linestyle)
  label : line.label = seriesLabel key
  nodup : labels.Nodup
  mem_labels : ∀ l, l ∈ labels ↔ Grouping.select es key l ≠ []
  xs : line.xs = labels.map xCoordinate
  sorted : line.xs.Pairwise (· ≤ ·)
  strict : (∀ l ∈ labels, ∃ size, 0 < size ∧ InRange size ∧ l = sizeLabel size) →
    line.xs.Pairwise (· < ·)
  ys : line.ys.map some =
    labels.map fun l => aggregate args.summation ((Grouping.select es key l).map some) args.agg
  noBand : args.error = .none → line.band = none
  band : args.error ≠ .none → ∃ los his, line.band = some (los, his) ∧
    los.map some = labels.map (fun l =>
      (errorBounds args.summation ((Grouping.select es key l).map some) args.error).1) ∧
    his.map some = labels.map fun l =>
      (errorBounds args.summation ((Grouping.select es key l).map some) args.error).2

/-- A chart shows the entries: one line for each key, by protocol and QoS, no two of which look
    alike, ticks at the sizes that there are, and logarithmic axes only for positive numbers. -/
structure Plotted (es : List (Key × String × ℚ)) (args : PlotArgs) (chart : LineChart) : Prop where
  lines : ∃ keys : List Key, keys.Nodup ∧ (∀ key, key ∈ keys ↔ ∃ e ∈ es, e.1 = key) ∧
    keys.Pairwise (fun a b => toLex (seriesSortKey a) ≤ toLex (seriesSortKey b)) ∧
    List.Forall₂ (fun key line => ∃ labels, Shows es args.toBarArgs key labels line) keys
      chart.lines
  looks : (chart.lines.map fun line => (line.color, line.linestyle)).Nodup
  sorted : chart.xticks.Pairwise (· < ·)
  xticks : ∀ x, x ∈ chart.xticks ↔ ∃ e ∈ es, xCoordinate e.2.1 = x
  xscale : chart.xscale = .log ↔ args.xScale ≠ some .linear ∧ ∀ e ∈ es, 0 < xCoordinate e.2.1
  yscale : chart.yscale = .log ↔ args.yScale = .log ∧ ∀ e ∈ es, 0 < e.2.2

/-! ## The points of a line -/

/-- What a point shows at a label. -/
structure IsPoint (values : String → List ℚ) (args : BarArgs) (label : String) (p : Point) :
    Prop where
  x : xCoordinate label = p.x
  y : aggregate args.summation ((values label).map some) args.agg = some p.y
  bounds : args.error ≠ .none → ∃ lo hi, p.low = some lo ∧ p.high = some hi ∧
    errorBounds args.summation ((values label).map some) args.error = (some lo, some hi)

theorem reduceOption_map_some {α : Type*} (xs : List α) : (xs.map some).reduceOption = xs := by
  rw [List.reduceOption, List.filterMap_map]
  exact List.filterMap_some

theorem filterMap_pointOf {data : Dict String (List (Option ℚ))} {values : String → List ℚ}
    (hvalues : ∀ l, (data.get? l).getD [] = (values l).map some) (args : BarArgs)
    (labels : List String) :
    List.Forall₂ (IsPoint values args) (labels.filter fun l => values l ≠ [])
      (labels.filterMap (pointOf data args)) := by
  induction labels with
  | nil => exact .nil
  | cons l labels ih =>
    by_cases hl : values l = []
    · have hnone : pointOf data args l = none := by
        simp [pointOf, hvalues, hl, aggregate, List.reduceOption]
      rw [List.filterMap_cons_none hnone, List.filter_cons_of_neg (by simpa using hl)]
      exact ih
    · have hne : ((values l).map some).reduceOption ≠ [] := by rwa [reduceOption_map_some]
      obtain ⟨y, hy⟩ := exists_aggregate args.summation hne args.agg
      have hsome : pointOf data args l = some ⟨xCoordinate l, y,
          (errorBounds args.summation ((values l).map some) args.error).1,
          (errorBounds args.summation ((values l).map some) args.error).2⟩ := by
        simp only [pointOf, hvalues, hy, Option.map_some]
      rw [List.filterMap_cons_some hsome, List.filter_cons_of_pos (by simpa using hl)]
      refine .cons ⟨rfl, hy, fun herror => ?_⟩ ih
      obtain ⟨lo, hi, hbounds⟩ := exists_errorBounds args.summation hne herror
      exact ⟨lo, hi, by rw [hbounds], by rw [hbounds], hbounds⟩

theorem map_eq_of_forall₂ {α β γ : Type*} {R : α → β → Prop} {f : α → γ} {g : β → γ}
    {as : List α} {bs : List β} (h : List.Forall₂ R as bs) (hfg : ∀ a b, R a b → g b = f a) :
    bs.map g = as.map f := by
  induction h with
  | nil => rfl
  | cons hab _ ih => rw [List.map_cons, List.map_cons, hfg _ _ hab, ih]

/-! ## Labels and keys -/

section Series

variable {data : Data} {es : List (Key × String × ℚ)}

theorem getD_seriesOf (data : Data) (key : Key) (l : String) :
    ((((seriesOf data).get? key).getD []).get? l).getD [] =
      (Grouping.valuesAt data key l).map some := by
  rw [seriesOf, Dict.get?_mapValues, Grouping.valuesAt]
  cases data.get? key with
  | none => rfl
  | some d =>
    rw [Option.map_some, Option.getD_some, Option.getD_some, Dict.get?_mapValues]
    cases d.get? l with
    | none => rfl
    | some values => rfl

theorem mem_sortedLabels (h : Grouping.IsGrouping data es) {l : String} :
    l ∈ sortedLabels (seriesOf data) ↔ ∃ e ∈ es, e.2.1 = l := by
  rw [sortedLabels, List.mem_mergeSort, sizeLabels, List.mem_dedup, List.mem_flatMap,
    ← h.mem_labels_iff]
  constructor
  · rintro ⟨_, hmem, hl⟩
    obtain ⟨p, hp, rfl⟩ := List.mem_map.1 hmem
    dsimp only at hl
    rw [Dict.keys_mapValues] at hl
    exact ⟨p, hp, hl⟩
  · rintro ⟨p, hp, hl⟩
    refine ⟨_, List.mem_map_of_mem hp, ?_⟩
    dsimp only
    rw [Dict.keys_mapValues]
    exact hl

theorem labelSortKey_ne_nil (label : String) : labelSortKey label ≠ [] := by
  unfold labelSortKey
  dsimp only
  split_ifs with h
  · simp
  · exact h

theorem xCoordinate_mono {a b : String} (h : labelSortKey a ≤ labelSortKey b) :
    xCoordinate a ≤ xCoordinate b := by
  obtain ⟨x, xs, ha⟩ := List.exists_cons_of_ne_nil (labelSortKey_ne_nil a)
  obtain ⟨y, ys, hb⟩ := List.exists_cons_of_ne_nil (labelSortKey_ne_nil b)
  rw [xCoordinate, xCoordinate, ha, hb]
  rw [ha, hb] at h
  by_contra hlt
  exact absurd h (not_le.2 (List.Lex.rel (not_le.1 hlt)))

/-- Different sizes of the usual range are at different places. -/
theorem xCoordinate_ne {a b : ℚ} (ha : 0 < a) (hb : 0 < b) (hain : InRange a) (hbin : InRange b)
    (hne : sizeLabel a ≠ sizeLabel b) : xCoordinate (sizeLabel a) ≠ xCoordinate (sizeLabel b) := by
  rw [xCoordinate_of_inRange ha hain, xCoordinate_of_inRange hb hbin]
  rcases lt_trichotomy (Rounding.roundTo 10 3 a) (Rounding.roundTo 10 3 b) with hlt | heq | hgt
  · exact (fl_roundTo_lt ha hb hlt).ne
  · exact absurd (sizeLabel_eq_of_roundTo ha hb heq) hne
  · exact (fl_roundTo_lt hb ha hgt).ne'

theorem pairwise_mergeSort {α β : Type*} [LinearOrder β] (f : α → β) {le : α → α → Bool}
    (hle : ∀ a b, le a b = true ↔ f a ≤ f b) (l : List α) :
    (l.mergeSort le).Pairwise fun a b => f a ≤ f b := by
  refine (List.pairwise_mergeSort (fun a b c hab hbc => ?_) (fun a b => ?_) l).imp
    fun h => (hle _ _).1 h
  · exact (hle a c).2 (((hle a b).1 hab).trans ((hle b c).1 hbc))
  · rw [Bool.or_eq_true, hle, hle]
    exact le_total _ _

theorem pairwise_sortedLabels (series : SeriesData) :
    (sortedLabels series).Pairwise fun a b => xCoordinate a ≤ xCoordinate b :=
  (pairwise_mergeSort labelSortKey (fun _ _ => decide_eq_true_iff) _).imp xCoordinate_mono

theorem nodup_sortedLabels (series : SeriesData) : (sortedLabels series).Nodup :=
  (List.mergeSort_perm _ _).nodup_iff.2 (List.nodup_dedup _)

theorem pairwise_sortedKeys (series : SeriesData) : (sortedKeys series).Pairwise fun a b =>
    toLex (seriesSortKey a) ≤ toLex (seriesSortKey b) := by
  refine pairwise_mergeSort (fun key => toLex (seriesSortKey key)) (fun a b => ?_) _
  rw [Prod.Lex.toLex_le_toLex]
  simp

/-! ## One line -/

variable {args : BarArgs} {key : Key}

/-- The labels of a series, in the order of the chart. -/
def labelsOf (data : Data) (es : List (Key × String × ℚ)) (key : Key) : List String :=
  (sortedLabels (seriesOf data)).filter fun l => Grouping.select es key l ≠ []

theorem forall₂_points (h : Grouping.IsGrouping data es) (args : BarArgs) (key : Key) :
    List.Forall₂ (IsPoint (Grouping.select es key) args) (labelsOf data es key)
      ((sortedLabels (seriesOf data)).filterMap
        (pointOf (((seriesOf data).get? key).getD []) args)) := by
  refine filterMap_pointOf (fun l => ?_) args _
  rw [getD_seriesOf, h.lists]

/-- A series of the entries has a point, so its line is drawn or its style is missing. -/
theorem drawLine_eq (h : Grouping.IsGrouping data es) (hkey : ∃ e ∈ es, e.1 = key) :
    (lineStyle key = none ∧ ∃ e, drawLine (seriesOf data) args key = .error e) ∨
      ∃ style, lineStyle key = some style ∧ drawLine (seriesOf data) args key =
        .ok (some (lineOf args key style ((sortedLabels (seriesOf data)).filterMap
          (pointOf (((seriesOf data).get? key).getD []) args)))) := by
  obtain ⟨e, he, rfl⟩ := hkey
  have hlabel : e.2.1 ∈ labelsOf data es e.1 := by
    refine List.mem_filter.2 ⟨(mem_sortedLabels h).2 ⟨e, he, rfl⟩, decide_eq_true ?_⟩
    exact Grouping.select_ne_nil_iff.2 ⟨e, he, rfl, rfl⟩
  have hpoints : (sortedLabels (seriesOf data)).filterMap
      (pointOf (((seriesOf data).get? e.1).getD []) args) ≠ [] := by
    intro hnil
    have hlength := (forall₂_points h args e.1).length_eq
    rw [hnil, List.length_nil] at hlength
    rw [List.eq_nil_of_length_eq_zero hlength] at hlabel
    cases hlabel
  unfold drawLine lineStyle
  rw [if_neg hpoints]
  cases hcolor : colors.get? e.1.1 with
  | none => exact .inl ⟨by simp, .color e.1.1, rfl⟩
  | some color =>
    cases hstyle : qosStyles.get? e.1.2 with
    | none => exact .inl ⟨by simp, .linestyle e.1.2, rfl⟩
    | some linestyle => exact .inr ⟨(color, linestyle), by simp, rfl⟩

theorem shows_lineOf (h : Grouping.IsGrouping data es) {style : String × String}
    (hstyle : lineStyle key = some style) :
    Shows es args key (labelsOf data es key)
      (lineOf args key style ((sortedLabels (seriesOf data)).filterMap
        (pointOf (((seriesOf data).get? key).getD []) args))) := by
  have hpoints := forall₂_points h args key
  have hxs : ((sortedLabels (seriesOf data)).filterMap
      (pointOf (((seriesOf data).get? key).getD []) args)).map Point.x =
        (labelsOf data es key).map xCoordinate :=
    map_eq_of_forall₂ hpoints fun l p hp => hp.x.symm
  constructor
  · exact hstyle
  · rfl
  · exact (nodup_sortedLabels _).filter _
  · intro l
    rw [labelsOf, List.mem_filter, decide_eq_true_iff, and_iff_right_iff_imp]
    intro hl
    obtain ⟨e, he, -, hlabel⟩ := Grouping.select_ne_nil_iff.1 hl
    exact (mem_sortedLabels h).2 ⟨e, he, hlabel⟩
  · exact hxs
  · rw [lineOf, hxs, List.pairwise_map]
    exact (pairwise_sortedLabels _).filter _
  · intro hsizes
    rw [lineOf, hxs, List.pairwise_map]
    have hle : (labelsOf data es key).Pairwise fun a b => xCoordinate a ≤ xCoordinate b :=
      (pairwise_sortedLabels _).filter _
    have hne : (labelsOf data es key).Nodup := (nodup_sortedLabels _).filter _
    refine (hle.and hne).imp_of_mem fun ha hb hab => lt_of_le_of_ne hab.1 ?_
    obtain ⟨a, hapos, haRange, rfl⟩ := hsizes _ ha
    obtain ⟨b, hbpos, hbRange, rfl⟩ := hsizes _ hb
    exact xCoordinate_ne hapos hbpos haRange hbRange hab.2
  · rw [lineOf, List.map_map]
    exact map_eq_of_forall₂ hpoints fun l p hp => hp.y.symm
  · intro herror
    exact if_pos herror
  · intro herror
    refine ⟨_, _, if_neg herror, ?_, ?_⟩
    · rw [List.map_map]
      refine map_eq_of_forall₂ hpoints fun l p hp => ?_
      obtain ⟨lo, hi, hlow, -, hbounds⟩ := hp.bounds herror
      rw [Function.comp_apply, hlow, hbounds]
      rfl
    · rw [List.map_map]
      refine map_eq_of_forall₂ hpoints fun l p hp => ?_
      obtain ⟨lo, hi, -, hhigh, hbounds⟩ := hp.bounds herror
      rw [Function.comp_apply, hhigh, hbounds]
      rfl

/-! ## One chart -/

theorem mem_sortedKeys (h : Grouping.IsGrouping data es) {key : Key} :
    key ∈ sortedKeys (seriesOf data) ↔ ∃ e ∈ es, e.1 = key := by
  rw [sortedKeys, List.mem_mergeSort, seriesOf, Dict.keys_mapValues, h.mem_keys_iff]

theorem nodup_sortedKeys (h : Grouping.IsGrouping data es) :
    (sortedKeys (seriesOf data)).Nodup := by
  refine (List.mergeSort_perm _ _).nodup_iff.2 ?_
  rw [seriesOf, Dict.keys_mapValues]
  exact h.wellFormed.nodup

/-- Two series do not look alike. -/
theorem lineStyle_injective {a b : Key} {style : String × String} (ha : lineStyle a = some style)
    (hb : lineStyle b = some style) : a = b := by
  simp only [lineStyle, Option.bind_eq_bind, Option.bind_eq_some_iff, Option.pure_def,
    Option.some.injEq] at ha hb
  obtain ⟨color, hcolor, linestyle, hlinestyle, rfl⟩ := ha
  obtain ⟨color', hcolor', linestyle', hlinestyle', heq⟩ := hb
  obtain ⟨rfl, rfl⟩ := Prod.mk.inj heq
  have hcolors : (colors.map Prod.snd).Nodup := by decide
  have hstyles : (qosStyles.map Prod.snd).Nodup := by decide
  exact Prod.ext (Dict.eq_of_get?_eq hcolors hcolor hcolor')
    (Dict.eq_of_get?_eq hstyles hlinestyle hlinestyle')

theorem values_seriesOf (data : Data) :
    (seriesOf data).flatMap (fun entry => entry.2.flatMap fun d => d.2) =
      (Grouping.values data).map some := by
  rw [Grouping.values, List.map_flatMap, seriesOf, Dict.mapValues, List.flatMap_map]
  refine List.flatMap_congr fun p _ => ?_
  rw [List.map_flatMap, Dict.mapValues, List.flatMap_map]

theorem xScaleOf_eq_log (args : PlotArgs) (labels : List String) :
    xScaleOf args labels = .log ↔
      args.xScale ≠ some .linear ∧ ∀ l ∈ labels, 0 < xCoordinate l := by
  unfold xScaleOf
  cases args.xScale with
  | none => simp
  | some scale => cases scale <;> simp

theorem yScaleOf_eq_log (h : Grouping.IsGrouping data es) (args : PlotArgs) :
    yScaleOf args (seriesOf data) = .log ↔ args.yScale = .log ∧ ∀ e ∈ es, 0 < e.2.2 := by
  have hmem (v : ℚ) : v ∈ ((seriesOf data).flatMap
      fun entry => entry.2.flatMap fun d => d.2).reduceOption ↔ ∃ e ∈ es, e.2.2 = v := by
    rw [values_seriesOf, reduceOption_map_some, h.all.mem_iff, List.mem_map]
  have hpos : (∀ v ∈ ((seriesOf data).flatMap
      fun entry => entry.2.flatMap fun d => d.2).reduceOption, 0 < v) ↔ ∀ e ∈ es, 0 < e.2.2 := by
    constructor
    · intro hall e he
      exact hall _ ((hmem _).2 ⟨e, he, rfl⟩)
    · intro hall v hv
      obtain ⟨e, he, rfl⟩ := (hmem v).1 hv
      exact hall e he
  rw [← hpos]
  unfold yScaleOf
  cases args.yScale with
  | linear => simp
  | log => simp

theorem pairwise_lt_ticks (xs : List ℚ) : (xs.dedup.mergeSort (· ≤ ·)).Pairwise (· < ·) := by
  have hsorted := pairwise_mergeSort id (fun a b : ℚ => decide_eq_true_iff) xs.dedup
  have hnodup : (xs.dedup.mergeSort (· ≤ ·)).Nodup :=
    (List.mergeSort_perm _ _).nodup_iff.2 (List.nodup_dedup xs)
  exact (hsorted.and hnodup).imp fun h => lt_of_le_of_ne h.1 h.2

/-- A line chart of the entries: nothing without entries, else a line for each key, and an error
    if a key has no style. -/
theorem plotLine_cases (h : Grouping.IsGrouping data es) (title ylabel : String)
    (args : PlotArgs) :
    (es = [] ∧ plotLine (seriesOf data) title ylabel args = .ok none) ∨
    (es ≠ [] ∧ (∀ e ∈ es, lineStyle e.1 ≠ none) ∧ ∃ chart,
      plotLine (seriesOf data) title ylabel args = .ok (some chart) ∧ Plotted es args chart) ∨
    (¬ ∀ e ∈ es, lineStyle e.1 ≠ none) ∧
      ∃ e, plotLine (seriesOf data) title ylabel args = .error e := by
  have hlabels : sortedLabels (seriesOf data) = [] ↔ es = [] := by
    constructor
    · intro hnil
      refine List.eq_nil_iff_forall_not_mem.2 fun e he => ?_
      have hmem := (mem_sortedLabels h).2 ⟨e, he, rfl⟩
      rw [hnil] at hmem
      cases hmem
    · rintro rfl
      refine List.eq_nil_iff_forall_not_mem.2 fun l hl => ?_
      obtain ⟨e, he, -⟩ := (mem_sortedLabels h).1 hl
      cases he
  unfold plotLine
  dsimp only
  by_cases hnil : es = []
  · rw [if_pos (hlabels.2 hnil)]
    exact .inl ⟨hnil, rfl⟩
  · rw [if_neg (mt hlabels.1 hnil)]
    right
    by_cases hstyles : ∀ e ∈ es, lineStyle e.1 ≠ none
    · left
      refine ⟨hnil, hstyles, ?_⟩
      have hstyle (key : Key) (hkey : key ∈ sortedKeys (seriesOf data)) :
          lineStyle key = some ((lineStyle key).getD ("", "")) := by
        obtain ⟨e, he, rfl⟩ := (mem_sortedKeys h).1 hkey
        obtain ⟨style, hs⟩ := Option.ne_none_iff_exists'.1 (hstyles e he)
        rw [hs, Option.getD_some]
      -- the line of each key
      let line (key : Key) : Line := lineOf args.toBarArgs key ((lineStyle key).getD ("", ""))
        ((sortedLabels (seriesOf data)).filterMap
          (pointOf (((seriesOf data).get? key).getD []) args.toBarArgs))
      have hlines : (sortedKeys (seriesOf data)).mapM (drawLine (seriesOf data) args.toBarArgs) =
          .ok ((sortedKeys (seriesOf data)).map fun key => some (line key)) := by
        refine Fallible.mapM_ok fun key hkey => ?_
        rcases @drawLine_eq data es args.toBarArgs key h ((mem_sortedKeys h).1 hkey) with
          ⟨hnone, -⟩ | ⟨style, hs, hdraw⟩
        · rw [hstyle key hkey] at hnone
          cases hnone
        · rw [hdraw]
          simp only [line, hs, Option.getD_some]
      rw [hlines]
      refine ⟨_, rfl, ?_⟩
      have hreduce : ((sortedKeys (seriesOf data)).map fun key => some (line key)).reduceOption =
          (sortedKeys (seriesOf data)).map line := by
        rw [← reduceOption_map_some ((sortedKeys (seriesOf data)).map line), List.map_map]
        rfl
      constructor
      · refine ⟨sortedKeys (seriesOf data), nodup_sortedKeys h, fun key => mem_sortedKeys h,
          pairwise_sortedKeys _, ?_⟩
        rw [hreduce, List.forall₂_map_right_iff, List.forall₂_same]
        intro key hkey
        exact ⟨_, shows_lineOf h (hstyle key hkey)⟩
      · rw [hreduce, List.map_map]
        refine List.Nodup.map_on (fun a ha b hb hab => ?_) (nodup_sortedKeys h)
        refine lineStyle_injective (hstyle a ha) ((hstyle b hb).trans ?_)
        exact congrArg some hab.symm
      · exact pairwise_lt_ticks _
      · intro x
        rw [List.mem_mergeSort, List.mem_dedup, List.mem_map]
        constructor
        · rintro ⟨l, hl, rfl⟩
          obtain ⟨e, he, rfl⟩ := (mem_sortedLabels h).1 hl
          exact ⟨e, he, rfl⟩
        · rintro ⟨e, he, rfl⟩
          exact ⟨e.2.1, (mem_sortedLabels h).2 ⟨e, he, rfl⟩, rfl⟩
      · rw [xScaleOf_eq_log]
        refine and_congr_right fun _ => ⟨fun hall e he => ?_, fun hall l hl => ?_⟩
        · exact hall _ ((mem_sortedLabels h).2 ⟨e, he, rfl⟩)
        · obtain ⟨e, he, rfl⟩ := (mem_sortedLabels h).1 hl
          exact hall e he
      · exact yScaleOf_eq_log h args
    · right
      refine ⟨hstyles, ?_⟩
      rcases mapM_cases (drawLine (seriesOf data) args.toBarArgs) (sortedKeys (seriesOf data)) with
        ⟨hall, -⟩ | ⟨-, e, herror⟩
      · refine absurd (fun e he => ?_) hstyles
        obtain ⟨line, hline⟩ := hall e.1 ((mem_sortedKeys h).2 ⟨e, he, rfl⟩)
        rcases @drawLine_eq data es args.toBarArgs e.1 h ⟨e, he, rfl⟩ with
          ⟨-, e', herror⟩ | ⟨style, hs, -⟩
        · rw [hline] at herror
          cases herror
        · rw [hs]
          simp
      · rw [herror]
        exact ⟨e, rfl⟩

end Series

/-! ## From the rows to the lines -/

/-- What collecting and plotting may raise. -/
inductive ChartError
  | collect (e : CollectError)
  | plot (e : PlotError)

/-- A line chart of the rows of a table: `_collect`, then `_plot_line`. -/
def lineChart (source : Source) (args : Args) (fields : Dict String String) (title ylabel : String)
    (plot : PlotArgs) (rows : Dict String (List Row)) : Except ChartError (Option LineChart) := do
  let data ← (collect source args rows fields).mapError .collect
  (plotLine (seriesOf data) title ylabel plot).mapError .plot

/-- **A line chart shows the rows.** It is drawn exactly when no QoS that is compared is not an
    integer and every series has a style; nothing is drawn exactly when no row passes with a number;
    else the lines show what the rows that pass add, each row once. -/
theorem lines_of_rows (source : Source) (args : Args) (fields : Dict String String)
    (title ylabel : String) (plot : PlotArgs) (rows : Dict String (List Row))
    (hnodup : rows.keys.Nodup) :
    ((∃ chart?, lineChart source args fields title ylabel plot rows = .ok chart?) ↔
      (∀ entry ∈ rows, EntryReadable args fields entry) ∧
        ∀ e ∈ rows.flatMap (entriesOf source args fields), lineStyle e.1 ≠ none) ∧
    ∀ chart?, lineChart source args fields title ylabel plot rows = .ok chart? →
      (chart? = none ↔ rows.flatMap (entriesOf source args fields) = []) ∧
      ∀ chart ∈ chart?, Plotted (rows.flatMap (entriesOf source args fields)) plot chart := by
  rcases @collect_cases source args fields rows hnodup with
    ⟨hread, data, hdata, hgroups⟩ | ⟨hread, e, herror⟩
  · have hchart : lineChart source args fields title ylabel plot rows =
        (plotLine (seriesOf data) title ylabel plot).mapError .plot := by
      rw [lineChart, hdata]
      rfl
    rw [hchart]
    rcases plotLine_cases hgroups title ylabel plot with
      ⟨hnil, hplot⟩ | ⟨hne, hstyles, chart, hplot, hplotted⟩ | ⟨hstyles, e, herror⟩
    · rw [hplot]
      refine ⟨iff_of_true ⟨none, rfl⟩ ⟨hread, ?_⟩, ?_⟩
      · rw [hnil]
        simp
      · rintro _ ⟨⟩
        exact ⟨iff_of_true rfl hnil, by simp⟩
    · rw [hplot]
      refine ⟨iff_of_true ⟨some chart, rfl⟩ ⟨hread, hstyles⟩, ?_⟩
      rintro _ ⟨⟩
      refine ⟨iff_of_false (by simp) hne, fun chart' hchart => ?_⟩
      rw [← Option.some.inj hchart]
      exact hplotted
    · rw [herror]
      refine ⟨iff_of_false ?_ fun h => hstyles h.2, ?_⟩
      · rintro ⟨chart?, hchart⟩
        cases hchart
      · intro chart? hchart
        cases hchart
  · have hchart : lineChart source args fields title ylabel plot rows = .error (.collect e) := by
      rw [lineChart, herror]
      rfl
    rw [hchart]
    refine ⟨iff_of_false ?_ fun h => hread h.1, ?_⟩
    · rintro ⟨chart?, hchart⟩
      cases hchart
    · intro chart? hchart
      cases hchart

/-- The rows of one HTTP transfer. -/
def httpRows : Dict String (List Row) :=
  [("http", [[("file_size", some "1.0"), ("goodput_mbps", some "8.000")]])]

theorem entries_httpRows :
    httpRows.flatMap (entriesOf clientSource ⟨[], .auto, []⟩ [("http", "goodput_mbps")]) =
      [(("http", none), "1 MB", 8)] := by
  decide +kernel

theorem lines_of_httpRows : ∃ chart, lineChart clientSource ⟨[], .auto, []⟩
    [("http", "goodput_mbps")] "Goodput (client-measured)" "Mbps"
    ⟨⟨.mean, .minmax, .compensated⟩, none, .linear, .auto⟩ httpRows = .ok (some chart) ∧
      Plotted [(("http", none), "1 MB", 8)]
        ⟨⟨.mean, .minmax, .compensated⟩, none, .linear, .auto⟩ chart := by
  obtain ⟨hok, hchart⟩ := lines_of_rows clientSource ⟨[], .auto, []⟩ [("http", "goodput_mbps")]
    "Goodput (client-measured)" "Mbps"
    ⟨⟨.mean, .minmax, .compensated⟩, none, .linear, .auto⟩ httpRows (by decide)
  rw [entries_httpRows] at hok hchart
  have hread : ∀ entry ∈ httpRows,
      EntryReadable ⟨[], .auto, []⟩ [("http", "goodput_mbps")] entry :=
    fun entry _ _ row _ text _ hqos => absurd rfl hqos
  obtain ⟨chart?, hdrawn⟩ := hok.2 ⟨hread, by decide⟩
  obtain ⟨hnone, hplotted⟩ := hchart chart? hdrawn
  cases chart? with
  | none => exact absurd (hnone.1 rfl) (by simp)
  | some chart => exact ⟨chart, hdrawn, hplotted chart rfl⟩

end TransferTestbed.Charts
