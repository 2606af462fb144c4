import TransferTestbed.Charts.Plot

/-!
# The charts of a run

`_render` and `main` of `common/charts.py`: a chart for each metric that has data, and the overview
of some of them. The rows come from the measurement files as in `clientRows` and `pcapRows`; that
the run directories exist has been checked.

Results:

* `renderMetrics_spec`: the charts of one table.
* `charts_of_rows`: the files that `main` writes.
-/

namespace TransferTestbed.Charts

/-! ## Tables (charts.py:82-149) -/

structure MetricConfig where
  title : String
  ylabel : String
  sizeDependent : Bool
  deriving DecidableEq, Repr

/-- `CLIENT_METRICS`, but for the `fields`. -/
def clientConfigs : Dict String MetricConfig :=
  [("goodput_mbps", ⟨"Goodput (client-measured)", "Mbps", true⟩),
    ("transfer_time", ⟨"Transfer time", "seconds", true⟩),
    ("latency", ⟨"Latency", "seconds", true⟩),
    ("avg_cpu_pct", ⟨"Avg CPU usage", "%", false⟩),
    ("peak_ram_mb", ⟨"Peak RAM", "MB", false⟩),
    ("energy_j", ⟨"Energy estimate", "J", false⟩)]

/-- `PCAP_METRICS`. -/
def pcapConfigs : Dict String MetricConfig :=
  [("goodput_mbps", ⟨"Goodput (pcap)", "Mbps", true⟩),
    ("wire_throughput_mbps", ⟨"Wire throughput (pcap)", "Mbps", true⟩),
    ("overhead_percentage", ⟨"Overhead (pcap)", "%", true⟩),
    ("total_overhead_bytes", ⟨"Total overhead bytes (pcap)", "bytes", true⟩),
    ("total_wire_bytes", ⟨"Total wire bytes (pcap)", "bytes", true⟩),
    ("retransmissions", ⟨"Retransmissions", "count", true⟩),
    ("total_packets", ⟨"Total packets", "packets", true⟩)]

/-- `OVERVIEW_METRICS`. -/
def overviewMetrics : List String :=
  ["goodput_mbps", "transfer_time", "latency", "avg_cpu_pct", "wire_throughput_mbps",
    "overhead_percentage", "retransmissions", "total_wire_bytes"]

/-! ## Model -/

/-- The arguments of `main`; `--metrics` that is not given is empty. -/
structure ChartArgs where
  filters : Args
  plot : PlotArgs
  metrics : List String
  noClient : Bool
  noPcap : Bool
  noOverview : Bool

/-- The content of a PNG file. -/
inductive Chart
  | line (chart : LineChart)
  | bar (chart : BarChart)
  | overview (chart : Overview)

/-- `_chart_type_for(metric_cfg, args)` (charts.py:419-422). -/
def chartTypeFor (cfg : MetricConfig) (args : PlotArgs) : ChartType :=
  if args.chartType ≠ .auto then args.chartType else if cfg.sizeDependent then .line else .bar

section Drawing

variable (accepts : BarCall → Bool)

/-- The chart that `_render` writes for data that is not empty, if it is not skipped. -/
def draw (cfg : MetricConfig) (args : PlotArgs) (series : SeriesData) :
    Except PlotError (Option Chart) :=
  if chartTypeFor cfg args = .line then
    (plotLine series cfg.title cfg.ylabel args).map fun chart => chart.map .line
  else (plotBar accepts series cfg.title cfg.ylabel args).map fun chart => chart.map .bar

/-- `_render(data, cfg, prefix, metric, outdir, args)` (charts.py:425-435): the chart and the
    tuple that it returns. -/
def render (data : Data) (cfg : MetricConfig) (args : PlotArgs) :
    Except PlotError (Option (Option Chart × Figure)) :=
  if data = [] then .ok none
  else (draw accepts cfg args (seriesOf data)).map fun chart =>
    some (chart, ⟨cfg.title, seriesOf data, cfg.ylabel⟩)

/-- One turn of the loops over the metrics: the name of the metric and of its file, its
    configuration and the columns of its values. -/
structure Metric where
  name : String
  file : String
  cfg : MetricConfig
  fields : Dict String String

def clientCharts : List Metric :=
  clientConfigs.map fun (name, cfg) =>
    ⟨name, "client_" ++ name ++ ".png", cfg, (clientMetrics.get? name).getD []⟩

def pcapCharts : List Metric :=
  pcapConfigs.map fun (name, cfg) => ⟨name, "pcap_" ++ name ++ ".png", cfg, pcapFieldsOf name⟩

/-- `--metrics` names the metric or is not given. -/
def selects (args : ChartArgs) (m : Metric) : Bool := args.metrics = [] || m.name ∈ args.metrics

/-- The loops over the metrics (charts.py:596-603, 636-643): the files that are written and the
    tuples of `_render`. -/
def renderMetrics (args : ChartArgs) (source : Source) (rows : Dict String (List Row)) :
    List Metric → Except ChartError (List (String × Chart) × List Figure)
  | [] => .ok ([], [])
  | m :: metrics => do
    if !selects args m then return ← renderMetrics args source rows metrics
    let data ← (collect source args.filters rows m.fields).mapError .collect
    let rendered ← (render accepts data m.cfg args.plot).mapError .plot
    let (files, figs) ← renderMetrics args source rows metrics
    match rendered with
    | none => return (files, figs)
    | some (chart, fig) => return ((chart.map (m.file, ·)).toList ++ files, fig :: figs)

/-- `{title: (title, data, ylabel) for title, data, ylabel in figs}`. -/
def byName (figs : List Figure) : Dict String Figure :=
  Dict.ofPairs (figs.map fun fig => (fig.title, fig))

/-- The figure of an overview metric: of the client if there is one, else of the pcaps
    (charts.py:653-657). -/
def overviewFig (clientByName pcapByName : Dict String Figure) (metric : String) :
    Option Figure :=
  match (clientConfigs.get? metric).bind fun cfg => clientByName.get? cfg.title with
  | some fig => some fig
  | none => (pcapConfigs.get? metric).bind fun cfg => pcapByName.get? cfg.title

/-- The loop that keeps the first figure of each title (charts.py:658-663). -/
def dedupe : List String → List Figure → List Figure
  | _, [] => []
  | seen, fig :: figs =>
    if fig.title ∈ seen then dedupe seen figs else fig :: dedupe (fig.title :: seen) figs

/-- The overview of the figures (charts.py:648-664), unless `--no-overview` is given. -/
def overviewOf (args : ChartArgs) (clientFigs pcapFigs : List Figure) :
    Except ChartError (List (String × Chart)) :=
  let figs := overviewMetrics.filterMap (overviewFig (byName clientFigs) (byName pcapFigs))
  if args.noOverview then .ok []
  else match makeOverview accepts args.plot.toBarArgs (dedupe [] figs) with
    | none => .ok []
    | some overview =>
      match overview.raised with
      | some e => .error (.plot (.bars e))
      | none => .ok [("overview.png", .overview overview)]

/-- `pcap_rows` (charts.py:608-632); `none` without a pcap file. -/
def pcapTable (args : ChartArgs) (selected : List String) (dirs : List (Dict String (List Char))) :
    Option (Dict String (List Row)) :=
  if args.noPcap ∨ ∀ dir ∈ dirs, dir.get? "pcap" = none then none else some (pcapRows selected dirs)

/-- The charts of the client metrics (charts.py:594-603). -/
def renderClient (args : ChartArgs) (selected : List String)
    (dirs : List (Dict String (List Char))) :
    Except ChartError (List (String × Chart) × List Figure) :=
  if args.noClient then .ok ([], [])
  else renderMetrics accepts args clientSource (clientRows selected dirs) clientCharts

/-- The charts of the pcap metrics (charts.py:634-643). -/
def renderPcap (args : ChartArgs) (selected : List String)
    (dirs : List (Dict String (List Char))) :
    Except ChartError (List (String × Chart) × List Figure) :=
  match pcapTable args selected dirs with
  | none => .ok ([], [])
  | some rows => renderMetrics accepts args pcapSource rows pcapCharts

/-- `main` for the protocols `selected` and the given directories, which map a base name to the
    text of the file found for it (charts.py:570-664): the files that it writes. -/
def main (args : ChartArgs) (selected : List String) (dirs : List (Dict String (List Char))) :
    Except ChartError (List (String × Chart)) := do
  let (clientFiles, clientFigs) ← renderClient accepts args selected dirs
  let (pcapFiles, pcapFigs) ← renderPcap accepts args selected dirs
  let overviewFiles ← overviewOf accepts args clientFigs pcapFigs
  return clientFiles ++ pcapFiles ++ overviewFiles

/-! ## The property -/

/-- The bars of a series show the entries of a key: the aggregate at each label, and no bar height
    where there is none. -/
structure ShowsBars (es : List (Key × String × ℚ)) (args : BarArgs) (labels : List String)
    (key : Key) (call : BarCall) : Prop where
  style : barStyle key = some (call.color, call.hatch)
  label : call.label = some (seriesLabel key)
  ys : call.ys = labels.map fun l =>
    (aggregate args.summation ((Grouping.select es key l).map some) args.agg).getD 0

/-- Bars show the entries: a group for each label, and in it one bar for each key, by protocol and
    QoS. -/
structure Barred (es : List (Key × String × ℚ)) (args : BarArgs) (labels : List String)
    (calls : List BarCall) : Prop where
  nodup : labels.Nodup
  mem_labels : ∀ l, l ∈ labels ↔ ∃ e ∈ es, e.2.1 = l
  sorted : labels.Pairwise fun a b => xCoordinate a ≤ xCoordinate b
  bars : ∃ keys : List Key, keys.Nodup ∧ (∀ key, key ∈ keys ↔ ∃ e ∈ es, e.1 = key) ∧
    keys.Pairwise (fun a b => toLex (seriesSortKey a) ≤ toLex (seriesSortKey b)) ∧
    List.Forall₂ (ShowsBars es args labels) keys calls

/-- A chart of a metric shows the entries. -/
inductive Drawn (es : List (Key × String × ℚ)) (args : PlotArgs) (cfg : MetricConfig) :
    Chart → Prop
  | line {chart : LineChart} (htype : chartTypeFor cfg args = .line)
      (htitle : chart.title = cfg.title ∧ chart.ylabel = cfg.ylabel)
      (hplotted : Plotted es args chart) : Drawn es args cfg (.line chart)
  | bar {chart : BarChart} (htype : chartTypeFor cfg args ≠ .line)
      (htitle : chart.title = cfg.title ∧ chart.ylabel = cfg.ylabel)
      (hbarred : Barred es args.toBarArgs chart.xticklabels chart.bars) :
      Drawn es args cfg (.bar chart)

/-- A metric with what the rows add for it. -/
structure Shown where
  metric : Metric
  entries : List (Key × String × ℚ)

/-- The metrics of a table that have a chart: those that are selected and for which some row passes
    with a number. -/
def shown (args : ChartArgs) (source : Source) (rows : Dict String (List Row))
    (metrics : List Metric) : List Shown :=
  ((metrics.filter (selects args)).map fun m =>
    ⟨m, rows.flatMap (entriesOf source args.filters m.fields)⟩).filter fun t => t.entries ≠ []

/-- The charts of the client metrics. -/
def clientShown (args : ChartArgs) (selected : List String)
    (dirs : List (Dict String (List Char))) : List Shown :=
  if args.noClient then [] else shown args clientSource (clientRows selected dirs) clientCharts

/-- The charts of the pcap metrics. -/
def pcapShown (args : ChartArgs) (selected : List String)
    (dirs : List (Dict String (List Char))) : List Shown :=
  match pcapTable args selected dirs with
  | none => []
  | some rows => shown args pcapSource rows pcapCharts

/-- The panels of the overview: for each of its metrics the client's chart, or the one of the pcaps
    if there is none. -/
def panelsOf (client pcap : List Shown) : List Shown :=
  overviewMetrics.filterMap fun metric =>
    (client.find? fun t => t.metric.name = metric).or
      (pcap.find? fun t => t.metric.name = metric)

structure IsPanel (args : BarArgs) (t : Shown) (panel : Panel) : Prop where
  title : panel.title = t.metric.cfg.title
  ylabel : panel.ylabel = t.metric.cfg.ylabel
  barred : Barred t.entries args panel.xticklabels panel.bars

/-- The panels of the overview that is written. -/
def overviewShown (args : ChartArgs) (selected : List String)
    (dirs : List (Dict String (List Char))) : List Shown :=
  if args.noOverview then []
  else panelsOf (clientShown args selected dirs) (pcapShown args selected dirs)

/-- The file of the overview, if there is one: a panel for each entry, under distinct titles. -/
structure IsOverview (args : BarArgs) (ts : List Shown) (files : List (String × Chart)) : Prop where
  none : ts = [] → files = []
  some : ts ≠ [] → ∃ overview, files = [("overview.png", .overview overview)] ∧
    (overview.panels.map Panel.title).Nodup ∧ List.Forall₂ (IsPanel args) ts overview.panels

/-! ## One chart -/

variable {accepts} {data : Data} {es : List (Key × String × ℚ)}

theorem eq_nil_iff_of_isGrouping (h : Grouping.IsGrouping data es) : data = [] ↔ es = [] := by
  constructor
  · rintro rfl
    refine List.eq_nil_iff_forall_not_mem.2 fun e he => ?_
    exact absurd (h.mem_keys_iff.2 ⟨e, he, rfl⟩) List.not_mem_nil
  · rintro rfl
    refine List.eq_nil_iff_forall_not_mem.2 fun p hp => ?_
    obtain ⟨e, he, -⟩ := h.mem_keys_iff.1 (List.mem_map_of_mem hp)
    cases he

theorem eq_barOf_of_drawSeries {series : SeriesData} {args : BarArgs} {legend : Bool} {key : Key}
    {i : ℕ} {call : BarCall} (h : drawSeries accepts args series legend (key, i) = .ok call) :
    ∃ style, barStyle key = some style ∧ call = barOf series args legend key i style := by
  unfold drawSeries at h
  unfold barStyle
  cases hcolor : colors.get? key.1 with
  | none =>
    simp only [hcolor] at h
    cases h
  | some color =>
    cases hhatch : qosHatch.get? key.2 with
    | none =>
      simp only [hcolor, hhatch] at h
      cases h
    | some hatch =>
      refine ⟨(color, hatch), rfl, ?_⟩
      by_cases haccepts : accepts (barOf series args legend key i (color, hatch)) = true
      · simp only [hcolor, hhatch, if_pos haccepts] at h
        exact (Except.ok.inj h).symm
      · simp only [hcolor, hhatch, if_neg haccepts] at h
        cases h

theorem showsBars_barOf (h : Grouping.IsGrouping data es) {args : BarArgs} {key : Key} {i : ℕ}
    {style : String × Option String} (hstyle : barStyle key = some style) :
    ShowsBars es args (sortedLabels (seriesOf data)) key
      (barOf (seriesOf data) args true key i style) where
  style := hstyle
  label := rfl
  ys := by
    show ((sortedLabels (seriesOf data)).map _).map Prod.fst = _
    rw [List.map_map]
    refine List.map_congr_left fun l _ => ?_
    rw [Function.comp_apply, getD_seriesOf, h.lists, bar]
    cases aggregate args.summation ((Grouping.select es key l).map some) args.agg with
    | none => rfl
    | some y => rfl

theorem barred_of_drawBars (h : Grouping.IsGrouping data es) {args : BarArgs}
    {calls : List BarCall} (hne : es ≠ [])
    (hdraw : drawBars accepts args (seriesOf data) true = .ok calls) :
    Barred es args (sortedLabels (seriesOf data)) calls := by
  have hlabels : sizeLabels (seriesOf data) ≠ [] := by
    obtain ⟨e, he⟩ := List.exists_mem_of_ne_nil _ hne
    have hmem := (mem_sortedLabels h).2 ⟨e, he, rfl⟩
    rw [sortedLabels, List.mem_mergeSort] at hmem
    exact List.ne_nil_of_mem hmem
  rw [drawBars, if_neg hlabels] at hdraw
  refine ⟨nodup_sortedLabels _, fun l => mem_sortedLabels h, pairwise_sortedLabels _,
    sortedKeys (seriesOf data), nodup_sortedKeys h, fun key => mem_sortedKeys h,
    pairwise_sortedKeys _, ?_⟩
  have hcalls := Fallible.forall₂_of_mapM hdraw
  have hkeys : (sortedKeys (seriesOf data)).zipIdx.map Prod.fst = sortedKeys (seriesOf data) :=
    List.zipIdx_map_fst _ _
  rw [← hkeys, List.forall₂_map_left_iff]
  refine hcalls.imp fun entry call hcall => ?_
  obtain ⟨key, i⟩ := entry
  obtain ⟨style, hstyle, rfl⟩ := eq_barOf_of_drawSeries hcall
  exact showsBars_barOf h hstyle

/-- What `_plot_line` writes, and under which title. -/
theorem drawn_of_plotLine (h : Grouping.IsGrouping data es) (hne : es ≠ []) {args : PlotArgs}
    {cfg : MetricConfig} (htype : chartTypeFor cfg args = .line) {chart? : Option LineChart}
    (hplot : plotLine (seriesOf data) cfg.title cfg.ylabel args = .ok chart?) :
    ∃ chart, chart? = some chart ∧ Drawn es args cfg (.line chart) := by
  rcases plotLine_cases h cfg.title cfg.ylabel args with
    ⟨hnil, -⟩ | ⟨-, -, chart, hchart, hplotted⟩ | ⟨-, e, herror⟩
  · exact absurd hnil hne
  · obtain rfl := Except.ok.inj (hchart.symm.trans hplot)
    refine ⟨chart, rfl, .line htype ?_ hplotted⟩
    unfold plotLine at hplot
    dsimp only at hplot
    split_ifs at hplot
    · cases hplot
    · obtain ⟨lines, -, hplot⟩ := Fallible.bind_eq_ok.1 hplot
      cases hplot
      exact ⟨rfl, rfl⟩
  · rw [herror] at hplot
    cases hplot

theorem drawn_of_plotBar (h : Grouping.IsGrouping data es) (hne : es ≠ []) {args : PlotArgs}
    {cfg : MetricConfig} (htype : chartTypeFor cfg args ≠ .line) {chart? : Option BarChart}
    (hplot : plotBar accepts (seriesOf data) cfg.title cfg.ylabel args = .ok chart?) :
    ∃ chart, chart? = some chart ∧ Drawn es args cfg (.bar chart) := by
  have hlabels : sortedLabels (seriesOf data) ≠ [] := by
    obtain ⟨e, he⟩ := List.exists_mem_of_ne_nil _ hne
    exact List.ne_nil_of_mem ((mem_sortedLabels h).2 ⟨e, he, rfl⟩)
  unfold plotBar at hplot
  dsimp only at hplot
  rw [if_neg hlabels] at hplot
  obtain ⟨bars, hbars, hplot⟩ := Fallible.bind_eq_ok.1 hplot
  cases hplot
  exact ⟨_, rfl, .bar htype ⟨rfl, rfl⟩ (barred_of_drawBars h hne (Fallible.mapError_eq_ok.1 hbars))⟩

/-- A chart is skipped only without entries. -/
theorem render_eq_ok (h : Grouping.IsGrouping data es) {args : PlotArgs} {cfg : MetricConfig}
    {rendered : Option (Option Chart × Figure)}
    (hrender : render accepts data cfg args = .ok rendered) :
    (es = [] ∧ rendered = none) ∨ (es ≠ [] ∧ ∃ chart,
      rendered = some (some chart, ⟨cfg.title, seriesOf data, cfg.ylabel⟩) ∧
      Drawn es args cfg chart) := by
  unfold render at hrender
  by_cases hdata : data = []
  · rw [if_pos hdata] at hrender
    cases hrender
    exact .inl ⟨(eq_nil_iff_of_isGrouping h).1 hdata, rfl⟩
  · rw [if_neg hdata] at hrender
    have hne : es ≠ [] := mt (eq_nil_iff_of_isGrouping h).2 hdata
    obtain ⟨chart?, hdraw, rfl⟩ := Fallible.map_eq_ok.1 hrender
    refine .inr ⟨hne, ?_⟩
    unfold draw at hdraw
    by_cases htype : chartTypeFor cfg args = .line
    · rw [if_pos htype] at hdraw
      obtain ⟨line?, hplot, rfl⟩ := Fallible.map_eq_ok.1 hdraw
      obtain ⟨chart, rfl, hdrawn⟩ := drawn_of_plotLine h hne htype hplot
      exact ⟨_, rfl, hdrawn⟩
    · rw [if_neg htype] at hdraw
      obtain ⟨bar?, hplot, rfl⟩ := Fallible.map_eq_ok.1 hdraw
      obtain ⟨chart, rfl, hdrawn⟩ := drawn_of_plotBar h hne htype hplot
      exact ⟨_, rfl, hdrawn⟩

/-! ## The charts of a table -/

/-- The tuple of a metric. -/
structure IsFigure (t : Shown) (fig : Figure) : Prop where
  title : fig.title = t.metric.cfg.title
  ylabel : fig.ylabel = t.metric.cfg.ylabel
  data : ∃ data, Grouping.IsGrouping data t.entries ∧ fig.data = seriesOf data

theorem renderMetrics_spec {args : ChartArgs} {source : Source} {rows : Dict String (List Row)}
    (hnodup : rows.keys.Nodup) {metrics : List Metric} {files : List (String × Chart)}
    {figs : List Figure}
    (h : renderMetrics accepts args source rows metrics = .ok (files, figs)) :
    List.Forall₂ (fun t file => file.1 = t.metric.file ∧
        Drawn t.entries args.plot t.metric.cfg file.2) (shown args source rows metrics) files ∧
      List.Forall₂ IsFigure (shown args source rows metrics) figs := by
  induction metrics generalizing files figs with
  | nil =>
    cases h
    exact ⟨.nil, .nil⟩
  | cons m metrics ih =>
    unfold renderMetrics at h
    by_cases hselects : selects args m = true
    · rw [shown, List.filter_cons_of_pos hselects, List.map_cons]
      rw [hselects] at h
      obtain ⟨data, hdata, h⟩ := Fallible.bind_eq_ok.1 h
      obtain ⟨rendered, hrendered, h⟩ := Fallible.bind_eq_ok.1 h
      obtain ⟨⟨files', figs'⟩, hrest, h⟩ := Fallible.bind_eq_ok.1 h
      obtain ⟨hfiles, hfigs⟩ := ih hrest
      rw [Fallible.mapError_eq_ok] at hdata hrendered
      rcases @collect_cases source args.filters m.fields rows hnodup with
        ⟨-, data', hdata', hgroups⟩ | ⟨-, e, herror⟩
      · obtain rfl := Except.ok.inj (hdata'.symm.trans hdata)
        rcases render_eq_ok hgroups hrendered with ⟨hnil, rfl⟩ | ⟨hne, chart, rfl, hdrawn⟩
        · cases h
          rw [List.filter_cons_of_neg (by simpa using hnil)]
          exact ⟨hfiles, hfigs⟩
        · cases h
          rw [List.filter_cons_of_pos (by simpa using hne)]
          exact ⟨.cons ⟨rfl, hdrawn⟩ hfiles, .cons ⟨rfl, rfl, data', hgroups, rfl⟩ hfigs⟩
      · rw [herror] at hdata
        cases hdata
    · rw [shown, List.filter_cons_of_neg hselects]
      simp only [Bool.not_eq_true] at hselects
      rw [hselects] at h
      exact ih h

theorem shown_sublist (args : ChartArgs) (source : Source) (rows : Dict String (List Row))
    (metrics : List Metric) :
    ((shown args source rows metrics).map Shown.metric).Sublist metrics := by
  have hmap := (List.filter_sublist (p := fun t : Shown => decide (t.entries ≠ []))
    (l := (metrics.filter (selects args)).map fun m =>
      ⟨m, rows.flatMap (entriesOf source args.filters m.fields)⟩)).map Shown.metric
  rw [List.map_map] at hmap
  refine hmap.trans ?_
  show ((metrics.filter (selects args)).map fun m => m).Sublist metrics
  rw [List.map_id']
  exact List.filter_sublist

theorem entries_ne_nil {args : ChartArgs} {source : Source} {rows : Dict String (List Row)}
    {metrics : List Metric} {t : Shown} (h : t ∈ shown args source rows metrics) :
    t.entries ≠ [] := of_decide_eq_true (List.mem_filter.1 h).2

/-! ## The overview -/

/-- The figures by title. -/
theorem get?_byName {ts : List Shown} {figs : List Figure} (h : List.Forall₂ IsFigure ts figs)
    (hnodup : (ts.map fun t => t.metric.cfg.title).Nodup) (title : String) :
    Option.Rel IsFigure (ts.find? fun t => t.metric.cfg.title = title)
      ((byName figs).get? title) := by
  have htitles : figs.map Figure.title = ts.map fun t => t.metric.cfg.title :=
    map_eq_of_forall₂ h fun t fig hfig => hfig.title
  have hbyName : byName figs = figs.map fun fig => (fig.title, fig) := by
    refine Dict.ofPairs_of_nodup ?_
    rw [List.map_map]
    exact htitles ▸ hnodup
  rw [hbyName]
  clear hbyName htitles hnodup
  induction h with
  | nil => exact .none
  | @cons t fig ts figs hfig _ ih =>
    rw [List.map_cons, Dict.get?_cons, List.find?_cons, hfig.title]
    by_cases htitle : t.metric.cfg.title = title
    · rw [if_pos htitle, decide_eq_true htitle]
      exact .some hfig
    · rw [if_neg htitle, decide_eq_false htitle]
      exact ih

/-- The figure of a metric of a table. -/
theorem get?_byName_of_config {configs : Dict String MetricConfig}
    (htitles : ((configs.mapValues MetricConfig.title).map Prod.snd).Nodup) {ts : List Shown}
    {figs : List Figure} (h : List.Forall₂ IsFigure ts figs)
    (hnodup : (ts.map fun t => t.metric.cfg.title).Nodup)
    (hconfigs : ∀ t ∈ ts, configs.get? t.metric.name = some t.metric.cfg) (metric : String) :
    Option.Rel IsFigure (ts.find? fun t => t.metric.name = metric)
      ((configs.get? metric).bind fun cfg => (byName figs).get? cfg.title) := by
  cases hmetric : configs.get? metric with
  | none =>
    have hnone : ts.find? (fun t => decide (t.metric.name = metric)) = none := by
      refine List.find?_eq_none.2 fun t ht hname => ?_
      rw [← of_decide_eq_true hname, hconfigs t ht] at hmetric
      cases hmetric
    rw [hnone]
    exact .none
  | some cfg =>
    have hsame : ts.find? (fun t => decide (t.metric.name = metric)) =
        ts.find? fun t => decide (t.metric.cfg.title = cfg.title) := by
      refine List.find?_congr fun t ht => decide_eq_decide.2 ⟨fun hname => ?_, fun htitle => ?_⟩
      · have hget := hconfigs t ht
        rw [hname, hmetric] at hget
        rw [Option.some.inj hget]
      · refine Dict.eq_of_get?_eq htitles (v := cfg.title) ?_ ?_
        · rw [Dict.get?_mapValues, hconfigs t ht, Option.map_some, htitle]
        · rw [Dict.get?_mapValues, hmetric, Option.map_some]
    rw [hsame]
    exact get?_byName h hnodup cfg.title

/-- The files of a table: each is the chart of its metric. -/
def IsFile (args : PlotArgs) (t : Shown) (file : String × Chart) : Prop :=
  file.1 = t.metric.file ∧ Drawn t.entries args t.metric.cfg file.2

/-- A table of metrics: its charts, with what is known of all their configurations. -/
structure TableOf (configs : Dict String MetricConfig) (ts : List Shown) : Prop where
  entries : ∀ t ∈ ts, t.entries ≠ []
  titles : (ts.map fun t => t.metric.cfg.title).Nodup
  configs : ∀ t ∈ ts, configs.get? t.metric.name = some t.metric.cfg

theorem tableOf_shown {args : ChartArgs} {source : Source} {rows : Dict String (List Row)}
    {metrics : List Metric} {configs : Dict String MetricConfig}
    (htitles : (metrics.map fun m => m.cfg.title).Nodup)
    (hconfigs : ∀ m ∈ metrics, configs.get? m.name = some m.cfg) :
    TableOf configs (shown args source rows metrics) where
  entries t ht := entries_ne_nil ht
  titles := by
    have hsub := (shown_sublist args source rows metrics).map fun m => m.cfg.title
    rw [List.map_map] at hsub
    exact htitles.sublist hsub
  configs t ht :=
    hconfigs _ ((shown_sublist args source rows metrics).subset (List.mem_map_of_mem ht))

theorem tableOf_nil (configs : Dict String MetricConfig) : TableOf configs [] :=
  ⟨by simp, List.nodup_nil, by simp⟩

theorem tableOf_clientShown (args : ChartArgs) (selected : List String)
    (dirs : List (Dict String (List Char))) :
    TableOf clientConfigs (clientShown args selected dirs) := by
  unfold clientShown
  split_ifs
  · exact tableOf_nil _
  · exact tableOf_shown (by decide) (by decide)

theorem tableOf_pcapShown (args : ChartArgs) (selected : List String)
    (dirs : List (Dict String (List Char))) :
    TableOf pcapConfigs (pcapShown args selected dirs) := by
  unfold pcapShown
  cases pcapTable args selected dirs with
  | none => exact tableOf_nil _
  | some rows => exact tableOf_shown (by decide) (by decide)

theorem overviewFig_rel {client pcap : List Shown} {clientFigs pcapFigs : List Figure}
    (hclient : TableOf clientConfigs client) (hpcap : TableOf pcapConfigs pcap)
    (hclientFigs : List.Forall₂ IsFigure client clientFigs)
    (hpcapFigs : List.Forall₂ IsFigure pcap pcapFigs) (metric : String) :
    Option.Rel IsFigure
      ((client.find? fun t => t.metric.name = metric).or
        (pcap.find? fun t => t.metric.name = metric))
      (overviewFig (byName clientFigs) (byName pcapFigs) metric) := by
  have hleft := get?_byName_of_config (by decide) hclientFigs hclient.titles hclient.configs metric
  have hright := get?_byName_of_config (by decide) hpcapFigs hpcap.titles hpcap.configs metric
  unfold overviewFig
  cases hfound : client.find? fun t => decide (t.metric.name = metric) with
  | none =>
    rw [hfound] at hleft
    cases hfig : (clientConfigs.get? metric).bind fun cfg =>
        (byName clientFigs).get? cfg.title with
    | none => exact hright
    | some fig =>
      rw [hfig] at hleft
      cases hleft
  | some t =>
    rw [hfound] at hleft
    cases hfig : (clientConfigs.get? metric).bind fun cfg =>
        (byName clientFigs).get? cfg.title with
    | none =>
      rw [hfig] at hleft
      cases hleft
    | some fig =>
      rw [hfig] at hleft
      cases hleft with
      | some hfigure => exact .some hfigure

theorem forall₂_filterMap {α β γ : Type} {R : β → γ → Prop} {f : α → Option β} {g : α → Option γ}
    (h : ∀ a, Option.Rel R (f a) (g a)) (as : List α) :
    List.Forall₂ R (as.filterMap f) (as.filterMap g) := by
  induction as with
  | nil => exact .nil
  | cons a as ih =>
    have ha := h a
    rw [List.filterMap_cons, List.filterMap_cons]
    cases hf : f a with
    | none =>
      cases hg : g a with
      | none => exact ih
      | some c =>
        rw [hf, hg] at ha
        cases ha
    | some b =>
      cases hg : g a with
      | none =>
        rw [hf, hg] at ha
        cases ha
      | some c =>
        rw [hf, hg] at ha
        cases ha with
        | some hbc => exact .cons hbc ih

/-- The titles that a metric of the overview may have. -/
def titlesOf (metric : String) : List String :=
  (clientConfigs.get? metric).toList.map MetricConfig.title ++
    (pcapConfigs.get? metric).toList.map MetricConfig.title

theorem nodup_panelsOf {client pcap : List Shown} (hclient : TableOf clientConfigs client)
    (hpcap : TableOf pcapConfigs pcap) :
    ((panelsOf client pcap).map fun t => t.metric.cfg.title).Nodup := by
  have htitles (metric : String) (t : Shown)
      (ht : (client.find? fun t => decide (t.metric.name = metric)).or
        (pcap.find? fun t => decide (t.metric.name = metric)) = some t) :
      t.metric.cfg.title ∈ titlesOf metric := by
    rcases Option.or_eq_some_iff.1 ht with hfound | ⟨-, hfound⟩
    · have hname : t.metric.name = metric := by simpa using List.find?_some hfound
      have hget := hclient.configs t (List.mem_of_find?_eq_some hfound)
      rw [hname] at hget
      simp [titlesOf, hget]
    · have hname : t.metric.name = metric := by simpa using List.find?_some hfound
      have hget := hpcap.configs t (List.mem_of_find?_eq_some hfound)
      rw [hname] at hget
      simp [titlesOf, hget]
  have hdisjoint : overviewMetrics.Pairwise fun a b => ∀ x ∈ titlesOf a, x ∉ titlesOf b := by
    decide +kernel
  rw [panelsOf, List.nodup_iff_pairwise_ne, List.pairwise_map, List.pairwise_filterMap]
  refine hdisjoint.imp fun h t ht t' ht' heq => ?_
  exact h _ (htitles _ t ht) (heq ▸ htitles _ t' ht')

theorem dedupe_eq {figs : List Figure} (hnodup : (figs.map Figure.title).Nodup)
    {seen : List String} (hseen : ∀ fig ∈ figs, fig.title ∉ seen) : dedupe seen figs = figs := by
  induction figs generalizing seen with
  | nil => rfl
  | cons fig figs ih =>
    rw [List.map_cons, List.nodup_cons] at hnodup
    rw [dedupe, if_neg (hseen fig List.mem_cons_self), ih hnodup.2]
    intro fig' hfig'
    rw [List.mem_cons, not_or]
    refine ⟨fun heq => ?_, hseen fig' (List.mem_cons_of_mem fig hfig')⟩
    exact hnodup.1 (heq ▸ List.mem_map_of_mem hfig')

/-- Every panel is finished when nothing was raised. -/
theorem forall₂_drawPanels {args : BarArgs} {figs : List Figure}
    (h : (drawPanels accepts args figs).raised = none) :
    List.Forall₂ (fun fig panel => drawPanel accepts args fig = .ok panel) figs
      (drawPanels accepts args figs).panels := by
  induction figs with
  | nil => exact .nil
  | cons fig figs ih =>
    unfold drawPanels at h ⊢
    cases hpanel : drawPanel accepts args fig with
    | error e =>
      rw [hpanel] at h
      cases h
    | ok panel =>
      rw [hpanel] at h
      exact .cons hpanel (ih h)

theorem isPanel_of_drawPanel {args : BarArgs} {t : Shown} {fig : Figure} {panel : Panel}
    (hne : t.entries ≠ []) (hfig : IsFigure t fig)
    (hpanel : drawPanel accepts args fig = .ok panel) : IsPanel args t panel := by
  obtain ⟨bars, hbars, h⟩ := Fallible.bind_eq_ok.1 hpanel
  cases h
  obtain ⟨data, hgroups, hdata⟩ := hfig.data
  rw [hdata] at hbars
  refine ⟨hfig.title, hfig.ylabel, ?_⟩
  dsimp only
  rw [hdata]
  exact barred_of_drawBars hgroups hne hbars

theorem isPanel_of_forall₂ {args : BarArgs} {ts : List Shown} {figs : List Figure}
    {panels : List Panel} (hfigs : List.Forall₂ IsFigure ts figs)
    (hentries : ∀ t ∈ ts, t.entries ≠ [])
    (hpanels : List.Forall₂ (fun fig panel => drawPanel accepts args fig = .ok panel) figs panels) :
    List.Forall₂ (IsPanel args) ts panels := by
  induction hfigs generalizing panels with
  | nil =>
    cases hpanels
    exact .nil
  | @cons t fig ts figs hfig _ ih =>
    cases hpanels with
    | cons hpanel hpanels =>
      exact .cons (isPanel_of_drawPanel (hentries _ List.mem_cons_self) hfig hpanel)
        (ih (fun t ht => hentries t (List.mem_cons_of_mem _ ht)) hpanels)

theorem overviewOf_spec {args : ChartArgs} {client pcap : List Shown}
    {clientFigs pcapFigs : List Figure} (hclient : TableOf clientConfigs client)
    (hpcap : TableOf pcapConfigs pcap) (hclientFigs : List.Forall₂ IsFigure client clientFigs)
    (hpcapFigs : List.Forall₂ IsFigure pcap pcapFigs) {files : List (String × Chart)}
    (h : overviewOf accepts args clientFigs pcapFigs = .ok files) :
    IsOverview args.plot.toBarArgs (if args.noOverview then [] else panelsOf client pcap)
      files := by
  have hfigs : List.Forall₂ IsFigure (panelsOf client pcap)
      (overviewMetrics.filterMap (overviewFig (byName clientFigs) (byName pcapFigs))) :=
    forall₂_filterMap (overviewFig_rel hclient hpcap hclientFigs hpcapFigs) _
  have hlength : (overviewMetrics.filterMap
      (overviewFig (byName clientFigs) (byName pcapFigs))).length ≤ 3 * 3 :=
    (List.length_filterMap_le _ _).trans (by decide)
  unfold overviewOf at h
  dsimp only at h
  by_cases hno : args.noOverview = true
  · rw [if_pos hno] at h ⊢
    cases h
    exact ⟨fun _ => rfl, fun hne => absurd rfl hne⟩
  rw [if_neg hno] at h ⊢
  generalize overviewMetrics.filterMap (overviewFig (byName clientFigs) (byName pcapFigs)) = figs
    at hfigs hlength h
  have htitles : (figs.map Figure.title).Nodup := by
    rw [map_eq_of_forall₂ hfigs fun t fig hfig => hfig.title]
    exact nodup_panelsOf hclient hpcap
  rw [dedupe_eq htitles (by simp), makeOverview, List.take_of_length_le hlength] at h
  by_cases hnil : figs = []
  · rw [if_pos hnil] at h
    cases h
    subst hnil
    exact ⟨fun _ => rfl, fun hne => absurd (List.forall₂_nil_right_iff.1 hfigs) hne⟩
  · rw [if_neg hnil] at h
    have hne : panelsOf client pcap ≠ [] := by
      intro hpanels
      rw [hpanels] at hfigs
      exact hnil (List.forall₂_nil_left_iff.1 hfigs)
    refine ⟨fun hpanels => absurd hpanels hne,
      fun _ => ⟨drawPanels accepts args.plot.toBarArgs figs, ?_⟩⟩
    cases hraised : (drawPanels accepts args.plot.toBarArgs figs).raised with
    | some e =>
      simp only [hraised] at h
      cases h
    | none =>
      simp only [hraised] at h
      have hentries (t : Shown) (ht : t ∈ panelsOf client pcap) : t.entries ≠ [] := by
        obtain ⟨metric, -, hmetric⟩ := List.mem_filterMap.1 ht
        rcases Option.or_eq_some_iff.1 hmetric with hfound | ⟨-, hfound⟩
        · exact hclient.entries t (List.mem_of_find?_eq_some hfound)
        · exact hpcap.entries t (List.mem_of_find?_eq_some hfound)
      have hpanels : List.Forall₂ (IsPanel args.plot.toBarArgs) (panelsOf client pcap)
          (drawPanels accepts args.plot.toBarArgs figs).panels :=
        isPanel_of_forall₂ hfigs hentries (forall₂_drawPanels hraised)
      refine ⟨(Except.ok.inj h).symm, ?_, hpanels⟩
      rw [map_eq_of_forall₂ hpanels fun t panel hpanel => hpanel.title]
      exact nodup_panelsOf hclient hpcap

/-! ## All charts -/

theorem renderClient_spec {args : ChartArgs} {selected : List String}
    {dirs : List (Dict String (List Char))} {files : List (String × Chart)} {figs : List Figure}
    (h : renderClient accepts args selected dirs = .ok (files, figs)) :
    List.Forall₂ (IsFile args.plot) (clientShown args selected dirs) files ∧
      List.Forall₂ IsFigure (clientShown args selected dirs) figs := by
  unfold renderClient at h
  unfold clientShown
  by_cases hno : args.noClient = true
  · rw [if_pos hno] at h ⊢
    cases h
    exact ⟨.nil, .nil⟩
  · rw [if_neg hno] at h ⊢
    exact renderMetrics_spec (nodup_clientRows selected dirs) h

theorem renderPcap_spec {args : ChartArgs} {selected : List String}
    {dirs : List (Dict String (List Char))} {files : List (String × Chart)} {figs : List Figure}
    (h : renderPcap accepts args selected dirs = .ok (files, figs)) :
    List.Forall₂ (IsFile args.plot) (pcapShown args selected dirs) files ∧
      List.Forall₂ IsFigure (pcapShown args selected dirs) figs := by
  unfold renderPcap at h
  unfold pcapShown
  cases htable : pcapTable args selected dirs with
  | none =>
    rw [htable] at h
    cases h
    exact ⟨.nil, .nil⟩
  | some rows =>
    rw [htable] at h
    refine renderMetrics_spec ?_ h
    unfold pcapTable at htable
    split_ifs at htable
    cases htable
    exact nodup_pcapRows selected dirs

/-- All file names. -/
theorem nodup_files : ((clientCharts ++ pcapCharts).map Metric.file ++ ["overview.png"]).Nodup := by
  decide +kernel

theorem shown_metrics_sublist (args : ChartArgs) (selected : List String)
    (dirs : List (Dict String (List Char))) :
    ((clientShown args selected dirs ++ pcapShown args selected dirs).map Shown.metric).Sublist
      (clientCharts ++ pcapCharts) := by
  rw [List.map_append]
  refine List.Sublist.append ?_ ?_
  · unfold clientShown
    split_ifs
    · exact List.nil_sublist _
    · exact shown_sublist _ _ _ _
  · unfold pcapShown
    cases pcapTable args selected dirs with
    | none => exact List.nil_sublist _
    | some rows => exact shown_sublist _ _ _ _

/-- **The charts of a run show its measurements.** When `main` returns, it has written one file for
    each selected metric for which some row passes with a number, under distinct names, and each
    shows what the rows that pass add. The overview has a panel for each of its metrics that has a
    chart, in their order and with distinct titles, none is left out, and it shows the entries of
    the client's chart if there is one, else of the pcaps'. -/
theorem charts_of_rows (accepts : BarCall → Bool) (args : ChartArgs) (selected : List String)
    (dirs : List (Dict String (List Char))) (files : List (String × Chart))
    (h : main accepts args selected dirs = .ok files) :
    (files.map Prod.fst).Nodup ∧ ∃ metricFiles overviewFiles, files = metricFiles ++ overviewFiles ∧
      List.Forall₂ (IsFile args.plot)
        (clientShown args selected dirs ++ pcapShown args selected dirs) metricFiles ∧
      IsOverview args.plot.toBarArgs (overviewShown args selected dirs) overviewFiles := by
  unfold main at h
  obtain ⟨⟨clientFiles, clientFigs⟩, hclient, h⟩ := Fallible.bind_eq_ok.1 h
  obtain ⟨⟨pcapFiles, pcapFigs⟩, hpcap, h⟩ := Fallible.bind_eq_ok.1 h
  obtain ⟨overviewFiles, hoverview, h⟩ := Fallible.bind_eq_ok.1 h
  cases h
  obtain ⟨hclientFiles, hclientFigs⟩ := renderClient_spec hclient
  obtain ⟨hpcapFiles, hpcapFigs⟩ := renderPcap_spec hpcap
  have hfiles : List.Forall₂ (IsFile args.plot)
      (clientShown args selected dirs ++ pcapShown args selected dirs) (clientFiles ++ pcapFiles) :=
    List.rel_append hclientFiles hpcapFiles
  have hoverview' : IsOverview args.plot.toBarArgs (overviewShown args selected dirs)
      overviewFiles :=
    overviewOf_spec (tableOf_clientShown args selected dirs)
      (tableOf_pcapShown args selected dirs) hclientFigs hpcapFigs hoverview
  refine ⟨?_, clientFiles ++ pcapFiles, overviewFiles, rfl, hfiles, hoverview'⟩
  have hmetric : ((clientFiles ++ pcapFiles).map Prod.fst).Sublist
      ((clientCharts ++ pcapCharts).map Metric.file) := by
    rw [map_eq_of_forall₂ hfiles fun t file hfile => hfile.1]
    have hsub := (shown_metrics_sublist args selected dirs).map Metric.file
    rw [List.map_map] at hsub
    exact hsub
  have hlast : (overviewFiles.map Prod.fst).Sublist ["overview.png"] := by
    by_cases hnil : overviewShown args selected dirs = []
    · rw [hoverview'.none hnil]
      exact List.nil_sublist _
    · obtain ⟨overview, rfl, -⟩ := hoverview'.some hnil
      exact List.Sublist.refl _
  rw [List.map_append]
  exact nodup_files.sublist (hmetric.append hlast)

end Drawing

/-- A run with one HTTP transfer. -/
def httpRun : List (Dict String (List Char)) :=
  [[("http", "file_size,goodput_mbps\r\n1.0,8.000\r\n".toList)]]

/-- All charts, with the defaults. -/
def allCharts : ChartArgs :=
  ⟨⟨[], .auto, []⟩, ⟨⟨.mean, .minmax, .compensated⟩, none, .linear, .auto⟩, [], false, false, false⟩

theorem isOk_main_httpRun : (main (fun _ => true) allCharts ["http"] httpRun).isOk = true := by
  decide +kernel

theorem shown_httpRun :
    (clientShown allCharts ["http"] httpRun ++ pcapShown allCharts ["http"] httpRun).map
      (fun t => t.metric.file) = ["client_goodput_mbps.png"] ∧
      (overviewShown allCharts ["http"] httpRun).length = 1 := by
  decide +kernel

theorem charts_of_httpRun : ∃ files, main (fun _ => true) allCharts ["http"] httpRun = .ok files ∧
    files.map Prod.fst = ["client_goodput_mbps.png", "overview.png"] := by
  cases hmain : main (fun _ => true) allCharts ["http"] httpRun with
  | error e =>
    have hok := isOk_main_httpRun
    rw [hmain] at hok
    cases hok
  | ok files =>
    obtain ⟨-, metricFiles, overviewFiles, rfl, hmetric, hoverview⟩ :=
      charts_of_rows (fun _ => true) allCharts ["http"] httpRun files hmain
    obtain ⟨hnames, hlength⟩ := shown_httpRun
    have hne : overviewShown allCharts ["http"] httpRun ≠ [] := by
      intro hnil
      rw [hnil] at hlength
      cases hlength
    obtain ⟨overview, rfl, -⟩ := hoverview.some hne
    refine ⟨_, rfl, ?_⟩
    rw [List.map_append, map_eq_of_forall₂ hmetric fun t file hfile => hfile.1, hnames]
    rfl

end TransferTestbed.Charts
