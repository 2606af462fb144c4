import TransferTestbed.Common.Runs
import TransferTestbed.Library.Transition

/-!
# The LwM2M server over many update flows

The registry, the resources and the update flows of
`protocols/LWM2M/server/lwm2m_server.py`. The events of the registry are set by
state reports and never cleared. A flow is a task that stops at each `await`; a
step takes it from one `await` to the next.

Results:
* `Tracked.step`: what a flow waits for, against the messages since its last request.
* `ordered_of_fresh`: executes and completions follow the reports they wait for, in
  runs whose flows find the events unset.
-/

namespace TransferTestbed.Lwm2m

open Runs Transition

/-- Where an update flow is (`_run_update_flow`, lines 132–162). -/
inductive Stage where
  /-- the task has been created -/
  | triggered
  /-- the Package URI write has been sent -/
  | writing
  /-- waiting for `downloaded_event` -/
  | awaitingDownload
  /-- the Update Execute has been sent -/
  | executing
  /-- waiting for `updated_event` -/
  | awaitingUpdate
  | complete
  | failed
deriving DecidableEq, Repr

structure Flow where
  remote : String
  filename : String
  checksum : String
  stage : Stage
deriving DecidableEq, Repr

/-- The registry (`main`, lines 190–198) and the update flows. -/
structure Server where
  endpoint : Option String
  remote : Option String
  lastState : Option String
  /-- `downloaded_event` is set. -/
  downloaded : Bool
  /-- `updated_event` is set. -/
  updated : Bool
  flows : List Flow
deriving DecidableEq, Repr

def Server.init : Server where
  endpoint := none
  remote := none
  lastState := none
  downloaded := false
  updated := false
  flows := []

/-- A response code. -/
inductive Code where
  | created
  | changed
  | serviceUnavailable
deriving DecidableEq, Repr

/-! ## Resources -/

/-- `query.split("=", 1)[1]` if the query starts with the key and `=`. -/
def queryValue (key query : String) : Option String :=
  if (key ++ "=").toList <+: query.toList then
    some (String.ofList (query.toList.drop (key ++ "=").toList.length))
  else none

/-- The value of the last query with the key. -/
def lastQuery (key default : String) (uriQuery : List String) : String :=
  (uriQuery.filterMap (queryValue key)).getLast?.getD default

/-- `RegistrationResource.render_post` (lines 39–55). -/
def register (s : Server) (uriQuery : List String) (hostinfo : String) : Server × Code :=
  ({ s with
    endpoint := some (lastQuery "ep" "unknown" uriQuery)
    remote := some hostinfo }, .created)

/-- `StateReportResource.render_put` (lines 91–99). -/
def reportState (s : Server) (payload : String) : Server × Code :=
  let state := strip payload
  ({ s with
    lastState := some state
    downloaded := s.downloaded || state = "2"
    updated := s.updated || state = "1" }, .changed)

/-- `UpdateTriggerResource.render_post` (lines 111–130); a query is for one key only. -/
def triggerUpdate (s : Server) (uriQuery : List String) : Server × Code :=
  match s.remote with
  | none => (s, .serviceUnavailable)
  | some remote =>
    if remote = "" then (s, .serviceUnavailable)
    else
      ({ s with
        flows := s.flows ++ [⟨remote, lastQuery "file" "unknown.bin" uriQuery,
          lastQuery "checksum" "" uriQuery, .triggered⟩] }, .changed)

/-- The payload of the Package URI write. -/
def packageUri (f : Flow) : String :=
  "coap://lwm2m-server/fw?name=" ++ f.filename ++ "&checksum=" ++ f.checksum

/-! ## Steps -/

/-- What happens at the server: requests that reach it, and steps of the flow `i`. -/
inductive Event where
  | register (uriQuery : List String) (hostinfo : String)
  | trigger (uriQuery : List String)
  /-- a state report that a device sends for the flow `i`; the server sees the payload only -/
  | report (i : ℕ) (payload : String)
  /-- the Package URI write is sent -/
  | write (i : ℕ)
  /-- its response is there -/
  | written (i : ℕ)
  /-- `downloaded_event` is set, and the Update Execute is sent -/
  | execute (i : ℕ)
  /-- its response is there -/
  | executed (i : ℕ)
  /-- `updated_event` is set, and the flow is complete -/
  | complete (i : ℕ)
  /-- a request or a wait raises -/
  | fail (i : ℕ)
deriving DecidableEq, Repr

/-- The flow `i` goes on from one stage to another, if it is there. -/
def goOn (s : Server) (i : ℕ) (source target : Stage) : Option Server :=
  match s.flows[i]? with
  | none => none
  | some f =>
    if f.stage = source then some { s with flows := s.flows.set i { f with stage := target } }
    else none

def step (s : Server) : Event → Option Server
  | .register uriQuery hostinfo => some (register s uriQuery hostinfo).1
  | .trigger uriQuery => some (triggerUpdate s uriQuery).1
  | .report _ payload => some (reportState s payload).1
  | .write i => goOn s i .triggered .writing
  | .written i => goOn s i .writing .awaitingDownload
  | .execute i => if s.downloaded then goOn s i .awaitingDownload .executing else none
  | .executed i => goOn s i .executing .awaitingUpdate
  | .complete i => if s.updated then goOn s i .awaitingUpdate .complete else none
  | .fail i =>
    match s.flows[i]? with
    | none => none
    | some f =>
      if f.stage = .complete ∨ f.stage = .failed then none
      else some { s with flows := s.flows.set i { f with stage := .failed } }

/-! ## The property -/

/-- A state report for the flow `i` with this value. -/
def Event.Reports (i : ℕ) (value : String) : Event → Prop
  | .report flow payload => flow = i ∧ strip payload = value
  | _ => False

/-- The events after the last occurrence of `m`, or all of them. -/
def since (m : Event) (es : List Event) : List Event :=
  es.foldl (fun seen e => if e = m then [] else seen ++ [e]) []

/-- After `m` there has been a report for the flow `i` with this value. -/
def ReportedSince (m : Event) (i : ℕ) (value : String) (es : List Event) : Prop :=
  m ∈ es ∧ ∃ e ∈ since m es, e.Reports i value

/-- The order of a run: an Update Execute follows a report `2` for its flow that came after the
    flow's Package URI write, and a completion follows a report `1` for its flow that came after
    its Update Execute. -/
structure Ordered (es : List Event) : Prop where
  execute : ∀ pre post i, es = pre ++ .execute i :: post → ReportedSince (.write i) i "2" pre
  complete : ∀ pre post i, es = pre ++ .complete i :: post → ReportedSince (.execute i) i "1" pre

/-- From the Package URI write on, until `downloaded_event` is set. -/
def Stage.awaitsDownload (stage : Stage) : Bool := stage = .writing ∨ stage = .awaitingDownload

/-- From the Update Execute on, until `updated_event` is set. -/
def Stage.awaitsUpdate (stage : Stage) : Bool := stage = .executing ∨ stage = .awaitingUpdate

/-- No flow but `j` is at such a stage. -/
def NoOther (s : Server) (j : ℕ) (waits : Stage → Bool) : Prop :=
  ∀ i < s.flows.length, i ≠ j → ∀ f ∈ s.flows[i]?, waits f.stage = false

instance (s : Server) (j : ℕ) (waits : Stage → Bool) : Decidable (NoOther s j waits) :=
  inferInstanceAs (Decidable (∀ i < s.flows.length, i ≠ j → ∀ f ∈ s.flows[i]?, _))

/-- A flow finds the event unset that it is going to wait for, and no other flow waits for the
    event that a report sets. -/
def Fresh (s : Server) : Event → Prop
  | .write _ => s.downloaded = false
  | .execute _ => s.updated = false
  | .report j payload =>
    (strip payload = "2" → NoOther s j Stage.awaitsDownload) ∧
      (strip payload = "1" → NoOther s j Stage.awaitsUpdate)
  | _ => True

instance (s : Server) : DecidablePred (Fresh s)
  | .write _ => inferInstanceAs (Decidable (s.downloaded = false))
  | .execute _ => inferInstanceAs (Decidable (s.updated = false))
  | .report _ payload =>
    inferInstanceAs (Decidable ((strip payload = "2" → _) ∧ (strip payload = "1" → _)))
  | .register .. => .isTrue trivial
  | .trigger _ => .isTrue trivial
  | .written _ => .isTrue trivial
  | .executed _ => .isTrue trivial
  | .complete _ => .isTrue trivial
  | .fail _ => .isTrue trivial

theorem since_concat (m e : Event) (es : List Event) :
    since m (es ++ [e]) = if e = m then [] else since m es ++ [e] := by
  rw [since, List.foldl_append]
  rfl

/-! ## The invariant -/

/-- The flow `i` has sent `m`, and if the event is set there has been a report for it since. -/
def Waits (m : Event) (i : ℕ) (value : String) (isSet : Bool) (es : List Event) : Prop :=
  m ∈ es ∧ (isSet = true → ∃ e ∈ since m es, e.Reports i value)

/-- What a flow waits for. -/
def TrackedFlow (s : Server) (es : List Event) (i : ℕ) (stage : Stage) : Prop :=
  (stage.awaitsDownload = true → Waits (.write i) i "2" s.downloaded es) ∧
    (stage.awaitsUpdate = true → Waits (.execute i) i "1" s.updated es)

def Tracked (s : Server) (es : List Event) : Prop :=
  ∀ i f, s.flows[i]? = some f → TrackedFlow s es i f.stage

/-- A flow keeps waiting over an event that sets the registry's event only as a report for it. -/
theorem Waits.concat {m e : Event} {i : ℕ} {value : String} {isSet isSet' : Bool}
    {es : List Event} (h : Waits m i value isSet es) (hm : e ≠ m)
    (hset : isSet' = true → isSet = true ∨ e.Reports i value) :
    Waits m i value isSet' (es ++ [e]) := by
  refine ⟨List.mem_append_left _ h.1, fun hset' => ?_⟩
  rw [since_concat, if_neg hm]
  rcases hset hset' with hold | hnew
  · obtain ⟨e', he', hr⟩ := h.2 hold
    exact ⟨e', List.mem_append_left _ he', hr⟩
  · exact ⟨e, List.mem_append_right _ (List.mem_singleton_self e), hnew⟩

/-- A flow that has just sent its request waits for the event. -/
theorem waits_sent (m : Event) (i : ℕ) (value : String) (es : List Event) :
    Waits m i value false (es ++ [m]) :=
  ⟨List.mem_append_right _ (List.mem_singleton_self m), fun h => absurd h (by simp)⟩

/-- A flow that waits for nothing. -/
theorem trackedFlow_idle {s : Server} {es : List Event} {i : ℕ} {stage : Stage}
    (hdownload : stage.awaitsDownload = false) (hupdate : stage.awaitsUpdate = false) :
    TrackedFlow s es i stage := by
  constructor
  · intro h
    rw [hdownload] at h
    cases h
  · intro h
    rw [hupdate] at h
    cases h

theorem TrackedFlow.concat {s s' : Server} {e : Event} {es : List Event} {i : ℕ} {stage : Stage}
    (h : TrackedFlow s es i stage) (hwrite : e ≠ .write i) (hexecute : e ≠ .execute i)
    (hdownloaded : stage.awaitsDownload = true → s'.downloaded = true →
      s.downloaded = true ∨ e.Reports i "2")
    (hupdated : stage.awaitsUpdate = true → s'.updated = true →
      s.updated = true ∨ e.Reports i "1") : TrackedFlow s' (es ++ [e]) i stage :=
  ⟨fun hstage => (h.1 hstage).concat hwrite (hdownloaded hstage),
    fun hstage => (h.2 hstage).concat hexecute (hupdated hstage)⟩

/-- An event that sets nothing. -/
theorem TrackedFlow.keep {s s' : Server} {e : Event} {es : List Event} {i : ℕ} {stage : Stage}
    (h : TrackedFlow s es i stage) (hwrite : e ≠ .write i) (hexecute : e ≠ .execute i)
    (hdownloaded : s'.downloaded = s.downloaded) (hupdated : s'.updated = s.updated) :
    TrackedFlow s' (es ++ [e]) i stage :=
  h.concat hwrite hexecute (fun _ hset => .inl (hdownloaded ▸ hset))
    fun _ hset => .inl (hupdated ▸ hset)

theorem goOn_eq_some {s s' : Server} {i : ℕ} {source target : Stage}
    (h : goOn s i source target = some s') :
    ∃ f, s.flows[i]? = some f ∧ f.stage = source ∧
      s' = { s with flows := s.flows.set i { f with stage := target } } := by
  unfold goOn at h
  split at h
  · cases h
  · rename_i f hf
    split_ifs at h with hstage
    cases h
    exact ⟨f, hf, hstage, rfl⟩

/-- A flow's own step: the other flows keep waiting. -/
theorem Tracked.set {s : Server} {es : List Event} (h : Tracked s es) {i : ℕ} {f : Flow} {e : Event}
    (hother : ∀ j ≠ i, e ≠ .write j ∧ e ≠ .execute j)
    (hself : TrackedFlow s (es ++ [e]) i f.stage) :
    Tracked { s with flows := s.flows.set i f } (es ++ [e]) := by
  intro j g hg
  by_cases hj : j = i
  · subst hj
    rw [List.getElem?_set_self'] at hg
    obtain ⟨_, -, rfl⟩ := Option.map_eq_some_iff.1 hg
    exact hself
  · rw [List.getElem?_set_ne (Ne.symm hj)] at hg
    exact (h j g hg).keep (hother j hj).1 (hother j hj).2 rfl rfl

/-- The flow that a report is for is the only one that it can satisfy. -/
theorem NoOther.eq {s : Server} {i j : ℕ} {waits : Stage → Bool} (h : NoOther s j waits) {f : Flow}
    (hf : s.flows[i]? = some f) (hwaits : waits f.stage = true) : j = i := by
  by_contra hne
  have hlt := (List.getElem?_eq_some_iff.1 hf).1
  rw [h i hlt (Ne.symm hne) f hf] at hwaits
  cases hwaits

theorem Tracked.report {s : Server} {es : List Event} (h : Tracked s es) {j : ℕ} {payload : String}
    (hfresh : Fresh s (.report j payload)) :
    Tracked (reportState s payload).1 (es ++ [.report j payload]) := by
  intro i f hf
  refine (h i f hf).concat (by simp) (by simp) (fun hstage hset => ?_) fun hstage hset => ?_
  · have hset : s.downloaded = true ∨ strip payload = "2" := by simpa [reportState] using hset
    exact hset.imp_right fun htwo => ⟨(hfresh.1 htwo).eq hf hstage, htwo⟩
  · have hset : s.updated = true ∨ strip payload = "1" := by simpa [reportState] using hset
    exact hset.imp_right fun hone => ⟨(hfresh.2 hone).eq hf hstage, hone⟩

/-- **One step**: flows keep track of the reports for them since their last request, if they
    found the event unset when they sent it and no report is taken for another flow's. -/
theorem Tracked.step {s s' : Server} {es : List Event} {e : Event} (h : Tracked s es)
    (hfresh : Fresh s e) (hstep : Lwm2m.step s e = some s') : Tracked s' (es ++ [e]) := by
  cases e with
  | register uriQuery hostinfo =>
    cases hstep
    exact fun i f hf => (h i f hf).keep (by simp) (by simp) rfl rfl
  | trigger uriQuery =>
    cases hstep
    have hsame : Tracked s (es ++ [.trigger uriQuery]) :=
      fun i f hf => (h i f hf).keep (by simp) (by simp) rfl rfl
    unfold triggerUpdate
    split
    · exact hsame
    · split_ifs
      · exact hsame
      · intro i f hf
        rw [List.getElem?_append] at hf
        split_ifs at hf with hi
        · exact hsame i f hf
        · -- the new flow has not sent anything yet
          obtain rfl := List.mem_singleton.1 (List.mem_of_getElem? hf)
          exact trackedFlow_idle rfl rfl
  | report j payload =>
    cases hstep
    exact h.report hfresh
  | write i =>
    obtain ⟨f, hf, hstage, rfl⟩ := goOn_eq_some hstep
    refine h.set (fun j hj => ⟨by simpa using hj.symm, by simp⟩) ⟨fun _ => ?_, fun hwaits => ?_⟩
    · rw [show s.downloaded = false from hfresh]
      exact waits_sent _ _ _ _
    · cases hwaits
  | written i =>
    obtain ⟨f, hf, hstage, rfl⟩ := goOn_eq_some hstep
    refine h.set (fun j hj => ⟨by simp, by simp⟩) ⟨fun _ => ?_, fun hwaits => ?_⟩
    · exact ((h i f hf).1 (by rw [hstage]; rfl)).concat (by simp) Or.inl
    · cases hwaits
  | execute i =>
    obtain ⟨-, hstep⟩ := Option.ite_none_right_eq_some.1 hstep
    obtain ⟨f, hf, hstage, rfl⟩ := goOn_eq_some hstep
    refine h.set (fun j hj => ⟨by simp, by simpa using hj.symm⟩) ⟨fun hwaits => ?_, fun _ => ?_⟩
    · cases hwaits
    · rw [show s.updated = false from hfresh]
      exact waits_sent _ _ _ _
  | executed i =>
    obtain ⟨f, hf, hstage, rfl⟩ := goOn_eq_some hstep
    refine h.set (fun j hj => ⟨by simp, by simp⟩) ⟨fun hwaits => ?_, fun _ => ?_⟩
    · cases hwaits
    · exact ((h i f hf).2 (by rw [hstage]; rfl)).concat (by simp) Or.inl
  | complete i =>
    obtain ⟨-, hstep⟩ := Option.ite_none_right_eq_some.1 hstep
    obtain ⟨f, hf, hstage, rfl⟩ := goOn_eq_some hstep
    exact h.set (fun j hj => ⟨by simp, by simp⟩) (trackedFlow_idle rfl rfl)
  | fail i =>
    simp only [Lwm2m.step] at hstep
    split at hstep
    · cases hstep
    · split_ifs at hstep
      cases hstep
      exact h.set (fun j hj => ⟨by simp, by simp⟩) (trackedFlow_idle rfl rfl)

/-- An Update Execute or a completion comes after the report that the flow waited for. -/
theorem Tracked.reported {s s' : Server} {es : List Event} {e : Event} (h : Tracked s es)
    (hstep : Lwm2m.step s e = some s') :
    (∀ i, e = .execute i → ReportedSince (.write i) i "2" es) ∧
      ∀ i, e = .complete i → ReportedSince (.execute i) i "1" es := by
  constructor
  · rintro i rfl
    obtain ⟨hset, hstep⟩ := Option.ite_none_right_eq_some.1 hstep
    obtain ⟨f, hf, hstage, -⟩ := goOn_eq_some hstep
    obtain ⟨hsent, hreported⟩ := (h i f hf).1 (by rw [hstage]; rfl)
    exact ⟨hsent, hreported hset⟩
  · rintro i rfl
    obtain ⟨hset, hstep⟩ := Option.ite_none_right_eq_some.1 hstep
    obtain ⟨f, hf, hstage, -⟩ := goOn_eq_some hstep
    obtain ⟨hsent, hreported⟩ := (h i f hf).2 (by rw [hstage]; rfl)
    exact ⟨hsent, hreported hset⟩

/-! ## Runs -/

theorem ordered_concat {es : List Event} {e : Event} (h : Ordered es)
    (he : (∀ i, e = .execute i → ReportedSince (.write i) i "2" es) ∧
      ∀ i, e = .complete i → ReportedSince (.execute i) i "1" es) : Ordered (es ++ [e]) := by
  constructor
  · intro pre post i hsplit
    rcases List.eq_nil_or_concat' post with rfl | ⟨post, last, rfl⟩
    · obtain ⟨rfl, heq⟩ := List.append_inj' hsplit rfl
      exact he.1 i (List.singleton_inj.1 heq)
    · rw [← List.cons_append, ← List.append_assoc] at hsplit
      obtain ⟨rfl, -⟩ := List.append_inj' hsplit rfl
      exact h.execute pre post i rfl
  · intro pre post i hsplit
    rcases List.eq_nil_or_concat' post with rfl | ⟨post, last, rfl⟩
    · obtain ⟨rfl, heq⟩ := List.append_inj' hsplit rfl
      exact he.2 i (List.singleton_inj.1 heq)
    · rw [← List.cons_append, ← List.append_assoc] at hsplit
      obtain ⟨rfl, -⟩ := List.append_inj' hsplit rfl
      exact h.complete pre post i rfl

/-- **Updates in order**: in every run in which each flow finds the event unset that it
    is going to wait for, and no report comes in for one flow while another waits for its event,
    executes and completions follow the reports for their own flow. -/
theorem ordered_of_fresh (es : List Event) (s : Server)
    (hfresh : Along step Fresh .init es) (hrun : run step .init es = some s) : Ordered es := by
  have hstart : Tracked .init [] ∧ Ordered [] := by
    refine ⟨fun i f hf => by simp [Server.init] at hf, ⟨?_, ?_⟩⟩
    · exact fun pre post i h => absurd h (by simp)
    · exact fun pre post i h => absurd h (by simp)
  exact (run_history_along (I := fun s es => Tracked s es ∧ Ordered es)
    (fun s es e t h hG ht => ⟨h.1.step hG ht, ordered_concat h.2 (h.1.reported ht)⟩)
    es [] hstart hfresh hrun).2

/-- Three flows on two devices: the first one fails and its device reports late; the other two
    overlap, and one of them fails after its Package URI write. -/
def threeUpdates : List Event :=
  [.register ["ep=lwm2m-edge", "lt=86400"] "10.0.0.2", .trigger ["file=a.bin", "checksum=00"],
    .write 0, .fail 0, .trigger ["file=b.bin", "checksum=11"], .register ["ep=edge2"] "10.0.0.3",
    .trigger ["file=c.bin"], .write 1, .write 2, .report 2 "3", .fail 2, .written 1,
    .report 1 "2\n", .execute 1, .report 0 " 2", .executed 1, .report 1 "1", .complete 1]

theorem ordered_of_fresh_threeUpdates :
    Along step Fresh .init threeUpdates ∧ Ordered threeUpdates := by
  have hfresh : Along step Fresh .init threeUpdates := by decide +kernel
  have hsome : (run step .init threeUpdates).isSome = true := by decide +kernel
  obtain ⟨s, hrun⟩ := Option.isSome_iff_exists.1 hsome
  exact ⟨hfresh, ordered_of_fresh threeUpdates s hfresh hrun⟩

/-- The updates of two files, the second one without any report for it. -/
def firstUpdate : List Event :=
  [.register ["ep=lwm2m-edge", "lt=86400"] "10.0.0.2", .trigger ["file=a.bin", "checksum=00"],
    .write 0, .written 0, .report 0 "2", .execute 0, .executed 0, .report 0 "1", .complete 0]

def secondUpdate : List Event :=
  [.trigger ["file=b.bin", "checksum=11"], .write 1, .written 1, .execute 1, .executed 1,
    .complete 1]

/-- The second update is executed and complete on the reports for the first one. -/
theorem not_ordered_secondUpdate :
    (run step .init (firstUpdate ++ secondUpdate)).isSome = true ∧
      ¬ Ordered (firstUpdate ++ secondUpdate) := by
  refine ⟨by decide +kernel, fun hordered => ?_⟩
  obtain ⟨-, e, he, hreport⟩ := hordered.execute
    (firstUpdate ++ [.trigger ["file=b.bin", "checksum=11"], .write 1, .written 1])
    [.executed 1, .complete 1] 1 rfl
  have hsince : since (.write 1)
      (firstUpdate ++ [.trigger ["file=b.bin", "checksum=11"], .write 1, .written 1]) =
      [.written 1] := by decide +kernel
  rw [hsince, List.mem_singleton] at he
  subst he
  exact hreport

end TransferTestbed.Lwm2m
