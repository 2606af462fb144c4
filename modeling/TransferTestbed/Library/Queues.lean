import TransferTestbed.Library.Framing
import TransferTestbed.Library.Transition

/-!
# Two queues between a publisher and a consumer

A publisher sends the messages of its program one after another, headers on one
queue and items on another. A consumer takes them from the queues in any
interleaving; each queue keeps its order.

* `run_consumes`: a complete run consumes an interleaving of the program.
* `run_schedule`, `run_promptly`: every interleaving of the program is consumed by a complete
  run.
-/

namespace TransferTestbed.Framing

open Transition

inductive Channel where
  | header
  | item
deriving DecidableEq, Repr

variable {κ ι ρ : Type*}

def Msg.channel : Msg κ ι → Channel
  | .header _ => .header
  | .item _ => .item

/-- Two message sequences that agree on each channel and alternate between the
    channels alike are equal. -/
theorem eq_of_channels {ms ns : List (Msg κ ι)}
    (hchannels : ms.map Msg.channel = ns.map Msg.channel) (hheaders : headers ms = headers ns)
    (hitems : items ms = items ns) : ms = ns := by
  induction ms generalizing ns with
  | nil => exact (List.map_eq_nil_iff.1 hchannels.symm).symm
  | cons m ms ih =>
    cases ns with
    | nil => exact absurd hchannels (by simp)
    | cons n ns =>
      rw [List.map_cons, List.map_cons, List.cons.injEq] at hchannels
      obtain ⟨hfirst, hchannels⟩ := hchannels
      cases m with
      | header k =>
        cases n with
        | header l =>
          rw [headers_header, headers_header, List.cons.injEq] at hheaders
          rw [hheaders.1, ih hchannels hheaders.2 hitems]
        | item x => cases hfirst
      | item x =>
        cases n with
        | header l => cases hfirst
        | item y =>
          rw [items_item, items_item, List.cons.injEq] at hitems
          rw [hitems.1, ih hchannels hheaders hitems.2]

/-- What is still to publish, what is in the two queues, and the consumer. -/
structure Queues (κ ι ρ : Type*) where
  program : List (Msg κ ι)
  headerQueue : List κ
  itemQueue : List ι
  consumer : ρ

namespace Queues

inductive Event where
  | publish
  | deliver (c : Channel)
deriving DecidableEq, Repr

def start (program : List (Msg κ ι)) (r : ρ) : Queues κ ι ρ := ⟨program, [], [], r⟩

/-- Everything is published and consumed. -/
def Done (s : Queues κ ι ρ) : Prop := s.program = [] ∧ s.headerQueue = [] ∧ s.itemQueue = []

/-- One step, for a consumer that may refuse a message. -/
def step (consume : ρ → Msg κ ι → Option ρ) (s : Queues κ ι ρ) : Event → Option (Queues κ ι ρ)
  | .publish =>
    match s.program with
    | [] => none
    | .header k :: rest => some { s with program := rest, headerQueue := s.headerQueue ++ [k] }
    | .item x :: rest => some { s with program := rest, itemQueue := s.itemQueue ++ [x] }
  | .deliver .header =>
    match s.headerQueue with
    | [] => none
    | k :: rest =>
      (consume s.consumer (.header k)).map fun r => { s with headerQueue := rest, consumer := r }
  | .deliver .item =>
    match s.itemQueue with
    | [] => none
    | x :: rest =>
      (consume s.consumer (.item x)).map fun r => { s with itemQueue := rest, consumer := r }

/-- The channels that the deliveries of a run take from. -/
def deliveries (es : List Event) : List Channel :=
  es.filterMap fun e => match e with | .publish => none | .deliver c => some c

/-- Headers that have been published or will be, in order. -/
def allHeaders (s : Queues κ ι ρ) : List κ := s.headerQueue ++ headers s.program

def allItems (s : Queues κ ι ρ) : List ι := s.itemQueue ++ items s.program

variable {consume : ρ → Msg κ ι → Option ρ}

/-- A step either publishes, which leaves what is to be consumed as it is, or the
    consumer takes the next message of a queue. -/
theorem step_cases {s t : Queues κ ι ρ} {e : Event} (h : step consume s e = some t) :
    (e = .publish ∧ t.consumer = s.consumer ∧ allHeaders t = allHeaders s ∧
      allItems t = allItems s) ∨
    ∃ m : Msg κ ι, e = .deliver m.channel ∧ consume s.consumer m = some t.consumer ∧
      allHeaders s = headers [m] ++ allHeaders t ∧ allItems s = items [m] ++ allItems t := by
  cases e with
  | publish =>
    simp only [step] at h
    split at h
    · cases h
    · rename_i k rest hprogram
      cases h
      exact Or.inl ⟨rfl, rfl, by simp [allHeaders, hprogram], by simp [allItems, hprogram]⟩
    · rename_i x rest hprogram
      cases h
      exact Or.inl ⟨rfl, rfl, by simp [allHeaders, hprogram], by simp [allItems, hprogram]⟩
  | deliver c =>
    cases c with
    | header =>
      simp only [step] at h
      split at h
      · cases h
      · rename_i k rest hqueue
        obtain ⟨r, hr, rfl⟩ := Option.map_eq_some_iff.1 h
        exact Or.inr ⟨.header k, rfl, hr, by simp [allHeaders, hqueue], rfl⟩
    | item =>
      simp only [step] at h
      split at h
      · cases h
      · rename_i x rest hqueue
        obtain ⟨r, hr, rfl⟩ := Option.map_eq_some_iff.1 h
        exact Or.inr ⟨.item x, rfl, hr, rfl, by simp [allItems, hqueue]⟩

/-- What a run consumes. -/
theorem run_consumes {es : List Event} {s z : Queues κ ι ρ} (h : run (step consume) s es = some z) :
    ∃ ms : List (Msg κ ι), ms.map Msg.channel = deliveries es ∧
      run consume s.consumer ms = some z.consumer ∧
      headers ms ++ allHeaders z = allHeaders s ∧ items ms ++ allItems z = allItems s := by
  induction es generalizing s with
  | nil =>
    cases h
    exact ⟨[], rfl, rfl, rfl, rfl⟩
  | cons e es ih =>
    obtain ⟨t, ht, hz⟩ := run_cons_eq_some.1 h
    obtain ⟨ms, hchannels, hrun, hheaders, hitems⟩ := ih hz
    rcases step_cases ht with ⟨rfl, hc, hh, hi⟩ | ⟨m, rfl, hc, hh, hi⟩
    · exact ⟨ms, hchannels, hc ▸ hrun, hheaders.trans hh, hitems.trans hi⟩
    · refine ⟨m :: ms, ?_, run_cons_eq_some.2 ⟨_, hc, hrun⟩, ?_, ?_⟩
      · rw [List.map_cons, hchannels]
        rfl
      · rw [hh, ← hheaders, ← List.append_assoc, ← headers_append]
        rfl
      · rw [hi, ← hitems, ← List.append_assoc, ← items_append]
        rfl

/-- A complete run consumes an interleaving of the program's two channels. -/
theorem run_consumes_program {es : List Event} {program : List (Msg κ ι)} {r : ρ}
    {z : Queues κ ι ρ} (h : run (step consume) (start program r) es = some z) (hdone : z.Done) :
    ∃ ms : List (Msg κ ι), ms.map Msg.channel = deliveries es ∧
      run consume r ms = some z.consumer ∧ headers ms = headers program ∧
      items ms = items program := by
  obtain ⟨ms, hchannels, hrun, hheaders, hitems⟩ := run_consumes h
  obtain ⟨hp, hh, hi⟩ := hdone
  refine ⟨ms, hchannels, hrun, ?_, ?_⟩
  · simpa [allHeaders, start, hp, hh] using hheaders
  · simpa [allItems, start, hp, hi] using hitems

/-! ## Scheduling an interleaving -/

/-- Publish everything, then deliver in the order of `ms`. -/
def schedule (program ms : List (Msg κ ι)) : List Event :=
  List.replicate program.length .publish ++ ms.map fun m => .deliver m.channel

theorem run_publish (program : List (Msg κ ι)) (hs : List κ) (xs : List ι) (r : ρ) :
    run (step consume) ⟨program, hs, xs, r⟩ (List.replicate program.length .publish) =
      some ⟨[], hs ++ headers program, xs ++ items program, r⟩ := by
  induction program generalizing hs xs with
  | nil => simp
  | cons m program ih =>
    rw [List.length_cons, List.replicate_succ, run_cons]
    cases m with
    | header k => simpa [step] using ih (hs ++ [k]) xs
    | item x => simpa [step] using ih hs (xs ++ [x])

theorem run_deliver (ms : List (Msg κ ι)) {r r' : ρ} (h : run consume r ms = some r') :
    run (step consume) ⟨[], headers ms, items ms, r⟩ (ms.map fun m => .deliver m.channel) =
      some ⟨[], [], [], r'⟩ := by
  induction ms generalizing r with
  | nil =>
    cases h
    rfl
  | cons m ms ih =>
    obtain ⟨t, ht, hrest⟩ := run_cons_eq_some.1 h
    rw [List.map_cons, run_cons]
    cases m with
    | header k => simpa [step, Msg.channel, ht] using ih hrest
    | item x => simpa [step, Msg.channel, ht] using ih hrest

/-- Every interleaving of the program that the consumer accepts is a complete run. -/
theorem run_schedule {program ms : List (Msg κ ι)} (hheaders : headers ms = headers program)
    (hitems : items ms = items program) {r r' : ρ} (h : run consume r ms = some r') :
    run (step consume) (start program r) (schedule program ms) = some ⟨[], [], [], r'⟩ := by
  rw [schedule, run_append, start, run_publish, Option.bind_some, List.nil_append, List.nil_append,
    ← hheaders, ← hitems]
  exact run_deliver ms h

theorem deliveries_schedule (program ms : List (Msg κ ι)) :
    deliveries (schedule program ms) = ms.map Msg.channel := by
  rw [deliveries, schedule, List.filterMap_append, List.filterMap_map]
  have hpublish : ∀ n, (List.replicate n Event.publish).filterMap (fun e => match e with
      | .publish => none
      | .deliver c => some c) = [] := by
    intro n
    simp
  rw [hpublish, List.nil_append]
  exact List.filterMap_eq_map' ▸ rfl

/-- Each message is delivered as soon as it has been published. -/
def promptly (program : List (Msg κ ι)) : List Event :=
  program.flatMap fun m => [.publish, .deliver m.channel]

theorem run_promptly {program : List (Msg κ ι)} {r r' : ρ} (h : run consume r program = some r') :
    run (step consume) (start program r) (promptly program) = some ⟨[], [], [], r'⟩ := by
  induction program generalizing r with
  | nil =>
    cases h
    rfl
  | cons m program ih =>
    obtain ⟨t, ht, hrest⟩ := run_cons_eq_some.1 h
    rw [promptly, List.flatMap_cons, run_append_eq_some]
    refine ⟨start program t, ?_, ih hrest⟩
    cases m with
    | header k => simp [run, step, start, Msg.channel, ht]
    | item x => simp [run, step, start, Msg.channel, ht]

theorem deliveries_promptly (program : List (Msg κ ι)) :
    deliveries (promptly program) = program.map Msg.channel := by
  induction program with
  | nil => rfl
  | cons m program ih =>
    rw [promptly, List.flatMap_cons, deliveries, List.filterMap_append, ← deliveries, ← deliveries,
      ← promptly, ih]
    rfl

end Queues

end TransferTestbed.Framing
