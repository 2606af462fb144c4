import Mathlib.Data.Rat.Defs
import TransferTestbed.Library.Transition

/-!
# The acknowledgement of the control message

`send_file` of the MQTT client (`protocols/MQTT/clients/client_a.py`) stores the id of its
control message in `metadata_mid` after `publish` has returned it; `on_publish`, run by
the thread of the client, compares the id it is called with to `metadata_mid`. A process
sends any number of files one after another, each with a client of its own, whose thread
`loop_stop` ends; every published id is called back at most once.

Results:
* `Inv.step`: what every step preserves.
* `noticed_iff`: when the acknowledgement is noticed.
-/

namespace TransferTestbed.Transfer.MetadataAck

open Transition

/-! ## Model -/

/-- The globals of the module. -/
structure Globals where
  /-- `metadata_ack_event` is set. -/
  event : Bool
  metadataMid : Option ℕ
  metadataSentTime : ℚ
  ackLatency : ℚ
deriving DecidableEq

/-- `on_publish` (lines 30–35), called for an id at a time. -/
def onPublish (g : Globals) (mid : ℕ) (now : ℚ) : Globals :=
  if some mid = g.metadataMid then
    { g with ackLatency := now - g.metadataSentTime, event := true }
  else g

/-- Where `send_file` is. -/
inductive Phase where
  /-- Not called, or back from its last call. -/
  | idle
  | cleared
  | timed
  /-- `publish` has returned the id of the control message. -/
  | published (mid : ℕ)
  | stored (mid : ℕ)
  /-- The wait is over: the event was set, or the wait timed out. -/
  | waited (acknowledged : Bool)
  | sendingChunks
deriving DecidableEq

/-- The control message whose acknowledgement is waited for. -/
def Phase.controlMid : Phase → Option ℕ
  | .published mid => some mid
  | .stored mid => some mid
  | _ => none

structure State where
  globals : Globals
  phase : Phase
  /-- The ids published by the current client and not called back. -/
  inFlight : List ℕ
  /-- When the control message of the current call was acknowledged, if it was before
      the end of the wait. -/
  acknowledged : Option ℚ
deriving DecidableEq

def init : State := ⟨⟨false, none, 0, 0⟩, .idle, [], none⟩

/-- The steps of `send_file`. -/
inductive SenderStep where
  | clear
  | takeTime (now : ℚ)
  | publish (mid : ℕ)
  | store
  | wait
  | publishChunk (mid : ℕ)
  | finish
deriving DecidableEq

/-- A step of `send_file` (lines 84–118 and 49–65). -/
def advance (s : State) (x : SenderStep) : Option State :=
  match s.phase, x with
  | .idle, .clear =>
    some ⟨{ s.globals with ackLatency := 0, event := false }, .cleared, [], none⟩
  | .cleared, .takeTime now =>
    some { s with globals := { s.globals with metadataSentTime := now }, phase := .timed }
  | .timed, .publish mid =>
    some { s with phase := .published mid, inFlight := mid :: s.inFlight }
  | .published mid, .store =>
    some { s with globals := { s.globals with metadataMid := some mid }, phase := .stored mid }
  | .stored _, .wait => some { s with phase := .waited s.globals.event }
  | .waited _, .publishChunk mid =>
    some { s with phase := .sendingChunks, inFlight := mid :: s.inFlight }
  | .sendingChunks, .publishChunk mid => some { s with inFlight := mid :: s.inFlight }
  | .waited _, .finish => some { s with phase := .idle }
  | .sendingChunks, .finish => some { s with phase := .idle }
  | _, _ => none

inductive Action where
  | sender (x : SenderStep)
  /-- A callback for an id. -/
  | onPublish (mid : ℕ) (now : ℚ)
deriving DecidableEq

/-- The state after the callback for an id in flight. -/
def callBack (s : State) (mid : ℕ) (now : ℚ) : State :=
  { s with
    globals := onPublish s.globals mid now
    inFlight := s.inFlight.erase mid
    acknowledged := if s.phase.controlMid = some mid then some now else s.acknowledged }

def step (s : State) : Action → Option State
  | .sender x => advance s x
  | .onPublish mid now => if mid ∈ s.inFlight then some (callBack s mid now) else none

/-! ## Statements -/

/-- Up to the end of the wait. -/
def Phase.BeforeChunks : Phase → Prop
  | .idle => False
  | .sendingChunks => False
  | _ => True

/-- An acknowledgement of the control message that came before the end of the wait has set
    the event, and its latency is the time since the message was sent. -/
def Noticed (s : State) : Prop :=
  s.phase.BeforeChunks → ∀ now, s.acknowledged = some now →
    s.globals.event = true ∧ s.globals.ackLatency = now - s.globals.metadataSentTime ∧
      s.phase ≠ .waited false

/-- When the control message is called back before its id is stored, the id is the one
    stored for an earlier file. -/
def StoredFirst (s : State) (a : Action) : Prop :=
  ∀ mid now, a = .onPublish mid now → mid ∈ s.inFlight → s.phase = .published mid →
    s.globals.metadataMid = some mid

/-! ## The invariant -/

/-- A control message with this id is in flight, or has been called back. -/
def Outstanding (s : State) (mid : ℕ) : Prop :=
  s.globals.event = false ∧ s.acknowledged = none ∧ s.inFlight = [mid] ∨
    s.acknowledged ≠ none ∧ s.inFlight = []

def Inv (s : State) : Prop :=
  match s.phase with
  | .idle => True
  | .cleared => s.globals.event = false ∧ s.acknowledged = none ∧ s.inFlight = []
  | .timed => s.globals.event = false ∧ s.acknowledged = none ∧ s.inFlight = []
  | .published mid => Outstanding s mid
  | .stored mid => s.globals.metadataMid = some mid ∧ Outstanding s mid
  | .waited _ => s.acknowledged ≠ none → s.inFlight = []
  | .sendingChunks => True

variable {s t : State} {a : Action} {mid : ℕ} {now : ℚ}

theorem inv_init : Inv init := trivial

theorem noticed_init : Noticed init := fun h => h.elim

theorem onPublish_match {g : Globals} (h : g.metadataMid = some mid) (now : ℚ) :
    onPublish g mid now = { g with ackLatency := now - g.metadataSentTime, event := true } :=
  if_pos h.symm

theorem onPublish_other {g : Globals} (h : g.metadataMid ≠ some mid) (now : ℚ) :
    onPublish g mid now = g := if_neg (Ne.symm h)

/-- A callback does not change the id that is stored. -/
theorem metadataMid_onPublish (g : Globals) (mid : ℕ) (now : ℚ) :
    (onPublish g mid now).metadataMid = g.metadataMid := by
  unfold onPublish
  split_ifs
  · rfl
  · rfl

theorem step_onPublish_iff :
    step s (.onPublish mid now) = some t ↔ mid ∈ s.inFlight ∧ callBack s mid now = t := by
  rw [step, Option.ite_none_right_eq_some, Option.some.injEq]

/-- The callback of an outstanding control message is its first, and the last for now. -/
theorem Outstanding.mem (h : Outstanding s mid) {m : ℕ} (hm : m ∈ s.inFlight) :
    m = mid ∧ s.globals.event = false ∧ s.acknowledged = none ∧ s.inFlight = [mid] := by
  rcases h with ⟨hevent, hacked, hflight⟩ | ⟨-, hflight⟩
  · rw [hflight] at hm
    exact ⟨List.mem_singleton.1 hm, hevent, hacked, hflight⟩
  · rw [hflight] at hm
    cases hm

/-! ## The steps of the sender -/

/-- A step of the sender keeps the invariant, and misses no acknowledgement. -/
theorem Inv.advance {x : SenderStep} (h : Inv s) (hstep : advance s x = some t) :
    Inv t ∧ (Noticed s → Noticed t) := by
  unfold MetadataAck.advance at hstep
  split at hstep
  · -- Clearing: nothing is in flight, and nothing has been acknowledged.
    cases hstep
    exact ⟨⟨rfl, rfl, rfl⟩, fun _ _ now hnow => by cases hnow⟩
  · next hphase =>
    cases hstep
    simp only [Inv, hphase] at h
    refine ⟨h, fun _ _ now hnow => ?_⟩
    rw [h.2.1] at hnow
    cases hnow
  · next hphase =>
    cases hstep
    simp only [Inv, hphase] at h
    obtain ⟨hevent, hacked, hflight⟩ := h
    refine ⟨.inl ⟨hevent, hacked, by rw [hflight]⟩, fun _ _ now hnow => ?_⟩
    rw [hacked] at hnow
    cases hnow
  · next mid hphase =>
    cases hstep
    simp only [Inv, hphase] at h
    refine ⟨⟨rfl, h⟩, fun hnoticed _ now hnow => ?_⟩
    obtain ⟨hevent, hlatency, -⟩ := hnoticed (by rw [hphase]; trivial) now hnow
    exact ⟨hevent, hlatency, by simp⟩
  · next mid hphase =>
    cases hstep
    simp only [Inv, hphase] at h
    obtain ⟨-, hout⟩ := h
    refine ⟨fun hacked => ?_, fun hnoticed _ now hnow => ?_⟩
    · rcases hout with ⟨-, hnone, -⟩ | ⟨-, hflight⟩
      · exact absurd hnone hacked
      · exact hflight
    · obtain ⟨hevent, hlatency, -⟩ := hnoticed (by rw [hphase]; trivial) now hnow
      exact ⟨hevent, hlatency, by simp [hevent]⟩
  · cases hstep
    exact ⟨trivial, fun _ hbefore => hbefore.elim⟩
  · next hphase =>
    cases hstep
    simp only [Inv, Noticed, hphase]
    exact ⟨trivial, fun _ hbefore => hbefore.elim⟩
  · cases hstep
    exact ⟨trivial, fun _ hbefore => hbefore.elim⟩
  · cases hstep
    exact ⟨trivial, fun _ hbefore => hbefore.elim⟩
  · cases hstep

/-! ## The callbacks -/

theorem Outstanding.callBack {m : ℕ} (h : Outstanding s mid)
    (hcontrol : s.phase.controlMid = some mid) (hm : m ∈ s.inFlight) (now : ℚ) :
    Outstanding (callBack s m now) mid := by
  obtain ⟨rfl, -, -, hflight⟩ := h.mem hm
  refine .inr ⟨?_, ?_⟩
  · simp [MetadataAck.callBack, hcontrol]
  · show s.inFlight.erase m = []
    rw [hflight, List.erase_cons_head]

theorem Inv.callBack (h : Inv s) (hmid : mid ∈ s.inFlight) (now : ℚ) :
    Inv (callBack s mid now) := by
  obtain ⟨g, phase, inFlight, acknowledged⟩ := s
  cases phase with
  | idle => trivial
  | cleared => exact absurd hmid (by rw [h.2.2]; exact List.not_mem_nil)
  | timed => exact absurd hmid (by rw [h.2.2]; exact List.not_mem_nil)
  | published p => exact Outstanding.callBack h rfl hmid now
  | stored p => exact ⟨(metadataMid_onPublish g mid now).trans h.1, h.2.callBack rfl hmid now⟩
  | waited b =>
    intro hacked
    exact absurd hmid (by rw [h hacked]; exact List.not_mem_nil)
  | sendingChunks => trivial

/-- The callback of the control message, once its id is stored. -/
theorem noticed_callBack_of_stored (hcontrol : s.phase.controlMid = some mid)
    (hstored : s.globals.metadataMid = some mid) (now : ℚ) : Noticed (callBack s mid now) := by
  intro _ later hlater
  have hnow : some now = some later := by rw [← hlater, callBack, if_pos hcontrol]
  obtain rfl := Option.some.inj hnow
  simp only [callBack, onPublish_match hstored, true_and]
  intro hphase
  rw [hphase] at hcontrol
  cases hcontrol

/-- The callback of the control message, when another id is stored. -/
theorem not_noticed_callBack (hphase : s.phase = .published mid)
    (hevent : s.globals.event = false) (hstored : s.globals.metadataMid ≠ some mid) (now : ℚ) :
    ¬ Noticed (callBack s mid now) := by
  intro hnoticed
  have hacked : (callBack s mid now).acknowledged = some now := by
    rw [callBack, hphase, Phase.controlMid, if_pos rfl]
  obtain ⟨htrue, -⟩ := hnoticed (by rw [callBack, hphase]; trivial) now hacked
  rw [callBack, onPublish_other hstored, hevent] at htrue
  cases htrue

/-- A callback is missed iff it is one of the control message before its id is stored. -/
theorem noticed_callBack_iff (h : Inv s) (hmid : mid ∈ s.inFlight) (now : ℚ) :
    Noticed (callBack s mid now) ↔
      (s.phase = .published mid → s.globals.metadataMid = some mid) := by
  cases hphase : s.phase with
  | idle =>
    refine iff_of_true (fun hbefore => ?_) nofun
    rw [callBack, hphase] at hbefore
    exact hbefore.elim
  | cleared =>
    simp only [Inv, hphase] at h
    exact absurd hmid (by rw [h.2.2]; exact List.not_mem_nil)
  | timed =>
    simp only [Inv, hphase] at h
    exact absurd hmid (by rw [h.2.2]; exact List.not_mem_nil)
  | published p =>
    simp only [Inv, hphase] at h
    obtain ⟨rfl, hevent, -, -⟩ := h.mem hmid
    constructor
    · intro hnoticed _
      by_contra hstored
      exact not_noticed_callBack hphase hevent hstored now hnoticed
    · intro hstored
      exact noticed_callBack_of_stored (by rw [hphase]; rfl) (hstored rfl) now
  | stored p =>
    simp only [Inv, hphase] at h
    obtain ⟨rfl, -⟩ := h.2.mem hmid
    exact iff_of_true (noticed_callBack_of_stored (by rw [hphase]; rfl) h.1 now) nofun
  | waited b =>
    simp only [Inv, hphase] at h
    refine iff_of_true (fun _ later hlater => ?_) nofun
    -- What is in flight has not been acknowledged before the end of the wait.
    have hacked : s.acknowledged = some later := by
      simpa only [callBack, hphase, Phase.controlMid, reduceCtorEq, if_false] using hlater
    exact absurd hmid (by rw [h (by rw [hacked]; simp)]; exact List.not_mem_nil)
  | sendingChunks =>
    refine iff_of_true (fun hbefore => ?_) nofun
    rw [callBack, hphase] at hbefore
    exact hbefore.elim

/-! ## Whole runs -/

/-- Every step keeps the invariant. -/
theorem Inv.step (h : Inv s) (hstep : step s a = some t) : Inv t := by
  cases a with
  | sender x => exact (h.advance hstep).1
  | onPublish mid now =>
    obtain ⟨hmid, rfl⟩ := step_onPublish_iff.1 hstep
    exact h.callBack hmid now

theorem storedFirst_iff (h : Inv s) (hnoticed : Noticed s) (a : Action) :
    StoredFirst s a ↔ ∀ t, step s a = some t → Noticed t := by
  cases a with
  | sender x =>
    refine iff_of_true (fun mid now ha => by cases ha) fun t ht => ?_
    exact (h.advance ht).2 hnoticed
  | onPublish mid now =>
    constructor
    · intro hfirst t ht
      obtain ⟨hmid, rfl⟩ := step_onPublish_iff.1 ht
      exact (noticed_callBack_iff h hmid now).2 (hfirst mid now rfl hmid)
    · rintro hkept _ _ ⟨⟩ hmid
      exact (noticed_callBack_iff h hmid now).1
        (hkept _ (step_onPublish_iff.2 ⟨hmid, rfl⟩))

/-- **When the acknowledgement is noticed**, in every state of a run: iff, whenever the
    control message is called back, its id is the one that is stored. -/
theorem noticed_iff (as : List Action) :
    Throughout step Noticed init as ↔ Along step StoredFirst init as :=
  throughout_iff_along (I := Inv) (fun _ _ _ hs hstep => hs.step hstep)
    (fun _ a hs hnoticed => storedFirst_iff hs hnoticed a) as inv_init noticed_init

/-- The broker acknowledges the control message while `publish` returns: the wait times
    out, and the latency stays zero. -/
theorem not_noticed_early :
    let as : List Action := [.sender .clear, .sender (.takeTime 1), .sender (.publish 1),
      .onPublish 1 2, .sender .store, .sender .wait]
    ∃ u, run step init as = some u ∧ u.acknowledged = some 2 ∧ u.phase = .waited false ∧
      u.globals.event = false ∧ u.globals.ackLatency = 0 ∧ ¬ Throughout step Noticed init as := by
  refine ⟨⟨⟨false, some 1, 1, 0⟩, .waited false, [], some 2⟩, rfl, rfl, rfl, rfl, rfl, ?_⟩
  intro hnoticed
  obtain ⟨hevent, -⟩ := hnoticed _ _ List.prefix_rfl rfl trivial 2 rfl
  cases hevent

end TransferTestbed.Transfer.MetadataAck
