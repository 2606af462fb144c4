import TransferTestbed.Library.Messages
import TransferTestbed.Lwm2m.Filenames

/-!
# Devices and the LwM2M server over the network

The client processes of `protocols/LWM2M/client/lwm2m_client.py` and the server of
`protocols/LWM2M/server/lwm2m_server.py`, exchanging requests and responses. Each process runs
`run_flow` once, and its resources are there until it ends; a request of the server reaches any
process at the address that it is for. Messages are lost, delayed, reordered and delivered again
in any way, and every wait may end in its timeout.

Results:

* `Inv.step`: what the messages and the states of the parties mean, over one step.
* `verified_of_run`: the rows that devices log and the flows that are complete, in every run.
* `single_of_run`: the same for the first device of a server, with the file that it asked for.
-/

namespace TransferTestbed.Lwm2m

open Integrity Coap Messages Transition Runs

/-! ## Messages and devices -/

/-- The requests and responses: of the device `d` and of the flow `i`. -/
inductive Msg where
  | register (d : ℕ) (uriQuery : List String) (hostinfo : String)
  | registered (d : ℕ) (code : Code)
  | trigger (d : ℕ) (uriQuery : List String)
  | triggered (d : ℕ) (code : Code)
  | get (d : ℕ) (uriQuery : List String)
  | content (d : ℕ) (response : Get)
  | report (d : ℕ) (value : String)
  | reported (d : ℕ) (value : String) (code : Code)
  /-- the Package URI write to an address -/
  | writeUri (i : ℕ) (remote uri : String)
  | wroteUri (i : ℕ)
  /-- the Update Execute to an address -/
  | execute (i : ℕ) (remote : String)
  | executed (i : ℕ)
deriving DecidableEq, Repr

/-- Where `run_flow` is (lines 122–188). -/
inductive DeviceStage where
  | registering
  | triggering
  | awaitingUri
  | downloading
  /-- the state report `2` has been sent -/
  | reporting
  | awaitingExecute
  /-- the state report of the result has been sent -/
  | finishing
  | done
  | failed
deriving DecidableEq, Repr

/-- A client process, with its `state` dictionary and what it has downloaded and logged. -/
structure Device where
  address : String
  filename : String
  stage : DeviceStage
  packageUri : Option String
  executed : Bool
  payload : Option Bytes
  /-- `integrity_ok` of the row. -/
  row : Option Bool
deriving DecidableEq, Repr

/-- What does not change: the data directories of the server and of the devices, and the options
    that aiocoap makes of a URI. -/
structure Site where
  serverFiles : String → Option Bytes
  deviceFiles : String → Option Bytes
  uriQuery : String → Option (List String)

structure World where
  server : Server
  devices : List Device
  sent : List Msg

def World.init : World := ⟨.init, [], []⟩

/-- `sha256_file(filepath)` (line 130). -/
def Site.checksum (site : Site) (dev : Device) : Option String :=
  (site.deviceFiles dev.filename).map sha256

/-- `sha256(payload) == checksum` (line 142). -/
def Site.integrityOk (site : Site) (dev : Device) : Bool :=
  dev.payload.any fun payload => site.checksum dev = some (sha256 payload)

def Device.fail (dev : Device) : Device := { dev with stage := .failed }

/-- The resources of the process are there. -/
def Device.live (dev : Device) : Bool := dev.stage ≠ .done && dev.stage ≠ .failed

/-- A new process, and its registration (lines 55–68). -/
def newDevice (address filename : String) : Device :=
  ⟨address, filename, .registering, none, false, none, none⟩

def registration (d : ℕ) (address : String) : Msg :=
  .register d ["ep=lwm2m-edge", "lt=86400"] address

/-- The response to the registration; the trigger is sent (lines 63–82, 129–131). -/
def onRegistered (site : Site) (d : ℕ) (code : Code) (dev : Device) : Device × List Msg :=
  if code ≠ .created then (dev.fail, [])
  else
    match (site.checksum dev).bind fun checksum =>
      site.uriQuery (updateUri dev.filename checksum) with
    | none => (dev.fail, [])
    | some options => ({ dev with stage := .triggering }, [.trigger d options])

/-- The response to the trigger (lines 84–86). -/
def onTriggered (code : Code) (dev : Device) : Device × List Msg :=
  if code = .serviceUnavailable then (dev.fail, []) else ({ dev with stage := .awaitingUri }, [])

/-- The Package URI is there: the firmware is requested (lines 89–97). -/
def fetch (site : Site) (d : ℕ) (dev : Device) : Device × List Msg :=
  match dev.packageUri.bind site.uriQuery with
  | none => (dev.fail, [])
  | some options => ({ dev with stage := .downloading }, [.get d options])

/-- The firmware is there: the state `2` is reported (lines 98–100, 137–145). -/
def onContent (d : ℕ) (response : Get) (dev : Device) : Device × List Msg :=
  match response with
  | .notFound => (dev.fail, [])
  | .content _ payload =>
    ({ dev with stage := .reporting, payload := some payload }, [.report d "2"])

/-- The Update Execute was there: the result is reported (line 151). -/
def finish (site : Site) (d : ℕ) (dev : Device) : Device × List Msg :=
  ({ dev with stage := .finishing },
    [.report d (if site.integrityOk dev = true then "1" else "5")])

/-- The result is reported: the row is logged (lines 153–172). -/
def onFinished (site : Site) (dev : Device) : Device × List Msg :=
  ({ dev with stage := .done, row := some (site.integrityOk dev) }, [])

/-! ## Steps -/

/-- What happens: processes start, messages are delivered, and tasks that can go on do. -/
inductive Act where
  | start (address filename : String)
  /-- a request of a device at the server, or a response at its sender -/
  | deliver (m : Msg)
  /-- a request of the server at the device `d` -/
  | deliverTo (d : ℕ) (m : Msg)
  | fetch (d : ℕ)
  | finish (d : ℕ)
  | flow (i : ℕ) (e : Event)
  | failDevice (d : ℕ)
deriving DecidableEq, Repr

/-- The device `d` goes on from a stage. -/
def World.act (w : World) (d : ℕ) (stage : DeviceStage) (f : Device → Device × List Msg) :
    Option World :=
  match w.devices[d]? with
  | none => none
  | some dev =>
    if dev.stage = stage then
      some { w with devices := w.devices.set d (f dev).1, sent := w.sent ++ (f dev).2 }
    else none

/-- A request or a response is delivered. -/
def deliver (site : Site) (w : World) : Msg → Option World
  | .register d uriQuery hostinfo =>
    let r := register w.server uriQuery hostinfo
    some { w with server := r.1, sent := w.sent ++ [.registered d r.2] }
  | .registered d code => w.act d .registering (onRegistered site d code)
  | .trigger d uriQuery =>
    let r := triggerUpdate w.server uriQuery
    some { w with server := r.1, sent := w.sent ++ [.triggered d r.2] }
  | .triggered d code => w.act d .triggering (onTriggered code)
  | .get d uriQuery =>
    some { w with sent := w.sent ++ [.content d (renderGet site.serverFiles uriQuery)] }
  | .content d response => w.act d .downloading (onContent d response)
  | .report d value =>
    let r := reportState w.server value
    some { w with server := r.1, sent := w.sent ++ [.reported d value r.2] }
  | .reported d value _ =>
    if value = "2" then w.act d .reporting fun dev => ({ dev with stage := .awaitingExecute }, [])
    else w.act d .finishing (onFinished site)
  | .wroteUri i => (Lwm2m.step w.server (.written i)).map fun s => { w with server := s }
  | .executed i => (Lwm2m.step w.server (.executed i)).map fun s => { w with server := s }
  | .writeUri .. => none
  | .execute .. => none

/-- A request of the server reaches a process at its address. -/
def deliverTo (w : World) (d : ℕ) (m : Msg) : Option World :=
  match w.devices[d]?, m with
  | some dev, .writeUri i remote uri =>
    if dev.address = remote ∧ dev.live then
      some { w with
        devices := w.devices.set d { dev with packageUri := some uri }
        sent := w.sent ++ [.wroteUri i] }
    else none
  | some dev, .execute i remote =>
    if dev.address = remote ∧ dev.live then
      some { w with
        devices := w.devices.set d { dev with executed := true }
        sent := w.sent ++ [.executed i] }
    else none
  | _, _ => none

/-- The request that a flow sends in a step. -/
def request (f : Flow) (i : ℕ) : Event → List Msg
  | .write _ => [.writeUri i f.remote (packageUri f)]
  | .execute _ => [.execute i f.remote]
  | _ => []

/-- The steps that a flow takes by itself. -/
def Event.own (i : ℕ) (e : Event) : Bool :=
  e = .write i || e = .execute i || e = .complete i || e = .fail i

def exchange (site : Site) (w : World) : Act → Option World
  | .start address filename =>
    some { w with
      devices := w.devices ++ [newDevice address filename]
      sent := w.sent ++ [registration w.devices.length address] }
  | .deliver m => if m ∈ w.sent then deliver site w m else none
  | .deliverTo d m => if m ∈ w.sent then deliverTo w d m else none
  | .fetch d =>
    if (w.devices[d]?.bind Device.packageUri).isSome then w.act d .awaitingUri (fetch site d)
    else none
  | .finish d =>
    if w.devices[d]?.any Device.executed then w.act d .awaitingExecute (finish site d) else none
  | .flow i e =>
    if e.own i then
      w.server.flows[i]?.bind fun f =>
        (Lwm2m.step w.server e).map fun s =>
          { w with server := s, sent := w.sent ++ request f i e }
    else none
  | .failDevice d =>
    w.devices[d]?.bind fun dev =>
      if dev.live then some { w with devices := w.devices.set d dev.fail } else none

/-! ## What the messages mean -/

/-- What the sender of a message knew. -/
def Meant (site : Site) (w : World) : Msg → Prop
  | .trigger d options => ∃ dev checksum, w.devices[d]? = some dev ∧
      site.checksum dev = some checksum ∧
      site.uriQuery (updateUri dev.filename checksum) = some options
  | .get _ options => ∃ (i : ℕ) (f : Flow), w.server.flows[i]? = some f ∧
      site.uriQuery (packageUri f) = some options
  | .content d response => ∃ options, .get d options ∈ w.sent ∧
      response = renderGet site.serverFiles options
  | .report d value => (value = "1" ∨ value = "2" ∨ value = "5") ∧
      ∃ dev, w.devices[d]? = some dev ∧ dev.payload.isSome ∧
        (value = "1" → site.integrityOk dev = true)
  | .writeUri i _ uri => ∃ f, w.server.flows[i]? = some f ∧ uri = packageUri f
  | .execute _ _ => ∃ d, .report d "2" ∈ w.sent
  | _ => True

/-- Nothing has been downloaded before these stages are over. -/
def DeviceStage.early : DeviceStage → Bool
  | .registering | .triggering | .awaitingUri | .downloading => true
  | _ => false

/-- The state `2` has been reported. -/
def DeviceStage.late : DeviceStage → Bool
  | .reporting | .awaitingExecute | .finishing | .done => true
  | _ => false

/-- The checksum has been announced. -/
def DeviceStage.active : DeviceStage → Bool
  | .registering | .failed => false
  | _ => true

/-- The result has been reported. -/
def DeviceStage.ending : DeviceStage → Bool
  | .finishing | .done => true
  | _ => false

/-- What a device knows. -/
structure DeviceOk (site : Site) (w : World) (d : ℕ) (dev : Device) : Prop where
  uri : ∀ uri, dev.packageUri = some uri →
    ∃ (i : ℕ) (f : Flow), w.server.flows[i]? = some f ∧ uri = packageUri f
  executed : dev.executed = true → ∃ i, .execute i dev.address ∈ w.sent
  payload : ∀ payload, dev.payload = some payload → ∃ options name, .get d options ∈ w.sent ∧
    renderGet site.serverFiles options = .content name payload
  announced : dev.stage.active = true → (site.checksum dev).isSome = true
  early : dev.stage.early = true → dev.payload = none
  late : dev.stage.late = true → dev.payload.isSome = true
  ending : dev.stage.ending = true → dev.executed = true
  row : ∀ ok, dev.row = some ok → dev.stage = .done ∧ ok = site.integrityOk dev

/-- Where a flow comes from, and what it has waited for. -/
structure FlowOk (w : World) (f : Flow) : Prop where
  triggered : ∃ d options, .trigger d options ∈ w.sent ∧
    f.filename = lastQuery "file" "unknown.bin" options ∧
    f.checksum = lastQuery "checksum" "" options
  complete : f.stage = .complete → w.server.updated = true

structure Inv (site : Site) (w : World) : Prop where
  meant : Justified World.sent (Meant site) w
  devices : ∀ (d : ℕ) (dev : Device), w.devices[d]? = some dev → DeviceOk site w d dev
  flows : ∀ (i : ℕ) (f : Flow), w.server.flows[i]? = some f → FlowOk w f
  downloaded : w.server.downloaded = true → ∃ d, .report d "2" ∈ w.sent
  updated : w.server.updated = true → ∃ d, .report d "1" ∈ w.sent

/-- A process keeps its address, its file and what it has downloaded. -/
structure Keeps (dev dev' : Device) : Prop where
  address : dev'.address = dev.address
  filename : dev'.filename = dev.filename
  payload : ∀ payload, dev.payload = some payload → dev'.payload = some payload

/-- A flow keeps what it was created with. -/
structure SameFlow (f f' : Flow) : Prop where
  remote : f'.remote = f.remote
  filename : f'.filename = f.filename
  checksum : f'.checksum = f.checksum

structure Grows (w w' : World) : Prop where
  sent : w.sent ⊆ w'.sent
  devices : ∀ (d : ℕ) (dev : Device), w.devices[d]? = some dev →
    ∃ dev', w'.devices[d]? = some dev' ∧ Keeps dev dev'
  flows : ∀ (i : ℕ) (f : Flow), w.server.flows[i]? = some f →
    ∃ f', w'.server.flows[i]? = some f' ∧ SameFlow f f'
  updated : w.server.updated = true → w'.server.updated = true

theorem Keeps.refl (dev : Device) : Keeps dev dev := ⟨rfl, rfl, fun _ h => h⟩

theorem SameFlow.refl (f : Flow) : SameFlow f f := ⟨rfl, rfl, rfl⟩

theorem SameFlow.packageUri {f f' : Flow} (h : SameFlow f f') : packageUri f' = packageUri f := by
  unfold Lwm2m.packageUri
  rw [h.filename, h.checksum]

theorem Keeps.checksum {dev dev' : Device} (h : Keeps dev dev') (site : Site) :
    site.checksum dev' = site.checksum dev := by
  rw [Site.checksum, Site.checksum, h.filename]

theorem Keeps.integrityOk {dev dev' : Device} (h : Keeps dev dev') (site : Site)
    (hpayload : dev.payload.isSome = true) : site.integrityOk dev' = site.integrityOk dev := by
  obtain ⟨payload, hp⟩ := Option.isSome_iff_exists.1 hpayload
  rw [Site.integrityOk, Site.integrityOk, h.payload payload hp, hp, h.checksum]

/-! ## Growth -/

section Growth

variable {site : Site} {w w' : World}

theorem Grows.packageUri (h : Grows w w') {uri : String}
    (hflow : ∃ (i : ℕ) (f : Flow), w.server.flows[i]? = some f ∧ uri = packageUri f) :
    ∃ (i : ℕ) (f : Flow), w'.server.flows[i]? = some f ∧ uri = packageUri f := by
  obtain ⟨i, f, hf, rfl⟩ := hflow
  obtain ⟨f', hf', hsame⟩ := h.flows i f hf
  exact ⟨i, f', hf', hsame.packageUri.symm⟩

theorem stable_meant (site : Site) (m : Msg) : Stable Grows fun w => Meant site w m := by
  intro w w' h hm
  cases m with
  | trigger d options =>
    obtain ⟨dev, checksum, hdev, hchecksum, hquery⟩ := hm
    obtain ⟨dev', hdev', hkeep⟩ := h.devices d dev hdev
    exact ⟨dev', checksum, hdev', by rw [hkeep.checksum, hchecksum],
      by rw [hkeep.filename, hquery]⟩
  | get d options =>
    obtain ⟨i, f, hf, hquery⟩ := hm
    obtain ⟨f', hf', hsame⟩ := h.flows i f hf
    exact ⟨i, f', hf', by rw [hsame.packageUri, hquery]⟩
  | content d response =>
    obtain ⟨options, hget, hresponse⟩ := hm
    exact ⟨options, h.sent hget, hresponse⟩
  | report d value =>
    obtain ⟨hvalues, dev, hdev, hpayload, hvalue⟩ := hm
    obtain ⟨dev', hdev', hkeep⟩ := h.devices d dev hdev
    refine ⟨hvalues, dev', hdev', ?_, fun hone => ?_⟩
    · obtain ⟨payload, hp⟩ := Option.isSome_iff_exists.1 hpayload
      rw [hkeep.payload payload hp]
      rfl
    · rw [hkeep.integrityOk site hpayload, hvalue hone]
  | writeUri i remote uri =>
    obtain ⟨f, hf, huri⟩ := hm
    obtain ⟨f', hf', hsame⟩ := h.flows i f hf
    exact ⟨f', hf', by rw [hsame.packageUri, huri]⟩
  | execute i remote =>
    obtain ⟨d, hd⟩ := hm
    exact ⟨d, h.sent hd⟩
  | _ => trivial

theorem DeviceOk.mono {d : ℕ} {dev : Device} (h : DeviceOk site w d dev) (hgrows : Grows w w') :
    DeviceOk site w' d dev where
  uri uri huri := hgrows.packageUri (h.uri uri huri)
  executed hexecuted := by
    obtain ⟨i, hi⟩ := h.executed hexecuted
    exact ⟨i, hgrows.sent hi⟩
  payload payload hpayload := by
    obtain ⟨options, name, hget, hcontent⟩ := h.payload payload hpayload
    exact ⟨options, name, hgrows.sent hget, hcontent⟩
  announced := h.announced
  early := h.early
  late := h.late
  ending := h.ending
  row := h.row

theorem FlowOk.mono {f f' : Flow} (h : FlowOk w f) (hgrows : Grows w w') (hsame : SameFlow f f')
    (hcomplete : f'.stage = .complete → f.stage = .complete ∨ w'.server.updated = true) :
    FlowOk w' f' where
  triggered := by
    obtain ⟨d, options, htrigger, hfilename, hchecksum⟩ := h.triggered
    exact ⟨d, options, hgrows.sent htrigger, by rw [hsame.filename, hfilename],
      by rw [hsame.checksum, hchecksum]⟩
  complete hstage := by
    rcases hcomplete hstage with hold | hset
    · exact hgrows.updated (h.complete hold)
    · exact hset

/-- A step of one device. -/
theorem Inv.device (h : Inv site w) {d : ℕ} {dev : Device} (hdev : w.devices[d]? = some dev)
    (dev' : Device) (hkeep : Keeps dev dev') {new : List Msg}
    (hok : ∀ w' : World, Grows w w' → (∀ m ∈ new, m ∈ w'.sent) → w'.devices[d]? = some dev' →
      DeviceOk site w' d dev')
    (hnew : ∀ w' : World, Grows w w' → w'.devices[d]? = some dev' → ∀ m ∈ new, Meant site w' m) :
    Inv site { w with devices := w.devices.set d dev', sent := w.sent ++ new } := by
  have hlt : d < w.devices.length := (List.getElem?_eq_some_iff.1 hdev).1
  have hself : (w.devices.set d dev')[d]? = some dev' := List.getElem?_set_self hlt
  have hgrows : Grows w { w with devices := w.devices.set d dev', sent := w.sent ++ new } := by
    refine ⟨List.subset_append_left _ _, ?_, fun i f hf => ⟨f, hf, .refl f⟩, fun hset => hset⟩
    intro e other hother
    by_cases he : e = d
    · subst he
      rw [hdev] at hother
      rw [← Option.some.inj hother]
      exact ⟨dev', hself, hkeep⟩
    · exact ⟨other, by rw [← hother]; exact List.getElem?_set_ne (Ne.symm he), .refl other⟩
  refine ⟨h.meant.step (stable_meant site) hgrows rfl (hnew _ hgrows hself), ?_, ?_, ?_, ?_⟩
  · intro e other hother
    by_cases he : e = d
    · subst he
      rw [hself] at hother
      rw [← Option.some.inj hother]
      exact hok _ hgrows (fun m hm => List.mem_append_right _ hm) hself
    · rw [List.getElem?_set_ne (Ne.symm he)] at hother
      exact (h.devices e other hother).mono hgrows
  · exact fun i f hf => (h.flows i f hf).mono hgrows (.refl f) .inl
  · intro hset
    obtain ⟨e, he⟩ := h.downloaded hset
    exact ⟨e, hgrows.sent he⟩
  · intro hset
    obtain ⟨e, he⟩ := h.updated hset
    exact ⟨e, hgrows.sent he⟩

/-- A step of the server. -/
theorem Inv.serve (h : Inv site w) {s : Server} {new : List Msg}
    (hkeep : ∀ (i : ℕ) (f : Flow), w.server.flows[i]? = some f →
      ∃ f', s.flows[i]? = some f' ∧ SameFlow f f')
    (hgrown : w.server.updated = true → s.updated = true)
    (hflows : ∀ w' : World, Grows w w' → w'.server = s →
      ∀ (i : ℕ) (f : Flow), s.flows[i]? = some f → FlowOk w' f)
    (hdownloaded : s.downloaded = true → ∃ d, .report d "2" ∈ w.sent)
    (hupdated : s.updated = true → ∃ d, .report d "1" ∈ w.sent)
    (hnew : ∀ w' : World, Grows w w' → w'.server = s → ∀ m ∈ new, Meant site w' m) :
    Inv site { w with server := s, sent := w.sent ++ new } := by
  have hgrows : Grows w { w with server := s, sent := w.sent ++ new } :=
    ⟨List.subset_append_left _ _, fun d dev hdev => ⟨dev, hdev, .refl dev⟩, hkeep, hgrown⟩
  refine ⟨h.meant.step (stable_meant site) hgrows rfl (hnew _ hgrows rfl), ?_,
    hflows _ hgrows rfl, ?_, ?_⟩
  · exact fun d dev hdev => (h.devices d dev hdev).mono hgrows
  · intro hset
    obtain ⟨e, he⟩ := hdownloaded hset
    exact ⟨e, hgrows.sent he⟩
  · intro hset
    obtain ⟨e, he⟩ := hupdated hset
    exact ⟨e, hgrows.sent he⟩

end Growth

/-! ## The server's steps -/

section Serving

variable {site : Site} {w w' : World}

theorem Inv.register (h : Inv site w) (d : ℕ) (uriQuery : List String) (hostinfo : String) :
    Inv site { w with
      server := (register w.server uriQuery hostinfo).1
      sent := w.sent ++ [.registered d (Lwm2m.register w.server uriQuery hostinfo).2] } := by
  refine h.serve (fun i f hf => ⟨f, hf, .refl f⟩) id ?_ h.downloaded h.updated ?_
  · exact fun w' hgrows _ i f hf => (h.flows i f hf).mono hgrows (.refl f) .inl
  · intro w' _ _ m hm
    rw [List.mem_singleton.1 hm]
    trivial

theorem Inv.report (h : Inv site w) {d : ℕ} {value : String} (hsent : .report d value ∈ w.sent)
    (hvalue : value = "1" ∨ value = "2" ∨ value = "5") :
    Inv site { w with
      server := (reportState w.server value).1
      sent := w.sent ++ [.reported d value (reportState w.server value).2] } := by
  have hstrip : strip value = value := by
    rcases hvalue with rfl | rfl | rfl <;> decide +kernel
  refine h.serve (fun i f hf => ⟨f, hf, .refl f⟩) ?_ ?_ ?_ ?_ ?_
  · intro hset
    simp [reportState, hset]
  · exact fun w' hgrows _ i f hf => (h.flows i f hf).mono hgrows (.refl f) .inl
  · intro hset
    simp only [reportState, hstrip, Bool.or_eq_true, decide_eq_true_eq] at hset
    rcases hset with hset | rfl
    · exact h.downloaded hset
    · exact ⟨d, hsent⟩
  · intro hset
    simp only [reportState, hstrip, Bool.or_eq_true, decide_eq_true_eq] at hset
    rcases hset with hset | rfl
    · exact h.updated hset
    · exact ⟨d, hsent⟩
  · intro w' _ _ m hm
    rw [List.mem_singleton.1 hm]
    trivial

theorem Inv.trigger (h : Inv site w) {d : ℕ} {uriQuery : List String}
    (hsent : .trigger d uriQuery ∈ w.sent) :
    Inv site { w with
      server := (triggerUpdate w.server uriQuery).1
      sent := w.sent ++ [.triggered d (triggerUpdate w.server uriQuery).2] } := by
  have hserver : (triggerUpdate w.server uriQuery).1 = w.server ∨
      ∃ remote, (triggerUpdate w.server uriQuery).1 = { w.server with
        flows := w.server.flows ++ [⟨remote, lastQuery "file" "unknown.bin" uriQuery,
          lastQuery "checksum" "" uriQuery, .triggered⟩] } := by
    unfold triggerUpdate
    split
    · exact .inl rfl
    · split_ifs
      · exact .inl rfl
      · exact .inr ⟨_, rfl⟩
  generalize (triggerUpdate w.server uriQuery).2 = code
  rcases hserver with hsame | ⟨remote, hflow⟩
  · rw [hsame]
    refine h.serve (fun i f hf => ⟨f, hf, .refl f⟩) id ?_ h.downloaded h.updated ?_
    · exact fun w' hgrows _ i f hf => (h.flows i f hf).mono hgrows (.refl f) .inl
    · intro w' _ _ m hm
      rw [List.mem_singleton.1 hm]
      trivial
  · rw [hflow]
    refine h.serve ?_ id ?_ h.downloaded h.updated ?_
    · intro i f hf
      exact ⟨f, List.getElem?_append_left (List.getElem?_eq_some_iff.1 hf).1 ▸ hf, .refl f⟩
    · intro w' hgrows _ i f hf
      rw [List.getElem?_append] at hf
      split_ifs at hf
      · exact (h.flows i f hf).mono hgrows (.refl f) .inl
      · -- the new flow is the one of this request
        obtain rfl := List.mem_singleton.1 (List.mem_of_getElem? hf)
        exact ⟨⟨d, uriQuery, hgrows.sent hsent, rfl, rfl⟩, fun hstage => by cases hstage⟩
    · intro w' _ _ m hm
      rw [List.mem_singleton.1 hm]
      trivial

/-- What a flow does in a step of its own. -/
theorem flow_step {s s' : Server} {i : ℕ} {e : Event}
    (he : e.own i = true ∨ e = .written i ∨ e = .executed i) (h : Lwm2m.step s e = some s') :
    ∃ f stage, s.flows[i]? = some f ∧
      s' = { s with flows := s.flows.set i { f with stage := stage } } ∧
      (stage = .complete → s.updated = true) ∧ (e = .execute i → s.downloaded = true) := by
  have hcases : e = .write i ∨ e = .execute i ∨ e = .complete i ∨ e = .fail i ∨ e = .written i ∨
      e = .executed i := by
    rcases he with he | he | he
    · simp only [Event.own, Bool.or_eq_true, decide_eq_true_eq] at he
      rcases he with ((he | he) | he) | he
      · exact .inl he
      · exact .inr (.inl he)
      · exact .inr (.inr (.inl he))
      · exact .inr (.inr (.inr (.inl he)))
    · exact .inr (.inr (.inr (.inr (.inl he))))
    · exact .inr (.inr (.inr (.inr (.inr he))))
  rcases hcases with rfl | rfl | rfl | rfl | rfl | rfl
  · obtain ⟨f, hf, -, rfl⟩ := goOn_eq_some h
    exact ⟨f, _, hf, rfl, by simp, by simp⟩
  · simp only [Lwm2m.step] at h
    split_ifs at h with hset
    obtain ⟨f, hf, -, rfl⟩ := goOn_eq_some h
    exact ⟨f, _, hf, rfl, by simp, fun _ => hset⟩
  · simp only [Lwm2m.step] at h
    split_ifs at h with hset
    obtain ⟨f, hf, -, rfl⟩ := goOn_eq_some h
    exact ⟨f, _, hf, rfl, fun _ => hset, by simp⟩
  · simp only [Lwm2m.step] at h
    cases hf : s.flows[i]? with
    | none =>
      rw [hf] at h
      cases h
    | some f =>
      rw [hf] at h
      dsimp only at h
      split_ifs at h
      cases h
      exact ⟨f, .failed, rfl, rfl, by simp, by simp⟩
  · obtain ⟨f, hf, -, rfl⟩ := goOn_eq_some h
    exact ⟨f, _, hf, rfl, by simp, by simp⟩
  · obtain ⟨f, hf, -, rfl⟩ := goOn_eq_some h
    exact ⟨f, _, hf, rfl, by simp, by simp⟩

/-- A step of one flow, which may send a request. -/
theorem Inv.flow (h : Inv site w) {i : ℕ} {f : Flow} {stage : Stage} {new : List Msg}
    (hf : w.server.flows[i]? = some f) (hcomplete : stage = .complete → w.server.updated = true)
    (hnew : ∀ w' : World, Grows w w' → ∀ m ∈ new, Meant site w' m) :
    Inv site { w with
      server := { w.server with flows := w.server.flows.set i { f with stage := stage } }
      sent := w.sent ++ new } := by
  have hself := List.getElem?_set_self (a := { f with stage := stage })
    (List.getElem?_eq_some_iff.1 hf).1
  refine h.serve ?_ id ?_ h.downloaded h.updated fun w' hgrows _ => hnew w' hgrows
  · intro j g hg
    by_cases hj : j = i
    · subst hj
      rw [hf] at hg
      rw [← Option.some.inj hg]
      exact ⟨_, hself, ⟨rfl, rfl, rfl⟩⟩
    · exact ⟨g, by rw [← hg]; exact List.getElem?_set_ne (Ne.symm hj), .refl g⟩
  · intro w' hgrows hserver j g hg
    by_cases hj : j = i
    · subst hj
      dsimp only at hg
      rw [hself] at hg
      rw [← Option.some.inj hg]
      refine (h.flows j f hf).mono hgrows ⟨rfl, rfl, rfl⟩ ?_
      intro hstage
      exact .inr (hgrows.updated (hcomplete hstage))
    · dsimp only at hg
      rw [List.getElem?_set_ne (Ne.symm hj)] at hg
      exact (h.flows j g hg).mono hgrows (.refl g) .inl

end Serving

/-! ## The devices' steps -/

section Devices

variable {site : Site} {w w' : World} {d : ℕ} {dev : Device}

theorem act_eq_some {stage : DeviceStage} {f : Device → Device × List Msg}
    (h : w.act d stage f = some w') : ∃ dev, w.devices[d]? = some dev ∧ dev.stage = stage ∧
      w' = { w with devices := w.devices.set d (f dev).1, sent := w.sent ++ (f dev).2 } := by
  unfold World.act at h
  cases hdev : w.devices[d]? with
  | none =>
    rw [hdev] at h
    cases h
  | some dev =>
    rw [hdev] at h
    dsimp only at h
    split_ifs at h with hstage
    cases h
    exact ⟨dev, rfl, hstage, rfl⟩

/-- A process that goes on without having learnt anything, or fails. -/
theorem Inv.setStage (h : Inv site w) (hdev : w.devices[d]? = some dev) (stage : DeviceStage)
    (hrow : dev.stage ≠ .done)
    (hannounced : stage.active = true → (site.checksum dev).isSome = true)
    (hearly : stage.early = true → dev.payload = none)
    (hlate : stage.late = true → dev.payload.isSome = true)
    (hending : stage.ending = true → dev.executed = true) {new : List Msg}
    (hnew : ∀ w' : World, Grows w w' → w'.devices[d]? = some { dev with stage := stage } →
      ∀ m ∈ new, Meant site w' m) :
    Inv site { w with
      devices := w.devices.set d { dev with stage := stage }
      sent := w.sent ++ new } := by
  refine h.device hdev { dev with stage := stage } ⟨rfl, rfl, fun _ h => h⟩ ?_ hnew
  intro w' hgrows _ _
  have hok := (h.devices d dev hdev).mono hgrows
  refine ⟨hok.uri, hok.executed, hok.payload, hannounced, hearly, hlate, hending, ?_⟩
  intro ok hok'
  exact absurd (hok.row ok hok').1 hrow

theorem Inv.fail (h : Inv site w) (hdev : w.devices[d]? = some dev) (hrow : dev.stage ≠ .done) :
    Inv site { w with devices := w.devices.set d dev.fail, sent := w.sent ++ [] } :=
  h.setStage hdev .failed hrow (fun h => by cases h) (fun h => by cases h) (fun h => by cases h)
    (fun h => by cases h) (by simp)

theorem Inv.start (h : Inv site w) (address filename : String) :
    Inv site { w with
      devices := w.devices ++ [newDevice address filename]
      sent := w.sent ++ [registration w.devices.length address] } := by
  have hgrows : Grows w { w with
      devices := w.devices ++ [newDevice address filename]
      sent := w.sent ++ [registration w.devices.length address] } := by
    refine ⟨List.subset_append_left _ _, ?_, fun i f hf => ⟨f, hf, .refl f⟩, id⟩
    intro e other hother
    exact ⟨other, List.getElem?_append_left (List.getElem?_eq_some_iff.1 hother).1 ▸ hother,
      .refl other⟩
  refine ⟨h.meant.step (stable_meant site) hgrows rfl ?_, ?_, ?_, ?_, ?_⟩
  · intro m hm
    rw [List.mem_singleton.1 hm]
    trivial
  · intro e other hother
    dsimp only at hother
    rw [List.getElem?_append] at hother
    split_ifs at hother
    · exact (h.devices e other hother).mono hgrows
    · obtain rfl := List.mem_singleton.1 (List.mem_of_getElem? hother)
      constructor <;> simp [newDevice, DeviceStage.active, DeviceStage.late, DeviceStage.ending]
  · exact fun i f hf => (h.flows i f hf).mono hgrows (.refl f) .inl
  · intro hset
    obtain ⟨e, he⟩ := h.downloaded hset
    exact ⟨e, hgrows.sent he⟩
  · intro hset
    obtain ⟨e, he⟩ := h.updated hset
    exact ⟨e, hgrows.sent he⟩

theorem Inv.onRegistered (h : Inv site w) (hdev : w.devices[d]? = some dev)
    (hstage : dev.stage = .registering) (code : Code) :
    Inv site { w with
      devices := w.devices.set d (onRegistered site d code dev).1
      sent := w.sent ++ (Lwm2m.onRegistered site d code dev).2 } := by
  have hrow : dev.stage ≠ .done := by rw [hstage]; decide
  have hnone := (h.devices d dev hdev).early (by rw [hstage]; rfl)
  unfold Lwm2m.onRegistered
  split_ifs
  · exact h.fail hdev hrow
  · cases hquery : (site.checksum dev).bind fun checksum =>
        site.uriQuery (updateUri dev.filename checksum) with
    | none => exact h.fail hdev hrow
    | some options =>
      obtain ⟨checksum, hchecksum, hquery⟩ := Option.bind_eq_some_iff.1 hquery
      refine h.setStage hdev .triggering hrow (fun _ => by rw [hchecksum]; rfl)
        (fun _ => hnone) (fun h => by cases h) (fun h => by cases h) ?_
      intro w' _ hself m hm
      rw [List.mem_singleton.1 hm]
      exact ⟨_, checksum, hself, hchecksum, hquery⟩

theorem Inv.onTriggered (h : Inv site w) (hdev : w.devices[d]? = some dev)
    (hstage : dev.stage = .triggering) (code : Code) :
    Inv site { w with
      devices := w.devices.set d (onTriggered code dev).1
      sent := w.sent ++ (Lwm2m.onTriggered code dev).2 } := by
  have hrow : dev.stage ≠ .done := by rw [hstage]; decide
  have hnone := (h.devices d dev hdev).early (by rw [hstage]; rfl)
  have hannounced := (h.devices d dev hdev).announced (by rw [hstage]; rfl)
  unfold Lwm2m.onTriggered
  split_ifs
  · exact h.fail hdev hrow
  · exact h.setStage hdev .awaitingUri hrow (fun _ => hannounced) (fun _ => hnone)
      (fun h => by cases h) (fun h => by cases h) (by simp)

theorem Inv.fetch (h : Inv site w) (hdev : w.devices[d]? = some dev)
    (hstage : dev.stage = .awaitingUri) :
    Inv site { w with
      devices := w.devices.set d (fetch site d dev).1
      sent := w.sent ++ (Lwm2m.fetch site d dev).2 } := by
  have hrow : dev.stage ≠ .done := by rw [hstage]; decide
  have hok := h.devices d dev hdev
  unfold Lwm2m.fetch
  cases hquery : dev.packageUri.bind site.uriQuery with
  | none => exact h.fail hdev hrow
  | some options =>
    obtain ⟨uri, huri, hquery⟩ := Option.bind_eq_some_iff.1 hquery
    refine h.setStage hdev .downloading hrow (fun _ => hok.announced (by rw [hstage]; rfl))
      (fun _ => hok.early (by rw [hstage]; rfl))
      (fun h => by cases h) (fun h => by cases h) ?_
    intro w' hgrows _ m hm
    rw [List.mem_singleton.1 hm]
    obtain ⟨i, f, hf, rfl⟩ := hgrows.packageUri (hok.uri uri huri)
    exact ⟨i, f, hf, hquery⟩

theorem Inv.onContent (h : Inv site w) (hdev : w.devices[d]? = some dev)
    (hstage : dev.stage = .downloading) {response : Get} (hsent : .content d response ∈ w.sent) :
    Inv site { w with
      devices := w.devices.set d (onContent d response dev).1
      sent := w.sent ++ (Lwm2m.onContent d response dev).2 } := by
  have hrow : dev.stage ≠ .done := by rw [hstage]; decide
  have hok := h.devices d dev hdev
  have hnone := hok.early (by rw [hstage]; rfl)
  obtain ⟨options, hget, hresponse⟩ := h.meant _ hsent
  cases response with
  | notFound => exact h.fail hdev hrow
  | content name payload =>
    refine h.device hdev { dev with stage := .reporting, payload := some payload }
      ⟨rfl, rfl, fun p hp => ?_⟩ ?_ ?_
    · rw [hnone] at hp
      cases hp
    · intro w' hgrows _ _
      have hok := hok.mono hgrows
      refine ⟨hok.uri, hok.executed, ?_, fun _ => hok.announced (by rw [hstage]; rfl),
        (fun h => by cases h), fun _ => rfl,
        (fun h => by cases h), ?_⟩
      · rintro p hp
        rw [← Option.some.inj hp]
        exact ⟨options, name, hgrows.sent hget, hresponse.symm⟩
      · intro ok hok'
        exact absurd (hok.row ok hok').1 hrow
    · intro w' _ hself m hm
      rw [List.mem_singleton.1 hm]
      exact ⟨.inr (.inl rfl), _, hself, rfl, fun h => absurd h (by decide)⟩

theorem Inv.onReported (h : Inv site w) (hdev : w.devices[d]? = some dev)
    (hstage : dev.stage = .reporting) :
    Inv site { w with
      devices := w.devices.set d { dev with stage := .awaitingExecute }
      sent := w.sent ++ [] } := by
  have hrow : dev.stage ≠ .done := by rw [hstage]; decide
  have hlate := (h.devices d dev hdev).late (by rw [hstage]; rfl)
  have hannounced := (h.devices d dev hdev).announced (by rw [hstage]; rfl)
  exact h.setStage hdev .awaitingExecute hrow (fun _ => hannounced) (fun h => by cases h)
    (fun _ => hlate)
    (fun h => by cases h) (by simp)

theorem Inv.finish (h : Inv site w) (hdev : w.devices[d]? = some dev)
    (hstage : dev.stage = .awaitingExecute) (hexecuted : dev.executed = true) :
    Inv site { w with
      devices := w.devices.set d (finish site d dev).1
      sent := w.sent ++ (Lwm2m.finish site d dev).2 } := by
  have hrow : dev.stage ≠ .done := by rw [hstage]; decide
  have hlate := (h.devices d dev hdev).late (by rw [hstage]; rfl)
  have hannounced := (h.devices d dev hdev).announced (by rw [hstage]; rfl)
  refine h.setStage hdev .finishing hrow (fun _ => hannounced) (fun h => by cases h)
    (fun _ => hlate) (fun _ => hexecuted) ?_
  intro w' _ hself m hm
  rw [List.mem_singleton.1 hm]
  by_cases hok : site.integrityOk dev = true
  · rw [if_pos hok]
    exact ⟨.inl rfl, _, hself, hlate, fun _ => hok⟩
  · rw [if_neg hok]
    exact ⟨.inr (.inr rfl), _, hself, hlate, fun h => absurd h (by decide)⟩

theorem Inv.onFinished (h : Inv site w) (hdev : w.devices[d]? = some dev)
    (hstage : dev.stage = .finishing) :
    Inv site { w with
      devices := w.devices.set d (onFinished site dev).1
      sent := w.sent ++ (Lwm2m.onFinished site dev).2 } := by
  have hok := h.devices d dev hdev
  refine h.device hdev { dev with stage := .done, row := some (site.integrityOk dev) }
    ⟨rfl, rfl, fun _ h => h⟩ ?_ (by simp [Lwm2m.onFinished])
  intro w' hgrows _ _
  have hok := hok.mono hgrows
  refine ⟨hok.uri, hok.executed, hok.payload, fun _ => hok.announced (by rw [hstage]; rfl),
    (fun h => by cases h), fun _ => hok.late (by rw [hstage]; rfl),
    fun _ => hok.ending (by rw [hstage]; rfl), ?_⟩
  intro ok hrow
  exact ⟨rfl, (Option.some.inj hrow).symm⟩

/-- A request of the server is delivered. -/
theorem Inv.deliverTo (h : Inv site w) {m : Msg} (hm : m ∈ w.sent)
    (hstep : deliverTo w d m = some w') : Inv site w' := by
  cases hdev : w.devices[d]? with
  | none =>
    simp only [Lwm2m.deliverTo, hdev] at hstep
    cases hstep
  | some dev =>
    have hok := h.devices d dev hdev
    cases m with
    | writeUri i remote uri =>
      simp only [Lwm2m.deliverTo, hdev] at hstep
      split_ifs at hstep
      cases hstep
      obtain ⟨f, hf, huri⟩ := h.meant _ hm
      refine h.device hdev { dev with packageUri := some uri } ⟨rfl, rfl, fun _ h => h⟩ ?_ ?_
      · intro w' hgrows _ _
        have hok := hok.mono hgrows
        refine ⟨?_, hok.executed, hok.payload, hok.announced, hok.early, hok.late, hok.ending,
          hok.row⟩
        intro other hother
        rw [← Option.some.inj hother]
        exact hgrows.packageUri ⟨i, f, hf, huri⟩
      · intro w' _ _ m hm
        rw [List.mem_singleton.1 hm]
        trivial
    | execute i remote =>
      simp only [Lwm2m.deliverTo, hdev] at hstep
      split_ifs at hstep with hlive
      cases hstep
      refine h.device hdev { dev with executed := true } ⟨rfl, rfl, fun _ h => h⟩ ?_ ?_
      · intro w' hgrows _ _
        have hok := hok.mono hgrows
        refine ⟨hok.uri, ?_, hok.payload, hok.announced, hok.early, hok.late, fun _ => rfl,
          hok.row⟩
        intro _
        exact ⟨i, hgrows.sent (hlive.1 ▸ hm)⟩
      · intro w' _ _ m hm
        rw [List.mem_singleton.1 hm]
        trivial
    | _ =>
      simp only [Lwm2m.deliverTo, hdev] at hstep
      cases hstep

end Devices

/-! ## Runs -/

section Runs

variable {site : Site} {w w' : World}

/-- A response reaches a flow. -/
theorem Inv.respond (h : Inv site w) {i : ℕ} {e : Event} (he : e = .written i ∨ e = .executed i)
    (hstep : (Lwm2m.step w.server e).map (fun s => { w with server := s }) = some w') :
    Inv site w' := by
  obtain ⟨s, hs, rfl⟩ := Option.map_eq_some_iff.1 hstep
  obtain ⟨f, stage, hf, rfl, hcomplete, -⟩ := flow_step (.inr he) hs
  have hflow := @Inv.flow site w h i f stage [] hf hcomplete (by simp)
  rw [List.append_nil] at hflow
  exact hflow

theorem Inv.deliver (h : Inv site w) {m : Msg} (hm : m ∈ w.sent)
    (hstep : deliver site w m = some w') : Inv site w' := by
  cases m with
  | register d uriQuery hostinfo =>
    cases hstep
    exact h.register d uriQuery hostinfo
  | registered d code =>
    obtain ⟨dev, hdev, hstage, rfl⟩ := act_eq_some hstep
    exact h.onRegistered hdev hstage code
  | trigger d uriQuery =>
    cases hstep
    exact h.trigger hm
  | triggered d code =>
    obtain ⟨dev, hdev, hstage, rfl⟩ := act_eq_some hstep
    exact h.onTriggered hdev hstage code
  | get d uriQuery =>
    cases hstep
    refine h.serve (fun i f hf => ⟨f, hf, .refl f⟩) id ?_ h.downloaded h.updated ?_
    · exact fun w' hgrows _ i f hf => (h.flows i f hf).mono hgrows (.refl f) .inl
    · intro w' hgrows _ m hm'
      rw [List.mem_singleton.1 hm']
      exact ⟨uriQuery, hgrows.sent hm, rfl⟩
  | content d response =>
    obtain ⟨dev, hdev, hstage, rfl⟩ := act_eq_some hstep
    exact h.onContent hdev hstage hm
  | report d value =>
    cases hstep
    exact h.report hm (h.meant _ hm).1
  | reported d value code =>
    simp only [Lwm2m.deliver] at hstep
    split_ifs at hstep
    · obtain ⟨dev, hdev, hstage, rfl⟩ := act_eq_some hstep
      exact h.onReported hdev hstage
    · obtain ⟨dev, hdev, hstage, rfl⟩ := act_eq_some hstep
      exact h.onFinished hdev hstage
  | writeUri i remote uri => cases hstep
  | wroteUri i => exact h.respond (.inl rfl) hstep
  | execute i remote => cases hstep
  | executed i => exact h.respond (.inr rfl) hstep

/-- **One step**: what the messages and the states of the parties mean. -/
theorem Inv.step (h : Inv site w) {a : Act} (hstep : exchange site w a = some w') :
    Inv site w' := by
  cases a with
  | start address filename =>
    cases hstep
    exact h.start address filename
  | deliver m =>
    simp only [exchange] at hstep
    split_ifs at hstep with hm
    exact h.deliver hm hstep
  | deliverTo d m =>
    simp only [exchange] at hstep
    split_ifs at hstep with hm
    exact h.deliverTo hm hstep
  | fetch d =>
    simp only [exchange] at hstep
    split_ifs at hstep
    obtain ⟨dev, hdev, hstage, rfl⟩ := act_eq_some hstep
    exact h.fetch hdev hstage
  | finish d =>
    simp only [exchange] at hstep
    split_ifs at hstep with hexecuted
    obtain ⟨dev, hdev, hstage, rfl⟩ := act_eq_some hstep
    rw [hdev, Option.any_some] at hexecuted
    exact h.finish hdev hstage hexecuted
  | flow i e =>
    simp only [exchange] at hstep
    split_ifs at hstep with hown
    obtain ⟨f, hf, hstep⟩ := Option.bind_eq_some_iff.1 hstep
    obtain ⟨s, hs, rfl⟩ := Option.map_eq_some_iff.1 hstep
    obtain ⟨g, stage, hg, rfl, hcomplete, hexecute⟩ := flow_step (.inl hown) hs
    rw [hf] at hg
    rw [← Option.some.inj hg]
    refine h.flow hf hcomplete ?_
    intro w' hgrows m hm
    cases e with
    | write j =>
      rw [List.mem_singleton.1 hm]
      obtain ⟨f', hf', hsame⟩ := hgrows.flows i f hf
      exact ⟨f', hf', hsame.packageUri.symm⟩
    | execute j =>
      rw [List.mem_singleton.1 hm]
      have hj : Event.execute j = .execute i := by simpa [Event.own] using hown
      obtain ⟨d, hd⟩ := h.downloaded (hexecute hj)
      exact ⟨d, hgrows.sent hd⟩
    | _ => cases hm
  | failDevice d =>
    simp only [exchange] at hstep
    obtain ⟨dev, hdev, hstep⟩ := Option.bind_eq_some_iff.1 hstep
    split_ifs at hstep with hlive
    cases hstep
    have hrow : dev.stage ≠ .done := by
      intro hdone
      simp [Device.live, hdone] at hlive
    have hfail := h.fail hdev hrow
    rw [List.append_nil] at hfail
    exact hfail

theorem inv_init (site : Site) : Inv site .init := by
  constructor
  · intro m hm
    cases hm
  · intro d dev hdev
    simp [World.init] at hdev
  · intro i f hf
    simp [World.init, Server.init] at hf
  · intro h
    cases h
  · intro h
    cases h

theorem inv_run {acts : List Act} (hrun : run (exchange site) .init acts = some w) : Inv site w :=
  run_invariant_along (I := Inv site) (G := fun _ _ => True) (fun _ _ _ h _ hstep => h.step hstep)
    acts (inv_init site) (along_of_forall (fun _ _ => trivial) _) hrun

end Runs

/-! ## Downloads -/

/-- The device has downloaded the firmware of a Package URI, and its copy of the file that it
    asked for is there: `ok` says whether the digests agree. -/
structure Downloaded (site : Site) (w : World) (dev : Device) (ok : Bool) : Prop where
  firmware : ∃ (i : ℕ) (f : Flow) (options : List String) (name : String) (payload : Bytes),
    w.server.flows[i]? = some f ∧ site.uriQuery (packageUri f) = some options ∧
      firmwareName options = some name ∧ site.serverFiles name = some payload ∧
      dev.payload = some payload
  digest : ∃ payload content, dev.payload = some payload ∧
    site.deviceFiles dev.filename = some content ∧ ok = decide (sha256 payload = sha256 content)

theorem renderGet_eq_content {files : String → Option Bytes} {options : List String}
    {name : String} {payload : Bytes} (h : renderGet files options = .content name payload) :
    firmwareName options = some name ∧ files name = some payload := by
  unfold renderGet at h
  cases hname : firmwareName options with
  | none =>
    rw [hname] at h
    cases h
  | some filename =>
    rw [hname] at h
    dsimp only at h
    split_ifs at h
    cases hfile : files filename with
    | none =>
      rw [hfile] at h
      cases h
    | some content =>
      rw [hfile] at h
      cases h
      exact ⟨rfl, hfile⟩

section Downloads

variable {site : Site} {w : World} {d : ℕ} {dev : Device}

theorem Inv.downloaded_of_payload (h : Inv site w) (hdev : w.devices[d]? = some dev)
    (hpayload : dev.payload.isSome = true) (hchecksum : (site.checksum dev).isSome = true) :
    Downloaded site w dev (site.integrityOk dev) := by
  obtain ⟨payload, hp⟩ := Option.isSome_iff_exists.1 hpayload
  obtain ⟨checksum, hc⟩ := Option.isSome_iff_exists.1 hchecksum
  obtain ⟨content, hcontent, rfl⟩ := Option.map_eq_some_iff.1 hc
  obtain ⟨options, name, hget, hserved⟩ := (h.devices d dev hdev).payload payload hp
  obtain ⟨i, f, hf, hquery⟩ := h.meant _ hget
  obtain ⟨hname, hfile⟩ := renderGet_eq_content hserved
  refine ⟨⟨i, f, options, name, payload, hf, hquery, hname, hfile, hp⟩,
    payload, content, hp, hcontent, ?_⟩
  rw [Site.integrityOk, hp, Option.any_some, hc]
  exact decide_eq_decide.2 ⟨fun h => (Option.some.inj h).symm, fun h => congrArg some h.symm⟩

/-- What a row says. -/
theorem Inv.row (h : Inv site w) (hdev : w.devices[d]? = some dev) {ok : Bool}
    (hrow : dev.row = some ok) :
    Downloaded site w dev ok ∧ ∃ i, .execute i dev.address ∈ w.sent := by
  have hok := h.devices d dev hdev
  obtain ⟨hstage, rfl⟩ := hok.row ok hrow
  refine ⟨h.downloaded_of_payload hdev (hok.late ?_) (hok.announced ?_),
    hok.executed (hok.ending ?_)⟩
  · rw [hstage]
    rfl
  · rw [hstage]
    rfl
  · rw [hstage]
    rfl

/-- What the completion of a flow says. -/
theorem Inv.complete (h : Inv site w) {i : ℕ} {f : Flow} (hf : w.server.flows[i]? = some f)
    (hstage : f.stage = .complete) : ∃ (d : ℕ) (dev : Device), w.devices[d]? = some dev ∧
      .report d "1" ∈ w.sent ∧ Downloaded site w dev true := by
  obtain ⟨d, hreport⟩ := h.updated ((h.flows i f hf).complete hstage)
  obtain ⟨-, dev, hdev, hpayload, hvalue⟩ := h.meant _ hreport
  have hok := hvalue rfl
  have hchecksum : (site.checksum dev).isSome = true := by
    obtain ⟨payload, hp⟩ := Option.isSome_iff_exists.1 hpayload
    rw [Site.integrityOk, hp, Option.any_some, decide_eq_true_eq] at hok
    rw [hok]
    rfl
  have hdownloaded := h.downloaded_of_payload hdev hpayload hchecksum
  rw [hok] at hdownloaded
  exact ⟨d, dev, hdev, hreport, hdownloaded⟩

end Downloads

/-- **Rows and completions.** Over any network and any number of devices: a row is logged only
    after an Update Execute for the device's address, and its `integrity_ok` says whether the
    firmware that the device got from the server has the digest of the device's file; and a flow
    is complete only if a device has reported such a download with equal digests. -/
theorem verified_of_run (site : Site) (acts : List Act) (w : World)
    (hrun : run (exchange site) .init acts = some w) :
    (∀ (d : ℕ) (dev : Device) (ok : Bool), w.devices[d]? = some dev → dev.row = some ok →
      Downloaded site w dev ok ∧ ∃ i, .execute i dev.address ∈ w.sent) ∧
    ∀ (i : ℕ) (f : Flow), w.server.flows[i]? = some f → f.stage = .complete →
      ∃ (d : ℕ) (dev : Device), w.devices[d]? = some dev ∧ .report d "1" ∈ w.sent ∧
        Downloaded site w dev true :=
  ⟨fun _ _ _ hdev hrow => (inv_run hrun).row hdev hrow,
    fun _ _ hf hstage => (inv_run hrun).complete hf hstage⟩

/-- The server and the device have the same file. -/
def oneFile : Site where
  serverFiles name := if name = "a.bin" then some [1, 2, 3] else none
  deviceFiles name := if name = "a.bin" then some [1, 2, 3] else none
  uriQuery := requestOptions

/-- An update of one device; its registration arrives twice. -/
def updateActs : List Act :=
  let checksum := sha256 [1, 2, 3]
  let fw := ["name=a.bin", "checksum=" ++ checksum]
  [.start "10.0.0.2" "a.bin", .deliver (registration 0 "10.0.0.2"),
    .deliver (registration 0 "10.0.0.2"), .deliver (.registered 0 .created),
    .deliver (.trigger 0 ["file=a.bin", "checksum=" ++ checksum]), .flow 0 (.write 0),
    .deliver (.triggered 0 .changed),
    .deliverTo 0 (.writeUri 0 "10.0.0.2"
      ("coap://lwm2m-server/fw?name=a.bin&checksum=" ++ checksum)),
    .fetch 0, .deliver (.wroteUri 0), .deliver (.get 0 fw),
    .deliver (.content 0 (.content "a.bin" [1, 2, 3])), .deliver (.report 0 "2"),
    .flow 0 (.execute 0), .deliver (.reported 0 "2" .changed),
    .deliverTo 0 (.execute 0 "10.0.0.2"), .deliver (.executed 0), .finish 0,
    .deliver (.report 0 "1"), .flow 0 (.complete 0), .deliver (.reported 0 "1" .changed)]

/-- The devices after a run. -/
def devicesOf (site : Site) (acts : List Act) : Option (List Device) :=
  (run (exchange site) .init acts).map World.devices

def updatedDevice : Device :=
  ⟨"10.0.0.2", "a.bin", .done,
    some ("coap://lwm2m-server/fw?name=a.bin&checksum=" ++ sha256 [1, 2, 3]), true,
    some [1, 2, 3], some true⟩

theorem devicesOf_updateActs : devicesOf oneFile updateActs = some [updatedDevice] := by
  decide +kernel

theorem verified_of_update : ∃ w, run (exchange oneFile) .init updateActs = some w ∧
    w.devices = [updatedDevice] ∧ Downloaded oneFile w updatedDevice true := by
  obtain ⟨w, hrun, hdevices⟩ := Option.map_eq_some_iff.1 devicesOf_updateActs
  have hdev : w.devices[0]? = some updatedDevice := by
    rw [hdevices]
    rfl
  exact ⟨w, hrun, hdevices, ((verified_of_run oneFile updateActs w hrun).1 0 _ true hdev rfl).1⟩

/-! ## The first device of a server -/

section Single

variable {site : Site} {w : World} {dev : Device}

/-- The only device has asked for the file of every flow. -/
theorem Inv.flow_of_single (h : Inv site w) (hquery : SplitsQuery site.uriQuery)
    (hdevices : w.devices = [dev]) (hplain : Plain dev.filename) {i : ℕ} {f : Flow}
    (hf : w.server.flows[i]? = some f) : f.filename = dev.filename ∧ IsHex f.checksum := by
  obtain ⟨d, options, htrigger, hname, hsum⟩ := (h.flows i f hf).triggered
  obtain ⟨other, checksum, hother, hchecksum, hsent⟩ := h.meant _ htrigger
  rw [hdevices] at hother
  obtain rfl := List.mem_singleton.1 (List.mem_of_getElem? hother)
  obtain ⟨content, -, rfl⟩ := Option.map_eq_some_iff.1 hchecksum
  have hhex := isHex_sha256 content
  have hupdate : "coap://lwm2m-server/update" ∈ resources := by simp [resources]
  obtain ⟨hoptions, -⟩ := options_of_plain hupdate file_plain hplain hhex
  rw [updateUri_eq] at hsent
  -- the server reads what the trigger's URI was made from
  have hread := hquery.decoded _ hupdate _ _ hsent
  rw [hoptions] at hread
  obtain ⟨hfile, hlast⟩ := lastQuery_of_options other.filename (sha256 content) "unknown.bin"
  rw [← Option.some.inj hread] at hname hsum
  rw [hname, hsum, hfile, lastQuery, hlast]
  exact ⟨rfl, hhex⟩

/-- The only device gets the file that it has asked for. -/
theorem Downloaded.single {ok : Bool} (hdownloaded : Downloaded site w dev ok) (h : Inv site w)
    (hquery : SplitsQuery site.uriQuery) (hdevices : w.devices = [dev])
    (hplain : Plain dev.filename) :
    ∃ payload content, site.serverFiles dev.filename = some payload ∧
      site.deviceFiles dev.filename = some content ∧
      ok = decide (sha256 payload = sha256 content) := by
  obtain ⟨i, f, options, name, payload, hf, hsent, hname, hfile, hp⟩ := hdownloaded.firmware
  obtain ⟨other, content, hother, hcontent, hok⟩ := hdownloaded.digest
  obtain ⟨hfilename, hhex⟩ := h.flow_of_single hquery hdevices hplain hf
  have hfw : "coap://lwm2m-server/fw" ∈ resources := by simp [resources]
  obtain ⟨hoptions, -⟩ := options_of_plain hfw name_plain (hfilename ▸ hplain) hhex
  rw [packageUri_eq] at hsent
  have hread := hquery.decoded _ hfw _ _ hsent
  rw [hoptions] at hread
  rw [← Option.some.inj hread, firmwareName_of_options] at hname
  rw [← Option.some.inj hname, hfilename] at hfile
  rw [hp] at hother
  rw [← Option.some.inj hother] at hok
  exact ⟨payload, content, hfile, hcontent, hok⟩

end Single

/-- **A device alone** gets the file that it asked for: its row is `True`, and its flow is
    complete, only if the server's file of that name has the digest of the device's file. -/
theorem single_of_run (site : Site) (hquery : SplitsQuery site.uriQuery) (acts : List Act)
    (w : World) (hrun : run (exchange site) .init acts = some w) (dev : Device)
    (hdevices : w.devices = [dev]) (hplain : Plain dev.filename) :
    (∀ ok, dev.row = some ok → ∃ payload content, site.serverFiles dev.filename = some payload ∧
      site.deviceFiles dev.filename = some content ∧
      ok = decide (sha256 payload = sha256 content)) ∧
    ∀ f ∈ w.server.flows, f.stage = .complete → .report 0 "1" ∈ w.sent ∧
      ∃ payload content, site.serverFiles dev.filename = some payload ∧
        site.deviceFiles dev.filename = some content ∧ sha256 payload = sha256 content := by
  have h := inv_run hrun
  have hdev : w.devices[0]? = some dev := by
    rw [hdevices]
    rfl
  constructor
  · intro ok hrow
    exact (h.row hdev hrow).1.single h hquery hdevices hplain
  · intro f hf hstage
    obtain ⟨i, hi⟩ := List.getElem?_of_mem hf
    obtain ⟨d, other, hother, hreport, hdownloaded⟩ := h.complete hi hstage
    have hzero := hother
    rw [hdevices] at hother
    obtain rfl := List.mem_singleton.1 (List.mem_of_getElem? hother)
    have hd : d = 0 := by
      have hlt := (List.getElem?_eq_some_iff.1 hzero).1
      rw [hdevices, List.length_singleton] at hlt
      omega
    subst hd
    obtain ⟨payload, content, hfile, hcontent, hok⟩ :=
      hdownloaded.single h hquery hdevices hplain
    exact ⟨hreport, payload, content, hfile, hcontent, of_decide_eq_true hok.symm⟩

theorem single_of_update : ∃ payload content, oneFile.serverFiles "a.bin" = some payload ∧
    oneFile.deviceFiles "a.bin" = some content ∧
    true = decide (sha256 payload = sha256 content) := by
  obtain ⟨w, hrun, hdevices⟩ := Option.map_eq_some_iff.1 devicesOf_updateActs
  exact (single_of_run oneFile splitsQuery_requestOptions updateActs w hrun updatedDevice hdevices
    (by decide)).1 true rfl

end TransferTestbed.Lwm2m
