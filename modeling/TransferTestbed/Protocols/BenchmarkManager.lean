import TransferTestbed.Output.PcapRows

/-!
# The benchmark orchestrator (`protocols/benchmark_manager.py`)

`run_transfer` as the list of what it writes, given what the docker, tcpdump and
tshark commands of the transfer do, and the placement of what is written in the
output tree: the host resolves the active run by its `RUN_ID` variable, the
containers, which have none, by the marker.

Results:
* `runTransfer_clientRows`: the client's rows appear once the capture has started.
* `runTransfer_pcapRows`: when a pcap row is appended.
* `destinations_eq`: everything written between two changes of the marker by one
  side goes to one directory.
-/

namespace TransferTestbed.BenchmarkManager

open Runs WriteCsv PcapRows

/-! ## What is written, and where -/

/-- Where a process runs. -/
inductive Side where
  | host
  | container
deriving DecidableEq, Repr

/-- A measurement row appended, or a pcap copied into `pcap/`. -/
inductive Product where
  | row (side : Side) (kind : Kind) (timestamp : String) (cells : Row)
  | pcap (name : String)

def Product.side : Product → Side
  | .row side _ _ _ => side
  | .pcap _ => .host

/-- The environments of the host process and of the containers. -/
structure Envs where
  host : Env
  container : Env

def Envs.of (envs : Envs) : Side → Env
  | .host => envs.host
  | .container => envs.container

/-- The run a product goes to; `none` is the flat directory. -/
def destination (envs : Envs) (t : OutputTree) (p : Product) : Option String :=
  activeRunId (envs.of p.side) t

def place (envs : Envs) (t : OutputTree) (p : Product) : OutputTree :=
  match p with
  | .row side kind timestamp cells => (writeToFile kind (envs.of side) timestamp t [cells]).1
  | .pcap name =>
    t.modify (activeRunId envs.host t) fun m => { m with pcap := m.pcap ++ [name] }

/-- Writes products one after the other. -/
def placeAll (envs : Envs) (t : OutputTree) : List Product → OutputTree
  | [] => t
  | p :: ps => placeAll envs (place envs t p) ps

/-- The run each product goes to at the time it is written. -/
def destinations (envs : Envs) (t : OutputTree) : List Product → List (Option String)
  | [] => []
  | p :: ps => destination envs t p :: destinations envs (place envs t p) ps

theorem marker_place (envs : Envs) (t : OutputTree) (p : Product) :
    (place envs t p).marker = t.marker := by
  cases p with
  | row side kind timestamp cells => exact marker_writeMeasurement _ _ _ _ _ _
  | pcap name => exact marker_modify t _ _

theorem marker_placeAll (envs : Envs) (t : OutputTree) (ps : List Product) :
    (placeAll envs t ps).marker = t.marker := by
  induction ps generalizing t with
  | nil => rfl
  | cons p ps ih => rw [placeAll, ih, marker_place]

/-- Writing does not move the active run. -/
theorem destinations_eq (envs : Envs) (t : OutputTree) (ps : List Product) :
    destinations envs t ps = ps.map (destination envs t) := by
  induction ps generalizing t with
  | nil => rfl
  | cons p ps ih =>
    have hmarker := marker_place envs t p
    rw [destinations, ih, List.map_cons]
    exact congrArg _ (List.map_congr_left fun q _ => activeRunId_congr hmarker _)

/-! ## `run_transfer` (lines 98–142) -/

/-- The protocols of `RUNNERS`. -/
inductive Protocol where
  | mqtt
  | http
  | coap
  | amqp
  | grpc
  | lwm2m
deriving DecidableEq, Repr

def Protocol.name : Protocol → String
  | .mqtt => "mqtt"
  | .http => "http"
  | .coap => "coap"
  | .amqp => "amqp"
  | .grpc => "grpc"
  | .lwm2m => "lwm2m"

def Protocol.hasQos : Protocol → Bool
  | .mqtt => true
  | _ => false

/-- A client process: the rows it appends, with their kind and timestamp, and its
    exit code. -/
structure ClientRun where
  rows : List (Kind × String × Row)
  exitCode : ℤ

/-- What the commands of one transfer do. -/
structure World where
  /-- `start_capture_run` returns. -/
  captureStarts : Bool
  client : ClientRun
  /-- `pkill` succeeds in `stop_capture_run`. -/
  captureStops : Bool
  /-- `docker compose cp` succeeds. -/
  copied : Bool
  /-- `os.path.getsize` of the input file, unless it raises. -/
  fileSize : Option ℕ
  /-- What `analyze_pcap` returns, unless it raises. -/
  analysis : Option PcapResult
  /-- The clock when the pcap row is appended. -/
  timestamp : String

/-- How `run_transfer` ends when it does not return. -/
inductive TransferError where
  | qosUnsupported
  | captureNotStarted
  | captureNotStopped
  | noInputFile
deriving DecidableEq, Repr

def transferLabel (filename : String) (qos : Option ℤ) : String :=
  match qos with
  | none => filename
  | some q => filename ++ "_" ++ String.ofList (Decimal.intText q)

def pcapName (protocol : Protocol) (label : String) : String :=
  protocol.name ++ "_" ++ label ++ ".pcap"

def ClientRun.products (c : ClientRun) : List Product :=
  c.rows.map fun r => .row .container r.1 r.2.1 r.2.2

/-- What follows the capture: `size`, `analyze_pcap` and the pcap row. -/
def analyzeTransfer (w : World) : List Product × Option TransferError :=
  match w.fileSize with
  | none => ([], some .noInputFile)
  | some _ =>
    match w.analysis with
    | none => ([], none)
    | some r => ([.row .host .pcap w.timestamp r.row], none)

/-- The client's rows, then the pcap `stop_capture_run` copies. -/
def capturedProducts (protocol : Protocol) (filename : String) (qos : Option ℤ) (w : World) :
    List Product :=
  w.client.products ++
    if w.copied then [.pcap (pcapName protocol (transferLabel filename qos))] else []

/-- `run_transfer(protocol, filename, qos, analyze)`: what it writes, in order, and
    the exception it ends with. -/
def runTransfer (protocol : Protocol) (filename : String) (qos : Option ℤ) (analyze : Bool)
    (w : World) : List Product × Option TransferError :=
  if qos ≠ none ∧ protocol.hasQos = false then ([], some .qosUnsupported)
  else if w.captureStarts = false then ([], some .captureNotStarted)
  -- the `finally` clause
  else if w.captureStops = false then (w.client.products, some .captureNotStopped)
  else if w.client.exitCode ≠ 0 then (capturedProducts protocol filename qos w, none)
  else if analyze = false then (capturedProducts protocol filename qos w, none)
  else
    (capturedProducts protocol filename qos w ++ (analyzeTransfer w).1, (analyzeTransfer w).2)

/-- The rows of one kind among what is written. -/
def rowsOf (kind : Kind) (ps : List Product) : List Row :=
  ps.filterMap fun p =>
    match p with
    | .row _ k _ cells => if k = kind then some cells else none
    | .pcap _ => none

@[simp] theorem rowsOf_append (kind : Kind) (ps qs : List Product) :
    rowsOf kind (ps ++ qs) = rowsOf kind ps ++ rowsOf kind qs := List.filterMap_append

theorem rowsOf_products (kind : Kind) (c : ClientRun) :
    rowsOf kind c.products = (c.rows.filter fun r => r.1 = kind).map fun r => r.2.2 := by
  rw [rowsOf, ClientRun.products, List.filterMap_map]
  induction c.rows with
  | nil => rfl
  | cons r rs ih => by_cases h : r.1 = kind <;> simp [h] at ih ⊢ <;> exact ih

theorem rowsOf_captured (kind : Kind) (protocol : Protocol) (filename : String) (qos : Option ℤ)
    (w : World) :
    rowsOf kind (capturedProducts protocol filename qos w) = rowsOf kind w.client.products := by
  rw [capturedProducts, rowsOf_append]
  split_ifs <;> simp [rowsOf]

theorem rowsOf_analyzeTransfer {kind : Kind} (h : kind ≠ .pcap) (w : World) :
    rowsOf kind (analyzeTransfer w).1 = [] := by
  unfold analyzeTransfer
  split
  · rfl
  · split
    · rfl
    · simp [rowsOf, h.symm]

theorem rowsOf_pcap_analyzeTransfer (w : World) :
    rowsOf .pcap (analyzeTransfer w).1 ≠ [] ↔ w.fileSize ≠ none ∧ w.analysis ≠ none := by
  unfold analyzeTransfer
  cases w.fileSize with
  | none => simp [rowsOf]
  | some n => cases w.analysis <;> simp [rowsOf]

/-- The client's rows are all there is of a kind other than `pcap`, once the
    capture has started. -/
theorem runTransfer_clientRows {kind : Kind} (h : kind ≠ .pcap) (protocol : Protocol)
    (filename : String) (analyze : Bool) (w : World) :
    rowsOf kind (runTransfer protocol filename none analyze w).1 =
      if w.captureStarts then rowsOf kind w.client.products else [] := by
  simp only [runTransfer, ne_eq, not_true_eq_false, false_and, if_false]
  cases w.captureStarts with
  | false => rfl
  | true =>
    simp only [Bool.true_eq_false, if_false, if_true]
    split_ifs
    · rfl
    · exact rowsOf_captured kind protocol filename none w
    · rw [rowsOf_append, rowsOf_captured, rowsOf_analyzeTransfer h, List.append_nil]
    · exact rowsOf_captured kind protocol filename none w

/-- The capture stops, the transfer is analysed and the analysis goes through. -/
def Analyzed (analyze : Bool) (w : World) : Prop :=
  w.captureStops = true ∧ analyze = true ∧ w.fileSize ≠ none ∧ w.analysis ≠ none

/-- A pcap row is appended exactly when the client exits with 0 and the analysis
    goes through. -/
theorem runTransfer_pcapRows (protocol : Protocol) (filename : String) (analyze : Bool) (w : World)
    (hrows : rowsOf .pcap w.client.products = []) :
    rowsOf .pcap (runTransfer protocol filename none analyze w).1 ≠ [] ↔
      w.captureStarts = true ∧ w.client.exitCode = 0 ∧ Analyzed analyze w := by
  have hcaptured := rowsOf_captured .pcap protocol filename none w
  rw [hrows] at hcaptured
  simp only [runTransfer, ne_eq, not_true_eq_false, false_and, if_false, Analyzed]
  split_ifs with hstart hstop hexit hanalyze
  · simp [rowsOf, hstart]
  · simp [hrows, hstop]
  · simp [hcaptured, hanalyze]
  · have hrow := rowsOf_pcap_analyzeTransfer w
    rw [Bool.not_eq_false] at hstart hstop hanalyze
    rw [rowsOf_append, hcaptured, List.nil_append]
    simpa [hstart, hstop, hexit, hanalyze] using hrow
  · simp [hcaptured, hexit]

end TransferTestbed.BenchmarkManager
