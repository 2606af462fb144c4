import TransferTestbed.Protocols.BenchmarkManager

/-!
# All transfers of a protocol

`start_capture_run` and `stop_capture_run` of `common/packet_capture.py` by the commands
they run, and `run_protocol` of `protocols/benchmark_manager.py`: the transfers it
attempts, given what the commands of each do. The updates of the manifest before the loop
are left out; they read and write files of the host only.

Results:
* `runTransfer_error_iff`: which commands end a transfer with an exception.
* `attemptsAll_iff`: when `run_protocol` attempts every combination and returns.
-/

namespace TransferTestbed.BenchmarkManager

open PcapRows

/-! ## Capturing (packet_capture.py) -/

/-- `CAPTURE_SERVICES[protocol]`. -/
def captureService (protocol : Protocol) : String := protocol.name ++ "-capture"

/-- `OFFLOAD_CONTAINERS[protocol]`. -/
def offloadContainers : Protocol → List String
  | .mqtt => ["mqtt-client-a", "mqtt-client-b"]
  | .http => ["http-client"]
  | .coap => []
  | .amqp => ["amqp-client-a", "amqp-client-b"]
  | .grpc => ["grpc-client"]
  | .lwm2m => []

/-- How a command ends: with an exit code, or with an exception, such as a timeout. -/
inductive Outcome where
  | exit (code : ℤ)
  | raises
deriving DecidableEq, Repr

/-- What the commands of one transfer do; `rm` is run with `check=False`. -/
structure Commands where
  /-- `ethtool` in each container. -/
  ethtool : String → Outcome
  /-- The exit code of `docker compose exec -d … tcpdump`. -/
  tcpdump : ℤ
  /-- The exit codes of the `pgrep`s of `_wait_until_ready`, up to its deadline. -/
  ready : List ℤ
  client : ClientRun
  /-- The exit code of `pkill`. -/
  pkill : ℤ
  /-- The exit codes of the `pgrep`s after `pkill`, up to the deadline. -/
  exited : List ℤ
  /-- The exit code of `docker compose cp`. -/
  copy : ℤ
  /-- What `analyze_pcap` returns, unless it raises because `tshark` fails. -/
  analysis : Option PcapResult
  timestamp : String

/-- An exception that leaves `start_capture_run` or `stop_capture_run`. -/
inductive CaptureError where
  | calledProcessError (code : ℤ)
  | neverStarted
deriving DecidableEq, Repr

/-- `_disable_offloads(protocol)` (lines 96–122): the containers it warns about. -/
def disableOffloads (protocol : Protocol) (c : Commands) : List String :=
  (captureService protocol :: offloadContainers protocol).filter fun service =>
    c.ethtool service ≠ .exit 0

/-- `_wait_until_ready(service)` (lines 124–134). -/
def waitUntilReady : List ℤ → Option CaptureError
  | [] => some .neverStarted
  | code :: codes => if code = 0 then none else waitUntilReady codes

/-- `start_capture_run(label, protocol)` (lines 58–93): the warnings, and the exception. -/
def startCaptureRun (protocol : Protocol) (c : Commands) : List String × Option CaptureError :=
  let warnings := disableOffloads protocol c
  if c.tcpdump ≠ 0 then (warnings, some (.calledProcessError c.tcpdump))
  else (warnings, waitUntilReady c.ready)

/-- What `stop_capture_run` warns about. -/
inductive StopWarning where
  | stillRunning
  | notCopied
deriving DecidableEq, Repr

/-- `stop_capture_run(protocol, outfile, pcap_dir)` (lines 137–190): the warnings, and the
    exception. -/
def stopCaptureRun (c : Commands) : List StopWarning × Option CaptureError :=
  if c.pkill ≠ 0 then ([], some (.calledProcessError c.pkill))
  else
    ((if c.exited.any (· ≠ 0) then [] else [.stillRunning]) ++
      if c.copy ≠ 0 then [.notCopied] else [], none)

/-- A file in the data directory. -/
structure InputFile where
  name : String
  size : ℕ
deriving DecidableEq, Repr

/-- What `run_transfer` sees of the commands. -/
def Commands.world (protocol : Protocol) (file : InputFile) (c : Commands) : World where
  captureStarts := decide ((startCaptureRun protocol c).2 = none)
  client := c.client
  captureStops := decide ((stopCaptureRun c).2 = none)
  copied := decide (c.copy = 0)
  fileSize := some file.size
  analysis := c.analysis
  timestamp := c.timestamp

/-! ## `run_protocol` (benchmark_manager.py, lines 145–182) -/

def defaultMqttQos : List ℤ := [1, 2]

/-- `qos_levels or DEFAULT_MQTT_QOS`. -/
def sweptQos (qosLevels : Option (List ℤ)) : List ℤ :=
  match qosLevels with
  | none => defaultMqttQos
  | some [] => defaultMqttQos
  | some levels => levels

/-- The transfers of the loops, in order. -/
def combinations (protocol : Protocol) (files : List InputFile) (qosLevels : Option (List ℤ)) :
    List (Option ℤ × InputFile) :=
  if protocol.hasQos then
    (sweptQos qosLevels).flatMap fun qos => files.map fun file => (some qos, file)
  else files.map fun file => (none, file)

/-- The loops from a transfer on: those attempted, and the exception that ends them. -/
def runTransfers (protocol : Protocol) (analyze : Bool) (commands : ℕ → Commands) :
    ℕ → List (Option ℤ × InputFile) → List (Option ℤ × InputFile) × Option TransferError
  | _, [] => ([], none)
  | i, t :: ts =>
    match (runTransfer protocol t.2.name t.1 analyze ((commands i).world protocol t.2)).2 with
    | some e => ([t], some e)
    | none =>
      (t :: (runTransfers protocol analyze commands (i + 1) ts).1,
        (runTransfers protocol analyze commands (i + 1) ts).2)

/-- `run_protocol(protocol, files, qos_levels, analyze)`; the commands of the transfers are
    numbered from 0 on. -/
def runProtocol (protocol : Protocol) (files : List InputFile) (qosLevels : Option (List ℤ))
    (analyze : Bool) (commands : ℕ → Commands) :
    List (Option ℤ × InputFile) × Option TransferError :=
  runTransfers protocol analyze commands 0 (combinations protocol files qosLevels)

/-! ## Exceptions -/

/-- The capture starts and stops: `tcpdump` is started and seen before the deadline, and
    `pkill` succeeds. -/
structure Captures (c : Commands) : Prop where
  started : c.tcpdump = 0
  ready : 0 ∈ c.ready
  stopped : c.pkill = 0

theorem waitUntilReady_eq_none_iff (codes : List ℤ) : waitUntilReady codes = none ↔ 0 ∈ codes := by
  induction codes with
  | nil => simp [waitUntilReady]
  | cons code codes ih =>
    unfold waitUntilReady
    by_cases h : code = 0
    · simp [h]
    · rw [if_neg h, ih, List.mem_cons, or_iff_right (Ne.symm h)]

theorem startCaptureRun_eq_none_iff (protocol : Protocol) (c : Commands) :
    (startCaptureRun protocol c).2 = none ↔ c.tcpdump = 0 ∧ 0 ∈ c.ready := by
  unfold startCaptureRun
  by_cases h : c.tcpdump = 0
  · simp only [h, ne_eq, not_true_eq_false, if_false, true_and]
    exact waitUntilReady_eq_none_iff c.ready
  · simp [h]

theorem stopCaptureRun_eq_none_iff (c : Commands) : (stopCaptureRun c).2 = none ↔ c.pkill = 0 := by
  unfold stopCaptureRun
  by_cases h : c.pkill = 0
  · simp [h]
  · simp [h]

/-- **A transfer ends with an exception** exactly when its capture does not start or stop:
    a failure of the client, of the copy or of the analysis is at most warned about. -/
theorem runTransfer_error_iff {protocol : Protocol} {file : InputFile} {qos : Option ℤ}
    (hqos : qos = none ∨ protocol.hasQos = true) (analyze : Bool) (c : Commands) :
    (runTransfer protocol file.name qos analyze (c.world protocol file)).2 = none ↔
      Captures c := by
  have hsupported : ¬ (qos ≠ none ∧ protocol.hasQos = false) := by
    rintro ⟨hne, hhas⟩
    rcases hqos with h | h
    · exact hne h
    · rw [h] at hhas
      cases hhas
  have hstart := startCaptureRun_eq_none_iff protocol c
  have hstop := stopCaptureRun_eq_none_iff c
  have hanalyze : (analyzeTransfer (c.world protocol file)).2 = none := by
    unfold analyzeTransfer Commands.world
    cases c.analysis with
    | none => rfl
    | some r => rfl
  have hcaptures : Captures c ↔ (c.world protocol file).captureStarts = true ∧
      (c.world protocol file).captureStops = true := by
    simp only [Commands.world, decide_eq_true_eq, hstart, hstop]
    constructor
    · intro h
      exact ⟨⟨h.started, h.ready⟩, h.stopped⟩
    · rintro ⟨⟨hstarted, hready⟩, hstopped⟩
      exact ⟨hstarted, hready, hstopped⟩
  rw [hcaptures, runTransfer, if_neg hsupported]
  cases (c.world protocol file).captureStarts with
  | false => simp
  | true =>
    cases (c.world protocol file).captureStops with
    | false => simp
    | true =>
      simp only [Bool.true_eq_false, if_false, and_self, iff_true]
      split_ifs
      · rfl
      · rfl
      · exact hanalyze

/-! ## The sweep -/

theorem qos_of_mem_combinations {protocol : Protocol} {files : List InputFile}
    {qosLevels : Option (List ℤ)} {t : Option ℤ × InputFile}
    (h : t ∈ combinations protocol files qosLevels) : t.1 = none ∨ protocol.hasQos = true := by
  unfold combinations at h
  split_ifs at h with hhas
  · exact .inr hhas
  · obtain ⟨file, -, rfl⟩ := List.mem_map.1 h
    exact .inl rfl

theorem runTransfers_eq_iff {protocol : Protocol} {analyze : Bool} {commands : ℕ → Commands}
    (ts : List (Option ℤ × InputFile)) (hts : ∀ t ∈ ts, t.1 = none ∨ protocol.hasQos = true)
    (i : ℕ) : runTransfers protocol analyze commands i ts = (ts, none) ↔
      ∀ j < ts.length, Captures (commands (i + j)) := by
  induction ts generalizing i with
  | nil => simp [runTransfers]
  | cons t ts ih =>
    have herror := @runTransfer_error_iff protocol t.2 t.1 (hts t List.mem_cons_self) analyze
      (commands i)
    have hrest := ih (fun u hu => hts u (List.mem_cons_of_mem t hu)) (i + 1)
    unfold runTransfers
    cases hrun : (runTransfer protocol t.2.name t.1 analyze
        ((commands i).world protocol t.2)).2 with
    | some e =>
      rw [hrun] at herror
      constructor
      · intro h
        cases (Prod.mk.inj h).2
      · intro h
        exact absurd (herror.2 (h 0 (Nat.succ_pos _))) (by simp)
    | none =>
      have hcaptures : Captures (commands i) := herror.1 hrun
      have hcons : (t :: (runTransfers protocol analyze commands (i + 1) ts).1,
          (runTransfers protocol analyze commands (i + 1) ts).2) = (t :: ts, none) ↔
          runTransfers protocol analyze commands (i + 1) ts = (ts, none) := by
        constructor
        · intro h
          obtain ⟨hattempts, herror⟩ := Prod.mk.inj h
          exact Prod.ext (List.cons.inj hattempts).2 herror
        · intro h
          rw [h]
      show _ = (t :: ts, none) ↔ _
      rw [hcons, hrest, List.length_cons]
      constructor
      · intro h j hj
        cases j with
        | zero => exact hcaptures
        | succ j =>
          have hj' := h j (by omega)
          rwa [show i + 1 + j = i + (j + 1) by omega] at hj'
      · intro h j hj
        have hj' := h (j + 1) (by omega)
        rwa [show i + (j + 1) = i + 1 + j by omega] at hj'

/-- **`run_protocol` attempts every combination once, in order, and returns** exactly when
    the capture of every transfer starts and stops. -/
theorem attemptsAll_iff (protocol : Protocol) (files : List InputFile)
    (qosLevels : Option (List ℤ)) (analyze : Bool) (commands : ℕ → Commands) :
    runProtocol protocol files qosLevels analyze commands =
        (combinations protocol files qosLevels, none) ↔
      ∀ j < (combinations protocol files qosLevels).length, Captures (commands j) := by
  have h := @runTransfers_eq_iff protocol analyze commands (combinations protocol files qosLevels)
    (fun t ht => qos_of_mem_combinations ht) 0
  rw [runProtocol, h]
  simp only [zero_add]

/-- Commands that succeed, but for the exit code of `pkill`. -/
def commandsOf (pkill : ℤ) : Commands where
  ethtool _ := .exit 0
  tcpdump := 0
  ready := [0]
  client := ⟨[], 0⟩
  pkill := pkill
  exited := [1]
  copy := 0
  analysis := none
  timestamp := ""

/-- `tcpdump` dies during the first of two transfers, so that `pkill` finds no process: the
    second transfer is not attempted. -/
theorem not_attemptsAll_pkill :
    combinations .http [⟨"a.bin", 1⟩, ⟨"b.bin", 1⟩] none =
        [(none, ⟨"a.bin", 1⟩), (none, ⟨"b.bin", 1⟩)] ∧
      runProtocol .http [⟨"a.bin", 1⟩, ⟨"b.bin", 1⟩] none true
          (fun i => commandsOf (if i = 0 then 1 else 0)) =
        ([(none, ⟨"a.bin", 1⟩)], some .captureNotStopped) := by
  decide +kernel

end TransferTestbed.BenchmarkManager
