import TransferTestbed.Protocols.BenchmarkManager
import TransferTestbed.Common.ResourceMonitor

/-!
# The HTTP and CoAP clients under `run_transfer`

`transfer_file` of both clients for one file, given what the network does: whether
the latency probe raises, and for each request attempt whether the server accepts
the file, which response the client gets, if any, and how long it takes. A client
process tells `run_transfer` about a failure by its exit code alone. Which codes of a
CoAP response are successful is up to aiocoap.

Results:
* `firstResponse_isSome_iff`: the retry loop of the CoAP client.
* `transferFile_rows`: when a client logs its row; it then exits with 0.
* `accounted_iff`: when `run_transfer` accounts for a transfer.
-/

namespace TransferTestbed.UploadClients

open WriteCsv BenchmarkManager ResourceMonitor

/-! ## The clients -/

/-- What one request attempt does. -/
structure Attempt where
  /-- The server accepts the file and saves it. -/
  accepted : Bool
  /-- The code of the response; `none` when the request raises. -/
  response : Option ℕ
  /-- The difference of the two clock readings around the request. -/
  elapsed : ℚ

/-- What the client process of one transfer meets. -/
structure Network where
  /-- The size of the input file, if it exists. -/
  fileSize : Option ℕ
  /-- The latency the probe measures, unless it raises. -/
  probe : Option ℚ
  attempt : ℕ → Attempt
  /-- The time to first byte, if the response hook has run. -/
  ttfb : Option ℚ
  stats : Stats
  timestamp : String

/-- The row of `http_client.py`, lines 104–117. -/
def httpRow (n : Network) (size : ℕ) (latency : ℚ) (status : ℕ) : Row :=
  let transferTime := (n.attempt 0).elapsed
  [("protocol", .str "http"),
    ("file_size", .float (Binary64.trueDiv size (1024 * 1024))),
    ("time_to_transfer", .str (Decimal.fixed 3 transferTime)),
    ("latency_tcp_rtt", .str (Decimal.fixed 5 latency)),
    ("latency_ttfb", .str ((n.ttfb.map (Decimal.fixed 5)).getD "X")),
    ("goodput_mbps", .str (Decimal.fixed 3 (goodputMbps size transferTime))),
    ("integrity_ok", .bool (status = 200))] ++
  n.stats.texts.map fun p => (p.1, .str p.2)

/-- `transfer_file(filename)` (`http_client.py`, lines 45–125), and the exit code of
    the client. -/
def httpTransferFile (n : Network) : ClientRun :=
  match n.fileSize with
  | none => ⟨[], 0⟩
  | some size =>
    match n.probe with
    -- the probe is outside the `try`, whose handler prints every exception
    | none => ⟨[], 1⟩
    | some latency =>
      match (n.attempt 0).response with
      | none => ⟨[], 0⟩
      | some status =>
        -- the goodput divides by zero, or `None` is formatted as a float
        if microseconds (n.attempt 0).elapsed = 0 then ⟨[], 0⟩
        else if status = 200 ∧ n.ttfb = none then ⟨[], 0⟩
        else ⟨[(.http, n.timestamp, httpRow n size latency status)], 0⟩

/-- `MAX_RETRIES`. -/
def maxRetries : ℕ := 3

/-- The loop `for attempt in range(MAX_RETRIES)` (lines 63–78), from one attempt on with
    so many left: `response` and `transfer_time` when it ends. -/
def firstResponse (n : Network) : ℕ → ℕ → Option (ℕ × ℚ)
  | _, 0 => none
  | attempt, left + 1 =>
    match (n.attempt attempt).response with
    | some code => some (code, max (n.attempt attempt).elapsed (Binary64.fl (1 / 1000)))
    | none => firstResponse n (attempt + 1) left

section Codes

-- `Code.is_successful()` of aiocoap
variable (isSuccessful : ℕ → Bool)

/-- The row of `coap_client.py`, lines 94–104. -/
def coapRow (n : Network) (size code : ℕ) (transferTime : ℚ) : Row :=
  [("protocol", .str "coap"),
    ("file_size", .float (Binary64.trueDiv size (1024 * 1024))),
    ("time_to_transfer", .str (Decimal.fixed 2 transferTime)),
    ("latency", .str (Decimal.fixed 4 (n.probe.getD 0))),
    ("goodput_mbps", .str (Decimal.fixed 3 (goodputMbps size transferTime))),
    ("integrity_ok", .bool (isSuccessful code))] ++
  n.stats.texts.map fun p => (p.1, .str p.2)

/-- `transfer_file(context, filename)` (`coap_client.py`, lines 36–106), and the exit
    code of the client. -/
def coapTransferFile (n : Network) : ClientRun :=
  match n.fileSize with
  | none => ⟨[], 0⟩
  | some size =>
    match firstResponse n 0 maxRetries with
    | none => ⟨[], 0⟩
    | some (code, transferTime) =>
      ⟨[(.coap, n.timestamp, coapRow isSuccessful n size code transferTime)], 0⟩

/-- The clients that upload to their server. -/
inductive UploadClient where
  | http
  | coap
deriving DecidableEq, Repr

namespace UploadClient

def protocol : UploadClient → Protocol
  | .http => .http
  | .coap => .coap

def kind : UploadClient → Kind
  | .http => .http
  | .coap => .coap

def transferFile : UploadClient → Network → ClientRun
  | .http => httpTransferFile
  | .coap => coapTransferFile isSuccessful

/-! ## When a client logs a row -/

/-- The client makes this request attempt. -/
def Attempts (n : Network) (i : ℕ) : UploadClient → Prop
  | .http => n.fileSize ≠ none ∧ n.probe ≠ none ∧ i = 0
  | .coap => n.fileSize ≠ none ∧ i < maxRetries ∧ ∀ j < i, (n.attempt j).response = none

/-- The server accepts the file in some attempt the client makes. -/
def Accepted (c : UploadClient) (n : Network) : Prop :=
  ∃ i, c.Attempts n i ∧ (n.attempt i).accepted = true

/-- Nothing keeps the client from its row: for HTTP the probe and the only request
    return, the request in measurable time and, on success, after its hook; for CoAP
    one of the attempts returns. -/
def Logs (n : Network) : UploadClient → Prop
  | .http => n.fileSize ≠ none ∧ n.probe ≠ none ∧ (n.attempt 0).response ≠ none ∧
      (n.attempt 0).elapsed ≠ 0 ∧ ((n.attempt 0).response = some 200 → n.ttfb ≠ none)
  | .coap => n.fileSize ≠ none ∧ ∃ i < maxRetries, (n.attempt i).response ≠ none

end UploadClient

/-- The retry loop ends with a response exactly when some attempt gets one. -/
theorem firstResponse_isSome_iff (n : Network) (attempt left : ℕ) :
    (firstResponse n attempt left).isSome ↔
      ∃ i, attempt ≤ i ∧ i < attempt + left ∧ (n.attempt i).response ≠ none := by
  induction left generalizing attempt with
  | zero =>
    simp only [firstResponse, Option.isSome_none, Bool.false_eq_true, false_iff]
    rintro ⟨i, hge, hlt, -⟩
    omega
  | succ left ih =>
    rw [firstResponse]
    cases h : (n.attempt attempt).response with
    | some code =>
      refine ⟨fun _ => ⟨attempt, le_rfl, by omega, by rw [h]; simp⟩, fun _ => rfl⟩
    | none =>
      simp only [ih]
      constructor
      · rintro ⟨i, hge, hlt, hi⟩
        exact ⟨i, by omega, by omega, hi⟩
      · rintro ⟨i, hge, hlt, hi⟩
        have hne : i ≠ attempt := fun e => hi (e ▸ h)
        exact ⟨i, by omega, by omega, hi⟩

theorem httpTransferFile_rows (n : Network) :
    (UploadClient.http.Logs n → ∃ timestamp row,
      httpTransferFile n = ⟨[(.http, timestamp, row)], 0⟩) ∧
    (¬ UploadClient.http.Logs n → (httpTransferFile n).rows = []) := by
  simp only [UploadClient.Logs, httpTransferFile]
  cases n.fileSize with
  | none => simp
  | some size =>
    cases n.probe with
    | none => simp
    | some latency =>
      cases (n.attempt 0).response with
      | none => simp
      | some status =>
        by_cases htime : (n.attempt 0).elapsed = 0
        · simp [htime]
        · have hmul : microseconds (n.attempt 0).elapsed ≠ 0 := mt microseconds_eq_zero.1 htime
          by_cases httfb : status = 200 ∧ n.ttfb = none
          · simp [httfb.1, httfb.2]
          · simp only [if_neg hmul, if_neg httfb]
            refine ⟨fun _ => ⟨_, _, rfl⟩, fun hlogs => absurd ?_ hlogs⟩
            refine ⟨by simp, by simp, by simp, htime, fun hstatus hnone => ?_⟩
            exact httfb ⟨Option.some.inj hstatus, hnone⟩

theorem coapTransferFile_rows (n : Network) :
    (UploadClient.coap.Logs n → ∃ timestamp row,
      coapTransferFile isSuccessful n = ⟨[(.coap, timestamp, row)], 0⟩) ∧
    (¬ UploadClient.coap.Logs n → (coapTransferFile isSuccessful n).rows = []) := by
  have hloop := firstResponse_isSome_iff n 0 maxRetries
  simp only [zero_le, true_and, zero_add] at hloop
  simp only [UploadClient.Logs, coapTransferFile, ← hloop]
  cases n.fileSize with
  | none => simp
  | some size => cases firstResponse n 0 maxRetries <;> simp

/-- A client that logs a row logs one and exits with 0; otherwise it logs none. -/
theorem transferFile_rows (c : UploadClient) (n : Network) :
    (c.Logs n → ∃ timestamp row, c.transferFile isSuccessful n = ⟨[(c.kind, timestamp, row)], 0⟩) ∧
    (¬ c.Logs n → (c.transferFile isSuccessful n).rows = []) := by
  cases c with
  | http => exact httpTransferFile_rows n
  | coap => exact coapTransferFile_rows isSuccessful n

/-! ## Under `run_transfer` -/

/-- One `run_transfer` call leaves one row of the client, and a pcap row only if the
    server has accepted the file. -/
def Accounted (c : UploadClient) (filename : String) (analyze : Bool) (n : Network) (w : World) :
    Prop :=
  let written :=
    (runTransfer c.protocol filename none analyze
      { w with client := c.transferFile isSuccessful n }).1
  (rowsOf c.kind written).length = 1 ∧ (rowsOf .pcap written ≠ [] → c.Accepted n)

theorem kind_ne_pcap (c : UploadClient) : c.kind ≠ .pcap := by
  cases c <;> decide

/-- The client's rows of its kind: one if it logs, else none. -/
theorem length_clientRows (c : UploadClient) (n : Network) :
    (rowsOf c.kind (c.transferFile isSuccessful n).products).length = 1 ↔ c.Logs n := by
  obtain ⟨hlogs, hnone⟩ := transferFile_rows isSuccessful c n
  rw [rowsOf_products]
  by_cases h : c.Logs n
  · obtain ⟨timestamp, row, hrun⟩ := hlogs h
    simp [hrun, h]
  · simp [hnone h, h]

theorem pcapRows_client (c : UploadClient) (n : Network) :
    rowsOf .pcap (c.transferFile isSuccessful n).products = [] := by
  obtain ⟨hlogs, hnone⟩ := transferFile_rows isSuccessful c n
  rw [rowsOf_products]
  by_cases h : c.Logs n
  · obtain ⟨timestamp, row, hrun⟩ := hlogs h
    simp [hrun, kind_ne_pcap c]
  · simp [hnone h]

/-- **A transfer is accounted for exactly when the capture starts, the client logs
    its row, and the file is accepted or not analysed.** Neither an exception in the
    HTTP request nor a refusal by the server makes the client exit with a failure. -/
theorem accounted_iff (c : UploadClient) (filename : String) (analyze : Bool) (n : Network)
    (w : World) :
    Accounted isSuccessful c filename analyze n w ↔
      w.captureStarts = true ∧ c.Logs n ∧ (c.Accepted n ∨ ¬ Analyzed analyze w) := by
  have hclient := runTransfer_clientRows (kind_ne_pcap c) c.protocol filename analyze
    { w with client := c.transferFile isSuccessful n }
  have hpcap := runTransfer_pcapRows c.protocol filename analyze
    { w with client := c.transferFile isSuccessful n } (pcapRows_client isSuccessful c n)
  have hanalyzed : Analyzed analyze { w with client := c.transferFile isSuccessful n } ↔
      Analyzed analyze w :=
    Iff.rfl
  simp only [Accounted, hclient, hpcap, hanalyzed]
  cases w.captureStarts with
  | false => simp
  | true =>
    simp only [if_true, length_clientRows, true_and]
    refine and_congr_right fun hlogs => ?_
    -- a client that logs its row exits with 0
    obtain ⟨timestamp, row, hrun⟩ := (transferFile_rows isSuccessful c n).1 hlogs
    simp only [hrun, true_and]
    rw [← imp_iff_or_not]

end Codes

/-- A connection refused during the PUT: no client row, and a pcap row. -/
theorem not_accounted_putRaises :
    ¬ Accounted (fun code => 64 ≤ code && code < 96) .http "a.bin" true
      { fileSize := some 1000, probe := some (1 / 1000), attempt := fun _ => ⟨false, none, 1 / 100⟩,
        ttfb := none, stats := .zero, timestamp := "2026-01-01T00:00:00+00:00" }
      { captureStarts := true, client := ⟨[], 0⟩, captureStops := true, copied := true,
        fileSize := some 1000, analysis := some PcapRows.sampleResult,
        timestamp := "2026-01-01T00:00:10+00:00" } :=
  fun h => absurd h.1 (by decide +kernel)

end TransferTestbed.UploadClients
