import TransferTestbed.Common.Integrity
import TransferTestbed.Common.ResourceMonitor
import TransferTestbed.Output.WriteCsv

/-!
# The gRPC client

`send_file` (`protocols/GRPC/client/grpc_client.py`, lines 57–140), given what the server
and the clock do.

Results:
* `sendFile_of_not_uploads`, `sendFile_of_uploads`: how a call ends.
-/

namespace TransferTestbed.Grpc

open Integrity WriteCsv ResourceMonitor Binary64

/-- What `stub.Upload` does: it returns a result, raises `grpc.RpcError`, or raises
    something else, which `send_file` does not catch. -/
inductive Reply where
  | result (integrityOk : Bool) (receiverDuration : ℚ)
  | rpcError
  | exception
deriving DecidableEq, Repr

/-- What one call of `send_file` reads of the world. -/
structure Call where
  /-- The input file, if it exists. -/
  content : Option Bytes
  /-- `channel_ready_future` returns in time. -/
  ready : Bool
  /-- The latency of the ping, unless it raises. -/
  ping : Option ℚ
  /-- `GRPC_BASE_TIMEOUT_S` and `GRPC_MIN_THROUGHPUT_BPS`. -/
  baseTimeout : ℚ
  minThroughput : ℤ
  /-- The reply to the upload, for its deadline. -/
  reply : ℚ → Reply
  startTime : ℚ
  endTime : ℚ
  stats : Stats

/-- How `send_file` raises. -/
inductive SendError where
  | channelNotReady
  | pingFailed
  | uploadFailed
  | zeroDivision
deriving DecidableEq, Repr

/-- `deadline_s` (lines 95–98); the division may raise. -/
def deadline (c : Call) (fileSize : ℕ) : Option ℚ :=
  if c.minThroughput = 0 then none
  else some (max 600 (fl (c.baseTimeout + fl (fileSize * 8 / c.minThroughput))))

/-- `duration`, also of an upload that fails (line 112). -/
def Call.duration (c : Call) : ℚ := fl (c.endTime - c.startTime)

/-- The row of the sender (lines 117–131). -/
def senderRow (c : Call) (fileSize : ℕ) (latency : ℚ) (reply : Reply) : Row :=
  [("protocol", .str "grpc"), ("side", .str "sender"),
    ("file_size", .float (Binary64.trueDiv fileSize (1024 * 1024))),
    ("sender_duration", .str (Decimal.fixed 2 c.duration)),
    ("receiver_duration", .str (match reply with
      | .result _ receiverDuration => Decimal.fixed 2 receiverDuration
      | _ => "X")),
    ("latency", .str (Decimal.fixed 4 latency)),
    ("goodput_mbps", .str (Decimal.fixed 3 (goodputMbps fileSize c.duration))),
    ("integrity_ok", .bool (match reply with
      | .result integrityOk _ => integrityOk
      | _ => false))] ++
    c.stats.texts.map fun p => (p.1, .str p.2)

/-- What follows the upload (lines 100–132): the row, if there is a goodput. -/
def finishCall (c : Call) (fileSize : ℕ) (latency : ℚ) (reply : Reply) : Except SendError Row :=
  if reply = .exception then .error .uploadFailed
  else if microseconds c.duration = 0 then .error .zeroDivision
  else .ok (senderRow c fileSize latency reply)

/-- `send_file(filename)`: the row it appends; none for a missing file. -/
def sendFile (c : Call) : Except SendError (Option Row) :=
  match c.content with
  | none => .ok none
  | some bytes =>
    if c.ready = false then .error .channelNotReady
    else
      match c.ping with
      | none => .error .pingFailed
      | some latency =>
        match deadline c bytes.length with
        | none => .error .zeroDivision
        | some deadline => (finishCall c bytes.length latency (c.reply deadline)).map some

/-! ## How a call ends -/

/-- The call gets as far as the upload and its deadline. -/
def Call.Uploads (c : Call) : Prop := c.content ≠ none ∧ c.ready = true ∧ c.ping ≠ none

/-- The upload, if there is one, ends with a result or an `RpcError`. -/
def Call.Ends (c : Call) : Prop :=
  ∀ bytes ∈ c.content, ∀ d ∈ deadline c bytes.length, c.reply d ≠ .exception

/-- The call before its upload. -/
theorem sendFile_of_not_uploads {c : Call} (h : ¬ c.Uploads) :
    sendFile c = .ok none ∨ sendFile c = .error .channelNotReady ∨
      sendFile c = .error .pingFailed := by
  unfold sendFile
  cases hcontent : c.content with
  | none => exact .inl rfl
  | some bytes =>
    cases hready : c.ready with
    | false => exact .inr (.inl rfl)
    | true =>
      cases hping : c.ping with
      | none => exact .inr (.inr rfl)
      | some latency =>
        exact absurd ⟨by rw [hcontent]; simp, hready, by rw [hping]; simp⟩ h

/-- A call that gets to its upload. -/
theorem sendFile_of_uploads {c : Call} (h : c.Uploads) :
    ∃ bytes latency, c.content = some bytes ∧
      sendFile c =
        match deadline c bytes.length with
        | none => .error .zeroDivision
        | some d => (finishCall c bytes.length latency (c.reply d)).map some := by
  obtain ⟨hcontent, hready, hping⟩ := h
  obtain ⟨bytes, hbytes⟩ := Option.ne_none_iff_exists'.1 hcontent
  obtain ⟨latency, hlatency⟩ := Option.ne_none_iff_exists'.1 hping
  refine ⟨bytes, latency, hbytes, ?_⟩
  rw [sendFile, hbytes, hready, hlatency]
  rfl

theorem get?_goodput_senderRow (c : Call) (fileSize : ℕ) (latency : ℚ) (reply : Reply) :
    (senderRow c fileSize latency reply).get? "goodput_mbps" = 
      some (.str (Decimal.fixed 3 (goodputMbps fileSize c.duration))) := rfl

end TransferTestbed.Grpc
