import TransferTestbed.Transfer.Reassembly

/-!
# The receivers' integrity verdict

`_transfer_completed_handler` reads the output file through its path while the
handle that wrote it is still open. The bytes that the last write has left in the
handle's buffer are not in what it hashes.

Results:
* `row_of_tick`: the row of a transfer.
* `exact_iff`: the verdict is that of the closed file iff time has passed and the
  buffer is empty (or what is missing does not change the checksum).
-/

namespace TransferTestbed.Transfer

open Integrity Chunking Json

/-- A transfer of a file in these chunks, which announces some checksum. -/
def announced (filename checksum : String) (qos : Option ℤ) (payloads : List Bytes) : Metadata :=
  ⟨filename, payloads.length, checksum, qos⟩

/-- The verdict of a transfer is exact: whatever checksum is announced, one row is
    appended and its `integrity_ok` says whether the file, once its handle is closed,
    hashes to that checksum. -/
def Exact (k : Dialect) (w : World) (s : Receiver) (filename : String) (qos : Option ℤ)
    (payloads : List Bytes) : Prop :=
  ∀ checksum,
    let s' := deliver k w s (transferWire (announced filename checksum qos payloads) payloads)
    ∃ row : WriteCsv.Row, s'.rows = s.rows ++ [row] ∧
      row.get? "integrity_ok" = some (.bool (decide (checksum =
        computeSha256File ((s'.disk.view filename).getD []))))

variable {k : Dialect} {w : World} {s : Receiver} {filename checksum : String} {qos : Option ℤ}
  {payloads : List Bytes}

/-- Without a clock tick between the first chunk and the end, the last handler raises. -/
theorem rows_of_no_tick (hne : payloads ≠ [])
    (htick : w.clock (s.readings + 3) = w.clock (s.readings + 2)) :
    (deliver k w s (transferWire (announced filename checksum qos payloads) payloads)).rows =
      s.rows := by
  obtain ⟨received, payload, rfl⟩ := List.eq_nil_or_concat' payloads |>.resolve_left hne
  have hmid := midway_deliver k w s (announced filename checksum qos (received ++ [payload]))
    received (by simp [announced])
  rw [transferWire_concat, deliver_append, deliver_data]
  exact (hmid.handle_last_raises k payload (by simp [announced]) htick).2

/-- Otherwise a row is appended, whose verdict is about the flushed part of the file. -/
theorem row_of_tick (hne : payloads ≠ [])
    (htick : w.clock (s.readings + 3) ≠ w.clock (s.readings + 2)) :
    ∃ row : WriteCsv.Row,
      (deliver k w s (transferWire (announced filename checksum qos payloads) payloads)).rows =
        s.rows ++ [row] ∧
      row.get? "integrity_ok" = some (.bool (decide (checksum = computeSha256File
        (payloads.flatten.take (payloads.flatten.length - heldBytes w s.writes payloads))))) := by
  obtain ⟨received, payload, rfl⟩ := List.eq_nil_or_concat' payloads |>.resolve_left hne
  have hmid := midway_deliver k w s (announced filename checksum qos (received ++ [payload]))
    received (by simp [announced])
  obtain ⟨-, -, row, hrows, -, hverdict⟩ :=
    hmid.handle_last_returns k payload (by simp [announced]) htick
  rw [transferWire_concat, deliver_append, deliver_data]
  exact ⟨row, hrows, hverdict⟩

/-- The closed file holds all the chunks. -/
theorem view_deliver_announced :
    (deliver k w s (transferWire (announced filename checksum qos payloads) payloads)).disk.view
      filename = some payloads.flatten := by
  rw [view_deliver_transferWire k w s _ payloads (by simp [announced])]
  exact if_pos rfl

/-! ## The property -/

/-- If the verdict of an intact transfer is right, the flushed part of the file has
    the checksum of the whole. -/
theorem Exact.checksum_eq (hexact : Exact k w s filename qos payloads) (hne : payloads ≠ [])
    (htick : w.clock (s.readings + 3) ≠ w.clock (s.readings + 2)) :
    computeSha256File
        (payloads.flatten.take (payloads.flatten.length - heldBytes w s.writes payloads)) =
      computeSha256File payloads.flatten := by
  obtain ⟨row, hrows, hverdict⟩ := hexact (computeSha256File payloads.flatten)
  obtain ⟨row', hrows', hverdict'⟩ := row_of_tick hne htick
  obtain rfl : row = row' := by simpa using hrows.symm.trans hrows'
  rw [view_deliver_announced, Option.getD_some, decide_eq_true rfl, hverdict', Option.some.injEq,
    WriteCsv.Cell.bool.injEq, decide_eq_true_eq] at hverdict
  exact hverdict.symm

/-- **The verdict of a transfer is exact** iff the clock advances between its first
    chunk and its end and the last write leaves nothing in the buffer, unless the
    flushed part of the file happens to have the checksum of the whole. -/
theorem exact_iff (k : Dialect) (w : World) (s : Receiver) (filename : String) (qos : Option ℤ)
    (payloads : List Bytes) (hne : payloads ≠ []) :
    Exact k w s filename qos payloads ↔
      w.clock (s.readings + 3) ≠ w.clock (s.readings + 2) ∧
      (heldBytes w s.writes payloads = 0 ∨
        computeSha256File
            (payloads.flatten.take (payloads.flatten.length - heldBytes w s.writes payloads)) =
          computeSha256File payloads.flatten) := by
  by_cases htick : w.clock (s.readings + 3) = w.clock (s.readings + 2)
  · refine iff_of_false (fun hexact => ?_) fun h => h.1 htick
    obtain ⟨row, hrows, -⟩ := hexact ""
    rw [rows_of_no_tick hne htick] at hrows
    simpa using congrArg List.length hrows
  · rw [and_iff_right htick]
    constructor
    · exact fun hexact => Or.inr (hexact.checksum_eq hne htick)
    · intro hheld checksum
      obtain ⟨row, hrows, hverdict⟩ := row_of_tick hne htick
      have hsame : computeSha256File (payloads.flatten.take
          (payloads.flatten.length - heldBytes w s.writes payloads)) =
          computeSha256File payloads.flatten := by
        rcases hheld with hzero | hcollision
        · rw [hzero, Nat.sub_zero, List.take_length]
        · exact hcollision
      rw [hsame] at hverdict
      exact ⟨row, hrows, by rw [view_deliver_announced]; exact hverdict⟩

/-- A handle that writes through. -/
theorem exact_iff_writtenThrough :
    [[1, 2], [3]] ≠ ([] : List Bytes) ∧
      Exact .amqp (tickingWorld 0) (.init []) "a.bin" none [[1, 2], [3]] :=
  ⟨by simp, (exact_iff .amqp (tickingWorld 0) (.init []) "a.bin" none [[1, 2], [3]] (by simp)).2
    ⟨by norm_num [tickingWorld, Receiver.init], Or.inl (by decide)⟩⟩

/-- A file of five bytes, all of them in the buffer when it is hashed: an intact
    transfer is recorded as corrupted. -/
theorem not_exact_buffered :
    ¬ Exact .mqtt (tickingWorld 8192) (.init []) "a.bin" (some 1) [[1, 2, 3, 4, 5]] := by
  intro hexact
  have hchecksum := hexact.checksum_eq (by simp) (by norm_num [tickingWorld, Receiver.init])
  have hheld : heldBytes (tickingWorld 8192) (Receiver.init []).writes [[1, 2, 3, 4, 5]] = 5 := by
    decide
  have hne : sha256 [] ≠ sha256 [1, 2, 3, 4, 5] := by decide +kernel
  rw [hheld, computeSha256File_eq, computeSha256File_eq] at hchecksum
  exact hne hchecksum

end TransferTestbed.Transfer
