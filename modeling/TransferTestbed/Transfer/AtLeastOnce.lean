import TransferTestbed.Transfer.Reassembly

/-!
# At-least-once delivery

A transfer whose chunks may be delivered more than once: the control message comes
first, the first deliveries of the chunks are in order, and a chunk that has been
delivered may be delivered again at any later place. Chunks carry no index, so the
receiver counts every delivery; it takes no more after the announced number.

Results:
* `view_receive_data`: the file holds the first deliveries up to the announced number.
* `flatten_eq_iff`: when these make up the content.
* `receive_redelivered_iff`: when the file is the source file.
-/

namespace TransferTestbed.Transfer

open Integrity Chunking

/-! ## Deliveries -/

/-- The receiver process over messages: an exception out of a handler ends it. -/
def receive (k : Dialect) (w : World) : Receiver → List Message → Receiver
  | s, [] => s
  | s, m :: ms =>
    match (handle k w s m).2 with
    | none => receive k w (handle k w s m).1 ms
    | some _ => (handle k w s m).1

/-- Deliveries, by index, of `n` chunks of which the first `j` have been delivered:
    each delivery repeats one of these or is the next chunk. -/
def FirstsInOrder (n : ℕ) : ℕ → List ℕ → Prop
  | j, [] => j = n
  | j, i :: d => i < j ∧ FirstsInOrder n j d ∨ i = j ∧ FirstsInOrder n (j + 1) d

instance decidableFirstsInOrder (n : ℕ) : ∀ j d, Decidable (FirstsInOrder n j d)
  | j, [] => inferInstanceAs (Decidable (j = n))
  | j, _ :: d =>
    have := decidableFirstsInOrder n j d
    have := decidableFirstsInOrder n (j + 1) d
    inferInstanceAs (Decidable (_ ∧ _ ∨ _ ∧ _))

/-- The payload of the chunk `i`. -/
def payloadOf (content : Bytes) (i : ℕ) : Bytes := ((chunks content)[i]?).getD []

/-- The messages delivered: the control message, then chunks by their index. -/
def redelivered (filename : String) (content : Bytes) (qos : Option ℤ) (d : List ℕ) :
    List Message :=
  .control (metadataOf filename content qos).text :: d.map fun i => .data (payloadOf content i)

theorem FirstsInOrder.le {n j : ℕ} {d : List ℕ} (h : FirstsInOrder n j d) : j ≤ n := by
  induction d generalizing j with
  | nil => exact Nat.le_of_eq h
  | cons i d ih =>
    rcases h with ⟨-, h⟩ | ⟨-, h⟩
    · exact ih h
    · have := ih h
      omega

/-- A delivery is not ahead of its place. -/
theorem FirstsInOrder.getElem_le {n j : ℕ} {d : List ℕ} (h : FirstsInOrder n j d) (p : ℕ)
    (hp : p < d.length) : d[p] ≤ j + p := by
  induction d generalizing j p with
  | nil => exact absurd hp (Nat.not_lt_zero p)
  | cons i d ih =>
    cases p with
    | zero =>
      show i ≤ j + 0
      rcases h with ⟨hi, -⟩ | ⟨hi, -⟩
      · omega
      · omega
    | succ p =>
      have hp' : p < d.length := by simpa using hp
      show d[p] ≤ j + (p + 1)
      rcases h with ⟨-, h⟩ | ⟨-, h⟩
      · have := ih h p hp'
        omega
      · have := ih h p hp'
        omega

/-- Every chunk is delivered. -/
theorem FirstsInOrder.length_le {n j : ℕ} {d : List ℕ} (h : FirstsInOrder n j d) :
    n ≤ j + d.length := by
  induction d generalizing j with
  | nil => exact Nat.le_of_eq (Eq.symm h)
  | cons i d ih =>
    rw [List.length_cons]
    rcases h with ⟨-, h⟩ | ⟨-, h⟩
    · have := ih h
      omega
    · have := ih h
      omega

/-! ## The file -/

variable {k : Dialect} {w : World} {s : Receiver} {path : String}

theorem receive_idle (h : s.disk.handle = none) (xs : List Bytes) :
    receive k w s (xs.map .data) = s := by
  induction xs with
  | nil => rfl
  | cons x xs ih =>
    rw [List.map_cons, receive, handle_data_idle k w h]
    exact ih

/-- After the last announced chunk nothing is taken, whether its handler raises or not. -/
theorem receive_last (hopen : s.disk.OpenOn path) (x : Bytes) (xs : List Bytes)
    (hlast : pyEq (stored w s x).receivedChunks (stored w s x).expectedChunks = true) :
    receive k w s (.data x :: xs.map .data) = (handle k w s (.data x)).1 := by
  have hhandle := handle_data_last k w hopen hlast
  rw [receive]
  cases hret : (transferCompleted k w (stored w s x)).2 with
  | none =>
    rw [hret] at hhandle
    rw [hhandle]
    exact receive_idle rfl xs
  | some e =>
    rw [hret] at hhandle
    rw [hhandle]

/-- The file of an open transfer holds the deliveries up to the announced number,
    whatever follows them. -/
theorem view_receive_data (xs : List Bytes) {n r : ℕ} (hopen : s.disk.OpenOn path)
    (hexpected : s.expectedChunks = .int n) (hr : s.receivedChunks + r = n) (hpos : 0 < r)
    (hlen : r ≤ xs.length) (g : String) :
    (receive k w s (xs.map .data)).disk.view g =
      if g = path then some ((s.disk.view path).getD [] ++ (xs.take r).flatten)
      else s.disk.view g := by
  induction xs generalizing s r with
  | nil => exact absurd (hpos.trans_le hlen) (lt_irrefl 0)
  | cons x xs ih =>
    have hview := (handle_data_spec k w hopen x).1
    have hpy : pyEq (stored w s x).receivedChunks (stored w s x).expectedChunks =
        decide (r = 1) := by
      rw [stored_receivedChunks, stored_expectedChunks, hexpected, pyEq, decide_eq_decide]
      omega
    rw [List.map_cons]
    by_cases hlast : r = 1
    · rw [receive_last hopen x xs (by rw [hpy, decide_eq_true hlast]), hview g, hlast]
      simp
    · have hmore := handle_data_more k w hopen (hpy.trans (decide_eq_false hlast))
      have hopen' : (stored w s x).disk.OpenOn path := by
        rw [stored_disk]
        exact (Disk.view_write hopen x (min (w.buffered s.writes) w.bufferSize) path).1
      obtain ⟨r, rfl⟩ : ∃ r', r = r' + 1 := ⟨r - 1, by omega⟩
      rw [List.length_cons] at hlen
      have hcount : (stored w s x).receivedChunks + r = n := by
        rw [stored_receivedChunks]
        omega
      rw [hmore] at hview
      have hpath := hview path
      rw [if_pos rfl] at hpath
      rw [receive, hmore]
      show (receive k w (stored w s x) (xs.map .data)).disk.view g = _
      rw [ih hopen' (by rw [stored_expectedChunks, hexpected]) hcount (by omega) (by omega), hpath,
        hview g, Option.getD_some, List.take_succ_cons, List.flatten_cons, List.append_assoc]
      split_ifs with hg
      · rfl
      · rfl

/-- Without chunks there are no deliveries. -/
theorem FirstsInOrder.eq_nil {d : List ℕ} (h : FirstsInOrder 0 0 d) : d = [] := by
  cases d with
  | nil => rfl
  | cons i d =>
    rcases h with ⟨hi, -⟩ | ⟨-, h⟩
    · exact absurd hi (Nat.not_lt_zero i)
    · exact absurd h.le (Nat.not_succ_le_zero 0)

/-- The file after all the deliveries. -/
theorem view_receive_redelivered (k : Dialect) (w : World) (s : Receiver) (filename : String)
    (content : Bytes) (qos : Option ℤ) {d : List ℕ}
    (h : FirstsInOrder (chunks content).length 0 d) :
    (receive k w s (redelivered filename content qos d)).disk.view filename =
      some ((d.take (chunks content).length).map (payloadOf content)).flatten := by
  have hstart : (opened k w s (metadataOf filename content qos)).disk.view filename = some [] :=
    (Disk.view_openWrite s.disk filename filename).trans (if_pos rfl)
  have hmap : (d.map fun i => Message.data (payloadOf content i)) =
      (d.map (payloadOf content)).map .data := by rw [List.map_map]; rfl
  rw [redelivered, receive, handle_control]
  show (receive k w (opened k w s (metadataOf filename content qos))
    (d.map fun i => .data (payloadOf content i))).disk.view filename = _
  rw [hmap]
  rcases Nat.eq_zero_or_pos (chunks content).length with hzero | hpos
  · rw [hzero] at h
    rw [h.eq_nil, List.take_nil]
    exact hstart
  · have hlen := h.length_le
    have hopen : (opened k w s (metadataOf filename content qos)).disk.OpenOn filename :=
      Disk.openOn_openWrite _ _
    rw [view_receive_data (d.map (payloadOf content)) hopen rfl
      ((Nat.zero_add _).trans (length_chunks content)) hpos (by rw [List.length_map]; omega),
      if_pos rfl, hstart, List.map_take]
    rfl

/-! ## When the file is the source file -/

theorem getElem?_readChunks (n : ℕ) (rest : Bytes) (i : ℕ) :
    (readChunks n rest)[i]? =
      if i < n then some ((rest.drop (i * chunkSize)).take chunkSize) else none := by
  induction n generalizing rest i with
  | zero => simp [readChunks]
  | succ n ih =>
    cases i with
    | zero => simp [readChunks]
    | succ i =>
      rw [readChunks, List.getElem?_cons_succ, ih, List.drop_drop, Nat.succ_mul,
        Nat.add_comm chunkSize]
      simp only [Nat.add_lt_add_iff_right]

theorem length_getD_readChunks (n : ℕ) (rest : Bytes) (i : ℕ) :
    ((readChunks n rest)[i]?.getD []).length =
      if i < n then min chunkSize (rest.length - i * chunkSize) else 0 := by
  rw [getElem?_readChunks]
  by_cases h : i < n
  · rw [if_pos h, if_pos h, Option.getD_some, List.length_take, List.length_drop]
  · rw [if_neg h, if_neg h, Option.getD_none, List.length_nil]

/-- Later chunks are not longer. -/
theorem length_payloadOf_le (content : Bytes) {i j : ℕ} (hij : i ≤ j) :
    (payloadOf content j).length ≤ (payloadOf content i).length := by
  have hmul : i * chunkSize ≤ j * chunkSize := Nat.mul_le_mul_right _ hij
  rw [payloadOf, payloadOf, chunks, length_getD_readChunks, length_getD_readChunks]
  by_cases hj : j < calculateTotalChunks content.length
  · rw [if_pos hj, if_pos (hij.trans_lt hj)]
    exact min_le_min le_rfl (Nat.sub_le_sub_left hmul _)
  · rw [if_neg hj]
    exact Nat.zero_le _

theorem length_payloadOf (content : Bytes) (i : ℕ) : (payloadOf content i).length ≤ chunkSize := by
  rw [payloadOf, chunks, length_getD_readChunks]
  by_cases hi : i < calculateTotalChunks content.length
  · rw [if_pos hi]
    exact min_le_left _ _
  · rw [if_neg hi]
    exact Nat.zero_le _

theorem chunks_eq_map (content : Bytes) :
    chunks content = (List.range (chunks content).length).map (payloadOf content) := by
  apply List.ext_getElem
  · simp
  · intro i h1 h2
    rw [List.getElem_map, List.getElem_range, payloadOf, List.getElem?_eq_getElem h1]
    rfl

/-- Lists of numbers, pointwise ordered and with the same sum, are equal. -/
theorem eq_of_forall₂_le_of_sum {as bs : List ℕ} (h : List.Forall₂ (· ≤ ·) as bs)
    (hsum : as.sum = bs.sum) : as = bs := by
  induction h with
  | nil => rfl
  | cons hab h ih =>
    have hle := List.Forall₂.sum_le_sum h
    rw [List.sum_cons, List.sum_cons] at hsum
    rw [ih (by omega)]
    congr 1
    omega

theorem length_take_deliveries {n : ℕ} {d : List ℕ} (h : FirstsInOrder n 0 d) :
    (d.take n).length = n := by
  have := h.length_le
  rw [List.length_take]
  omega

/-- None of the deliveries taken is shorter than the chunk at its place. -/
theorem lengths_le {content : Bytes} {d : List ℕ} (h : FirstsInOrder (chunks content).length 0 d) :
    List.Forall₂ (· ≤ ·) ((chunks content).map List.length)
      (((d.take (chunks content).length).map (payloadOf content)).map List.length) := by
  have hlen := h.length_le
  rw [chunks_eq_map, List.forall₂_iff_get]
  refine ⟨by simp only [List.length_map, List.length_range, length_take_deliveries h], ?_⟩
  intro i h1 h2
  have hi : i < (chunks content).length := by simpa using h1
  have hplace := h.getElem_le i (by omega)
  simp only [List.get_eq_getElem, List.getElem_map, List.getElem_range, List.getElem_take]
  exact length_payloadOf_le content (by omega)

/-- The deliveries taken make up the content iff the chunks cover it and each of
    these deliveries has the payload of the chunk at its place. -/
theorem flatten_eq_iff {content : Bytes} {d : List ℕ}
    (h : FirstsInOrder (chunks content).length 0 d) :
    ((d.take (chunks content).length).map (payloadOf content)).flatten = content ↔
      Covered content.length ∧
        (d.take (chunks content).length).map (payloadOf content) = chunks content := by
  constructor
  · intro hflat
    have hsum : (((d.take (chunks content).length).map (payloadOf content)).map List.length).sum =
        content.length := by
      rw [← List.length_flatten, hflat]
    have hcovered : Covered content.length := by
      have hle := List.sum_le_card_nsmul
        (((d.take (chunks content).length).map (payloadOf content)).map List.length) chunkSize
        (by
          intro x hx
          rw [List.map_map] at hx
          obtain ⟨i, -, rfl⟩ := List.mem_map.1 hx
          exact length_payloadOf content i)
      rw [hsum, List.length_map, List.length_map, length_take_deliveries h, length_chunks,
        smul_eq_mul] at hle
      exact hle
    have hchunks := (flatten_chunks_eq_iff content).2 hcovered
    -- the lengths are ordered and have the same sum
    have hequal := eq_of_forall₂_le_of_sum (lengths_le h)
      (by rw [hsum, ← List.length_flatten, hchunks])
    refine ⟨hcovered, ?_⟩
    rw [List.eq_iff_flatten_eq]
    exact ⟨hflat.trans hchunks.symm, hequal.symm⟩
  · rintro ⟨hcovered, heq⟩
    rw [heq]
    exact (flatten_chunks_eq_iff content).2 hcovered

/-- **When at-least-once delivery reassembles.** Whatever the receiver did before,
    the file is the source file iff the chunks cover it and the first deliveries, as
    many as there are chunks, have the payloads of the chunks in order: no duplicate
    comes before the last first delivery, unless it has the payload due at its place. -/
theorem receive_redelivered_iff (k : Dialect) (w : World) (s : Receiver) (filename : String)
    (content : Bytes) (qos : Option ℤ) (d : List ℕ)
    (h : FirstsInOrder (chunks content).length 0 d) :
    (receive k w s (redelivered filename content qos d)).disk.view filename = some content ↔
      Covered content.length ∧
        (d.take (chunks content).length).map (payloadOf content) = chunks content := by
  rw [view_receive_redelivered k w s filename content qos h, Option.some.injEq, flatten_eq_iff h]

/-- A file of one byte more than one chunk. -/
def twoChunks : Bytes := List.replicate chunkSize 0 ++ [1]

theorem length_twoChunks : twoChunks.length = chunkSize + 1 := by
  rw [twoChunks, List.length_append, List.length_replicate, List.length_singleton]

theorem chunks_twoChunks : chunks twoChunks = [List.replicate chunkSize 0, [1]] := by
  have htotal : calculateTotalChunks (chunkSize + 1) = 2 := by
    have hle : chunkSize + 1 ≤ 2 ^ 53 := by norm_num [chunkSize]
    rw [calculateTotalChunks, trueDiv_chunkSize, Binary64.fl_natCast_mul_zpow hle,
      Nat.ceil_eq_iff (by norm_num)]
    norm_num [chunkSize]
  rw [chunks, length_twoChunks, htotal, readChunks, readChunks, readChunks, twoChunks,
    List.take_left' List.length_replicate, List.drop_left' List.length_replicate]
  rfl

theorem receive_redelivered_late :
    FirstsInOrder (chunks twoChunks).length 0 [0, 1, 0, 1] ∧
      ((receive .mqtt (tickingWorld 0) (.init [])
          (redelivered "a.bin" twoChunks (some 1) [0, 1, 0, 1])).disk.view "a.bin" =
            some twoChunks ↔
        Covered twoChunks.length ∧
          ([0, 1, 0, 1].take (chunks twoChunks).length).map (payloadOf twoChunks) =
            chunks twoChunks) := by
  have h : FirstsInOrder (chunks twoChunks).length 0 [0, 1, 0, 1] := by
    rw [chunks_twoChunks]
    decide
  exact ⟨h, receive_redelivered_iff .mqtt (tickingWorld 0) (.init []) "a.bin" twoChunks (some 1)
    [0, 1, 0, 1] h⟩

/-- The first chunk delivered twice before the second one: the file is the first
    chunk twice. -/
theorem receive_redelivered_early :
    FirstsInOrder (chunks twoChunks).length 0 [0, 0, 1] ∧
      (receive .mqtt (tickingWorld 0) (.init [])
        (redelivered "a.bin" twoChunks (some 1) [0, 0, 1])).disk.view "a.bin" ≠
          some twoChunks := by
  have h : FirstsInOrder (chunks twoChunks).length 0 [0, 0, 1] := by
    rw [chunks_twoChunks]
    decide
  refine ⟨h, ?_⟩
  rw [Ne, view_receive_redelivered .mqtt (tickingWorld 0) (.init []) "a.bin" twoChunks (some 1) h,
    Option.some.injEq, flatten_eq_iff h]
  rintro ⟨-, heq⟩
  have hpayload : payloadOf twoChunks 0 = List.replicate chunkSize 0 := by
    rw [payloadOf, chunks_twoChunks]
    rfl
  rw [chunks_twoChunks] at heq
  have hsecond : payloadOf twoChunks 0 = [1] := (List.cons.inj (List.cons.inj heq).2).1
  rw [hpayload] at hsecond
  have hlength := congrArg List.length hsecond
  rw [List.length_replicate, List.length_singleton] at hlength
  exact absurd hlength (by decide)

end TransferTestbed.Transfer
