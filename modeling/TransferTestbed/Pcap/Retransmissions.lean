import TransferTestbed.Pcap.Analyzer

/-!
# Retransmissions of a CoAP capture

A capture made of the Confirmable messages of any number of sources, their
retransmissions, and other CoAP frames, as tshark prints it, against the count
that `analyze_pcap` reports. A source numbers its messages one after the other
modulo `2^16`, so its numbers repeat after 65536 messages.

Results:
* `conKeys_coapOutput`: the keys that are counted are those of the CON frames.
* `card_residues`: how many Message IDs a number of messages uses.
* `reported_capture`: the count, for every capture.
* `analyzePcap_retransmissions_iff`: the count is the number of retransmissions iff
  no source sends more than 65536 messages.
-/

namespace TransferTestbed.Pcap

open Runs PcapRows Decimal

/-! ## Captures -/

inductive CoapType where
  | con
  | non
  | ack
  | rst
deriving DecidableEq, Repr

/-- `coap.type`. -/
def CoapType.text : CoapType → String
  | .con => "0"
  | .non => "1"
  | .ack => "2"
  | .rst => "3"

/-- An IPv4 address, as `ip.src` shows it. -/
structure Address where
  text : String
  ne_empty : text ≠ ""
  dotted : ∀ c ∈ text.toList, isDigit c = true ∨ c = '.'
deriving DecidableEq

/-- The number of Message IDs. -/
def messageIds : ℕ := 65536

/-- A CoAP frame: the fields that the third query asks for. -/
structure Frame where
  type : CoapType
  mid : Fin messageIds
  source : Address
deriving DecidableEq

def midText (mid : Fin messageIds) : String := String.ofList (natText mid)

def Frame.cells (f : Frame) : List String := [f.type.text, midText f.mid, f.source.text]

/-- What the analyzer counts a CON frame under. -/
def Frame.key (f : Frame) : String × String := (midText f.mid, f.source.text)

/-- A source of Confirmable messages: the Message ID of its first message, and for
    each message the number of its retransmissions. -/
structure Source where
  address : Address
  start : ℕ
  retransmitted : List ℕ

def Source.mid (s : Source) (j : ℕ) : Fin messageIds :=
  ⟨(s.start + j) % messageIds, Nat.mod_lt _ (by decide)⟩

def Source.frame (s : Source) (j : ℕ) : Frame := ⟨.con, s.mid j, s.address⟩

/-- Every frame the source sends: a message and its retransmissions are the same frame. -/
def Source.frames (s : Source) : List Frame :=
  s.retransmitted.zipIdx.flatMap fun p => List.replicate (1 + p.1) (s.frame p.2)

def isCon (f : Frame) : Bool := f.type = .con

/-- The frames of the sources in any order, among any other CoAP frames. -/
structure IsCapture (sources : List Source) (capture : List Frame) : Prop where
  distinct : (sources.map fun s => s.address.text).Nodup
  perm : (capture.filter isCon).Perm (sources.flatMap Source.frames)

/-- What tshark prints of a capture: for the first query a line of four cells for
    each frame, for the second some text, for the third the cells of each frame. -/
structure Describes (tshark : Tshark) (capture : List Frame) : Prop where
  frames : ∃ rows : List (List String), rows.length = capture.length ∧
    (∀ row ∈ rows, row.length = 4 ∧ ∀ cell ∈ row, Plain cell) ∧
    runTshark tshark none frameFields [] = some (fieldsOutput frameFields rows)
  protocol : ∃ text, runTshark tshark (some "coap") ["frame.number", "frame.len", "coap.code"] [] =
    some text
  coap : runTshark tshark (some "coap") coapFields [] =
    some (fieldsOutput coapFields (capture.map Frame.cells))

/-! ## Texts -/

/-- The characters of the cells. -/
def isCellChar (c : Char) : Bool := isDigit c || c = '.'

theorem isSpace_cellChar {c : Char} (h : isCellChar c = true) : isSpace c = false := by
  rcases (Bool.or_eq_true _ _).mp h with h | h
  · simp only [isDigit, Bool.and_eq_true, decide_eq_true_eq] at h
    simp only [isSpace, Bool.or_eq_false_iff, Bool.and_eq_false_iff, decide_eq_false_iff_not]
    omega
  · rw [decide_eq_true_eq] at h
    rw [h]
    decide

theorem plain_of_cellChars {s : String} (h : ∀ c ∈ s.toList, isCellChar c = true) : Plain s := by
  intro c hc
  rcases (Bool.or_eq_true _ _).mp (h c hc) with h | h
  · simp only [isDigit, Bool.and_eq_true, decide_eq_true_eq] at h
    constructor
    · simp only [Lines.isLineBreak, Bool.or_eq_false_iff, Bool.and_eq_false_iff,
        decide_eq_false_iff_not]
      omega
    · rintro rfl
      revert h
      decide
  · rw [decide_eq_true_eq] at h
    rw [h]
    decide

theorem isCellChar_natText (n : ℕ) : ∀ c ∈ natText n, isCellChar c = true := by
  intro c hc
  rcases eq_or_ne n 0 with rfl | hn
  · rw [List.mem_singleton.1 hc]
    decide
  · rw [natText_eq hn] at hc
    obtain ⟨d, hd, rfl⟩ := List.mem_map.1 hc
    have := isDigit_digitChar (Nat.digits_lt_base (by norm_num) (List.mem_reverse.1 hd))
    rw [isCellChar, this]
    rfl

theorem natText_injective {m n : ℕ} (h : natText m = natText n) : m = n := by
  have hm := readNat_natText m [] (by simp)
  have hn := readNat_natText n [] (by simp)
  rw [h, hn] at hm
  exact (congrArg Prod.fst (Option.some.inj hm)).symm

theorem isCellChar_midText (mid : Fin messageIds) :
    ∀ c ∈ (midText mid).toList, isCellChar c = true := by
  rw [midText, String.toList_ofList]
  exact isCellChar_natText mid

theorem isCellChar_address (a : Address) : ∀ c ∈ a.text.toList, isCellChar c = true := by
  intro c hc
  rcases a.dotted c hc with h | h
  · rw [isCellChar, h]
    rfl
  · rw [h]
    decide

theorem isCellChar_type (t : CoapType) : ∀ c ∈ t.text.toList, isCellChar c = true := by
  cases t <;> simp [CoapType.text, isCellChar, isDigit]

theorem plain_cells (f : Frame) : ∀ cell ∈ f.cells, Plain cell := by
  intro cell hcell
  simp only [Frame.cells, List.mem_cons, List.not_mem_nil, or_false] at hcell
  rcases hcell with rfl | rfl | rfl
  · exact plain_of_cellChars (isCellChar_type f.type)
  · exact plain_of_cellChars (isCellChar_midText f.mid)
  · exact plain_of_cellChars (isCellChar_address f.source)

theorem printed_cells (f : Frame) : Printed f.cells := printed_cons_cons _ _ _

theorem midText_ne_empty (mid : Fin messageIds) : midText mid ≠ "" := by
  intro h
  obtain ⟨c, cs, hcs, -⟩ := isDigit_head_natText mid
  rw [midText, hcs, ← String.toList_inj, String.toList_ofList] at h
  simp at h

/-! ## The keys counted -/

theorem isBlank_quotedLine {cells : List String} (h : Printed cells) :
    isBlank (String.ofList (quotedLine cells)) = false := by
  obtain ⟨c, hhead, hc⟩ := head?_quotedLine h
  have hmem : c ∈ (String.ofList (quotedLine cells)).toList := by
    rw [String.toList_ofList]
    exact List.mem_of_head? hhead
  have hspace : isSpace c = false := by
    rcases hc with rfl | rfl
    · decide
    · decide
  have hstrip := mem_strip hmem hspace
  rw [isBlank, decide_eq_false_iff_not]
  intro hempty
  rw [hempty] at hstrip
  simp at hstrip

/-- The line of a frame. -/
theorem conKey_frame (f : Frame) :
    conKey (String.ofList (quotedLine f.cells)) = if isCon f then some f.key else none := by
  have hspace {s : String} (h : ∀ c ∈ s.toList, isCellChar c = true) : strip s = s :=
    strip_eq_self fun c hc => isSpace_cellChar (h c hc)
  rw [conKey, isBlank_quotedLine (printed_cells f),
    csvFields_quotedLine (printed_cells f) (plain_cells f)]
  simp only [Frame.cells, Bool.false_eq_true, if_false]
  rw [hspace (isCellChar_type f.type), hspace (isCellChar_midText f.mid),
    hspace (isCellChar_address f.source)]
  have htype : f.type.text = "0" ↔ isCon f = true := by
    rw [isCon, decide_eq_true_eq]
    cases f.type <;> simp [CoapType.text]
  simp only [htype, ne_eq, midText_ne_empty, f.source.ne_empty, not_false_eq_true, and_true]
  rfl

theorem solid_coapFields : Solid (",".intercalate coapFields).toList := by
  have htext : ",".intercalate coapFields = "coap.type,coap.mid,ip.src" := by decide +kernel
  rw [htext]
  refine ⟨?_, ⟨'c', by simp, by decide⟩, ⟨'c', by simp, by decide⟩⟩
  simp [Lines.IsLine, Lines.isLineBreak]

theorem solid_frameFields : Solid (",".intercalate frameFields).toList := by
  have htext : ",".intercalate frameFields =
      "frame.number,frame.len,frame.time_relative,ip.proto" := by decide +kernel
  rw [htext]
  refine ⟨?_, ⟨'f', by simp, by decide⟩, ⟨'o', by simp, by decide⟩⟩
  simp [Lines.IsLine, Lines.isLineBreak]

theorem outputLines_coapOutput (capture : List Frame) :
    outputLines (fieldsOutput coapFields (capture.map Frame.cells)) =
      ",".intercalate coapFields ::
        capture.map fun f => String.ofList (quotedLine f.cells) := by
  rw [outputLines_fieldsOutput solid_coapFields, List.map_map]
  · rfl
  · intro row hrow
    obtain ⟨f, -, rfl⟩ := List.mem_map.1 hrow
    exact ⟨printed_cells f, plain_cells f⟩

/-- The keys that are counted are those of the CON frames. -/
theorem conKeys_coapOutput (capture : List Frame) :
    (dataLines (fieldsOutput coapFields (capture.map Frame.cells))).filterMap conKey =
      (capture.filter isCon).map Frame.key := by
  rw [dataLines, outputLines_coapOutput, List.drop_one, List.tail_cons, List.filterMap_map]
  induction capture with
  | nil => rfl
  | cons f capture ih =>
    have hf := conKey_frame f
    rw [List.filterMap_cons, Function.comp_apply, hf, List.filter_cons]
    split_ifs with hcon
    · rw [List.map_cons, ih]
    · exact ih

/-! ## Counting the pairs -/

/-- How many values `n` successive numbers take modulo `m`. -/
theorem card_residues (start n : ℕ) {m : ℕ} (hm : 0 < m) :
    ((Finset.range n).image fun j => (start + j) % m).card = min n m := by
  have hinj : Set.InjOn (fun j => (start + j) % m) (Finset.range (min n m) : Set ℕ) := by
    intro i hi j hj h
    have hi' : i < min n m := by simpa using hi
    have hj' : j < min n m := by simpa using hj
    have hmod : i ≡ j [MOD m] := Nat.ModEq.add_left_cancel' start h
    exact hmod.eq_of_lt_of_lt (by omega) (by omega)
  have hcard : ((Finset.range (min n m)).image fun j => (start + j) % m).card = min n m := by
    rw [Finset.card_image_of_injOn hinj, Finset.card_range]
  apply le_antisymm
  · rcases Nat.le_total n m with h | h
    · rw [Nat.min_eq_left h]
      exact Finset.card_image_le.trans (Finset.card_range n).le
    · rw [Nat.min_eq_right h]
      have hsub : ((Finset.range n).image fun j => (start + j) % m) ⊆ Finset.range m := by
        intro x hx
        obtain ⟨j, -, rfl⟩ := Finset.mem_image.1 hx
        exact Finset.mem_range.2 (Nat.mod_lt _ hm)
      exact (Finset.card_le_card hsub).trans (Finset.card_range m).le
  · rw [← hcard]
    apply Finset.card_le_card
    exact Finset.image_subset_image (Finset.range_mono (Nat.min_le_left n m))

/-- The number of messages a source sends. -/
def Source.sent (s : Source) : ℕ := s.retransmitted.length

theorem length_zipIdx_replicate (f : ℕ → Frame) (rs : List ℕ) (k : ℕ) :
    ((rs.zipIdx k).flatMap fun p => List.replicate (1 + p.1) (f p.2)).length =
      rs.length + rs.sum := by
  induction rs generalizing k with
  | nil => rfl
  | cons r rs ih =>
    rw [List.zipIdx_cons, List.flatMap_cons, List.length_append, ih, List.length_replicate,
      List.length_cons, List.sum_cons]
    omega

theorem length_frames (s : Source) : s.frames.length = s.sent + s.retransmitted.sum :=
  length_zipIdx_replicate s.frame s.retransmitted 0

theorem mem_zipIdx_replicate (f : ℕ → Frame) (rs : List ℕ) (k : ℕ) (x : Frame) :
    (x ∈ (rs.zipIdx k).flatMap fun p => List.replicate (1 + p.1) (f p.2)) ↔
      ∃ j < rs.length, x = f (k + j) := by
  constructor
  · intro hx
    obtain ⟨p, hp, hxp⟩ := List.mem_flatMap.1 hx
    obtain ⟨hk, hlt, -⟩ := List.mem_zipIdx hp
    refine ⟨p.2 - k, by omega, ?_⟩
    rw [List.eq_of_mem_replicate hxp, Nat.add_sub_cancel' hk]
  · rintro ⟨j, hj, rfl⟩
    refine List.mem_flatMap.2 ⟨(rs[j], k + j), ?_, ?_⟩
    · rw [List.mk_add_mem_zipIdx_iff_getElem?]
      exact List.getElem?_eq_getElem hj
    · rw [List.mem_replicate]
      exact ⟨by omega, rfl⟩

/-- The keys of a source: one for each Message ID it uses. -/
theorem card_keys (s : Source) :
    (s.frames.map Frame.key).toFinset.card = min s.sent messageIds := by
  have hset : (s.frames.map Frame.key).toFinset =
      ((Finset.range s.sent).image fun j => (s.start + j) % messageIds).image
        fun r => (String.ofList (natText r), s.address.text) := by
    ext key
    rw [List.mem_toFinset, List.mem_map, Finset.image_image, Finset.mem_image]
    constructor
    · rintro ⟨f, hf, rfl⟩
      obtain ⟨j, hj, rfl⟩ := (mem_zipIdx_replicate s.frame s.retransmitted 0 f).1 hf
      rw [Nat.zero_add]
      exact ⟨j, Finset.mem_range.2 hj, rfl⟩
    · rintro ⟨j, hj, rfl⟩
      refine ⟨s.frame j, ?_, rfl⟩
      refine (mem_zipIdx_replicate s.frame s.retransmitted 0 _).2 ⟨j, Finset.mem_range.1 hj, ?_⟩
      rw [Nat.zero_add]
  rw [hset, Finset.card_image_of_injective, card_residues s.start s.sent (by decide)]
  intro a b h
  apply natText_injective
  have := congrArg (fun p : String × String => p.1.toList) h
  simpa only [String.toList_ofList] using this

/-- The keys of all sources. -/
theorem card_sources (sources : List Source)
    (h : (sources.map fun s => s.address.text).Nodup) :
    ((sources.flatMap Source.frames).map Frame.key).toFinset.card =
      (sources.map fun s => min s.sent messageIds).sum := by
  induction sources with
  | nil => rfl
  | cons s sources ih =>
    rw [List.map_cons, List.nodup_cons] at h
    rw [List.flatMap_cons, List.map_append, List.toFinset_append, Finset.card_union_of_disjoint,
      card_keys, ih h.2, List.map_cons, List.sum_cons]
    -- the sources have different addresses
    rw [Finset.disjoint_left]
    intro key hs hrest
    rw [List.mem_toFinset, List.mem_map] at hs hrest
    obtain ⟨f, hf, rfl⟩ := hs
    obtain ⟨g, hg, hkey⟩ := hrest
    obtain ⟨t, ht, hgt⟩ := List.mem_flatMap.1 hg
    obtain ⟨i, -, rfl⟩ := (mem_zipIdx_replicate s.frame s.retransmitted 0 f).1 hf
    obtain ⟨j, -, rfl⟩ := (mem_zipIdx_replicate t.frame t.retransmitted 0 g).1 hgt
    have haddr : t.address.text = s.address.text := congrArg Prod.snd hkey
    exact h.1 (haddr ▸ List.mem_map_of_mem (f := fun s : Source => s.address.text) ht)

theorem length_sources (sources : List Source) :
    (sources.flatMap Source.frames).length =
      (sources.map fun s => s.sent + s.retransmitted.sum).sum := by
  rw [List.length_flatMap]
  exact congrArg List.sum (List.map_congr_left fun s _ => length_frames s)

/-! ## The reported number -/

/-- The number reported for a capture: the retransmissions, and for each source the
    messages beyond the first 65536, which reuse the Message ID of an earlier one. -/
theorem reported_capture {sources : List Source} {capture : List Frame}
    (h : IsCapture sources capture) :
    coapRetransmissions (fieldsOutput coapFields (capture.map Frame.cells)) =
      (sources.map fun s => s.retransmitted.sum + (s.sent - messageIds)).sum := by
  have hcount := coapRetransmissions_add_card (fieldsOutput coapFields (capture.map Frame.cells))
  have hperm := h.perm.map Frame.key
  rw [conKeys_coapOutput, List.toFinset_eq_of_perm _ _ hperm, hperm.length_eq, List.length_map,
    card_sources sources h.distinct, length_sources] at hcount
  have hsum (l : List Source) : (l.map fun s => s.retransmitted.sum + (s.sent - messageIds)).sum +
      (l.map fun s => min s.sent messageIds).sum =
        (l.map fun s => s.sent + s.retransmitted.sum).sum := by
    induction l with
    | nil => rfl
    | cons s l ih =>
      simp only [List.map_cons, List.sum_cons]
      omega
  have := hsum sources
  omega

theorem sum_add_eq_iff (sources : List Source) :
    (sources.map fun s => s.retransmitted.sum + (s.sent - messageIds)).sum =
        (sources.map fun s => s.retransmitted.sum).sum ↔
      ∀ s ∈ sources, s.sent ≤ messageIds := by
  have hle (l : List Source) : (l.map fun s => s.retransmitted.sum).sum ≤
      (l.map fun s => s.retransmitted.sum + (s.sent - messageIds)).sum :=
    List.sum_le_sum fun s _ => Nat.le_add_right _ _
  induction sources with
  | nil => simp
  | cons s sources ih =>
    rw [List.forall_mem_cons]
    have := hle sources
    simp only [List.map_cons, List.sum_cons]
    constructor
    · intro h
      exact ⟨by omega, ih.1 (by omega)⟩
    · rintro ⟨hs, hrest⟩
      have := ih.2 hrest
      omega

theorem protocolConfig_coap {protocol : String} (h : protocol = "coap" ∨ protocol = "lwm2m") :
    protocolConfig.get? protocol = some ⟨"coap", ["coap.code"], false, []⟩ := by
  rcases h with rfl | rfl
  · decide
  · decide

/-- A capture is analysed unless it is empty. -/
theorem analyzePcap_capture {tshark : Tshark} {capture : List Frame}
    (h : Describes tshark capture) {protocol : String}
    (hprotocol : protocol = "coap" ∨ protocol = "lwm2m") (fileSizeBytes : ℕ)
    (filename : Option String) (qosLevel : Option ℤ) (label : Option String) (P : ℤ → Prop) :
    (∃ r, analyzePcap true tshark fileSizeBytes protocol filename qosLevel label = .ok r ∧
        P r.retransmissions) ↔
      capture ≠ [] ∧
        P (coapRetransmissions (fieldsOutput coapFields (capture.map Frame.cells))) := by
  obtain ⟨rows, hlength, hrows, hframes⟩ := h.frames
  obtain ⟨protoOutput, hproto⟩ := h.protocol
  rw [analyzePcap_eq_ok (protocolConfig_coap hprotocol) rfl hframes hproto h.coap]
  have hlines : (outputLines (fieldsOutput frameFields rows)).length = capture.length + 1 := by
    rw [outputLines_fieldsOutput solid_frameFields]
    · simp [hlength]
    · intro row hrow
      obtain ⟨hfour, hplain⟩ := hrows row hrow
      refine ⟨⟨?_, ?_⟩, hplain⟩
      · rintro rfl
        cases hfour
      · rintro rfl
        cases hfour
  rw [hlines, ← List.length_pos_iff_ne_nil]
  have : 1 < capture.length + 1 ↔ 0 < capture.length := by omega
  rw [this]

/-- **When the CoAP count is true.** For every capture made of any sources'
    messages and retransmissions, interleaved with any other CoAP frames, the
    analysis returns the number of retransmissions iff the capture holds a frame
    and no source sends more messages than there are Message IDs. -/
theorem analyzePcap_retransmissions_iff {tshark : Tshark} {sources : List Source}
    {capture : List Frame} (hcapture : IsCapture sources capture)
    (htshark : Describes tshark capture) {protocol : String}
    (hprotocol : protocol = "coap" ∨ protocol = "lwm2m") (fileSizeBytes : ℕ)
    (filename : Option String) (qosLevel : Option ℤ) (label : Option String) :
    (∃ r, analyzePcap true tshark fileSizeBytes protocol filename qosLevel label = .ok r ∧
        r.retransmissions = ((sources.map fun s => s.retransmitted.sum).sum : ℕ)) ↔
      capture ≠ [] ∧ ∀ s ∈ sources, s.sent ≤ messageIds := by
  rw [analyzePcap_capture htshark hprotocol fileSizeBytes filename qosLevel label
    fun count => count = ((sources.map fun s => s.retransmitted.sum).sum : ℕ)]
  rw [Nat.cast_inj, reported_capture hcapture, sum_add_eq_iff]

/-! ## A capture of requests -/

def cellNumber (n : ℕ) : String := String.ofList (natText n)

/-- tshark on a capture of 60-byte datagrams that arrive at once. -/
def tsharkFor (capture : List Frame) : Tshark := fun args =>
  if args = tsharkArgs none frameFields [] then
    some (fieldsOutput frameFields
      (capture.zipIdx.map fun p => [cellNumber (p.2 + 1), "60", "0.000000000", "17"]))
  else if args = tsharkArgs (some "coap") ["frame.number", "frame.len", "coap.code"] [] then
    some (fieldsOutput ["frame.number", "frame.len", "coap.code"]
      (capture.zipIdx.map fun p => [cellNumber (p.2 + 1), "60", "3"]))
  else if args = tsharkArgs (some "coap") coapFields [] then
    some (fieldsOutput coapFields (capture.map Frame.cells))
  else none

theorem describes_tsharkFor (capture : List Frame) : Describes (tsharkFor capture) capture where
  frames := by
    refine ⟨_, ?_, ?_, rfl⟩
    · rw [List.length_map, List.length_zipIdx]
    · intro row hrow
      obtain ⟨p, -, rfl⟩ := List.mem_map.1 hrow
      refine ⟨rfl, ?_⟩
      intro cell hcell
      apply plain_of_cellChars
      simp only [List.mem_cons, List.not_mem_nil, or_false] at hcell
      rcases hcell with rfl | rfl | rfl | rfl
      · rw [cellNumber, String.toList_ofList]
        exact isCellChar_natText _
      · simp [isCellChar, isDigit]
      · simp [isCellChar, isDigit]
      · simp [isCellChar, isDigit]
  protocol := by
    have h : tsharkArgs (some "coap") ["frame.number", "frame.len", "coap.code"] [] ≠
        tsharkArgs none frameFields [] := by decide
    rw [runTshark, tsharkFor, if_neg h, if_pos rfl]
    exact ⟨_, rfl⟩
  coap := by
    have h : tsharkArgs (some "coap") coapFields [] ≠ tsharkArgs none frameFields [] := by decide
    have h' : tsharkArgs (some "coap") coapFields [] ≠
        tsharkArgs (some "coap") ["frame.number", "frame.len", "coap.code"] [] := by decide
    rw [runTshark, tsharkFor, if_neg h, if_neg h', if_pos rfl]

def clientAddress : Address := ⟨"172.18.0.3", by decide, by simp [isDigit]⟩

/-- A client that sends `n` messages and retransmits none. -/
def quietClient (n : ℕ) : Source := ⟨clientAddress, 0, List.replicate n 0⟩

theorem isCapture_quietClient (n : ℕ) : IsCapture [quietClient n] (quietClient n).frames where
  distinct := List.nodup_singleton _
  perm := by
    have hcon : ∀ f ∈ (quietClient n).frames, isCon f = true := by
      intro f hf
      obtain ⟨j, -, rfl⟩ := (mem_zipIdx_replicate _ _ 0 f).1 hf
      rfl
    rw [List.filter_eq_self.2 hcon, List.flatMap_singleton]

def serverAddress : Address := ⟨"172.18.0.2", by decide, by simp [isDigit]⟩

/-- A client whose numbers wrap around, and a server. -/
def lossySources : List Source := [⟨clientAddress, 65535, [1, 0, 2]⟩, ⟨serverAddress, 0, [1]⟩]

/-- Their messages interleaved, both sides using the number 0. An acknowledgement echoes
    the number that it acknowledges, from the other address. -/
def lossyCapture : List Frame :=
  let client (mid : Fin messageIds) : Frame := ⟨.con, mid, clientAddress⟩
  let server (mid : Fin messageIds) : Frame := ⟨.con, mid, serverAddress⟩
  let ack (mid : Fin messageIds) (source : Address) : Frame := ⟨.ack, mid, source⟩
  [client ⟨65535, by decide⟩, client ⟨65535, by decide⟩, ack ⟨65535, by decide⟩ serverAddress,
    server ⟨0, by decide⟩, client ⟨0, by decide⟩, ack ⟨0, by decide⟩ clientAddress,
    server ⟨0, by decide⟩, client ⟨1, by decide⟩, client ⟨1, by decide⟩,
    ack ⟨0, by decide⟩ serverAddress, client ⟨1, by decide⟩, ack ⟨1, by decide⟩ serverAddress]

theorem isCapture_lossy : IsCapture lossySources lossyCapture where
  distinct := by decide
  perm := by decide +kernel

/-- Four of the eight CON frames are retransmissions, and four are reported. -/
theorem analyzePcap_retransmissions_lossy :
    IsCapture lossySources lossyCapture ∧ Describes (tsharkFor lossyCapture) lossyCapture ∧
      ∃ r, analyzePcap true (tsharkFor lossyCapture) 2049 "coap" none none none = .ok r ∧
        r.retransmissions = 4 := by
  refine ⟨isCapture_lossy, describes_tsharkFor _, ?_⟩
  exact (analyzePcap_retransmissions_iff isCapture_lossy (describes_tsharkFor _) (Or.inl rfl)
    2049 none none none).2 ⟨by decide, by decide⟩

/-- A transfer of 64 MiB and a block in blocks of 1024 bytes, without a
    retransmission: the last request reuses the first Message ID and is counted. -/
theorem analyzePcap_wrapped :
    IsCapture [quietClient 65537] (quietClient 65537).frames ∧
      Describes (tsharkFor (quietClient 65537).frames) (quietClient 65537).frames ∧
      ([quietClient 65537].map fun s => s.retransmitted.sum).sum = 0 ∧
      ∃ r, analyzePcap true (tsharkFor (quietClient 65537).frames) 67109888 "coap" none none none =
        .ok r ∧ r.retransmissions = 1 := by
  have hcapture := isCapture_quietClient 65537
  have hreported := reported_capture hcapture
  have hsent : (quietClient 65537).sent = 65537 := List.length_replicate
  have hsum : (quietClient 65537).retransmitted.sum = 0 := by
    rw [quietClient, List.sum_replicate]
    rfl
  rw [List.map_singleton, List.sum_singleton, hsum, hsent] at hreported
  refine ⟨hcapture, describes_tsharkFor _, ?_, ?_⟩
  · rw [List.map_singleton, List.sum_singleton, hsum]
  · refine (analyzePcap_capture (describes_tsharkFor _) (Or.inl rfl) 67109888 none none none
      fun count => count = 1).2 ⟨?_, by rw [hreported]; rfl⟩
    rw [← List.length_pos_iff_ne_nil, length_frames, hsent]
    omega

end TransferTestbed.Pcap
