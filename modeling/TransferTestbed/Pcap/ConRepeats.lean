import TransferTestbed.Pcap.Analyzer
import TransferTestbed.Pcap.Output

/-!
# The count of repeated CON messages

What `analyze_pcap` reports as the retransmissions of a CoAP capture, for every output of
its query for `coap.type`, `coap.mid` and `ip.src`.

Results:

* `retransmissions_of_ok`: the number reported is the count over the output of the query.
* `conKey_eq_none_iff`: the lines that are passed over.
* `reported_conRepeats`: the number reported, and how it changes with the lines.
-/

namespace TransferTestbed.Pcap

open Runs PcapRows

/-! ## The property -/

/-- A line that is not counted: blank, short, of another type than CON (an ACK, a NON, an
    RST), or without a Message ID or a source. -/
inductive PassedOver (line : String) : Prop
  | blank (h : isBlank line = true)
  | short (h : (csvFields line).length < 3)
  | otherType (msgType : String) (rest : List String) (h : csvFields line = msgType :: rest)
      (htype : strip msgType ≠ "0")
  | empty (msgType mid src : String) (rest : List String)
      (h : csvFields line = msgType :: mid :: src :: rest)
      (hempty : strip mid = "" ∨ strip src = "")

/-- The arguments of `analyze_pcap` apart from the pcap, and whether that exists. -/
structure Request where
  pcapExists : Bool
  fileSizeBytes : ℕ
  protocol : String
  filename : Option String
  qosLevel : Option ℤ
  label : Option String

def Request.analyze (q : Request) (tshark : Tshark) : Except AnalysisError PcapResult :=
  analyzePcap q.pcapExists tshark q.fileSizeBytes q.protocol q.filename q.qosLevel q.label

/-! ## Lines -/

/-- The cells of a line as the loop reads them: without the blanks around them. -/
theorem conKey_eq (line : String) : conKey line =
    if isBlank line then none
    else
      match (csvFields line).map strip with
      | msgType :: mid :: src :: _ =>
        if msgType = "0" ∧ mid ≠ "" ∧ src ≠ "" then some (mid, src) else none
      | _ => none := by
  unfold conKey
  match csvFields line with
  | [] => rfl
  | [_] => rfl
  | [_, _] => rfl
  | _ :: _ :: _ :: _ => rfl

theorem conKey_eq_none_iff (line : String) : conKey line = none ↔ PassedOver line := by
  constructor
  · intro h
    cases hblank : isBlank line with
    | true => exact .blank hblank
    | false =>
      rw [conKey, hblank, if_neg Bool.false_ne_true] at h
      match hcells : csvFields line with
      | [] => exact .short (by simp [hcells])
      | [_] => exact .short (by simp [hcells])
      | [_, _] => exact .short (by simp [hcells])
      | msgType :: mid :: src :: rest =>
        simp only [hcells, ite_eq_right_iff, reduceCtorEq, imp_false, not_and_or, not_not] at h
        rcases h with htype | hmid | hsrc
        · exact .otherType msgType _ hcells htype
        · exact .empty msgType mid src rest hcells (.inl hmid)
        · exact .empty msgType mid src rest hcells (.inr hsrc)
  · intro h
    unfold conKey
    cases h with
    | blank h => rw [if_pos h]
    | short h =>
      match hcells : csvFields line, h with
      | [], _ => simp
      | [_], _ => simp
      | [_, _], _ => simp
      | _ :: _ :: _ :: _, h =>
        simp only [List.length_cons] at h
        omega
    | otherType msgType rest h htype =>
      rw [h]
      match rest with
      | [] => simp
      | [_] => simp
      | _ :: _ :: _ => simp [htype]
    | empty msgType mid src rest h hempty =>
      rw [h]
      rcases hempty with hempty | hempty <;> simp [hempty]

/-- The blanks at the end of a line do not change its key. -/
theorem conKey_rstrip {line : String} (hline : Lines.IsLine line.toList)
    (hblank : isBlank line = false) : conKey (rstrip line) = conKey line := by
  obtain ⟨cells, last, ws, hws, hcut, hcells⟩ := csvFields_rstrip hline hblank
  rw [conKey_eq, conKey_eq, hblank, isBlank_rstrip hblank, hcut, hcells, List.map_append,
    List.map_append, List.map_singleton, List.map_singleton, strip_append_blank last hws]

/-! ## The count -/

section Count

variable {header : String} {lines : List String}

/-- The keys counted in an output are those of its lines. -/
theorem conKeys_outputOf (h : IsOutput header lines) :
    (dataLines (outputOf header lines)).filterMap conKey = lines.filterMap conKey := by
  refine filterMap_dataLines h (fun line hblank => (conKey_eq_none_iff line).2 (.blank hblank)) ?_
  intro line hmem hblank
  exact conKey_rstrip (h.isLine line (List.mem_cons_of_mem _ hmem)) hblank

end Count

/-- More keys bring at most as many new ones. -/
theorem card_toFinset_append_le {κ : Type} [DecidableEq κ] (ks ls : List κ) :
    ((ks ++ ls).toFinset.card : ℤ) ≤ ks.toFinset.card + ls.length := by
  rw [List.toFinset_append]
  have hunion := Finset.card_union_le ks.toFinset ls.toFinset
  have hls := List.toFinset_card_le ls
  omega

/-- Repeats do not depend on the order, and more keys do not make them fewer. -/
theorem coapRetransmissions_le {output output' : String} {extra : List (String × String)}
    (h : ((dataLines output').filterMap conKey).Perm
      ((dataLines output).filterMap conKey ++ extra)) :
    (coapRetransmissions output : ℤ) ≤ coapRetransmissions output' ∧
      (extra = [] → (coapRetransmissions output' : ℤ) = coapRetransmissions output) := by
  have hcount := coapRetransmissions_add_card output
  have hcount' := coapRetransmissions_add_card output'
  rw [h.length_eq, List.toFinset_eq_of_perm _ _ h, List.length_append] at hcount'
  have hcard := card_toFinset_append_le ((dataLines output).filterMap conKey) extra
  constructor
  · omega
  · rintro rfl
    rw [List.append_nil, List.length_nil] at hcount'
    omega

/-- What `analyze_pcap` reports for a protocol without TCP. -/
theorem retransmissions_of_ok {q : Request} {cfg : ProtocolConfig}
    (hcfg : protocolConfig.get? q.protocol = some cfg) (hudp : cfg.isTcp = false)
    {tshark : Tshark} {output : String}
    (hcon : runTshark tshark (some "coap") coapFields [] = some output) {r : PcapResult}
    (h : q.analyze tshark = .ok r) : r.retransmissions = coapRetransmissions output := by
  have hcount : retransmissions tshark cfg = some (coapRetransmissions output) := by
    rw [retransmissions, hudp, hcon]
    rfl
  rw [Request.analyze, analyzePcap, hcfg] at h
  simp only [hcount] at h
  split_ifs at h
  split at h
  · cases h
  · split_ifs at h
    split at h
    · cases h
    · rw [← Except.ok.inj h]
      rfl

/-- **Repeats of CON messages**: the number reported is the number of CON lines less the
    number of distinct pairs of Message ID and source among them. Lines in another order and
    lines that are passed over do not change it, and no line makes it smaller. -/
theorem reported_conRepeats {q : Request} {cfg : ProtocolConfig}
    (hcfg : protocolConfig.get? q.protocol = some cfg) (hudp : cfg.isTcp = false)
    {tshark : Tshark} {output : String}
    (hcon : runTshark tshark (some "coap") coapFields [] = some output) {r : PcapResult}
    (h : q.analyze tshark = .ok r) :
    r.retransmissions = (((dataLines output).filterMap conKey).length : ℤ) -
        ((dataLines output).filterMap conKey).toFinset.card ∧
      ∀ (header header' : String) (lines lines' extra : List String) (tshark' : Tshark)
        (r' : PcapResult), output = outputOf header lines → IsOutput header lines →
        IsOutput header' lines' → lines'.Perm (lines ++ extra) →
        runTshark tshark' (some "coap") coapFields [] = some (outputOf header' lines') →
        q.analyze tshark' = .ok r' →
        ((∀ line ∈ extra, PassedOver line) → r'.retransmissions = r.retransmissions) ∧
          r.retransmissions ≤ r'.retransmissions := by
  have hr := retransmissions_of_ok hcfg hudp hcon h
  constructor
  · have hcount := coapRetransmissions_add_card output
    omega
  · rintro header header' lines lines' extra tshark' r' rfl hlines hlines' hperm hcon' h'
    have hr' := retransmissions_of_ok hcfg hudp hcon' h'
    have hkeys : ((dataLines (outputOf header' lines')).filterMap conKey).Perm
        ((dataLines (outputOf header lines)).filterMap conKey ++ extra.filterMap conKey) := by
      rw [conKeys_outputOf hlines, conKeys_outputOf hlines', ← List.filterMap_append]
      exact hperm.filterMap conKey
    obtain ⟨hle, heq⟩ := coapRetransmissions_le hkeys
    rw [hr, hr']
    refine ⟨fun hextra => heq ?_, hle⟩
    rw [List.filterMap_eq_nil_iff]
    exact fun line hline => (conKey_eq_none_iff line).2 (hextra line hline)

/-! ## A retransmission and an ACK -/

/-- A CON message that is sent twice. -/
def sentTwice : List String := ["0,7,10.0.0.1", "0,7,10.0.0.1"]

/-- The ACK of it echoes its Message ID. -/
def withAck : List String := ["0,7,10.0.0.1", "2,7,10.0.0.2", "0,7,10.0.0.1"]

/-- One frame, as the other queries show it. -/
def oneFrame : String :=
  outputOf "frame.number,frame.len,frame.time_relative,ip.proto" ["1,60,0.5,17"]

/-- A tshark that prints these lines for the CON query. -/
def tsharkOf (lines : List String) : Tshark := fun args =>
  if args = tsharkArgs (some "coap") coapFields [] then
    some (outputOf "coap.type,coap.mid,ip.src" lines)
  else some oneFrame

def coapRequest : Request := ⟨true, 1024, "coap", some "a.bin", none, none⟩

theorem runTshark_tsharkOf (lines : List String) : runTshark (tsharkOf lines) (some "coap")
    coapFields [] = some (outputOf "coap.type,coap.mid,ip.src" lines) := by
  rw [runTshark, tsharkOf, if_pos rfl]

theorem exists_analyze (lines : List String) :
    ∃ r, coapRequest.analyze (tsharkOf lines) = .ok r := by
  have hcfg : protocolConfig.get? "coap" = some ⟨"coap", ["coap.code"], false, []⟩ := by decide
  have hframes : runTshark (tsharkOf lines) none frameFields [] = some oneFrame := by
    rw [runTshark, tsharkOf, if_neg (by decide +kernel)]
  have hproto : runTshark (tsharkOf lines) (some "coap")
      (["frame.number", "frame.len"] ++ ["coap.code"]) [] = some oneFrame := by
    rw [runTshark, tsharkOf, if_neg (by decide +kernel)]
  obtain ⟨r, hr, -⟩ := (analyzePcap_eq_ok hcfg rfl hframes hproto (runTshark_tsharkOf lines) 1024
    (some "a.bin") none none fun _ => True).2 ⟨by decide +kernel, trivial⟩
  exact ⟨r, hr⟩

theorem reported_conRepeats_withAck :
    ∃ r r', coapRequest.analyze (tsharkOf sentTwice) = .ok r ∧
      coapRequest.analyze (tsharkOf withAck) = .ok r' ∧ r.retransmissions = 1 ∧
        r'.retransmissions = r.retransmissions := by
  obtain ⟨r, h⟩ := exists_analyze sentTwice
  obtain ⟨r', h'⟩ := exists_analyze withAck
  have hcfg : protocolConfig.get? coapRequest.protocol =
      some ⟨"coap", ["coap.code"], false, []⟩ := by decide
  have hack : PassedOver "2,7,10.0.0.2" :=
    .otherType "2" ["7", "10.0.0.2"] (by decide +kernel) (by decide +kernel)
  have hdata : (dataLines (outputOf "coap.type,coap.mid,ip.src" sentTwice)).filterMap conKey =
      [("7", "10.0.0.1"), ("7", "10.0.0.1")] := by decide +kernel
  have hperm : withAck.Perm (sentTwice ++ ["2,7,10.0.0.2"]) := by decide
  obtain ⟨hcount, hchange⟩ := reported_conRepeats hcfg rfl (runTshark_tsharkOf sentTwice) h
  refine ⟨r, r', h, h', ?_, ?_⟩
  · rw [hcount, hdata]
    rfl
  · refine (hchange _ _ _ _ _ _ r' rfl (isOutput_of_all (by decide +kernel))
      (isOutput_of_all (by decide +kernel)) hperm (runTshark_tsharkOf withAck) h').1 ?_
    intro line hline
    rw [List.mem_singleton.1 hline]
    exact hack

end TransferTestbed.Pcap
