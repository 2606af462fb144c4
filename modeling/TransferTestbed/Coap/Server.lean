import TransferTestbed.Common.Integrity
import TransferTestbed.Library.Uri
import TransferTestbed.Lwm2m.Server

/-!
# CoAP uploads

The upload URI of `protocols/CoAP/client/coap_client.py` and the upload resource of
`protocols/CoAP/server/coap_server.py`. The URI is put together without quoting;
aiocoap splits its query into the `uri_query` options of the request.

Results:
* `plain_of_option`: a filename comes back only if it is plain.
* `options_of_plain`: the options of a plain filename and a checksum.
* `keepsUpload_iff`: when the server reads the client's filename and checksum.
-/

namespace TransferTestbed.Coap

open Integrity Uri Lwm2m

/-! ## Client and server -/

/-- The URI of the upload (`transfer_file`, line 73). -/
def uploadUri (filename checksum : String) : String :=
  "coap://coap-server/upload?file=" ++ filename ++ "&checksum=" ++ checksum

/-- What `render_put` reads from the options (lines 12–20). -/
structure Upload where
  filename : String
  expectedChecksum : Option String
deriving DecidableEq, Repr

def readUpload (uriQuery : List String) : Upload where
  filename := lastQuery "file" "unknown.bin" uriQuery
  expectedChecksum := (uriQuery.filterMap (queryValue "checksum")).getLast?

/-- The response and the file saved. -/
inductive Put where
  | badRequest
  | changed (filename : String) (data : Bytes)
deriving DecidableEq, Repr

/-- `BinaryUploadResource.render_put` (lines 11–35); an empty checksum is no checksum. -/
def renderPut (uriQuery : List String) (payload : Bytes) : Put :=
  let upload := readUpload uriQuery
  match upload.expectedChecksum with
  | none => .changed upload.filename payload
  | some expected =>
    if expected ≠ "" ∧ sha256 payload ≠ expected then .badRequest
    else .changed upload.filename payload

/-! ## The library's share -/

/-- The resources that requests with a query go to. -/
def resources : List String :=
  ["coap://coap-server/upload", "coap://lwm2m-server/update", "coap://lwm2m-server/fw"]

/-- The query of a URI, split at the ampersands and each piece percent-decoded. -/
def queryOptions (uri : String) : Option (List String) :=
  ((pieces (query uri.toList)).mapM unquote).map fun options => options.map String.ofList

/-- The `uri_query` options that aiocoap delivers for a request URI, `none` if the
    request cannot be made: they are the decoded pieces of the query, and a URI
    without fragment whose pieces can be decoded makes a request. -/
structure SplitsQuery (uriQuery : String → Option (List String)) : Prop where
  decoded : ∀ base ∈ resources, ∀ text options, uriQuery (base ++ "?" ++ text) = some options →
    queryOptions (base ++ "?" ++ text) = some options
  sent : ∀ base ∈ resources, ∀ text options, fragment (base ++ "?" ++ text).toList = [] →
    queryOptions (base ++ "?" ++ text) = some options →
    uriQuery (base ++ "?" ++ text) = some options

/-! ## The property -/

/-- No ampersand, number sign, tab or line end, and no percent sign before two
    hexadecimal digits. -/
def Plain (filename : String) : Prop :=
  (∀ c ∈ filename.toList, c ≠ '&' ∧ c ≠ '#' ∧ isRemoved c = false) ∧ ¬ HasEscape filename.toList

instance : DecidablePred Plain := fun filename =>
  @instDecidableAnd _ _ (List.decidableBAll _ filename.toList) (inferInstanceAs (Decidable (¬ _)))

def IsHex (checksum : String) : Prop := ∀ c ∈ checksum.toList, c.isHexDigit = true

instance : DecidablePred IsHex := fun checksum =>
  List.decidableBAll _ checksum.toList

/-- The server reads the client's filename and its checksum. -/
def KeepsUpload (uriQuery : String → Option (List String)) (filename checksum : String) : Prop :=
  ∃ options, uriQuery (uploadUri filename checksum) = some options ∧
    readUpload options = ⟨filename, some checksum⟩

/-! ## Options -/

/-- The text of a query with a filename under a key, and a checksum. -/
def queryText (key filename checksum : String) : String :=
  key ++ "=" ++ filename ++ "&checksum=" ++ checksum

theorem isHexDigit_plain {c : Char} (h : c.isHexDigit = true) :
    c ≠ '&' ∧ c ≠ '#' ∧ isRemoved c = false ∧ c ≠ '%' := by
  refine ⟨?_, ?_, ?_, ?_⟩
  · rintro rfl
    exact absurd h (by decide)
  · rintro rfl
    exact absurd h (by decide)
  · by_contra hremoved
    have hval : c.toNat = 9 ∨ c.toNat = 10 ∨ c.toNat = 13 := by
      simp only [isRemoved, Bool.or_eq_false_iff, decide_eq_false_iff_not] at hremoved
      omega
    rcases hval with hval | hval | hval
    · rw [← Char.ofNat_toNat c, hval] at h
      exact absurd h (by decide)
    · rw [← Char.ofNat_toNat c, hval] at h
      exact absurd h (by decide)
    · rw [← Char.ofNat_toNat c, hval] at h
      exact absurd h (by decide)
  · rintro rfl
    exact absurd h (by decide)

theorem isHex_sha256 (data : Bytes) : IsHex (sha256 data) := by
  have hdigit : ∀ n < 16, (Sha256.hexDigit n).isHexDigit = true := by decide
  intro c hc
  rw [sha256] at hc
  unfold Sha256.hexdigest at hc
  rw [String.toList_ofList] at hc
  obtain ⟨word, -, hc⟩ := List.mem_flatMap.1 hc
  obtain ⟨i, -, rfl⟩ := List.mem_map.1 hc
  exact hdigit _ (Nat.mod_lt _ (by decide))

theorem isResource_of_mem {base : String} (h : base ∈ resources) : IsResource base.toList := by
  simp only [resources, List.mem_cons, List.not_mem_nil, or_false] at h
  rcases h with rfl | rfl | rfl
  · decide
  · decide
  · decide

theorem toList_queryUri (base key filename checksum : String) :
    (base ++ "?" ++ queryText key filename checksum).toList =
      base.toList ++ '?' :: ((key ++ "=" ++ filename).toList ++
        '&' :: ("checksum=" ++ checksum).toList) := by
  simp only [queryText, String.toList_append, List.append_assoc]
  rfl

theorem checksum_plain {checksum : String} (h : IsHex checksum) :
    ∀ c ∈ ("checksum=" ++ checksum).toList, c ≠ '&' ∧ c ≠ '#' ∧ isRemoved c = false ∧ c ≠ '%' := by
  intro c hc
  have hkey : ∀ c ∈ "checksum=".toList, c ≠ '&' ∧ c ≠ '#' ∧ isRemoved c = false ∧ c ≠ '%' :=
    forall_mem_of_all (by decide)
  rw [String.toList_append] at hc
  rcases List.mem_append.1 hc with hc | hc
  · exact hkey c hc
  · exact isHexDigit_plain (h c hc)

theorem unquote_checksum {checksum : String} (h : IsHex checksum) :
    unquote ("checksum=" ++ checksum).toList = some ("checksum=" ++ checksum).toList :=
  unquote_eq_self (not_hasEscape fun hmem => (checksum_plain h _ hmem).2.2.2 rfl)

/-- **A filename that comes back is plain**: any other one is cut, split or decoded,
    and no option is as long as it was. -/
theorem plain_of_option {base filename checksum : String} (hbase : base ∈ resources)
    (hhex : IsHex checksum) {options : List String}
    (h : queryOptions (base ++ "?" ++ queryText "file" filename checksum) = some options)
    (hmem : "file=" ++ filename ∈ options) : Plain filename := by
  obtain ⟨texts, htexts, rfl⟩ := Option.map_eq_some_iff.1 h
  obtain ⟨text, htext, heq⟩ := List.mem_map.1 hmem
  obtain rfl : text = ("file=" ++ filename).toList := by rw [← heq, String.toList_ofList]
  obtain ⟨piece, hpiece, hunquote⟩ := mem_mapM_unquote htexts htext
  rw [toList_queryUri] at hpiece
  rcases mem_pieces (isResource_of_mem hbase)
    (fun c hc => ⟨(checksum_plain hhex c hc).1, (checksum_plain hhex c hc).2.1,
      (checksum_plain hhex c hc).2.2.1⟩) hpiece with rfl | ⟨hle, hself⟩
  · -- the checksum's option begins with another letter
    rw [unquote_checksum hhex, Option.some.injEq] at hunquote
    have hhead := congrArg List.head? hunquote
    rw [String.toList_append, String.toList_append] at hhead
    have hletters : some 'c' = some 'f' := hhead
    exact absurd hletters (by decide)
  · have hlength := length_unquote_le hunquote
    obtain ⟨rfl, hplain⟩ := hself (by
      have : ("file" ++ "=" ++ filename).toList = ("file=" ++ filename).toList := rfl
      rw [this] at hle ⊢
      omega)
    refine ⟨fun c hc => hplain c ?_, fun hescape => ?_⟩
    · rw [String.toList_append]
      exact List.mem_append_right _ hc
    · have := length_unquote_lt hunquote
        (by rw [String.toList_append]; exact hasEscape_append hescape _)
      exact absurd this (lt_irrefl _)

/-- The options of a plain filename under a key, and a checksum. -/
theorem options_of_plain {base key filename checksum : String} (hbase : base ∈ resources)
    (hkey : ∀ c ∈ (key ++ "=").toList, c ≠ '&' ∧ c ≠ '#' ∧ isRemoved c = false ∧ c ≠ '%')
    (hplain : Plain filename) (hhex : IsHex checksum) :
    queryOptions (base ++ "?" ++ queryText key filename checksum) =
        some [key ++ "=" ++ filename, "checksum=" ++ checksum] ∧
      fragment (base ++ "?" ++ queryText key filename checksum).toList = [] := by
  have hleft : ∀ c ∈ (key ++ "=" ++ filename).toList, c ≠ '&' ∧ c ≠ '#' ∧ isRemoved c = false := by
    intro c hc
    rw [String.toList_append] at hc
    rcases List.mem_append.1 hc with hc | hc
    · exact ⟨(hkey c hc).1, (hkey c hc).2.1, (hkey c hc).2.2.1⟩
    · exact hplain.1 c hc
  have hright := checksum_plain hhex
  have hunquote :
      unquote (key ++ "=" ++ filename).toList = some (key ++ "=" ++ filename).toList := by
    rw [String.toList_append]
    exact unquote_eq_self (not_hasEscape_append (fun hmem => (hkey _ hmem).2.2.2 rfl) hplain.2)
  obtain ⟨hpieces, hfragment⟩ := pieces_of_plain (isResource_of_mem hbase) hleft
    (fun c hc => ⟨(hright c hc).1, (hright c hc).2.1, (hright c hc).2.2.1⟩)
  rw [queryOptions, toList_queryUri, hpieces, List.mapM_cons, hunquote, List.mapM_cons,
    unquote_checksum hhex]
  refine ⟨?_, hfragment⟩
  simp only [List.mapM_nil, Option.pure_def, Option.bind_eq_bind, Option.bind_some,
    Option.map_some, List.map_cons, List.map_nil, String.ofList_toList]

/-! ## What the server reads -/

theorem queryValue_eq_some {key query value : String} :
    queryValue key query = some value ↔ query = key ++ "=" ++ value := by
  unfold queryValue
  constructor
  · intro h
    split_ifs at h with hpre
    obtain ⟨rest, hrest⟩ := hpre
    obtain rfl := Option.some.inj h
    rw [← String.toList_inj, String.toList_append, String.toList_ofList, ← hrest, List.drop_left]
  · rintro rfl
    have hpre : (key ++ "=").toList <+: (key ++ "=" ++ value).toList := by
      rw [String.toList_append (s := key ++ "=")]
      exact List.prefix_append _ _
    rw [if_pos hpre, String.toList_append (s := key ++ "="), List.drop_left, String.ofList_toList]

/-- The value of a key is its default or comes from an option. -/
theorem lastQuery_mem (key default : String) (options : List String) :
    lastQuery key default options = default ∨
      key ++ "=" ++ lastQuery key default options ∈ options := by
  unfold lastQuery
  cases hlast : (options.filterMap (queryValue key)).getLast? with
  | none => exact Or.inl rfl
  | some value =>
    obtain ⟨option, hoption, hvalue⟩ := List.mem_filterMap.1 (List.mem_of_getLast? hlast)
    rw [queryValue_eq_some] at hvalue
    exact Or.inr (hvalue ▸ hoption)

/-- An option whose key begins with another letter has no value for this key. -/
theorem queryValue_other {key other : String}
    (hne : (key ++ "=").toList.head? ≠ (other ++ "=").toList.head?) (value : String) :
    queryValue key (other ++ "=" ++ value) = none := by
  have hsome (s : String) : (s ++ "=").toList.head?.isSome = true := by
    rw [String.toList_append, List.isSome_head?]
    simp
  cases h : queryValue key (other ++ "=" ++ value) with
  | none => rfl
  | some value' =>
    have hhead := congrArg (fun s => s.toList.head?) (queryValue_eq_some.1 h)
    simp only [String.toList_append (t := value), String.toList_append (t := value'),
      List.head?_append] at hhead
    rw [Option.or_of_isSome (hsome other), Option.or_of_isSome (hsome key)] at hhead
    exact absurd hhead.symm hne

theorem queryUri_eq (base key filename checksum : String) :
    base ++ "?" ++ queryText key filename checksum =
      base ++ "?" ++ key ++ "=" ++ filename ++ "&checksum=" ++ checksum := by
  simp only [queryText, String.append_assoc]

theorem uploadUri_eq (filename checksum : String) : uploadUri filename checksum =
    "coap://coap-server/upload" ++ "?" ++ queryText "file" filename checksum := by
  have hpre : "coap://coap-server/upload?file=" =
      "coap://coap-server/upload" ++ "?" ++ "file" ++ "=" := by decide +kernel
  rw [queryUri_eq]
  unfold uploadUri
  rw [hpre]

/-- The filename and the checksum in the options of a plain filename. -/
theorem lastQuery_of_options (filename checksum default : String) :
    lastQuery "file" default ["file" ++ "=" ++ filename, "checksum=" ++ checksum] = filename ∧
      ["file" ++ "=" ++ filename, "checksum=" ++ checksum].filterMap (queryValue "checksum") =
        [checksum] := by
  have hsplit : "checksum=" ++ checksum = "checksum" ++ "=" ++ checksum := by
    have hpre : "checksum=" = "checksum" ++ "=" := by decide +kernel
    rw [hpre]
  have hfile : queryValue "file" ("checksum" ++ "=" ++ checksum) = none :=
    queryValue_other (by decide +kernel) checksum
  have hchecksum : queryValue "checksum" ("file" ++ "=" ++ filename) = none :=
    queryValue_other (by decide +kernel) filename
  have hname : queryValue "file" ("file" ++ "=" ++ filename) = some filename :=
    queryValue_eq_some.2 rfl
  have hvalue : queryValue "checksum" ("checksum" ++ "=" ++ checksum) = some checksum :=
    queryValue_eq_some.2 rfl
  rw [hsplit, lastQuery]
  constructor
  · rw [List.filterMap_cons_some hname, List.filterMap_cons_none hfile, List.filterMap_nil,
      List.getLast?_singleton, Option.getD_some]
  · rw [List.filterMap_cons_none hchecksum, List.filterMap_cons_some hvalue, List.filterMap_nil]

theorem plain_of_lastQuery {uriQuery : String → Option (List String)} (h : SplitsQuery uriQuery)
    {base filename checksum : String} (hbase : base ∈ resources) (hhex : IsHex checksum)
    {options : List String}
    (hsent : uriQuery (base ++ "?" ++ queryText "file" filename checksum) = some options)
    (hname : lastQuery "file" "unknown.bin" options = filename) : Plain filename := by
  rcases lastQuery_mem "file" "unknown.bin" options with hdefault | hmem
  · rw [← hname, hdefault]
    decide
  · rw [hname] at hmem
    exact plain_of_option hbase hhex (h.decoded _ hbase _ _ hsent) hmem

theorem file_plain : ∀ c ∈ ("file" ++ "=").toList,
    c ≠ '&' ∧ c ≠ '#' ∧ isRemoved c = false ∧ c ≠ '%' :=
  forall_mem_of_all (by decide +kernel)

theorem name_plain : ∀ c ∈ ("name" ++ "=").toList,
    c ≠ '&' ∧ c ≠ '#' ∧ isRemoved c = false ∧ c ≠ '%' :=
  forall_mem_of_all (by decide +kernel)

/-- **Uploads under the client's name**: the server reads the client's filename and
    checksum if and only if the filename is plain. -/
theorem keepsUpload_iff {uriQuery : String → Option (List String)} (h : SplitsQuery uriQuery)
    {filename checksum : String} (hhex : IsHex checksum) :
    KeepsUpload uriQuery filename checksum ↔ Plain filename := by
  have hbase : "coap://coap-server/upload" ∈ resources := List.mem_cons_self
  rw [KeepsUpload, uploadUri_eq]
  constructor
  · rintro ⟨options, hsent, hread⟩
    exact plain_of_lastQuery h hbase hhex hsent (congrArg Upload.filename hread)
  · intro hplain
    obtain ⟨hoptions, hfragment⟩ := options_of_plain hbase file_plain hplain hhex
    refine ⟨_, h.sent _ hbase _ _ hfragment hoptions, ?_⟩
    obtain ⟨hname, hchecksum⟩ := lastQuery_of_options filename checksum "unknown.bin"
    rw [readUpload, hname, hchecksum]
    rfl

end TransferTestbed.Coap
