import TransferTestbed.Coap.Server

/-!
# Filenames in the LwM2M flow

The filename goes from the device to the server in the trigger's URI
(`protocols/LWM2M/client/lwm2m_client.py`, lines 79–87) and comes back to it in the
Package URI, with which the device asks for the firmware
(`protocols/LWM2M/server/lwm2m_server.py`, lines 66–82 and 111–143).

Results:
* `keepsUpdate_iff`: when both hops give the client's filename.
* `keepsFilenames_iff`: the same for them and the CoAP upload.
-/

namespace TransferTestbed.Lwm2m

open Integrity Uri Coap

/-- The URI of the trigger (`trigger_update`, line 82). -/
def updateUri (filename checksum : String) : String :=
  "coap://lwm2m-server/update?file=" ++ filename ++ "&checksum=" ++ checksum

/-- The filename that `FirmwareResource.render_get` reads (lines 67–70). -/
def firmwareName (uriQuery : List String) : Option String :=
  (uriQuery.filterMap (queryValue "name")).getLast?

inductive Get where
  | notFound
  | content (filename : String) (payload : Bytes)
deriving DecidableEq, Repr

/-- `FirmwareResource.render_get` (lines 66–82) over the files of the data directory. -/
def renderGet (files : String → Option Bytes) (uriQuery : List String) : Get :=
  match firmwareName uriQuery with
  | none => .notFound
  | some filename =>
    if filename = "" then .notFound
    else
      match files filename with
      | none => .notFound
      | some payload => .content filename payload

/-- The flow that the trigger creates has the client's filename, and the server
    reads it again from the request for the flow's Package URI. -/
def KeepsUpdate (uriQuery : String → Option (List String)) (s : Server)
    (filename checksum : String) : Prop :=
  ∃ options flow fwOptions, uriQuery (updateUri filename checksum) = some options ∧
    (triggerUpdate s options).1.flows = s.flows ++ [flow] ∧ flow.filename = filename ∧
    uriQuery (packageUri flow) = some fwOptions ∧ firmwareName fwOptions = some filename

theorem updateUri_eq (filename checksum : String) : updateUri filename checksum =
    "coap://lwm2m-server/update" ++ "?" ++ queryText "file" filename checksum := by
  have hpre : "coap://lwm2m-server/update?file=" =
      "coap://lwm2m-server/update" ++ "?" ++ "file" ++ "=" := by decide +kernel
  rw [queryUri_eq]
  unfold updateUri
  rw [hpre]

theorem packageUri_eq (f : Flow) : packageUri f =
    "coap://lwm2m-server/fw" ++ "?" ++ queryText "name" f.filename f.checksum := by
  have hpre : "coap://lwm2m-server/fw?name=" =
      "coap://lwm2m-server/fw" ++ "?" ++ "name" ++ "=" := by decide +kernel
  rw [queryUri_eq]
  unfold packageUri
  rw [hpre]

/-- The flow of a trigger that reaches a server with a registered device. -/
theorem flows_triggerUpdate {s : Server} {remote : String} (hs : s.remote = some remote)
    (hne : remote ≠ "") (options : List String) :
    (triggerUpdate s options).1.flows = s.flows ++ [⟨remote, lastQuery "file" "unknown.bin" options,
      lastQuery "checksum" "" options, .triggered⟩] := by
  simp only [triggerUpdate, hs]
  rw [if_neg hne]

theorem firmwareName_of_options (filename checksum : String) :
    firmwareName ["name" ++ "=" ++ filename, "checksum=" ++ checksum] = some filename := by
  have hsplit : "checksum=" ++ checksum = "checksum" ++ "=" ++ checksum := by
    have hpre : "checksum=" = "checksum" ++ "=" := by decide +kernel
    rw [hpre]
  have hname : queryValue "name" ("name" ++ "=" ++ filename) = some filename :=
    queryValue_eq_some.2 rfl
  have hother : queryValue "name" ("checksum" ++ "=" ++ checksum) = none :=
    queryValue_other (by decide +kernel) checksum
  rw [hsplit, firmwareName, List.filterMap_cons_some hname, List.filterMap_cons_none hother,
    List.filterMap_nil, List.getLast?_singleton]

/-- **Both hops**: for a registered device, the server reads the client's filename from
    the trigger and from the request for the firmware if and only if it is plain. -/
theorem keepsUpdate_iff {uriQuery : String → Option (List String)} (h : SplitsQuery uriQuery)
    {s : Server} {remote : String} (hs : s.remote = some remote) (hne : remote ≠ "")
    {filename checksum : String} (hhex : IsHex checksum) :
    KeepsUpdate uriQuery s filename checksum ↔ Plain filename := by
  have hupdate : "coap://lwm2m-server/update" ∈ resources := by simp [resources]
  have hfw : "coap://lwm2m-server/fw" ∈ resources := by simp [resources]
  rw [KeepsUpdate, updateUri_eq]
  constructor
  · rintro ⟨options, flow, fwOptions, hsent, hflows, hname, -⟩
    rw [flows_triggerUpdate hs hne, List.append_cancel_left_eq, List.singleton_inj] at hflows
    rw [← hflows] at hname
    exact plain_of_lastQuery h hupdate hhex hsent hname
  · intro hplain
    obtain ⟨hoptions, hfragment⟩ := options_of_plain hupdate file_plain hplain hhex
    obtain ⟨hfile, hchecksum⟩ := lastQuery_of_options filename checksum "unknown.bin"
    obtain ⟨hfwOptions, hfwFragment⟩ := options_of_plain hfw name_plain hplain hhex
    refine ⟨_, ⟨remote, filename, checksum, .triggered⟩, _, h.sent _ hupdate _ _ hfragment hoptions,
      ?_, rfl, ?_, firmwareName_of_options filename checksum⟩
    · rw [flows_triggerUpdate hs hne, hfile, lastQuery, hchecksum]
      rfl
    · rw [packageUri_eq]
      exact h.sent _ hfw _ _ hfwFragment hfwOptions

/-- **Filenames in the URIs** of an upload and of an update flow come back if and only
    if they are plain, for every filename and every hexadecimal checksum. -/
theorem keepsFilenames_iff {uriQuery : String → Option (List String)} (h : SplitsQuery uriQuery)
    (s : Server) (remote : String) (hs : s.remote = some remote) (hne : remote ≠ "")
    (filename checksum : String) (hhex : IsHex checksum) :
    (KeepsUpload uriQuery filename checksum ↔ Plain filename) ∧
      (KeepsUpdate uriQuery s filename checksum ↔ Plain filename) :=
  ⟨keepsUpload_iff h hhex, keepsUpdate_iff h hs hne hhex⟩

/-- Options of a request, if its URI has no fragment. -/
def requestOptions (uri : String) : Option (List String) :=
  if fragment uri.toList = [] then queryOptions uri else none

theorem splitsQuery_requestOptions : SplitsQuery requestOptions where
  decoded base _ text options h := by
    unfold requestOptions at h
    split_ifs at h
    exact h
  sent base _ text options hfragment h := by
    rw [requestOptions, if_pos hfragment, h]

/-- A server with a registered device. -/
def registered : Server := (register .init ["ep=lwm2m-edge", "lt=86400"] "10.0.0.2").1

theorem keepsFilenames_equals :
    (KeepsUpload requestOptions "a=b.bin" "00" ↔ Plain "a=b.bin") ∧
      (KeepsUpdate requestOptions registered "a=b.bin" "00" ↔ Plain "a=b.bin") :=
  keepsFilenames_iff splitsQuery_requestOptions registered "10.0.0.2" rfl (by decide) "a=b.bin" "00"
    (by decide)

/-- An ampersand in the filename: the server reads another one in both protocols. -/
theorem not_keepsFilenames_ampersand :
    ¬ KeepsUpload requestOptions "a&b.bin" "00" ∧
      ¬ KeepsUpdate requestOptions registered "a&b.bin" "00" := by
  have hplain : ¬ Plain "a&b.bin" := by decide
  have hhex : IsHex "00" := by decide
  constructor
  · rw [keepsUpload_iff splitsQuery_requestOptions hhex]
    exact hplain
  · rw [keepsUpdate_iff splitsQuery_requestOptions (s := registered) rfl (by decide) hhex]
    exact hplain

end TransferTestbed.Lwm2m
