import TransferTestbed.Library.Messages
import TransferTestbed.Library.Transition
import TransferTestbed.Coap.Server
import TransferTestbed.Lwm2m.Filenames
import TransferTestbed.Protocols.UploadClients

/-!
# CoAP uploads over the network

The processes of `protocols/CoAP/client/coap_client.py` and the server of
`protocols/CoAP/server/coap_server.py`. A process uploads its files one after the other and
tries each up to `MAX_RETRIES` times; requests and responses are lost, delayed, reordered and
delivered again in any way, so a file is saved any number of times, also after the process has
gone on. aiocoap puts the blocks of a request together and has the response codes, `save_file`
succeeds, and filenames are single path components. The latency probe only goes into the row.

Results:

* `Inv.step`: what the messages and the clients know, over one step.
* `stored_of_run`: the server's files and the clients' rows, in every run.
-/

namespace TransferTestbed.Coap

open Integrity Messages Transition UploadClients

/-! ## Clients and server -/

/-- Requests and responses; `n` counts the requests of the client `c`. -/
inductive Msg where
  | put (c n : ℕ) (uriQuery : List String) (payload : Bytes)
  | response (c n code : ℕ)
deriving DecidableEq, Repr

/-- A client process in `transfer_all_files` (lines 109–117). -/
structure Client where
  /-- the file of `transfer_file`, and those after it -/
  files : List String
  attempt : ℕ
  /-- `context.request(request).response` is awaited. -/
  waiting : Bool
  /-- the number of requests sent -/
  requests : ℕ
  /-- the file and `integrity_ok` of each row -/
  rows : List (String × Bool)
deriving DecidableEq, Repr

/-- The response codes of aiocoap, of which `CHANGED` is successful. -/
structure Codes where
  changed : ℕ
  badRequest : ℕ
  isSuccessful : ℕ → Bool
  isSuccessful_changed : isSuccessful changed = true

/-- The files of the clients, the options that aiocoap makes of a URI, and its codes. -/
structure Site where
  files : String → Option Bytes
  uriQuery : String → Option (List String)
  codes : Codes

structure World where
  /-- the files saved by the server -/
  store : String → Option Bytes
  clients : List Client
  sent : List Msg

def World.init : World := ⟨fun _ => none, [], []⟩

def newClient (files : List String) : Client := ⟨files, 0, false, 0, []⟩

/-- `transfer_file` is over. -/
def Client.next (cl : Client) : Client :=
  { cl with files := cl.files.tail, attempt := 0, waiting := false }

/-- The request raises (lines 75–78); the last attempt ends the transfer without a row. -/
def Client.retry (cl : Client) : Client :=
  if cl.attempt + 1 < maxRetries then { cl with attempt := cl.attempt + 1, waiting := false }
  else cl.next

/-- The row of the transfer (lines 85–104). -/
def Client.log (codes : Codes) (cl : Client) (filename : String) (code : ℕ) : Client :=
  { cl.next with rows := cl.rows ++ [(filename, codes.isSuccessful code)] }

/-- The next request of `transfer_file(filename)` (lines 36–73). -/
def attemptUpload (site : Site) (c : ℕ) (cl : Client) (filename : String) :
    Client × List Msg :=
  match site.files filename with
  | none => (cl.next, [])
  | some payload =>
    match site.uriQuery (uploadUri filename (sha256 payload)) with
    | none => (cl.retry, [])
    | some options =>
      ({ cl with waiting := true, requests := cl.requests + 1 },
        [.put c cl.requests options payload])

def Put.code (codes : Codes) : Put → ℕ
  | .badRequest => codes.badRequest
  | .changed _ _ => codes.changed

def Put.save (store : String → Option Bytes) : Put → String → Option Bytes
  | .badRequest => store
  | .changed filename data => Function.update store filename (some data)

/-! ## Steps -/

/-- What happens: processes start, send a request, or stop waiting for the response, and
    messages are delivered. -/
inductive Act where
  | start (files : List String)
  | send (c : ℕ)
  | raise (c : ℕ)
  | deliver (m : Msg)
deriving DecidableEq, Repr

/-- The client `c` goes on, with the file that it is at. -/
def World.act (w : World) (c : ℕ) (waiting : Bool)
    (f : Client → String → Client × List Msg) : Option World :=
  w.clients[c]?.bind fun cl =>
    cl.files.head?.bind fun filename =>
      if cl.waiting = waiting then
        some { w with
          clients := w.clients.set c (f cl filename).1
          sent := w.sent ++ (f cl filename).2 }
      else none

def deliver (codes : Codes) (w : World) : Msg → Option World
  | .put c n uriQuery payload =>
    let put := renderPut uriQuery payload
    some { w with store := put.save w.store, sent := w.sent ++ [.response c n (put.code codes)] }
  | .response c n code =>
    -- a response is for one request
    if w.clients[c]?.any fun cl => cl.requests = n + 1 then
      w.act c true fun cl filename => (cl.log codes filename code, [])
    else none

def exchange (site : Site) (w : World) : Act → Option World
  | .start files => some { w with clients := w.clients ++ [newClient files] }
  | .send c => w.act c false (attemptUpload site c)
  | .raise c => w.act c true fun cl _ => (cl.retry, [])
  | .deliver m => if m ∈ w.sent then deliver site.codes w m else none

/-! ## What the messages mean -/

/-- The request `n` of the client `c` is for the file. -/
def IsFor (w : World) (c n : ℕ) (filename : String) : Prop :=
  ∃ cl, w.clients[c]? = some cl ∧ n < cl.requests ∧
    (cl.waiting = true → cl.requests = n + 1 → cl.files.head? = some filename)

/-- What the sender of a message knew; `P` holds of the files that clients upload. -/
def Meant (site : Site) (P : String → Prop) (w : World) : Msg → Prop
  | .put c n options payload => ∃ filename, P filename ∧ IsFor w c n filename ∧
      site.files filename = some payload ∧
      site.uriQuery (uploadUri filename (sha256 payload)) = some options
  | .response c n code => ∃ filename, IsFor w c n filename ∧ site.codes.isSuccessful code = true ∧
      (w.store filename).isSome = true

/-- What a client has logged, and what is left of its list of files. -/
structure ClientOk (P : List String → Prop) (w : World) (cl : Client) : Prop where
  files : ∃ files, P files ∧ (cl.rows.map Prod.fst ++ cl.files).Sublist files
  rows : ∀ row ∈ cl.rows, row.2 = true ∧ (w.store row.1).isSome = true

structure Inv (site : Site) (P : List String → Prop) (w : World) : Prop where
  meant : Justified World.sent (Meant site fun filename => ∃ files, P files ∧ filename ∈ files) w
  clients : ∀ (c : ℕ) (cl : Client), w.clients[c]? = some cl → ClientOk P w cl
  store : ∀ filename data, w.store filename = some data →
    site.files filename = some data ∧ ∃ files, P files ∧ filename ∈ files

/-- A client goes on: it waits for the response to a request only once. -/
structure Keeps (cl cl' : Client) : Prop where
  requests : cl.requests ≤ cl'.requests
  waiting : cl'.requests = cl.requests → cl'.waiting = true →
    cl.waiting = true ∧ cl'.files = cl.files

structure Grows (w w' : World) : Prop where
  sent : w.sent ⊆ w'.sent
  clients : ∀ (c : ℕ) (cl : Client), w.clients[c]? = some cl →
    ∃ cl', w'.clients[c]? = some cl' ∧ Keeps cl cl'
  store : ∀ filename, (w.store filename).isSome = true → (w'.store filename).isSome = true

theorem Keeps.refl (cl : Client) : Keeps cl cl := ⟨le_rfl, fun _ h => ⟨h, rfl⟩⟩

/-! ## Growth -/

section Growth

variable {site : Site} {P : List String → Prop} {w w' : World}

theorem Grows.isFor (h : Grows w w') {c n : ℕ} {filename : String} (hfor : IsFor w c n filename) :
    IsFor w' c n filename := by
  obtain ⟨cl, hcl, hlt, hhead⟩ := hfor
  obtain ⟨cl', hcl', hkeep⟩ := h.clients c cl hcl
  refine ⟨cl', hcl', hlt.trans_le hkeep.requests, fun hwaiting hrequests => ?_⟩
  -- no request has been sent since
  have hsame : cl'.requests = cl.requests := by
    have := hkeep.requests
    omega
  obtain ⟨hwas, hfiles⟩ := hkeep.waiting hsame hwaiting
  rw [hfiles]
  exact hhead hwas (hsame ▸ hrequests)

theorem stable_meant (Q : String → Prop) (m : Msg) :
    Stable Grows fun w => Meant site Q w m := by
  intro w w' h hm
  cases m with
  | put c n options payload =>
    obtain ⟨filename, hQ, hfor, hfile, hquery⟩ := hm
    exact ⟨filename, hQ, h.isFor hfor, hfile, hquery⟩
  | response c n code =>
    obtain ⟨filename, hfor, hcode, hstored⟩ := hm
    exact ⟨filename, h.isFor hfor, hcode, h.store filename hstored⟩

theorem ClientOk.mono {cl : Client} (h : ClientOk P w cl) (hgrows : Grows w w') :
    ClientOk P w' cl :=
  ⟨h.files, fun row hrow => ⟨(h.rows row hrow).1, hgrows.store _ (h.rows row hrow).2⟩⟩

/-- A step of one client. -/
theorem Inv.client (h : Inv site P w) {c : ℕ} {cl : Client} (hcl : w.clients[c]? = some cl)
    {cl' : Client} (hkeep : Keeps cl cl') {new : List Msg} (hok : ClientOk P w cl')
    (hnew : ∀ w' : World, w'.clients[c]? = some cl' → ∀ m ∈ new,
      Meant site (fun filename => ∃ files, P files ∧ filename ∈ files) w' m) :
    Inv site P { w with clients := w.clients.set c cl', sent := w.sent ++ new } := by
  have hlt : c < w.clients.length := (List.getElem?_eq_some_iff.1 hcl).1
  have hself : (w.clients.set c cl')[c]? = some cl' := List.getElem?_set_self hlt
  have hgrows : Grows w { w with clients := w.clients.set c cl', sent := w.sent ++ new } := by
    refine ⟨List.subset_append_left _ _, ?_, fun _ hstored => hstored⟩
    intro d other hother
    by_cases hd : d = c
    · subst hd
      rw [hcl] at hother
      rw [← Option.some.inj hother]
      exact ⟨cl', hself, hkeep⟩
    · exact ⟨other, by rw [← hother]; exact List.getElem?_set_ne (Ne.symm hd), .refl other⟩
  refine ⟨h.meant.step (stable_meant _) hgrows rfl (hnew _ hself), ?_, h.store⟩
  intro d other hother
  by_cases hd : d = c
  · subst hd
    rw [hself] at hother
    rw [← Option.some.inj hother]
    exact hok.mono hgrows
  · rw [List.getElem?_set_ne (Ne.symm hd)] at hother
    exact (h.clients d other hother).mono hgrows

end Growth

/-! ## The clients' steps -/

section Clients

variable {site : Site} {P : List String → Prop} {w w' : World} {c : ℕ} {cl : Client}

theorem act_eq_some {waiting : Bool} {f : Client → String → Client × List Msg}
    (h : w.act c waiting f = some w') : ∃ cl filename, w.clients[c]? = some cl ∧
      cl.files.head? = some filename ∧ cl.waiting = waiting ∧
      w' = { w with
        clients := w.clients.set c (f cl filename).1
        sent := w.sent ++ (f cl filename).2 } := by
  unfold World.act at h
  obtain ⟨cl, hcl, h⟩ := Option.bind_eq_some_iff.1 h
  obtain ⟨filename, hhead, h⟩ := Option.bind_eq_some_iff.1 h
  split_ifs at h with hwaiting
  cases h
  exact ⟨cl, filename, hcl, hhead, hwaiting, rfl⟩

theorem keeps_next (cl : Client) : Keeps cl cl.next := ⟨le_rfl, fun _ h => by cases h⟩

theorem keeps_retry (cl : Client) : Keeps cl cl.retry := by
  unfold Client.retry
  split_ifs
  · exact ⟨le_rfl, fun _ h => by cases h⟩
  · exact keeps_next cl

theorem keeps_log (codes : Codes) (cl : Client) (filename : String) (code : ℕ) :
    Keeps cl (cl.log codes filename code) :=
  ⟨le_rfl, fun _ h => by cases h⟩

theorem ClientOk.next (h : ClientOk P w cl) : ClientOk P w cl.next := by
  obtain ⟨files, hP, hsub⟩ := h.files
  refine ⟨⟨files, hP, ?_⟩, h.rows⟩
  exact (List.Sublist.append_left (List.tail_sublist _) _).trans hsub

theorem ClientOk.retry (h : ClientOk P w cl) : ClientOk P w cl.retry := by
  unfold Client.retry
  split_ifs
  · exact ⟨h.files, h.rows⟩
  · exact h.next

theorem ClientOk.log (h : ClientOk P w cl) {codes : Codes} {filename : String} {code : ℕ}
    (hhead : cl.files.head? = some filename) (hcode : codes.isSuccessful code = true)
    (hstored : (w.store filename).isSome = true) : ClientOk P w (cl.log codes filename code) := by
  constructor
  · obtain ⟨files, hP, hsub⟩ := h.files
    refine ⟨files, hP, ?_⟩
    obtain ⟨rest, hrest⟩ := List.head?_eq_some_iff.1 hhead
    rw [hrest] at hsub
    simpa [Client.log, Client.next, hrest] using hsub
  · intro row hrow
    rcases List.mem_append.1 hrow with hrow | hrow
    · exact h.rows row hrow
    · rw [List.mem_singleton.1 hrow]
      exact ⟨hcode, hstored⟩

/-- The next request of a client. -/
theorem Inv.send (h : Inv site P w) (hcl : w.clients[c]? = some cl) {filename : String}
    (hhead : cl.files.head? = some filename) :
    Inv site P { w with
      clients := w.clients.set c (attemptUpload site c cl filename).1
      sent := w.sent ++ (attemptUpload site c cl filename).2 } := by
  have hok := h.clients c cl hcl
  cases hfile : site.files filename with
  | none =>
    simp only [attemptUpload, hfile]
    exact h.client hcl (keeps_next cl) hok.next (by simp)
  | some payload =>
    cases hquery : site.uriQuery (uploadUri filename (sha256 payload)) with
    | none =>
      simp only [attemptUpload, hfile, hquery]
      exact h.client hcl (keeps_retry cl) hok.retry (by simp)
    | some options =>
      simp only [attemptUpload, hfile, hquery]
      refine h.client hcl ⟨Nat.le_succ _, fun hsame => absurd hsame (Nat.succ_ne_self _)⟩
        ⟨hok.files, hok.rows⟩ ?_
      intro w' hself m hm
      rw [List.mem_singleton.1 hm]
      obtain ⟨files, hP, hsub⟩ := hok.files
      obtain ⟨rest, hrest⟩ := List.head?_eq_some_iff.1 hhead
      have hmem : filename ∈ files := hsub.subset (by simp [hrest])
      exact ⟨filename, ⟨files, hP, hmem⟩, ⟨_, hself, Nat.lt_succ_self _, fun _ _ => hhead⟩,
        hfile, hquery⟩

end Clients

/-! ## Runs -/

section Runs

variable {site : Site} {P : List String → Prop} {w w' : World}

/-- The server reads a plain filename and the checksum of the payload. -/
theorem renderPut_of_plain (hquery : SplitsQuery site.uriQuery) {filename : String}
    (hplain : Plain filename) {payload : Bytes} {options : List String}
    (hsent : site.uriQuery (uploadUri filename (sha256 payload)) = some options) :
    renderPut options payload = .changed filename payload := by
  obtain ⟨read, hread, hupload⟩ :=
    (keepsUpload_iff hquery (isHex_sha256 payload)).2 hplain
  rw [hsent] at hread
  rw [← Option.some.inj hread] at hupload
  simp [renderPut, hupload]

/-- A file is saved, perhaps not for the first time. -/
theorem Inv.put (h : Inv site P w) (hquery : SplitsQuery site.uriQuery)
    (hplain : ∀ files, P files → ∀ filename ∈ files, Plain filename) {c n : ℕ}
    {options : List String} {payload : Bytes} (hm : .put c n options payload ∈ w.sent) :
    Inv site P { w with
      store := (renderPut options payload).save w.store
      sent := w.sent ++ [.response c n ((renderPut options payload).code site.codes)] } := by
  obtain ⟨filename, ⟨files, hP, hmem⟩, hfor, hfile, hsent⟩ := h.meant _ hm
  rw [renderPut_of_plain hquery (hplain files hP filename hmem) hsent]
  have hgrows : Grows w { w with
      store := Function.update w.store filename (some payload)
      sent := w.sent ++ [.response c n site.codes.changed] } := by
    refine ⟨List.subset_append_left _ _, fun d cl hcl => ⟨cl, hcl, .refl cl⟩, ?_⟩
    intro name hstored
    simp only [Function.update_apply]
    split_ifs
    · rfl
    · exact hstored
  refine ⟨h.meant.step (stable_meant _) hgrows rfl ?_, ?_, ?_⟩
  · intro m hm
    rw [List.mem_singleton.1 hm]
    exact ⟨filename, hgrows.isFor hfor, site.codes.isSuccessful_changed, by simp [Put.save]⟩
  · exact fun d cl hcl => (h.clients d cl hcl).mono hgrows
  · intro name data hstored
    simp only [Put.save, Function.update_apply] at hstored
    split_ifs at hstored with hname
    · rw [hname, ← Option.some.inj hstored]
      exact ⟨hfile, files, hP, hmem⟩
    · exact h.store name data hstored

theorem Inv.deliver (h : Inv site P w) (hquery : SplitsQuery site.uriQuery)
    (hplain : ∀ files, P files → ∀ filename ∈ files, Plain filename) {m : Msg} (hm : m ∈ w.sent)
    (hstep : deliver site.codes w m = some w') : Inv site P w' := by
  cases m with
  | put c n options payload =>
    cases hstep
    exact h.put hquery hplain hm
  | response c n code =>
    simp only [Coap.deliver] at hstep
    split_ifs at hstep with hlast
    obtain ⟨cl, filename, hcl, hhead, hwaiting, rfl⟩ := act_eq_some hstep
    rw [hcl, Option.any_some, decide_eq_true_eq] at hlast
    obtain ⟨name, ⟨other, hother, -, hfor⟩, hcode, hstored⟩ := h.meant _ hm
    rw [hcl] at hother
    rw [← Option.some.inj hother] at hfor
    -- the response is for the file that the client is at
    have hname := hfor hwaiting hlast
    rw [hhead] at hname
    rw [← Option.some.inj hname] at hstored
    exact h.client hcl (keeps_log site.codes cl filename code)
      ((h.clients c cl hcl).log hhead hcode hstored) (by simp)

theorem Inv.start (h : Inv site P w) {files : List String} (hP : P files) :
    Inv site P { w with clients := w.clients ++ [newClient files] } := by
  have hgrows : Grows w { w with clients := w.clients ++ [newClient files] } := by
    refine ⟨fun m hm => hm, fun c cl hcl => ⟨cl, ?_, .refl cl⟩, fun _ hstored => hstored⟩
    rw [← hcl]
    exact List.getElem?_append_left (List.getElem?_eq_some_iff.1 hcl).1
  refine ⟨fun m hm => stable_meant _ m _ _ hgrows (h.meant m hm), ?_, h.store⟩
  intro c cl hcl
  rw [List.getElem?_append] at hcl
  split_ifs at hcl
  · exact (h.clients c cl hcl).mono hgrows
  · rw [List.mem_singleton.1 (List.mem_of_getElem? hcl)]
    exact ⟨⟨files, hP, List.Sublist.refl _⟩, by simp [newClient]⟩

/-- **One step**: what the messages and the clients know. -/
theorem Inv.step (h : Inv site P w) (hquery : SplitsQuery site.uriQuery)
    (hplain : ∀ files, P files → ∀ filename ∈ files, Plain filename) {a : Act}
    (hstart : ∀ files, a = .start files → P files) (hstep : exchange site w a = some w') :
    Inv site P w' := by
  cases a with
  | start files =>
    cases hstep
    exact h.start (hstart files rfl)
  | send c =>
    obtain ⟨cl, filename, hcl, hhead, -, rfl⟩ := act_eq_some hstep
    exact h.send hcl hhead
  | raise c =>
    obtain ⟨cl, filename, hcl, -, -, rfl⟩ := act_eq_some hstep
    exact h.client hcl (keeps_retry cl) (h.clients c cl hcl).retry (by simp)
  | deliver m =>
    simp only [exchange] at hstep
    split_ifs at hstep with hm
    exact h.deliver hquery hplain hm hstep

theorem inv_init (site : Site) (P : List String → Prop) : Inv site P .init := by
  constructor
  · intro m hm
    cases hm
  · intro c cl hcl
    simp [World.init] at hcl
  · intro filename data hstored
    cases hstored

/-- **Uploads over any network** with plain filenames: the server holds nothing but the clients'
    own files, under their names; a client logs each file of its list once at most and in order,
    with `integrity_ok`, and only a file that the server holds. -/
theorem stored_of_run (site : Site) (hquery : SplitsQuery site.uriQuery) (acts : List Act)
    (hplain : ∀ files, .start files ∈ acts → ∀ filename ∈ files, Plain filename) (w : World)
    (hrun : run (exchange site) .init acts = some w) :
    (∀ filename data, w.store filename = some data → site.files filename = some data ∧
      ∃ files, .start files ∈ acts ∧ filename ∈ files) ∧
    ∀ cl ∈ w.clients,
      (∃ files, .start files ∈ acts ∧ (cl.rows.map Prod.fst).Sublist files) ∧
      ∀ filename ok, (filename, ok) ∈ cl.rows → ok = true ∧
        ∃ data, site.files filename = some data ∧ w.store filename = some data := by
  have h : Inv site (fun files => .start files ∈ acts) w := by
    refine @run_invariant_along _ _ _ (Inv site fun files => .start files ∈ acts)
      (fun _ a => ∀ files, a = .start files → .start files ∈ acts) ?_ acts _ _ (inv_init _ _)
      (along_of_forall (fun a ha files he => he ▸ ha) _) hrun
    exact fun _ _ _ h hG hstep => h.step hquery hplain hG hstep
  refine ⟨h.store, fun cl hcl => ?_⟩
  obtain ⟨c, hc⟩ := List.getElem?_of_mem hcl
  have hok := h.clients c cl hc
  obtain ⟨files, hstart, hsub⟩ := hok.files
  refine ⟨⟨files, hstart, (List.sublist_append_left _ _).trans hsub⟩, fun filename ok hrow => ?_⟩
  obtain ⟨htrue, hstored⟩ := hok.rows _ hrow
  obtain ⟨data, hdata⟩ := Option.isSome_iff_exists.1 hstored
  exact ⟨htrue, data, (h.store filename data hdata).1, hdata⟩

end Runs

/-- `2.04`, `4.00`, and success of `2.xx`. -/
def codes : Codes where
  changed := 68
  badRequest := 128
  isSuccessful code := 64 ≤ code && code < 96
  isSuccessful_changed := by decide

def oneFile : Site where
  files name := if name = "a.bin" then some [1, 2] else none
  uriQuery := Lwm2m.requestOptions
  codes := codes

/-- The first response is lost, and both requests arrive twice. -/
def uploadActs : List Act :=
  let request (n : ℕ) : Msg := .put 0 n ["file=a.bin", "checksum=" ++ sha256 [1, 2]] [1, 2]
  [.start ["a.bin"], .send 0, .deliver (request 0), .raise 0, .send 0, .deliver (request 1),
    .deliver (.response 0 1 68), .deliver (request 0), .deliver (request 1)]

/-- The clients after a run. -/
def clientsOf (site : Site) (acts : List Act) : Option (List Client) :=
  (run (exchange site) .init acts).map World.clients

theorem clientsOf_uploadActs :
    clientsOf oneFile uploadActs = some [⟨[], 0, false, 2, [("a.bin", true)]⟩] := by
  decide +kernel

theorem stored_of_uploads : ∃ w, run (exchange oneFile) .init uploadActs = some w ∧
    w.store "a.bin" = some [1, 2] := by
  obtain ⟨w, hrun, hclients⟩ := Option.map_eq_some_iff.1 clientsOf_uploadActs
  have hplain : ∀ files, .start files ∈ uploadActs → ∀ filename ∈ files, Plain filename := by
    intro files hstart
    obtain rfl : files = ["a.bin"] := by simpa [uploadActs] using hstart
    decide
  obtain ⟨-, hrows⟩ := stored_of_run oneFile Lwm2m.splitsQuery_requestOptions uploadActs hplain w
    hrun
  have hrow := (hrows _ (hclients ▸ List.mem_cons_self)).2 "a.bin" true (by simp)
  obtain ⟨-, data, hfile, hstored⟩ := hrow
  have hdata : oneFile.files "a.bin" = some [1, 2] := by simp [oneFile]
  rw [hdata] at hfile
  exact ⟨w, hrun, by rw [hstored, ← Option.some.inj hfile]⟩

end TransferTestbed.Coap
