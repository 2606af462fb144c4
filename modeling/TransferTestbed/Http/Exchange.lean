import TransferTestbed.Http.Server

/-!
# HTTP uploads by client processes

The processes of `protocols/HTTP/client/http_client.py` and the server of
`protocols/HTTP/server/flask_server.py`. A process sends one request for each of its files. When a
request raises, the process goes on with the next file, while the server may still be busy with the
request or get to it later; a request that has not arrived as a whole does not reach `upload`.
The processes read the same data directory, which does not change. What the row holds beside
`integrity_ok` is left out.

Results:

* `Composed.step`: what the processes and the server know, over one step.
* `uploaded_of_run`: the server's files and the clients' rows, in every run.
-/

namespace TransferTestbed.Http

open Integrity Transition

/-! ## Clients and server -/

/-- The data directory, and the filename that Flask passes to `upload` for the URL of a file. -/
structure Site where
  files : String → Option Bytes
  route : String → Option String

/-- The request of a process for the file at a position of its list. -/
abbrev Request := ℕ × ℕ

/-- A process in `transfer_binary_files` (lines 128–136). -/
structure Client where
  /-- the position of the file of `transfer_file` -/
  position : ℕ
  /-- in `requests.put` -/
  waiting : Bool
  /-- the file and `integrity_ok` of each row -/
  rows : List (String × Bool)
deriving DecidableEq, Repr

structure World where
  server : Server Request
  clients : ℕ → Client
  /-- the requests that have been sent -/
  sent : List Request

/-- The request for a file (lines 51–52, 75–80). -/
def putFor (site : Site) (filename : String) : Option Put :=
  (site.files filename).bind fun data =>
    (site.route filename).map fun name => ⟨name, data, some (sha256 data)⟩

/-- The request of a process at a position; only those that are sent matter. -/
def putAt (site : Site) (lists : ℕ → List String) (r : Request) : Put :=
  ((lists r.1)[r.2]?.bind (putFor site)).getD ⟨"", [], none⟩

def World.init (site : Site) (lists : ℕ → List String) (files : Files) : World :=
  ⟨serve files (putAt site lists), fun _ => ⟨0, false, []⟩, []⟩

/-- `transfer_file` is over. -/
def Client.next (cl : Client) : Client := { cl with position := cl.position + 1, waiting := false }

/-- The row of the transfer (lines 86, 104–118). -/
def Client.log (cl : Client) (filename : String) (status : ℕ) : Client :=
  { cl.next with rows := cl.rows ++ [(filename, decide (status = 200))] }

def World.setClient (w : World) (c : ℕ) (cl : Client) : World :=
  { w with clients := Function.update w.clients c cl }

/-- What happens: a process goes to its next request or ends, gets a response or an exception, and
    the thread of a request takes a step. -/
inductive Act where
  | send (c : ℕ)
  | exit (c : ℕ)
  | respond (c : ℕ)
  | raise (c : ℕ)
  | serve (r : Request) (n : ℕ)
deriving DecidableEq, Repr

/-- `transfer_file(filename)` up to `requests.put` (lines 45–80). Without the file there is no
    request; without a route the response is 404. -/
def send (site : Site) (w : World) (c : ℕ) (filename : String) : World :=
  let cl := w.clients c
  if site.files filename = none then w.setClient c cl.next
  else if site.route filename = none then w.setClient c (cl.log filename 404)
  else { w.setClient c { cl with waiting := true } with sent := w.sent ++ [(c, cl.position)] }

def exchange (site : Site) (lists : ℕ → List String) (w : World) : Act → Option World
  | .send c =>
    let cl := w.clients c
    if cl.waiting then none else ((lists c)[cl.position]?).map (send site w c)
  | .exit c =>
    -- the probe raises, or the process is stopped
    some (w.setClient c ⟨(lists c).length, false, (w.clients c).rows⟩)
  | .respond c =>
    let cl := w.clients c
    if cl.waiting then
      match (lists c)[cl.position]?, (w.server.uploads (c, cl.position)).stage with
      | some filename, .answered status => some (w.setClient c (cl.log filename status))
      | _, _ => none
    else none
  | .raise c => if (w.clients c).waiting then some (w.setClient c (w.clients c).next) else none
  | .serve r n =>
    if r ∈ w.sent then (step w.server (r, n)).map fun server => { w with server := server }
    else none

/-! ## What the processes and the server know -/

/-- A file of a list that exists, and its request. -/
structure IsRequest (site : Site) (lists : ℕ → List String) (r : Request) (filename : String)
    (data : Bytes) : Prop where
  listed : (lists r.1)[r.2]? = some filename
  exists_ : site.files filename = some data

/-- What a process has logged, and what is left of its list. -/
structure ClientOk (site : Site) (lists : ℕ → List String) (w : World) (c : ℕ) (cl : Client) :
    Prop where
  files : (cl.rows.map Prod.fst ++ (lists c).drop cl.position).Sublist (lists c)
  waiting : cl.waiting = true → (c, cl.position) ∈ w.sent
  rows : ∀ row ∈ cl.rows, row.2 = true ∧
    ∃ data, site.files row.1 = some data ∧ (row.1, data) ∈ w.server.saved

structure Composed (site : Site) (lists : ℕ → List String) (files : Files) (w : World) : Prop where
  server : Inv files w.server
  puts : ∀ r, (w.server.uploads r).put = putAt site lists r
  sent : ∀ r ∈ w.sent, ∃ filename data, IsRequest site lists r filename data
  unsent : ∀ r ∉ w.sent, (w.server.uploads r).stage = .received
  clients : ∀ c, ClientOk site lists w c (w.clients c)

/-! ## One step -/

section Steps

variable {site : Site} {lists : ℕ → List String} {files : Files} {w w' : World} {c : ℕ}

/-- A filename is routed to itself. -/
def Routes (site : Site) (lists : ℕ → List String) : Prop :=
  ∀ c, ∀ filename ∈ lists c, site.route filename = some filename

theorem putAt_of_isRequest (hroute : Routes site lists) {r : Request} {filename : String}
    {data : Bytes} (h : IsRequest site lists r filename data) :
    putAt site lists r = ⟨filename, data, some (sha256 data)⟩ := by
  have hname := hroute r.1 filename (List.mem_of_getElem? h.listed)
  rw [putAt, h.listed, Option.bind_some, putFor, h.exists_, hname]
  rfl

theorem ClientOk.mono {cl : Client} (h : ClientOk site lists w c cl) (hsent : w.sent ⊆ w'.sent)
    (hsaved : w.server.saved ⊆ w'.server.saved) : ClientOk site lists w' c cl := by
  refine ⟨h.files, fun hwaiting => hsent (h.waiting hwaiting), fun row hrow => ?_⟩
  obtain ⟨htrue, data, hfile, hmem⟩ := h.rows row hrow
  exact ⟨htrue, data, hfile, hsaved hmem⟩

/-- A process takes a step. -/
theorem Composed.client (h : Composed site lists files w) {cl : Client} {sent : List Request}
    (hsent : w.sent ⊆ sent)
    (hnew : ∀ r ∈ sent, ∃ filename data, IsRequest site lists r filename data)
    (hok : ClientOk site lists { w with sent := sent } c cl) :
    Composed site lists files { w.setClient c cl with sent := sent } := by
  refine ⟨h.server, h.puts, hnew, fun r hr => h.unsent r fun hmem => hr (hsent hmem), ?_⟩
  intro d
  dsimp only [World.setClient]
  by_cases hd : d = c
  · rw [hd, Function.update_self]
    exact ⟨hok.files, hok.waiting, hok.rows⟩
  · rw [Function.update_of_ne hd]
    exact (h.clients d).mono hsent (List.Subset.refl _)

theorem drop_position {cl : Client} {filename : String}
    (hat : (lists c)[cl.position]? = some filename) :
    (lists c).drop cl.position = filename :: (lists c).drop (cl.position + 1) := by
  obtain ⟨hlt, hget⟩ := List.getElem?_eq_some_iff.1 hat
  rw [List.drop_eq_getElem_cons hlt, hget]

/-- A process goes on without a row. -/
theorem ClientOk.next {cl : Client} (h : ClientOk site lists w c cl) :
    ClientOk site lists w c cl.next := by
  refine ⟨(List.Sublist.append_left ?_ _).trans h.files, ?_, h.rows⟩
  · exact List.drop_sublist_drop_left _ (Nat.le_succ _)
  · intro hwaiting
    cases hwaiting

/-- A process logs a row. -/
theorem ClientOk.log {cl : Client} (h : ClientOk site lists w c cl) {filename : String}
    {data : Bytes} (hat : (lists c)[cl.position]? = some filename)
    (hfile : site.files filename = some data) (hsaved : (filename, data) ∈ w.server.saved) :
    ClientOk site lists w c (cl.log filename 200) := by
  have hfiles := h.files
  rw [drop_position hat] at hfiles
  refine ⟨?_, ?_, ?_⟩
  · simp only [Client.log, Client.next, List.map_append, List.map_cons, List.map_nil,
      List.append_assoc, List.singleton_append]
    exact hfiles
  · intro hwaiting
    cases hwaiting
  · intro row hrow
    rcases List.mem_append.1 hrow with hrow | hrow
    · exact h.rows row hrow
    · rw [List.mem_singleton.1 hrow]
      exact ⟨rfl, data, hfile, hsaved⟩

/-- A process takes a step, and no request is sent. -/
theorem Composed.setClient (h : Composed site lists files w) {cl : Client}
    (hok : ClientOk site lists w c cl) : Composed site lists files (w.setClient c cl) :=
  h.client (List.Subset.refl _) h.sent hok

theorem Composed.send (h : Composed site lists files w) (hroute : Routes site lists)
    {filename : String} (hat : (lists c)[(w.clients c).position]? = some filename) :
    Composed site lists files (Http.send site w c filename) := by
  have hname := hroute c filename (List.mem_of_getElem? hat)
  unfold Http.send
  dsimp only
  cases hfile : site.files filename with
  | none =>
    rw [if_pos rfl]
    exact h.setClient (h.clients c).next
  | some data =>
    rw [if_neg (by simp), if_neg (by rw [hname]; simp)]
    refine h.client (List.subset_append_left _ _) ?_ ⟨(h.clients c).files, ?_, (h.clients c).rows⟩
    · intro r hr
      rcases List.mem_append.1 hr with hr | hr
      · exact h.sent r hr
      · rw [List.mem_singleton.1 hr]
        exact ⟨filename, data, hat, hfile⟩
    · intro _
      exact List.mem_append_right _ List.mem_cons_self

/-- The response says that the file was saved. -/
theorem Composed.respond (h : Composed site lists files w) (hroute : Routes site lists)
    (hwaiting : (w.clients c).waiting = true) {filename : String} {status : ℕ}
    (hat : (lists c)[(w.clients c).position]? = some filename)
    (hstage : (w.server.uploads (c, (w.clients c).position)).stage = .answered status) :
    Composed site lists files (w.setClient c ((w.clients c).log filename status)) := by
  obtain ⟨name, data, hrequest⟩ := h.sent _ ((h.clients c).waiting hwaiting)
  obtain rfl : filename = name := Option.some.inj (hat.symm.trans hrequest.listed)
  have hupload := h.server.uploads (c, (w.clients c).position)
  rw [UploadOk, hstage, h.puts, putAt_of_isRequest hroute hrequest] at hupload
  rcases hupload with ⟨rfl, -, hmem⟩ | ⟨-, hrefused⟩
  · exact h.setClient ((h.clients c).log hat hrequest.exists_ hmem)
  · simp [Put.accepted] at hrefused

/-- Uploads to one name have the same body: the file of that name. -/
theorem Composed.agreeing (h : Composed site lists files w) (hroute : Routes site lists)
    {r : Request} (hr : r ∈ w.sent) (n : ℕ) : Agreeing w.server (r, n) := by
  intro _ j hopens
  obtain ⟨filename, data, hrequest⟩ := h.sent r hr
  obtain ⟨handle, rest, hstage, hname⟩ := opens_eq_true.1 hopens
  have hj : j ∈ w.sent := by
    by_contra hnot
    rw [h.unsent j hnot] at hstage
    cases hstage
  obtain ⟨filename', data', hrequest'⟩ := h.sent j hj
  dsimp only at hname ⊢
  rw [h.puts, h.puts, putAt_of_isRequest hroute hrequest, putAt_of_isRequest hroute hrequest']
    at hname ⊢
  dsimp only at hname ⊢
  have hfile := hrequest.exists_
  rw [← hname, hrequest'.exists_] at hfile
  exact Option.some.inj hfile

theorem Composed.serve (h : Composed site lists files w) (hroute : Routes site lists)
    {r : Request} (hr : r ∈ w.sent) {n : ℕ} {server : Server Request}
    (hstep : Http.step w.server (r, n) = some server) :
    Composed site lists files { w with server := server } := by
  have hframe := step_frame hstep
  refine ⟨h.server.step (h.agreeing hroute hr n) hstep, ?_, h.sent, ?_, ?_⟩
  · intro j
    exact (hframe.put j).trans (h.puts j)
  · intro j hj
    rw [hframe.others j fun heq => hj (heq ▸ hr)]
    exact h.unsent j hj
  · intro c
    exact (h.clients c).mono (List.Subset.refl _) hframe.saved

theorem Composed.step (h : Composed site lists files w) (hroute : Routes site lists) {a : Act}
    (hstep : exchange site lists w a = some w') : Composed site lists files w' := by
  cases a with
  | send c =>
    obtain ⟨-, hstep⟩ := Option.ite_none_left_eq_some.1 hstep
    obtain ⟨filename, hat, rfl⟩ := Option.map_eq_some_iff.1 hstep
    exact h.send hroute hat
  | exit c =>
    cases hstep
    refine h.setClient ⟨?_, fun hwaiting => ?_, (h.clients c).rows⟩
    · rw [List.drop_length, List.append_nil]
      exact (List.sublist_append_left _ _).trans (h.clients c).files
    · cases hwaiting
  | respond c =>
    obtain ⟨hwaiting, hstep⟩ := Option.ite_none_right_eq_some.1 hstep
    cases hat : (lists c)[(w.clients c).position]? with
    | none =>
      simp only [hat] at hstep
      cases hstep
    | some filename =>
      cases hstage : (w.server.uploads (c, (w.clients c).position)).stage with
      | answered status =>
        simp only [hat, hstage] at hstep
        cases hstep
        exact h.respond hroute hwaiting hat hstage
      | received =>
        simp only [hat, hstage] at hstep
        cases hstep
      | saving =>
        simp only [hat, hstage] at hstep
        cases hstep
      | writing handle rest =>
        simp only [hat, hstage] at hstep
        cases hstep
  | raise c =>
    obtain ⟨-, hstep⟩ := Option.ite_none_right_eq_some.1 hstep
    cases hstep
    exact h.setClient (h.clients c).next
  | serve r n =>
    obtain ⟨hr, hstep⟩ := Option.ite_none_right_eq_some.1 hstep
    obtain ⟨server, hserver, rfl⟩ := Option.map_eq_some_iff.1 hstep
    exact h.serve hroute hr hserver

end Steps

/-! ## Runs -/

theorem composed_init (site : Site) (lists : ℕ → List String) (files : Files) :
    Composed site lists files (World.init site lists files) := by
  refine ⟨inv_serve files _, fun _ => rfl, by simp [World.init], fun _ _ => rfl, fun c => ?_⟩
  refine ⟨List.Sublist.refl _, fun hwaiting => ?_, by simp [World.init]⟩
  cases hwaiting

theorem composed_of_run {site : Site} {lists : ℕ → List String} (hroute : Routes site lists)
    {files : Files} {acts : List Act} {w : World}
    (hrun : run (exchange site lists) (World.init site lists files) acts = some w) :
    Composed site lists files w :=
  run_invariant_along (fun _ _ _ hinv _ hstep => Composed.step hinv hroute hstep) acts
    (composed_init site lists files) (along_of_forall (fun _ _ => trivial) _) hrun

/-- What has been saved are files of the processes. -/
theorem Composed.saved {site : Site} {lists : ℕ → List String} {files : Files} {w : World}
    (h : Composed site lists files w) (hroute : Routes site lists) {filename : String}
    {data : Bytes} (hmem : (filename, data) ∈ w.server.saved) :
    site.files filename = some data ∧ ∃ c, filename ∈ lists c := by
  obtain ⟨r, hname, hdata, hstage⟩ := h.server.saved _ hmem
  have hr : r ∈ w.sent := by
    by_contra hnot
    rw [h.unsent r hnot] at hstage
    cases hstage
  obtain ⟨name, body, hrequest⟩ := h.sent r hr
  rw [h.puts, putAt_of_isRequest hroute hrequest] at hname hdata
  dsimp only at hname hdata
  subst hname hdata
  exact ⟨hrequest.exists_, r.1, List.mem_of_getElem? hrequest.listed⟩

/-- Any number of processes uploads files of one data directory, whatever raises and however the
    threads of the server run: a file on the server that is not open is as it was before, or it is
    the processes' file of that name. A process logs each file of its list at most once and in
    order, always with `integrity_ok`, and only if the server has saved it. -/
theorem uploaded_of_run (site : Site) (lists : ℕ → List String) (hroute : Routes site lists)
    (files : Files) (acts : List Act) (w : World)
    (hrun : run (exchange site lists) (World.init site lists files) acts = some w) :
    (∀ filename, (∀ r, (w.server.uploads r).opens filename = false) →
      w.server.files.read filename = files.read filename ∨
        (w.server.files.read filename = site.files filename ∧ ∃ c, filename ∈ lists c)) ∧
    ∀ c, ((w.clients c).rows.map Prod.fst).Sublist (lists c) ∧
      ∀ row ∈ (w.clients c).rows, row.2 = true ∧ ∃ data, site.files row.1 = some data ∧
        ((∀ r, (w.server.uploads r).opens row.1 = false) →
          w.server.files.read row.1 = some data) := by
  have h := composed_of_run hroute hrun
  refine ⟨fun filename hclosed => ?_, fun c => ⟨?_, fun row hrow => ?_⟩⟩
  · rw [h.server.stored filename hclosed]
    rcases saveAll_cases files.read w.server.saved filename with
      ⟨hsame, -⟩ | ⟨data, hmem, hsaved⟩
    · exact .inl hsame
    · obtain ⟨hfile, hlisted⟩ := h.saved hroute hmem
      exact .inr ⟨hsaved.trans hfile.symm, hlisted⟩
  · exact (List.sublist_append_left _ _).trans (h.clients c).files
  · obtain ⟨htrue, data, hfile, hmem⟩ := (h.clients c).rows row hrow
    refine ⟨htrue, data, hfile, fun hclosed => ?_⟩
    rw [h.server.stored row.1 hclosed]
    rcases saveAll_cases files.read w.server.saved row.1 with
      ⟨-, hnone⟩ | ⟨data', hmem', hsaved⟩
    · exact absurd rfl (hnone _ hmem)
    · rw [hsaved, ← (h.saved hroute hmem').1, hfile]

/-- One file, and two processes with it in their lists. -/
def sharedFile : Site where
  files name := if name = "a.bin" then some [1, 2] else none
  route := some

def sharedLists (c : ℕ) : List String := if c < 2 then ["a.bin"] else []

/-- The request of the first process is lost, while its thread goes on beside that of the
    second. -/
def sharedActs : List Act :=
  [.send 0, .serve (0, 0) 0, .send 1, .serve (0, 0) 0, .serve (0, 0) 0, .raise 0, .serve (1, 0) 0,
    .serve (1, 0) 0, .serve (0, 0) 0, .serve (1, 0) 1, .serve (0, 0) 0, .serve (1, 0) 0,
    .respond 1]

/-- The rows, the stages and the requests after a run. -/
def outcomeOf (site : Site) (lists : ℕ → List String) (acts : List Act) :
    Option (List (String × Bool) × Stage × Stage × List Request) :=
  (run (exchange site lists) (World.init site lists .empty) acts).map fun w =>
    ((w.clients 1).rows, (w.server.uploads (0, 0)).stage, (w.server.uploads (1, 0)).stage, w.sent)

theorem outcomeOf_sharedActs : outcomeOf sharedFile sharedLists sharedActs =
    some ([("a.bin", true)], .answered 200, .answered 200, [(0, 0), (1, 0)]) := by
  decide +kernel

theorem uploaded_of_sharedActs : ∃ w,
    run (exchange sharedFile sharedLists) (World.init sharedFile sharedLists .empty) sharedActs =
      some w ∧ w.server.files.read "a.bin" = some [1, 2] := by
  obtain ⟨w, hrun, houtcome⟩ := Option.map_eq_some_iff.1 outcomeOf_sharedActs
  obtain ⟨hrows, hfirst, hsecond, hsent⟩ :
      (w.clients 1).rows = [("a.bin", true)] ∧ (w.server.uploads (0, 0)).stage = .answered 200 ∧
        (w.server.uploads (1, 0)).stage = .answered 200 ∧ w.sent = [(0, 0), (1, 0)] := by
    simpa only [Prod.mk.injEq] using houtcome
  have hroute : Routes sharedFile sharedLists := fun _ _ _ => rfl
  have hclosed (r : Request) : (w.server.uploads r).opens "a.bin" = false := by
    by_cases hr : r ∈ w.sent
    · rw [hsent] at hr
      rcases List.mem_cons.1 hr with rfl | hr
      · simp [Upload.opens, hfirst]
      · rw [List.mem_singleton.1 hr]
        simp [Upload.opens, hsecond]
    · simp [Upload.opens, (composed_of_run hroute hrun).unsent r hr]
  obtain ⟨-, hclients⟩ :=
    uploaded_of_run sharedFile sharedLists hroute .empty sharedActs w hrun
  obtain ⟨-, data, hfile, hread⟩ := (hclients 1).2 ("a.bin", true) (by simp [hrows])
  have hdata : sharedFile.files "a.bin" = some [1, 2] := by simp [sharedFile]
  rw [hdata] at hfile
  exact ⟨w, hrun, (hread hclosed).trans hfile.symm⟩

end TransferTestbed.Http
