import TransferTestbed.Library.FileSystem
import TransferTestbed.Library.Numeral
import TransferTestbed.Library.Transition
import TransferTestbed.Protocols.BenchmarkManager

/-!
# Captures (`common/packet_capture.py`)

`start_capture_run` and `stop_capture_run`, as `run_transfer` calls them, over the capture
containers: their `/tmp`, and the tcpdump processes in them, which keep frames in a buffer and
write them to their pcap when they like, and what is left when they exit. Any command may fail,
and any wait may end in its timeout, so that processes are left over from one transfer to the
next. A tcpdump that has been started has its pcap open.

Results:

* `Inv.step`: what is in the pcap of the transfer at hand, over one step.
* `pcap_of_run`: which frames are in the pcap that a transfer leaves for the analysis.
* `kept_of_run`: that the pcaps of a run are there at its end.
-/

namespace TransferTestbed.Capture

open BenchmarkManager Transition

/-! ## Containers and transfers -/

/-- A frame, and the number of the transfer during which tcpdump read it. -/
abbrev Frame (φ : Type*) := ℕ × φ

structure Tcpdump (φ : Type*) where
  protocol : Protocol
  handle : FileHandle
  /-- read and not yet written -/
  buffer : List (Frame φ)
deriving DecidableEq, Repr

/-- One `run_transfer` call. -/
structure Transfer (φ : Type*) where
  protocol : Protocol
  filename : String
  qos : Option ℤ
  /-- No file had the name of the pcap when tcpdump opened it. -/
  fresh : Bool
  /-- No tcpdump was there when `stop_capture_run` stopped waiting. -/
  exited : Bool
  copied : Bool
  /-- what its tcpdump has read -/
  seen : List (Frame φ)
deriving DecidableEq, Repr

namespace Transfer

variable {φ : Type*}

/-- `os.path.basename(outfile)`. -/
def name (t : Transfer φ) : String := pcapName t.protocol (transferLabel t.filename t.qos)

/-- `outfile`, in the container of the protocol. -/
def path (t : Transfer φ) : Protocol × String := (t.protocol, t.name)

end Transfer

/-- What a transfer leaves for the analysis at `pcap_path`. -/
structure Analysis (φ : Type*) where
  number : ℕ
  transfer : Transfer φ
  pcap : Option (List (Frame φ))
deriving DecidableEq, Repr

/-- Where `run_transfer` is. -/
inductive Phase where
  | idle
  /-- `rm -f` is next (line 76). -/
  | starting
  /-- `docker compose exec -d` is next (line 86). -/
  | launching
  /-- in `_wait_until_ready` -/
  | awaiting
  /-- The client runs; `pkill` is next (line 156). -/
  | capturing
  /-- waiting for tcpdump to exit (lines 160–171) -/
  | stopping
  /-- `docker compose cp` is next (line 176). -/
  | copying
deriving DecidableEq, Repr

/-- The containers, `runs.pcap_dir()` on the host, and the harness. -/
structure World (φ : Type*) where
  fs : FileSystem (Protocol × String) (Frame φ)
  host : String → Option (List (Frame φ))
  phase : Phase
  /-- the number of transfers -/
  count : ℕ
  transfer : Transfer φ
  /-- the tcpdump of the transfer -/
  current : Option (Tcpdump φ)
  /-- those of earlier transfers -/
  leftover : List (Tcpdump φ)
  analyses : List (Analysis φ)

def World.init {φ : Type*} : World φ where
  fs := .empty
  host _ := none
  phase := .idle
  count := 0
  transfer := ⟨.mqtt, "", none, false, false, false, []⟩
  current := none
  leftover := []
  analyses := []

/-! ## Steps -/

/-- What happens: the commands of the harness, with their outcome, and what tcpdump does; `none`
    is the process of the transfer. -/
inductive Act (φ : Type*) where
  | start (protocol : Protocol) (filename : String) (qos : Option ℤ)
  | remove (ok : Bool)
  | launch (ok : Bool)
  | ready
  | notReady
  | kill (ok : Bool)
  | gone
  | giveUp
  | copy (ok removed : Bool)
  | read (i : Option ℕ) (frame : φ)
  | flush (i : Option ℕ) (n : ℕ)
  | exit (i : Option ℕ)

section Steps

variable {φ : Type*} [Inhabited φ]

/-- `pgrep -x tcpdump` in the container of the protocol. -/
def World.pgrep (w : World φ) (protocol : Protocol) : Bool :=
  w.current.any (fun t => t.protocol = protocol) || w.leftover.any fun t => t.protocol = protocol

def World.process (w : World φ) : Option ℕ → Option (Tcpdump φ)
  | none => w.current
  | some i => w.leftover[i]?

def World.setProcess (w : World φ) (i : Option ℕ) (t : Tcpdump φ) : World φ :=
  match i with
  | none => { w with current := some t }
  | some i => { w with leftover := w.leftover.set i t }

def World.dropProcess (w : World φ) : Option ℕ → World φ
  | none => { w with current := none }
  | some i => { w with leftover := w.leftover.eraseIdx i }

/-- The first frames of the buffer are written. -/
def World.write (w : World φ) (i : Option ℕ) (t : Tcpdump φ) (n : ℕ) : World φ :=
  let written := w.fs.writeAt t.handle (t.buffer.take n)
  { w.setProcess i { t with handle := written.2, buffer := t.buffer.drop n } with
    fs := written.1 }

/-- The process of the transfer reads a frame for it. -/
def World.see (w : World φ) (i : Option ℕ) (frame : φ) : Transfer φ :=
  match i with
  | none => { w.transfer with seen := w.transfer.seen ++ [(w.count, frame)] }
  | some _ => w.transfer

/-- `rm -f`. -/
def removeFile (fs : FileSystem (Protocol × String) (Frame φ)) (path : Protocol × String) :
    FileSystem (Protocol × String) (Frame φ) :=
  (fs.remove path).getD fs

/-- The end of `stop_capture_run` (lines 173–195). -/
def World.copy (w : World φ) (ok removed : Bool) : World φ :=
  match ok, w.fs.read w.transfer.path with
  | true, some frames =>
    { w with
      host := Function.update w.host w.transfer.name (some frames)
      fs := if removed then removeFile w.fs w.transfer.path else w.fs
      transfer := { w.transfer with copied := true } }
  | _, _ => w

def step (w : World φ) : Act φ → Option (World φ)
  | .start protocol filename qos =>
    if w.phase = .idle then
      some { w with
        phase := .starting
        count := w.count + 1
        transfer := ⟨protocol, filename, qos, false, false, false, []⟩
        current := none
        leftover := w.current.toList ++ w.leftover }
    else none
  | .remove ok =>
    if w.phase = .starting then
      some { w with
        phase := .launching
        fs := if ok then removeFile w.fs w.transfer.path else w.fs }
    else none
  | .launch ok =>
    if w.phase = .launching then
      -- `check=True`: a failure raises
      if ok then
        let opened := w.fs.openTruncate w.transfer.path
        some { w with
          phase := .awaiting
          fs := opened.1
          current := some ⟨w.transfer.protocol, opened.2, []⟩
          transfer := { w.transfer with fresh := (w.fs.names w.transfer.path).isNone } }
      else some { w with phase := .idle }
    else none
  | .ready =>
    if w.phase = .awaiting ∧ w.pgrep w.transfer.protocol then some { w with phase := .capturing }
    else none
  | .notReady => if w.phase = .awaiting then some { w with phase := .idle } else none
  | .kill ok =>
    if w.phase = .capturing then
      -- `pkill` fails if there is no process
      some { w with phase := if ok && w.pgrep w.transfer.protocol then .stopping else .idle }
    else none
  | .gone =>
    if w.phase = .stopping ∧ w.pgrep w.transfer.protocol = false then
      some { w with phase := .copying, transfer := { w.transfer with exited := true } }
    else none
  | .giveUp => if w.phase = .stopping then some { w with phase := .copying } else none
  | .copy ok removed =>
    if w.phase = .copying then
      let w' := w.copy ok removed
      some { w' with
        phase := .idle
        analyses := w.analyses ++ [⟨w.count, w'.transfer, w'.host w'.transfer.name⟩] }
    else none
  | .read i frame =>
    (w.process i).map fun t =>
      { w.setProcess i { t with buffer := t.buffer ++ [(w.count, frame)] } with
        transfer := w.see i frame }
  | .flush i n => (w.process i).map fun t => w.write i t n
  | .exit i => (w.process i).map fun t => (w.write i t t.buffer.length).dropProcess i

end Steps

/-! ## The pcap of the transfer -/

section Invariant

variable {φ : Type*}

/-- The pcap and the buffer of the transfer's process hold what it has read, and no other process
    writes to this pcap. -/
inductive Own (w : World φ) : Prop where
  | running (t : Tcpdump φ) (written : List (Frame φ)) (hcurrent : w.current = some t)
      (hend : w.fs.AtEnd t.handle w.transfer.path written)
      (hseen : written ++ t.buffer = w.transfer.seen)
      (hapart : ∀ q ∈ w.leftover, q.handle.inode ≠ t.handle.inode)
  | exited (i : ℕ) (hcurrent : w.current = none) (hnames : w.fs.names w.transfer.path = some i)
      (hseen : w.fs.data i = w.transfer.seen) (hapart : ∀ q ∈ w.leftover, q.handle.inode ≠ i)

/-- The pcap has been opened and not yet copied. -/
def Phase.open : Phase → Bool
  | .awaiting | .capturing | .stopping | .copying => true
  | _ => false

/-- The transfer's own frames, complete. -/
def Analysis.Exact (a : Analysis φ) : Prop :=
  a.pcap = some a.transfer.seen ∧ ∀ f ∈ a.transfer.seen, f.1 = a.number

structure Inv (w : World φ) : Prop where
  current_lt : ∀ t, w.current = some t → t.handle.inode < w.fs.next
  leftover_lt : ∀ t ∈ w.leftover, t.handle.inode < w.fs.next
  unopened : w.phase = .starting ∨ w.phase = .launching →
    w.current = none ∧ w.transfer.seen = [] ∧ w.transfer.exited = false
  protocol : ∀ t, w.current = some t → t.protocol = w.transfer.protocol
  own : w.phase.open = true → w.transfer.fresh = true → Own w
  exited : w.phase.open = true → w.transfer.exited = true → w.current = none
  copied : w.phase ≠ .idle → w.transfer.copied = false
  numbers : ∀ f ∈ w.transfer.seen, f.1 = w.count
  analyses : ∀ a ∈ w.analyses, a.transfer.fresh = true → a.transfer.exited = true →
    a.transfer.copied = true → a.Exact

end Invariant

/-! ## What tcpdump does -/

section Processes

variable {φ : Type*} {w : World φ} {i : Option ℕ} {t : Tcpdump φ}

theorem mem_leftover {j : ℕ} (h : w.process (some j) = some t) : t ∈ w.leftover :=
  List.mem_of_getElem? h

/-- A process that goes on writes to the same file. -/
theorem exists_of_mem_set {t' q : Tcpdump φ} {j : ℕ} (h : w.process (some j) = some t)
    (hq : q ∈ w.leftover.set j t') (hinode : t'.handle.inode = t.handle.inode) :
    ∃ r ∈ w.leftover, q.handle.inode = r.handle.inode := by
  rcases List.mem_or_eq_of_mem_set hq with hq | rfl
  · exact ⟨q, hq, rfl⟩
  · exact ⟨t, mem_leftover h, hinode⟩

theorem Own.read (h : Own w) (hi : w.process i = some t) (frame : φ) :
    Own { w.setProcess i { t with buffer := t.buffer ++ [(w.count, frame)] } with
      transfer := w.see i frame } := by
  cases i with
  | none =>
    cases h with
    | running own written hcurrent hend hseen hapart =>
      obtain rfl := Option.some.inj (hcurrent.symm.trans hi)
      exact .running _ written rfl hend (by simp [World.see, ← hseen]) hapart
    | exited inode hcurrent hnames hseen hapart =>
      rw [World.process, hcurrent] at hi
      cases hi
  | some j =>
    have hset (q : Tcpdump φ)
        (hq : q ∈ w.leftover.set j { t with buffer := t.buffer ++ [(w.count, frame)] }) :=
      exists_of_mem_set hi hq rfl
    cases h with
    | running own written hcurrent hend hseen hapart =>
      refine .running own written hcurrent hend hseen fun q hq => ?_
      obtain ⟨r, hr, hinode⟩ := hset q hq
      exact hinode ▸ hapart r hr
    | exited inode hcurrent hnames hseen hapart =>
      refine .exited inode hcurrent hnames hseen fun q hq => ?_
      obtain ⟨r, hr, hinode⟩ := hset q hq
      exact hinode ▸ hapart r hr

/-- Nothing else changes when a process goes on or exits. -/
theorem Inv.process (h : Inv w) {w' : World φ} (hnext : w'.fs.next = w.fs.next)
    (hphase : w'.phase = w.phase) (hcount : w'.count = w.count)
    (hprotocol : w'.transfer.protocol = w.transfer.protocol)
    (hfresh : w'.transfer.fresh = w.transfer.fresh)
    (hexited : w'.transfer.exited = w.transfer.exited)
    (hcopied : w'.transfer.copied = w.transfer.copied) (hanalyses : w'.analyses = w.analyses)
    (hcurrent : ∀ t', w'.current = some t' →
      ∃ t, w.current = some t ∧ t'.handle.inode = t.handle.inode ∧ t'.protocol = t.protocol)
    (hleftover : ∀ q ∈ w'.leftover, ∃ r ∈ w.leftover, q.handle.inode = r.handle.inode)
    (hseen : ∀ f ∈ w'.transfer.seen, f ∈ w.transfer.seen ∨ w.current ≠ none ∧ f.1 = w.count)
    (hown : Own w → Own w') : Inv w' where
  current_lt t' ht' := by
    obtain ⟨t, ht, hinode, -⟩ := hcurrent t' ht'
    rw [hinode, hnext]
    exact h.current_lt t ht
  leftover_lt q hq := by
    obtain ⟨r, hr, hinode⟩ := hleftover q hq
    rw [hinode, hnext]
    exact h.leftover_lt r hr
  unopened hunopened := by
    rw [hphase] at hunopened
    obtain ⟨hnone, hempty, hrunning⟩ := h.unopened hunopened
    refine ⟨?_, ?_, hexited.trans hrunning⟩
    · rw [Option.eq_none_iff_forall_ne_some]
      intro t' ht'
      obtain ⟨t, ht, -⟩ := hcurrent t' ht'
      rw [hnone] at ht
      cases ht
    · rw [List.eq_nil_iff_forall_not_mem]
      intro f hf
      rcases hseen f hf with hf | ⟨hsome, -⟩
      · rw [hempty] at hf
        cases hf
      · exact hsome hnone
  protocol t' ht' := by
    obtain ⟨t, ht, -, hsame⟩ := hcurrent t' ht'
    rw [hsame, hprotocol]
    exact h.protocol t ht
  own hopen hfresh' := by
    rw [hphase] at hopen
    rw [hfresh] at hfresh'
    exact hown (h.own hopen hfresh')
  exited hopen hexited' := by
    rw [hphase] at hopen
    rw [hexited] at hexited'
    have hnone := h.exited hopen hexited'
    rw [Option.eq_none_iff_forall_ne_some]
    intro t' ht'
    obtain ⟨t, ht, -⟩ := hcurrent t' ht'
    rw [hnone] at ht
    cases ht
  copied hactive := by
    rw [hphase] at hactive
    exact hcopied.trans (h.copied hactive)
  numbers f hf := by
    rw [hcount]
    rcases hseen f hf with hf | ⟨-, hnumber⟩
    · exact h.numbers f hf
    · exact hnumber
  analyses := by
    rw [hanalyses]
    exact h.analyses

theorem Inv.read (h : Inv w) (hi : w.process i = some t) (frame : φ) :
    Inv { w.setProcess i { t with buffer := t.buffer ++ [(w.count, frame)] } with
      transfer := w.see i frame } := by
  cases i with
  | none =>
    refine h.process rfl rfl rfl rfl rfl rfl rfl rfl ?_ (fun q hq => ⟨q, hq, rfl⟩) ?_
      fun hown => hown.read hi frame
    · intro t' ht'
      rw [← Option.some.inj ht']
      exact ⟨t, hi, rfl, rfl⟩
    · intro f hf
      rcases List.mem_append.1 hf with hf | hf
      · exact .inl hf
      · rw [List.mem_singleton.1 hf]
        refine .inr ⟨fun hnone => ?_, rfl⟩
        rw [World.process, hnone] at hi
        cases hi
  | some j =>
    exact h.process rfl rfl rfl rfl rfl rfl rfl rfl (fun t' ht' => ⟨t', ht', rfl, rfl⟩)
      (fun q hq => exists_of_mem_set hi hq rfl) (fun f hf => .inl hf)
      fun hown => hown.read hi frame

variable [Inhabited φ]

theorem Own.write (h : Own w) (hi : w.process i = some t) (n : ℕ) : Own (w.write i t n) := by
  cases i with
  | none =>
    cases h with
    | running own written hcurrent hend hseen hapart =>
      obtain rfl := Option.some.inj (hcurrent.symm.trans hi)
      refine .running _ _ rfl (hend.writeAt _) ?_ hapart
      rw [List.append_assoc, List.take_append_drop, hseen]
      rfl
    | exited inode hcurrent hnames hseen hapart =>
      rw [World.process, hcurrent] at hi
      cases hi
  | some j =>
    have hmem := mem_leftover hi
    have hset (q : Tcpdump φ) (hq : q ∈ (w.write (some j) t n).leftover) :=
      exists_of_mem_set hi hq rfl
    cases h with
    | running own written hcurrent hend hseen hapart =>
      refine .running own written hcurrent (hend.writeAt_other (Ne.symm (hapart t hmem)) _) hseen
        fun q hq => ?_
      obtain ⟨r, hr, hinode⟩ := hset q hq
      exact hinode ▸ hapart r hr
    | exited inode hcurrent hnames hseen hapart =>
      refine .exited inode hcurrent hnames ?_ fun q hq => ?_
      · exact (Function.update_of_ne (Ne.symm (hapart t hmem)) _ _).trans hseen
      · obtain ⟨r, hr, hinode⟩ := hset q hq
        exact hinode ▸ hapart r hr

/-- A process writes all that it has read, and is gone. -/
theorem Own.exit (h : Own w) (hi : w.process i = some t) :
    Own ((w.write i t t.buffer.length).dropProcess i) := by
  have hwrite := h.write hi t.buffer.length
  cases i with
  | none =>
    cases hwrite with
    | running own written hcurrent hend hseen hapart =>
      obtain rfl := Option.some.inj hcurrent
      refine .exited _ rfl hend.names ?_ hapart
      have hempty : t.buffer.drop t.buffer.length = [] := List.drop_length
      rw [hempty, List.append_nil] at hseen
      rw [← hend.data] at hseen
      exact hseen
    | exited inode hcurrent => cases hcurrent
  | some j =>
    cases hwrite with
    | running own written hcurrent hend hseen hapart =>
      exact .running own written hcurrent hend hseen fun q hq =>
        hapart q (List.mem_of_mem_eraseIdx hq)
    | exited inode hcurrent hnames hseen hapart =>
      exact .exited inode hcurrent hnames hseen fun q hq => hapart q (List.mem_of_mem_eraseIdx hq)

theorem Inv.write (h : Inv w) (hi : w.process i = some t) (n : ℕ) : Inv (w.write i t n) := by
  cases i with
  | none =>
    refine h.process rfl rfl rfl rfl rfl rfl rfl rfl ?_ (fun q hq => ⟨q, hq, rfl⟩)
      (fun f hf => .inl hf) fun hown => hown.write hi n
    intro t' ht'
    rw [← Option.some.inj ht']
    exact ⟨t, hi, rfl, rfl⟩
  | some j =>
    exact h.process rfl rfl rfl rfl rfl rfl rfl rfl (fun t' ht' => ⟨t', ht', rfl, rfl⟩)
      (fun q hq => exists_of_mem_set hi hq rfl) (fun f hf => .inl hf) fun hown => hown.write hi n

theorem Inv.exit (h : Inv w) (hi : w.process i = some t) :
    Inv ((w.write i t t.buffer.length).dropProcess i) := by
  cases i with
  | none =>
    exact h.process rfl rfl rfl rfl rfl rfl rfl rfl (fun t' ht' => by cases ht')
      (fun q hq => ⟨q, hq, rfl⟩) (fun f hf => .inl hf) fun hown => hown.exit hi
  | some j =>
    exact h.process rfl rfl rfl rfl rfl rfl rfl rfl (fun t' ht' => ⟨t', ht', rfl, rfl⟩)
      (fun q hq => exists_of_mem_set hi (List.mem_of_mem_eraseIdx hq) rfl)
      (fun f hf => .inl hf) fun hown => hown.exit hi

end Processes

/-! ## What the harness does -/

section Harness

variable {φ : Type*} {w : World φ}

theorem next_removeFile (fs : FileSystem (Protocol × String) (Frame φ))
    (path : Protocol × String) : (removeFile fs path).next = fs.next := by
  unfold removeFile
  cases h : fs.remove path with
  | none => rfl
  | some fs' => exact FileSystem.next_remove h

theorem Inv.start (h : Inv w) (protocol : Protocol) (filename : String) (qos : Option ℤ) :
    Inv { w with
      phase := .starting
      count := w.count + 1
      transfer := ⟨protocol, filename, qos, false, false, false, []⟩
      current := none
      leftover := w.current.toList ++ w.leftover } where
  current_lt t ht := by cases ht
  leftover_lt t ht := by
    rcases List.mem_append.1 ht with ht | ht
    · exact h.current_lt t (Option.mem_toList.1 ht)
    · exact h.leftover_lt t ht
  unopened _ := ⟨rfl, rfl, rfl⟩
  protocol t ht := by cases ht
  own hopen := by cases hopen
  exited hopen := by cases hopen
  copied _ := rfl
  numbers f hf := by cases hf
  analyses := h.analyses

theorem Inv.remove (h : Inv w) (hphase : w.phase = .starting) (ok : Bool) :
    Inv { w with
      phase := .launching
      fs := if ok then removeFile w.fs w.transfer.path else w.fs } := by
  have hnext : (if ok then removeFile w.fs w.transfer.path else w.fs).next = w.fs.next := by
    split_ifs
    · exact next_removeFile _ _
    · rfl
  obtain ⟨hnone, hempty, hrunning⟩ := h.unopened (.inl hphase)
  constructor
  · intro t ht
    exact (h.current_lt t ht).trans_eq hnext.symm
  · intro t ht
    exact (h.leftover_lt t ht).trans_eq hnext.symm
  · exact fun _ => ⟨hnone, hempty, hrunning⟩
  · exact h.protocol
  · intro hopen
    cases hopen
  · intro hopen
    cases hopen
  · exact fun _ => h.copied (by rw [hphase]; decide)
  · exact h.numbers
  · exact h.analyses

/-- The pcap is a new file, unless one was there. -/
theorem Inv.launch (h : Inv w) (hphase : w.phase = .launching) :
    Inv { w with
      phase := .awaiting
      fs := (w.fs.openTruncate w.transfer.path).1
      current := some ⟨w.transfer.protocol, (w.fs.openTruncate w.transfer.path).2, []⟩
      transfer := { w.transfer with fresh := (w.fs.names w.transfer.path).isNone } } := by
  obtain ⟨hnone, hempty, hrunning⟩ := h.unopened (.inr hphase)
  have hlt (i : ℕ) (hi : i < w.fs.next) : i < (w.fs.openTruncate w.transfer.path).1.next :=
    hi.trans_le (Nat.le_max_left _ _)
  constructor
  · intro t ht
    rw [← Option.some.inj ht]
    exact (Nat.lt_succ_self _).trans_le (Nat.le_max_right _ _)
  · exact fun t ht => hlt _ (h.leftover_lt t ht)
  · rintro (hunopened | hunopened) <;> cases hunopened
  · intro t ht
    rw [← Option.some.inj ht]
  · intro _ hfresh
    have hnew : w.fs.inodeFor w.transfer.path = w.fs.next := by
      rw [FileSystem.inodeFor, Option.isNone_iff_eq_none.1 hfresh, Option.getD_none]
    refine .running _ [] rfl (FileSystem.atEnd_openTruncate _ _) hempty.symm fun q hq => ?_
    rw [FileSystem.inode_openTruncate, hnew]
    exact (h.leftover_lt q hq).ne
  · intro _ hexited
    exact absurd (hrunning.symm.trans hexited) (by decide)
  · exact fun _ => h.copied (by rw [hphase]; decide)
  · exact h.numbers
  · exact h.analyses

theorem Own.congr (h : Own w) {w' : World φ} (hfs : w'.fs = w.fs)
    (hcurrent : w'.current = w.current) (hleftover : w'.leftover = w.leftover)
    (hpath : w'.transfer.path = w.transfer.path) (hseen : w'.transfer.seen = w.transfer.seen) :
    Own w' := by
  cases h with
  | running t written hrunning hend hwritten hapart =>
    exact .running t written (hcurrent.trans hrunning) (hfs ▸ hpath ▸ hend)
      (hwritten.trans hseen.symm) (hleftover ▸ hapart)
  | exited i hnone hnames hdata hapart =>
    exact .exited i (hcurrent.trans hnone) (hfs ▸ hpath ▸ hnames) (hfs ▸ hdata.trans hseen.symm)
      (hleftover ▸ hapart)

theorem Inv.idle (h : Inv w) : Inv { w with phase := .idle } := by
  refine ⟨h.current_lt, h.leftover_lt, ?_, h.protocol, (fun hopen => by cases hopen),
    (fun hopen => by cases hopen), fun hactive => absurd rfl hactive, h.numbers, h.analyses⟩
  rintro (hunopened | hunopened) <;> cases hunopened

theorem Inv.goOn (h : Inv w) (hopen : w.phase.open = true) {phase : Phase}
    (hphase : phase.open = true) : Inv { w with phase := phase } := by
  have hactive : w.phase ≠ .idle := by
    intro hidle
    rw [hidle] at hopen
    cases hopen
  refine ⟨h.current_lt, h.leftover_lt, ?_, h.protocol,
    fun _ hfresh => (h.own hopen hfresh).congr rfl rfl rfl rfl rfl, fun _ => h.exited hopen,
    fun _ => h.copied hactive, h.numbers, h.analyses⟩
  rintro (rfl | rfl) <;> cases hphase

theorem Inv.gone (h : Inv w) (hphase : w.phase = .stopping)
    (hgone : w.pgrep w.transfer.protocol = false) :
    Inv { w with phase := .copying, transfer := { w.transfer with exited := true } } := by
  have hopen : w.phase.open = true := by rw [hphase]; rfl
  have hcurrent : w.current = none := by
    cases hcurrent : w.current with
    | none => rfl
    | some t => simp [World.pgrep, hcurrent, h.protocol t hcurrent] at hgone
  refine ⟨h.current_lt, h.leftover_lt, ?_, h.protocol,
    fun _ hfresh => (h.own hopen hfresh).congr rfl rfl rfl rfl rfl, fun _ _ => hcurrent,
    fun _ => h.copied (by rw [hphase]; decide), h.numbers, h.analyses⟩
  rintro (hunopened | hunopened) <;> cases hunopened

/-- The pcap is copied, or nothing happens. -/
theorem copy_cases (w : World φ) (ok removed : Bool) :
    w.copy ok removed = w ∨ ∃ frames, w.fs.read w.transfer.path = some frames ∧
      w.copy ok removed = { w with
        host := Function.update w.host w.transfer.name (some frames)
        fs := if removed then removeFile w.fs w.transfer.path else w.fs
        transfer := { w.transfer with copied := true } } := by
  unfold World.copy
  split
  · rename_i frames hread
    exact .inr ⟨frames, hread, rfl⟩
  · exact .inl rfl

/-- The pcap that is copied, if the transfer's tcpdump opened a new file and is gone. -/
theorem Inv.exact (h : Inv w) (hphase : w.phase = .copying) (ok removed : Bool)
    (hfresh : (w.copy ok removed).transfer.fresh = true)
    (hexited : (w.copy ok removed).transfer.exited = true)
    (hcopied : (w.copy ok removed).transfer.copied = true) :
    Analysis.Exact ⟨w.count, (w.copy ok removed).transfer,
      (w.copy ok removed).host (w.copy ok removed).transfer.name⟩ := by
  have hopen : w.phase.open = true := by rw [hphase]; rfl
  have hnot := h.copied (by rw [hphase]; decide)
  rcases copy_cases w ok removed with hsame | ⟨frames, hread, hcopy⟩
  · rw [hsame, hnot] at hcopied
    cases hcopied
  · rw [hcopy] at hfresh hexited ⊢
    have hnone := h.exited hopen hexited
    cases h.own hopen hfresh with
    | running t written hrunning =>
      rw [hnone] at hrunning
      cases hrunning
    | exited i _ hnames hseen _ =>
      rw [FileSystem.read, hnames, Option.map_some, hseen] at hread
      refine ⟨?_, h.numbers⟩
      rw [hread]
      exact Function.update_self _ _ _

theorem Inv.copy (h : Inv w) (hphase : w.phase = .copying) (ok removed : Bool) :
    Inv { w.copy ok removed with
      phase := .idle
      analyses := w.analyses ++ [⟨w.count, (w.copy ok removed).transfer,
        (w.copy ok removed).host (w.copy ok removed).transfer.name⟩] } := by
  have hsame : (w.copy ok removed).fs.next = w.fs.next ∧
      (w.copy ok removed).current = w.current ∧ (w.copy ok removed).leftover = w.leftover ∧
      (w.copy ok removed).count = w.count ∧
      (w.copy ok removed).transfer.protocol = w.transfer.protocol ∧
      (w.copy ok removed).transfer.seen = w.transfer.seen := by
    rcases copy_cases w ok removed with hcopy | ⟨frames, -, hcopy⟩
    · rw [hcopy]
      exact ⟨rfl, rfl, rfl, rfl, rfl, rfl⟩
    · rw [hcopy]
      refine ⟨?_, rfl, rfl, rfl, rfl, rfl⟩
      dsimp only
      split_ifs
      · exact next_removeFile _ _
      · rfl
  obtain ⟨hnext, hcurrent, hleftover, hcount, hprotocol, hseen⟩ := hsame
  constructor
  · intro t ht
    exact (h.current_lt t (hcurrent ▸ ht)).trans_eq hnext.symm
  · intro t ht
    exact (h.leftover_lt t (hleftover ▸ ht)).trans_eq hnext.symm
  · rintro (hunopened | hunopened) <;> cases hunopened
  · intro t ht
    exact (h.protocol t (hcurrent ▸ ht)).trans hprotocol.symm
  · intro hopen
    cases hopen
  · intro hopen
    cases hopen
  · exact fun hactive => absurd rfl hactive
  · intro f hf
    exact (h.numbers f (hseen ▸ hf)).trans hcount.symm
  · intro a ha hfresh hexited hcopied
    rcases List.mem_append.1 ha with ha | ha
    · exact h.analyses a ha hfresh hexited hcopied
    · rw [List.mem_singleton.1 ha] at hfresh hexited hcopied ⊢
      exact h.exact hphase ok removed hfresh hexited hcopied

end Harness

/-! ## Runs -/

section Runs

variable {φ : Type*} [Inhabited φ] {w w' : World φ}

/-- **One step**: what is in the pcap of the transfer at hand. -/
theorem Inv.step (h : Inv w) {a : Act φ} (hstep : step w a = some w') : Inv w' := by
  cases a with
  | start protocol filename qos =>
    simp only [Capture.step] at hstep
    split_ifs at hstep
    cases hstep
    exact h.start protocol filename qos
  | remove ok =>
    obtain ⟨hphase, hstep⟩ := Option.ite_none_right_eq_some.1 hstep
    cases hstep
    exact h.remove hphase ok
  | launch ok =>
    simp only [Capture.step] at hstep
    split_ifs at hstep with hphase
    · cases hstep
      exact h.launch hphase
    · cases hstep
      exact h.idle
  | ready =>
    simp only [Capture.step] at hstep
    split_ifs at hstep with hphase
    cases hstep
    exact h.goOn (by rw [hphase.1]; rfl) rfl
  | notReady =>
    simp only [Capture.step] at hstep
    split_ifs at hstep
    cases hstep
    exact h.idle
  | kill ok =>
    simp only [Capture.step] at hstep
    split_ifs at hstep with hphase hkill
    · cases hstep
      exact h.goOn (by rw [hphase]; rfl) rfl
    · cases hstep
      exact h.idle
  | gone =>
    simp only [Capture.step] at hstep
    split_ifs at hstep with hphase
    cases hstep
    exact h.gone hphase.1 hphase.2
  | giveUp =>
    simp only [Capture.step] at hstep
    split_ifs at hstep with hphase
    cases hstep
    exact h.goOn (by rw [hphase]; rfl) rfl
  | copy ok removed =>
    simp only [Capture.step] at hstep
    split_ifs at hstep with hphase
    cases hstep
    exact h.copy hphase ok removed
  | read i frame =>
    obtain ⟨t, hi, rfl⟩ := Option.map_eq_some_iff.1 hstep
    exact h.read hi frame
  | flush i n =>
    obtain ⟨t, hi, rfl⟩ := Option.map_eq_some_iff.1 hstep
    exact h.write hi n
  | exit i =>
    obtain ⟨t, hi, rfl⟩ := Option.map_eq_some_iff.1 hstep
    exact h.exit hi

omit [Inhabited φ] in
theorem inv_init : Inv (World.init : World φ) := by
  constructor
  · intro t ht
    cases ht
  · intro t ht
    cases ht
  · rintro (hunopened | hunopened) <;> cases hunopened
  · intro t ht
    cases ht
  · intro hopen
    cases hopen
  · intro hopen
    cases hopen
  · exact fun hactive => absurd rfl hactive
  · intro f hf
    cases hf
  · intro a ha
    cases ha

theorem inv_run {acts : List (Act φ)} (hrun : run step .init acts = some w) : Inv w :=
  run_invariant_along (I := Inv) (G := fun _ _ => True) (fun _ _ _ h _ hstep => h.step hstep)
    acts inv_init (along_of_forall (fun _ _ => trivial) _) hrun

/-- **The pcap of a transfer**, over any failures and any processes that are left over: if no file
    had its name when tcpdump opened it, and `stop_capture_run` saw tcpdump gone and copied it, it
    holds exactly what the tcpdump of this transfer has read, all of it during the transfer. -/
theorem pcap_of_run (acts : List (Act φ)) (w : World φ) (hrun : run step .init acts = some w)
    (a : Analysis φ) (ha : a ∈ w.analyses) (hfresh : a.transfer.fresh = true)
    (hexited : a.transfer.exited = true) (hcopied : a.transfer.copied = true) : a.Exact :=
  (inv_run hrun).analyses a ha hfresh hexited hcopied

end Runs

/-- `pkill` fails in the first transfer; its tcpdump reads the frames of the second one too. -/
def captureActs : List (Act ℕ) :=
  [.start .http "a.bin" none, .remove true, .launch true, .ready, .read none 10, .kill false,
    .start .http "b.bin" none, .remove true, .launch true, .ready, .read none 20,
    .read (some 0) 20, .flush (some 0) 1, .read none 21, .kill true, .exit (some 0), .exit none,
    .gone, .copy true true]

/-- The analyses of a run. -/
def analysesOf (acts : List (Act ℕ)) : Option (List (Analysis ℕ)) :=
  (run step .init acts).map World.analyses

def captured : Analysis ℕ :=
  ⟨2, ⟨.http, "b.bin", none, true, true, true, [(2, 20), (2, 21)]⟩, some [(2, 20), (2, 21)]⟩

theorem analysesOf_captureActs : analysesOf captureActs = some [captured] := by decide +kernel

theorem pcap_of_captured : captured.Exact := by
  obtain ⟨w, hrun, hanalyses⟩ := Option.map_eq_some_iff.1 analysesOf_captureActs
  exact pcap_of_run captureActs w hrun captured (hanalyses ▸ List.mem_cons_self) rfl rfl rfl

/-! ## Names -/

/-- A text is put together in one way around a separator that is not in its second part. -/
theorem append_cons_inj_right {α : Type*} {c : α} {x x' z z' : List α} (hz : c ∉ z) (hz' : c ∉ z')
    (h : x ++ c :: z = x' ++ c :: z') : x = x' ∧ z = z' := by
  rcases List.append_eq_append_iff.1 h with ⟨y, rfl, hy⟩ | ⟨y, rfl, hy⟩
  · cases y with
    | nil => exact ⟨(List.append_nil x).symm, (List.cons.inj hy).2⟩
    | cons d y =>
      exact absurd ((List.cons.inj hy).2 ▸ List.mem_append_right y List.mem_cons_self) hz
  · cases y with
    | nil => exact ⟨List.append_nil x', (List.cons.inj hy).2.symm⟩
    | cons d y =>
      exact absurd ((List.cons.inj hy).2 ▸ List.mem_append_right y List.mem_cons_self) hz'

theorem append_cons_inj_left {α : Type*} {c : α} {x x' z z' : List α} (hx : c ∉ x) (hx' : c ∉ x')
    (h : x ++ c :: z = x' ++ c :: z') : x = x' ∧ z = z' := by
  have hreverse := congrArg List.reverse h
  rw [List.reverse_append, List.reverse_append, List.reverse_cons, List.reverse_cons,
    List.append_assoc, List.append_assoc] at hreverse
  obtain ⟨hz, hx⟩ := append_cons_inj_right (mt List.mem_reverse.1 hx) (mt List.mem_reverse.1 hx')
    hreverse
  exact ⟨List.reverse_injective hx, List.reverse_injective hz⟩

theorem toList_pcapName (protocol : Protocol) (label : String) :
    (pcapName protocol label).toList =
      protocol.name.toList ++ '_' :: (label.toList ++ ".pcap".toList) := by
  simp only [pcapName, String.toList_append, List.append_assoc]
  rfl

theorem not_mem_intText (z : ℤ) : '_' ∉ Decimal.intText z := by
  intro hmem
  have hdigit : ∀ c ∈ Decimal.natText z.natAbs, c ≠ '_' := by
    rintro c hc rfl
    exact absurd (Numeral.isDigit_of_mem_natText hc) (by decide)
  unfold Decimal.intText at hmem
  split_ifs at hmem
  · rcases List.mem_cons.1 hmem with hminus | hmem
    · cases hminus
    · exact hdigit _ hmem rfl
  · exact hdigit _ hmem rfl

/-- Two transfers that `run_protocol` starts have different pcaps. -/
theorem pcapName_injective {p p' : Protocol} {filename filename' : String} {qos qos' : Option ℤ}
    (hqos : qos.isSome = p.hasQos) (hqos' : qos'.isSome = p'.hasQos)
    (h : pcapName p (transferLabel filename qos) = pcapName p' (transferLabel filename' qos')) :
    p = p' ∧ filename = filename' ∧ qos = qos' := by
  have hname : ∀ p : Protocol, '_' ∉ p.name.toList := by
    intro p
    cases p <;> decide
  have hlist := congrArg String.toList h
  rw [toList_pcapName, toList_pcapName] at hlist
  obtain ⟨hprotocol, hlabel⟩ := append_cons_inj_left (hname p) (hname p') hlist
  have hp : p = p' := by
    revert hprotocol
    cases p <;> cases p' <;> decide
  subst hp
  rw [List.append_cancel_right_eq] at hlabel
  cases qos with
  | none =>
    cases qos' with
    | none => exact ⟨rfl, String.toList_injective hlabel, rfl⟩
    | some q' => rw [← hqos] at hqos'; cases hqos'
  | some q =>
    cases qos' with
    | none => rw [← hqos] at hqos'; cases hqos'
    | some q' =>
      have hsplit : ∀ (name : String) (q : ℤ), (transferLabel name (some q)).toList =
          name.toList ++ '_' :: Decimal.intText q := by
        intro name q
        simp only [transferLabel, String.toList_append, String.toList_ofList, List.append_assoc]
        rfl
      rw [hsplit, hsplit] at hlabel
      obtain ⟨hfile, hint⟩ := append_cons_inj_right (not_mem_intText q) (not_mem_intText q') hlabel
      exact ⟨rfl, String.toList_injective hfile, congrArg some (Numeral.intText_injective hint)⟩

/-! ## Pcaps on the host -/

section Host

variable {φ : Type*} {w w' : World φ} {before : List (Act φ)}

/-- What a transfer is of. -/
def Transfer.subject (t : Transfer φ) : Protocol × String × Option ℤ :=
  (t.protocol, t.filename, t.qos)

/-- The transfers that are started. -/
def starts (acts : List (Act φ)) : List (Protocol × String × Option ℤ) :=
  acts.filterMap fun
    | .start protocol filename qos => some (protocol, filename, qos)
    | _ => none

/-- As `run_protocol` starts transfers. -/
def Regular (subject : Protocol × String × Option ℤ) : Prop :=
  subject.2.2.isSome = subject.1.hasQos

/-- The transfer at hand. -/
def World.pending (w : World φ) : List (Protocol × String × Option ℤ) :=
  if w.phase = .idle then [] else [w.transfer.subject]

/-- The pcaps that have been copied are there; `before` are the actions so far. -/
structure Kept (w : World φ) (before : List (Act φ)) : Prop where
  started : (w.analyses.map (fun a => a.transfer.subject) ++ w.pending).Sublist (starts before)
  host : ∀ a ∈ w.analyses, a.transfer.copied = true → w.host a.transfer.name = a.pcap

theorem subject_eq_of_name {t t' : Transfer φ} (ht : Regular t.subject) (ht' : Regular t'.subject)
    (h : t.name = t'.name) : t.subject = t'.subject := by
  obtain ⟨hprotocol, hfilename, hqos⟩ := pcapName_injective ht ht' h
  exact Prod.ext hprotocol (Prod.ext hfilename hqos)

theorem starts_append (before : List (Act φ)) (a : Act φ) :
    starts (before ++ [a]) = starts before ++ starts [a] := List.filterMap_append

/-- A step in which no transfer starts or ends its copy. -/
theorem Kept.goOn (h : Kept w before) (a : Act φ) (hanalyses : w'.analyses = w.analyses)
    (hhost : w'.host = w.host) (hsubject : w'.transfer.subject = w.transfer.subject)
    (hphase : w'.phase ≠ .idle → w.phase ≠ .idle) : Kept w' (before ++ [a]) := by
  constructor
  · rw [starts_append, hanalyses]
    refine ((List.Sublist.append_left ?_ _).trans h.started).trans (List.sublist_append_left _ _)
    unfold World.pending
    split_ifs with hidle' hidle hidle
    · exact List.Sublist.refl _
    · exact List.nil_sublist _
    · exact absurd hidle (hphase hidle')
    · rw [hsubject]
  · rw [hanalyses, hhost]
    exact h.host

theorem Kept.start (h : Kept w before) (hphase : w.phase = .idle) (protocol : Protocol)
    (filename : String) (qos : Option ℤ) :
    Kept { w with
      phase := .starting
      count := w.count + 1
      transfer := ⟨protocol, filename, qos, false, false, false, []⟩
      current := none
      leftover := w.current.toList ++ w.leftover }
      (before ++ [.start protocol filename qos]) := by
  refine ⟨?_, h.host⟩
  have hstarted := h.started
  rw [World.pending, if_pos hphase, List.append_nil] at hstarted
  rw [starts_append]
  exact hstarted.append (List.Sublist.refl _)

/-- The copy of a new transfer overwrites no other. -/
theorem Kept.copy (h : Kept w before) (hphase : w.phase = .copying)
    (hnodup : (starts before).Nodup) (hregular : ∀ s ∈ starts before, Regular s)
    (ok removed : Bool) :
    Kept { w.copy ok removed with
      phase := .idle
      analyses := w.analyses ++ [⟨w.count, (w.copy ok removed).transfer,
        (w.copy ok removed).host (w.copy ok removed).transfer.name⟩] }
      (before ++ [.copy ok removed]) := by
  have hstarted := h.started
  have hactive : w.phase ≠ .idle := by
    rw [hphase]
    decide
  rw [World.pending, if_neg hactive] at hstarted
  have hapart := hnodup.sublist hstarted
  have hsubject : (w.copy ok removed).transfer.subject = w.transfer.subject := by
    rcases copy_cases w ok removed with hcopy | ⟨frames, -, hcopy⟩
    · rw [hcopy]
    · rw [hcopy]
      rfl
  constructor
  · rw [starts_append]
    refine (List.Sublist.trans ?_ hstarted).trans (List.sublist_append_left _ _)
    simp [World.pending, hsubject]
  · intro a ha hcopied
    rcases List.mem_append.1 ha with ha | ha
    · have hmem : a.transfer.subject ∈ w.analyses.map fun a => a.transfer.subject :=
        List.mem_map_of_mem ha
      rcases copy_cases w ok removed with hcopy | ⟨frames, -, hcopy⟩
      · rw [hcopy]
        exact h.host a ha hcopied
      · rw [hcopy]
        have hne : a.transfer.name ≠ w.transfer.name := by
          intro hname
          have hsame := subject_eq_of_name
            (hregular _ (hstarted.subset (List.mem_append_left _ hmem)))
            (hregular _ (hstarted.subset (List.mem_append_right _ List.mem_cons_self))) hname
          exact (List.nodup_append.1 hapart).2.2 _ hmem _ List.mem_cons_self hsame
        exact (Function.update_of_ne hne _ _).trans (h.host a ha hcopied)
    · rw [List.mem_singleton.1 ha]

theorem Kept.step [Inhabited φ] (h : Kept w before) {a : Act φ}
    (hnodup : (starts before).Nodup) (hregular : ∀ s ∈ starts before, Regular s)
    (hstep : step w a = some w') : Kept w' (before ++ [a]) := by
  cases a with
  | start protocol filename qos =>
    obtain ⟨hphase, hstep⟩ := Option.ite_none_right_eq_some.1 hstep
    cases hstep
    exact h.start hphase protocol filename qos
  | remove ok =>
    obtain ⟨hphase, hstep⟩ := Option.ite_none_right_eq_some.1 hstep
    cases hstep
    exact h.goOn _ rfl rfl rfl fun _ => by rw [hphase]; decide
  | launch ok =>
    simp only [Capture.step] at hstep
    split_ifs at hstep with hphase
    · cases hstep
      exact h.goOn _ rfl rfl rfl fun _ => by rw [hphase]; decide
    · cases hstep
      exact h.goOn _ rfl rfl rfl fun hidle => absurd rfl hidle
  | ready =>
    obtain ⟨hphase, hstep⟩ := Option.ite_none_right_eq_some.1 hstep
    cases hstep
    exact h.goOn _ rfl rfl rfl fun _ => by rw [hphase.1]; decide
  | notReady =>
    obtain ⟨hphase, hstep⟩ := Option.ite_none_right_eq_some.1 hstep
    cases hstep
    exact h.goOn _ rfl rfl rfl fun hidle => absurd rfl hidle
  | kill ok =>
    obtain ⟨hphase, hstep⟩ := Option.ite_none_right_eq_some.1 hstep
    cases hstep
    exact h.goOn _ rfl rfl rfl fun _ => by rw [hphase]; decide
  | gone =>
    obtain ⟨hphase, hstep⟩ := Option.ite_none_right_eq_some.1 hstep
    cases hstep
    exact h.goOn _ rfl rfl rfl fun _ => by rw [hphase.1]; decide
  | giveUp =>
    obtain ⟨hphase, hstep⟩ := Option.ite_none_right_eq_some.1 hstep
    cases hstep
    exact h.goOn _ rfl rfl rfl fun _ => by rw [hphase]; decide
  | copy ok removed =>
    obtain ⟨hphase, hstep⟩ := Option.ite_none_right_eq_some.1 hstep
    cases hstep
    exact h.copy hphase hnodup hregular ok removed
  | read i frame =>
    obtain ⟨t, hi, rfl⟩ := Option.map_eq_some_iff.1 hstep
    cases i <;> exact h.goOn _ rfl rfl rfl id
  | flush i n =>
    obtain ⟨t, hi, rfl⟩ := Option.map_eq_some_iff.1 hstep
    cases i <;> exact h.goOn _ rfl rfl rfl id
  | exit i =>
    obtain ⟨t, hi, rfl⟩ := Option.map_eq_some_iff.1 hstep
    cases i <;> exact h.goOn _ rfl rfl rfl id

theorem kept_init : Kept (World.init : World φ) [] :=
  ⟨List.Sublist.refl _, fun a ha => by cases ha⟩

/-- **The pcaps of a run**: if no transfer is made twice, every pcap that was copied is there at
    the end, as it was when its transfer was analysed. -/
theorem kept_of_run [Inhabited φ] (acts : List (Act φ)) (hnodup : (starts acts).Nodup)
    (hregular : ∀ s ∈ starts acts, Regular s) (w : World φ) (hrun : run step .init acts = some w)
    (a : Analysis φ) (ha : a ∈ w.analyses) (hcopied : a.transfer.copied = true) :
    w.host a.transfer.name = a.pcap ∧
      (a.transfer.fresh = true → a.transfer.exited = true → a.Exact) := by
  have hkept : (starts ([] ++ acts)).Nodup → (∀ s ∈ starts ([] ++ acts), Regular s) →
      Kept w ([] ++ acts) := by
    refine run_history_along (I := fun w before =>
      (starts before).Nodup → (∀ s ∈ starts before, Regular s) → Kept w before)
      (G := fun _ _ => True) ?_ acts [] (fun _ _ => kept_init)
      (along_of_forall (fun _ _ => trivial) _) hrun
    intro s before a t hs _ hstep hnodup hregular
    have hsub : (starts before).Sublist (starts (before ++ [a])) := by
      rw [starts_append]
      exact List.sublist_append_left _ _
    have hnodup := hnodup.sublist hsub
    have hregular := fun s hs => hregular s (hsub.subset hs)
    exact (hs hnodup hregular).step hnodup hregular hstep
  exact ⟨(hkept hnodup hregular).host a ha hcopied,
    fun hfresh hexited => (inv_run hrun).analyses a ha hfresh hexited hcopied⟩

theorem kept_of_captured : ∃ w, run step .init captureActs = some w ∧
    w.host captured.transfer.name = some [(2, 20), (2, 21)] := by
  obtain ⟨w, hrun, hanalyses⟩ := Option.map_eq_some_iff.1 analysesOf_captureActs
  have hstarts : starts captureActs = [(.http, "a.bin", none), (.http, "b.bin", none)] := rfl
  have hregular : ∀ s ∈ starts captureActs, Regular s := by
    rw [hstarts]
    simp [Regular, Protocol.hasQos]
  exact ⟨w, hrun, (kept_of_run captureActs (by rw [hstarts]; decide) hregular w hrun captured
    (hanalyses ▸ List.mem_cons_self) rfl).1⟩

end Host

end TransferTestbed.Capture
