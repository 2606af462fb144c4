import TransferTestbed.Library.Timestamp
import TransferTestbed.Protocols.Orphans

/-!
# The order of the run list

`list_runs` of `common/runs.py` promises its ids newest first and sorts them as strings.
The ids that `run_id_for` makes start with the time to the second at a fixed width, an id
given with `--run-id` is any text.

Results:

* `newRuns_ok`: the runs that a history of `new_run` calls leaves.
* `runId_lt_of_now_lt`: generated ids are in the order of their times.
* `newestFirst_iff`: the histories after which the list is newest first.
-/

namespace TransferTestbed.RunHistory

open Runs Processes

/-! ## Model -/

/-- `now_utc_stamp()`, with the format `%Y%m%dT%H%M%S` (runs.py:44-45). -/
def nowUtcStamp (now : DateTime) : String :=
  String.ofList (now.strftime [[], [], ['T'], [], [], []])

/-- `datetime.now(timezone.utc).isoformat(timespec="seconds")`. -/
def isoformat (now : DateTime) : String :=
  String.ofList (now.strftime [['-'], ['-'], ['T'], [':'], [':'], ['+', '0', '0', ':', '0', '0']])

/-- A call of `new_run` and what it reads of the world. -/
structure Call where
  now : DateTime
  protocol : String
  profile : Option String
  runId : Option String
  flow : Option String
  env : Env
  docker : Option String
  tshark : Option String

namespace Call

variable (c : Call)

/-- The id and the manifest are stamped in the second of the call. -/
def world : Now := ⟨nowUtcStamp c.now, isoformat c.now, c.docker, c.tshark⟩

/-- `run_id or run_id_for(protocol, profile)`. -/
def rid : String := orElse c.runId (runIdFor (nowUtcStamp c.now) c.protocol c.profile)

/-- The id was given; the empty text is no id. -/
def Explicit : Prop := ∃ rid, c.runId = some rid ∧ rid ≠ ""

def manifest : Manifest := newManifest c.env c.world c.rid c.protocol c.profile c.flow

end Call

/-- The calls of a history, one after another. -/
def newRuns : OutputTree → List Call → Except FileExistsError OutputTree
  | t, [] => .ok t
  | t, c :: calls =>
    match newRun c.env c.world t c.protocol c.profile c.runId c.flow with
    | .error e => .error e
    | .ok (_, t) => newRuns t calls

/-- A name of a directory entry. The directory of an id with a slash in it is not an entry
    of `runs/`, nor are `.` and `..`. -/
def EntryName (rid : String) : Prop := '/' ∉ rid.toList ∧ rid ≠ "" ∧ rid ≠ "." ∧ rid ≠ ".."

instance : DecidablePred EntryName := fun _ => inferInstanceAs (Decidable (_ ∧ _))

/-- `list_runs(output_dir)`, for ids of any text: what `os.listdir` finds in `runs/`
    (runs.py:204-213). -/
def listedRuns (t : OutputTree) : List String := (listRuns t).filter fun rid => EntryName rid

/-! ## The property -/

/-- By `created_at`, whose texts are in the order of the times. -/
def CreatedBefore (t : OutputTree) (a b : String) : Prop :=
  ∃ m n, readManifest t a = some m ∧ readManifest t b = some n ∧ m.createdAt < n.createdAt

/-- The ids are listed, in strictly decreasing order of `created_at`. -/
def NewestFirst (t : OutputTree) (rids : List String) : Prop :=
  (listedRuns t).Perm rids ∧ (listedRuns t).Pairwise fun a b => CreatedBefore t b a

/-- Every id is a name in `runs/`, and an id that was given is greater than those before it
    and less than those after it. -/
def GivenInOrder (calls : List Call) : Prop :=
  (∀ c ∈ calls, EntryName c.rid) ∧
    calls.Pairwise fun c d => c.Explicit ∨ d.Explicit → c.rid < d.rid

/-! ## Times -/

theorem exists_runIdFor (stamp protocol : String) (profile : Option String) :
    ∃ rest, runIdFor stamp protocol profile = stamp ++ rest := by
  unfold runIdFor
  cases profile with
  | none => exact ⟨"_" ++ protocol, String.append_assoc⟩
  | some profile =>
    by_cases hempty : profile = ""
    · exact ⟨"_" ++ protocol, (if_pos hempty).trans String.append_assoc⟩
    · refine ⟨"_" ++ protocol ++ "_" ++ profile, (if_neg hempty).trans ?_⟩
      simp only [String.append_assoc]

theorem isoformat_lt {s t : DateTime} (h : s < t) : isoformat s < isoformat t := by
  have hlt := DateTime.strftime_append_lt h ['-'] ['-'] ['T'] [':'] [':']
    ['+', '0', '0', ':', '0', '0'] [] []
  rw [List.append_nil, List.append_nil] at hlt
  rw [String.lt_iff, isoformat, isoformat, String.toList_ofList, String.toList_ofList]
  exact hlt

theorem Call.rid_of_not_explicit {c : Call} (h : ¬ c.Explicit) :
    c.rid = runIdFor (nowUtcStamp c.now) c.protocol c.profile := by
  unfold Call.rid Runs.orElse
  cases hrunId : c.runId with
  | none => rfl
  | some rid =>
    by_cases hempty : rid = ""
    · exact if_pos hempty
    · exact absurd ⟨rid, hrunId, hempty⟩ h

/-- **Generated ids are in the order of their times**, whatever protocol and profile. -/
theorem runId_lt_of_now_lt {c d : Call} (hc : ¬ c.Explicit) (hd : ¬ d.Explicit)
    (h : c.now < d.now) : c.rid < d.rid := by
  rw [Call.rid_of_not_explicit hc, Call.rid_of_not_explicit hd]
  obtain ⟨u, hu⟩ := exists_runIdFor (nowUtcStamp c.now) c.protocol c.profile
  obtain ⟨v, hv⟩ := exists_runIdFor (nowUtcStamp d.now) d.protocol d.profile
  rw [hu, hv, String.lt_iff, String.toList_append, String.toList_append, nowUtcStamp,
    nowUtcStamp, String.toList_ofList, String.toList_ofList]
  exact DateTime.strftime_append_lt h _ _ _ _ _ _ _ _

/-! ## Histories -/

/-- The directory that a call makes. -/
def Call.entry (c : Call) : String × RunDir :=
  (c.rid, { csv := [], pcap := [], manifest := some c.manifest })

theorem Call.newRun_eq (c : Call) (t : OutputTree) :
    newRun c.env c.world t c.protocol c.profile c.runId c.flow =
      if t.hasRun c.rid then .error ⟨c.rid⟩
      else .ok (c.rid, { t with runs := t.runs.insert c.rid c.entry.2 }) := rfl

/-- **The runs of a successful history**: one for each call, under different ids. -/
theorem newRuns_ok {t t' : OutputTree} {calls : List Call} (hnodup : t.runs.keys.Nodup)
    (h : newRuns t calls = .ok t') :
    t'.runs = t.runs ++ calls.map Call.entry ∧ t'.runs.keys.Nodup := by
  induction calls generalizing t with
  | nil =>
    obtain rfl := Except.ok.inj h
    exact ⟨(List.append_nil _).symm, hnodup⟩
  | cons c calls ih =>
    rw [newRuns, c.newRun_eq] at h
    by_cases hrun : t.hasRun c.rid
    · rw [if_pos hrun] at h
      cases h
    · rw [if_neg hrun] at h
      have hinsert : Dict.insert t.runs c.rid c.entry.2 = t.runs ++ [c.entry] := if_neg hrun
      have hnodup' := Dict.nodup_keys_insert hnodup c.rid c.entry.2
      obtain ⟨hruns, hkeys⟩ := ih hnodup' h
      refine ⟨?_, hkeys⟩
      rw [hruns]
      show Dict.insert t.runs c.rid c.entry.2 ++ _ = _
      rw [hinsert, List.append_assoc, List.singleton_append, List.map_cons]

/-- Calls with different new ids succeed. -/
theorem exists_newRuns {t : OutputTree} {calls : List Call} (hnodup : (calls.map Call.rid).Nodup)
    (hfree : ∀ c ∈ calls, ¬ t.hasRun c.rid) : ∃ t', newRuns t calls = .ok t' := by
  induction calls generalizing t with
  | nil => exact ⟨t, rfl⟩
  | cons c calls ih =>
    rw [List.map_cons, List.nodup_cons] at hnodup
    rw [newRuns, c.newRun_eq, if_neg (hfree c List.mem_cons_self)]
    refine ih hnodup.2 fun d hd => ?_
    rw [hasRun_iff, not_not, Dict.get?_insert, if_neg]
    · have hd' := hfree d (List.mem_cons_of_mem _ hd)
      rwa [hasRun_iff, not_not] at hd'
    · exact fun heq => hnodup.1 (heq ▸ List.mem_map_of_mem hd)

section History

variable {t₀ t : OutputTree} {calls : List Call}

theorem keys_eq (hempty : t₀.runs = []) (h : newRuns t₀ calls = .ok t) :
    t.runs = calls.map Call.entry ∧ (calls.map Call.rid).Nodup := by
  obtain ⟨hruns, hnodup⟩ := newRuns_ok (by rw [hempty]; exact List.nodup_nil) h
  rw [hempty, List.nil_append] at hruns
  rw [hruns, Dict.keys, List.map_map] at hnodup
  exact ⟨hruns, hnodup⟩

theorem readManifest_of_mem (hempty : t₀.runs = []) (h : newRuns t₀ calls = .ok t) {c : Call}
    (hc : c ∈ calls) : readManifest t c.rid = some c.manifest := by
  obtain ⟨hruns, hnodup⟩ := keys_eq hempty h
  have hmem : c.entry ∈ t.runs := by
    rw [hruns]
    exact List.mem_map_of_mem hc
  have hkeys : t.runs.keys.Nodup := by
    rw [hruns, Dict.keys, List.map_map]
    exact hnodup
  rw [readManifest, Dict.get?_of_mem hkeys hmem]
  rfl

/-- All ids of the history are in the list, in the order of the strings. -/
theorem listRuns_spec (hempty : t₀.runs = []) (h : newRuns t₀ calls = .ok t) :
    (listRuns t).Perm (calls.map Call.rid) ∧ (listRuns t).Pairwise fun a b => b ≤ a := by
  obtain ⟨hruns, -⟩ := keys_eq hempty h
  have hkeys : t.runs.keys = calls.map Call.rid := by
    rw [hruns, Dict.keys, List.map_map]
    rfl
  constructor
  · refine (List.mergeSort_perm _ _).trans ?_
    rw [hkeys, List.filter_eq_self.2]
    intro rid hrid
    obtain ⟨c, hc, rfl⟩ := List.mem_map.1 hrid
    rw [readManifest_of_mem hempty h hc]
    rfl
  · have hsorted := @List.pairwise_mergeSort String (fun a b => decide (b ≤ a))
      (fun a b c hab hbc => decide_eq_true ((of_decide_eq_true hbc).trans (of_decide_eq_true hab)))
      (fun a b => by simpa using le_total b a)
      (t.runs.keys.filter fun rid => (readManifest t rid).isSome)
    exact hsorted.imp of_decide_eq_true

theorem createdBefore_iff (hempty : t₀.runs = []) (h : newRuns t₀ calls = .ok t) {c d : Call}
    (hc : c ∈ calls) (hd : d ∈ calls) :
    CreatedBefore t c.rid d.rid ↔ isoformat c.now < isoformat d.now := by
  have hm := readManifest_of_mem hempty h hc
  have hn := readManifest_of_mem hempty h hd
  constructor
  · rintro ⟨m, n, hm', hn', hlt⟩
    rw [hm, Option.some.injEq] at hm'
    rw [hn, Option.some.injEq] at hn'
    rw [← hm', ← hn'] at hlt
    exact hlt
  · intro hlt
    exact ⟨c.manifest, d.manifest, hm, hn, hlt⟩

/-- Two elements of a list stand in one of the two orders. -/
theorem pairwise_or {α : Type} {r : α → α → Prop} {l : List α} (h : l.Pairwise r) {a b : α}
    (ha : a ∈ l) (hb : b ∈ l) (hne : a ≠ b) : r a b ∨ r b a := by
  have hpairs : l.Pairwise fun a b => r a b ∨ r b a := h.imp Or.inl
  have : Std.Symm fun a b => r a b ∨ r b a := ⟨fun _ _ => Or.symm⟩
  exact hpairs.forall ha hb hne

/-- When the list is newest first, the ids are in the order of the calls. -/
theorem runId_lt_of_newestFirst (hempty : t₀.runs = [])
    (hclock : calls.Pairwise fun c d => c.now < d.now) (h : newRuns t₀ calls = .ok t)
    (hnewest : NewestFirst t (calls.map Call.rid)) :
    (∀ c ∈ calls, EntryName c.rid) ∧ calls.Pairwise fun c d => c.rid < d.rid := by
  obtain ⟨hperm, hcreated⟩ := hnewest
  obtain ⟨-, hnodup⟩ := keys_eq hempty h
  obtain ⟨-, hsorted⟩ := listRuns_spec hempty h
  have hlisted : ∀ c ∈ calls, c.rid ∈ listedRuns t :=
    fun c hc => hperm.mem_iff.2 (List.mem_map_of_mem hc)
  refine ⟨fun c hc => of_decide_eq_true (List.mem_filter.1 (hlisted c hc)).2, ?_⟩
  -- two listed ids stand in the order of the strings and of the times at once
  have hboth := hcreated.and (hsorted.filter fun rid => EntryName rid)
  have hdistinct := List.pairwise_map.1 hnodup
  refine (hclock.and hdistinct).imp_of_mem fun {c d} hc hd hr => ?_
  obtain ⟨hnow, hne⟩ := hr
  rcases pairwise_or hboth (hlisted c hc) (hlisted d hd) hne with ⟨hcreated, -⟩ | ⟨-, hle⟩
  · have hlt := (createdBefore_iff hempty h hd hc).1 hcreated
    exact absurd hlt (isoformat_lt hnow).asymm
  · exact lt_of_le_of_ne hle hne

/-- When the ids are in the order of the calls, the list is newest first. -/
theorem newestFirst_of_runId_lt (hempty : t₀.runs = [])
    (hclock : calls.Pairwise fun c d => c.now < d.now) (h : newRuns t₀ calls = .ok t)
    (hentry : ∀ c ∈ calls, EntryName c.rid) (horder : calls.Pairwise fun c d => c.rid < d.rid) :
    NewestFirst t (calls.map Call.rid) := by
  obtain ⟨hperm, hsorted⟩ := listRuns_spec hempty h
  obtain ⟨-, hnodup⟩ := keys_eq hempty h
  have hall : listedRuns t = listRuns t := by
    refine List.filter_eq_self.2 fun rid hrid => ?_
    obtain ⟨c, hc, rfl⟩ := List.mem_map.1 (hperm.mem_iff.1 hrid)
    exact decide_eq_true (hentry c hc)
  rw [NewestFirst, hall]
  refine ⟨hperm, ?_⟩
  refine (hsorted.and (hperm.nodup_iff.2 hnodup)).imp_of_mem fun {a b} ha hb hr => ?_
  obtain ⟨hle, hne⟩ := hr
  obtain ⟨c, hc, rfl⟩ := List.mem_map.1 (hperm.mem_iff.1 ha)
  obtain ⟨d, hd, rfl⟩ := List.mem_map.1 (hperm.mem_iff.1 hb)
  rw [createdBefore_iff hempty h hd hc]
  have hcalls : c ≠ d := fun heq => hne (congrArg Call.rid heq)
  rcases pairwise_or (hclock.and horder) hc hd hcalls with ⟨-, hlt⟩ | ⟨hnow, -⟩
  · exact absurd hlt hle.not_gt
  · exact isoformat_lt hnow

/-- **Newest first**: the list is in strictly decreasing order of `created_at` exactly when
    every given id sorts after the ids made before it and before those made after it. -/
theorem newestFirst_iff (hempty : t₀.runs = [])
    (hclock : calls.Pairwise fun c d => c.now < d.now) (h : newRuns t₀ calls = .ok t) :
    NewestFirst t (calls.map Call.rid) ↔ GivenInOrder calls := by
  constructor
  · intro hnewest
    obtain ⟨hentry, horder⟩ := runId_lt_of_newestFirst hempty hclock h hnewest
    refine ⟨hentry, horder.imp ?_⟩
    intro c d hlt _
    exact hlt
  · rintro ⟨hentry, hgiven⟩
    refine newestFirst_of_runId_lt hempty hclock h hentry ((hclock.and hgiven).imp fun hr => ?_)
    obtain ⟨hnow, hgiven⟩ := hr
    rcases Classical.em (_ ∨ _) with hexplicit | hexplicit
    · exact hgiven hexplicit
    · rw [not_or] at hexplicit
      exact runId_lt_of_now_lt hexplicit.1 hexplicit.2 hnow

end History

/-! ## Two histories -/

/-- Calls at 20:14:55 and an hour later. -/
def evening : DateTime := ⟨2026, 8, 18, 20, 14, 55, by decide⟩

def anHourLater : DateTime := ⟨2026, 8, 18, 21, 14, 55, by decide⟩

def mqttHarsh : Call := ⟨evening, "mqtt", some "harsh", none, none, [], none, none⟩

def httpLater : Call := ⟨anHourLater, "http", none, none, none, [], none, none⟩

/-- A run under a given id. -/
def baseline : Call := ⟨evening, "mqtt", some "harsh", some "baseline", none, [], none, none⟩

theorem newestFirst_iff_mqttHarsh_httpLater :
    ∃ t, newRuns emptyTree [mqttHarsh, httpLater] = .ok t ∧
      (NewestFirst t [mqttHarsh.rid, httpLater.rid] ↔ GivenInOrder [mqttHarsh, httpLater]) := by
  have hne : mqttHarsh.rid ≠ httpLater.rid := by decide +kernel
  have hnow : mqttHarsh.now < httpLater.now := by decide
  obtain ⟨t, ht⟩ := @exists_newRuns emptyTree [mqttHarsh, httpLater] (by simpa using hne)
    fun c _ hrun => List.not_mem_nil hrun
  exact ⟨t, ht, newestFirst_iff rfl (by simpa using hnow) ht⟩

/-- The run `baseline` is listed before the newer one. -/
theorem not_newestFirst_baseline : baseline.now < httpLater.now ∧
    ∃ t, newRuns emptyTree [baseline, httpLater] = .ok t ∧
      ¬ NewestFirst t [baseline.rid, httpLater.rid] := by
  have hne : baseline.rid ≠ httpLater.rid := by decide +kernel
  have hnow : baseline.now < httpLater.now := by decide
  obtain ⟨t, ht⟩ := @exists_newRuns emptyTree [baseline, httpLater] (by simpa using hne)
    fun c _ hrun => List.not_mem_nil hrun
  refine ⟨hnow, t, ht, fun hnewest => ?_⟩
  obtain ⟨-, horder⟩ := runId_lt_of_newestFirst rfl (by simpa using hnow) ht hnewest
  have hlt : baseline.rid < httpLater.rid := by simpa using horder
  revert hlt
  decide +kernel

end TransferTestbed.RunHistory
