import Mathlib.Data.List.Perm.Basic
import Mathlib.Data.List.Flatten
import TransferTestbed.Library.Dict

/-!
# Grouping values by a key and a label

Default dictionaries of default dictionaries of lists: an entry's value is appended to
the list of its key and its label.

* `isGrouping_addAll`: the lists hold the values of the entries, one each and in order.
* `IsGrouping.update`: groupings with different keys are put together by an update.
-/

namespace TransferTestbed

namespace Dict

variable {κ ν α : Type*} [DecidableEq κ]

theorem insert_cons_self {p : κ × ν} {d : Dict κ ν} (hp : p.1 ∉ d.keys) (v : ν) :
    insert (p :: d) p.1 v = (p.1, v) :: d := by
  have hmem : p.1 ∈ keys (p :: d) := List.mem_cons_self
  have hrest : (d.map fun q => if q.1 = p.1 then (p.1, v) else q) = d := by
    refine (List.map_congr_left fun q hq => if_neg fun h => hp ?_).trans (List.map_id d)
    exact h ▸ List.mem_map_of_mem hq
  rw [insert, if_pos hmem, List.map_cons, if_pos rfl, hrest]

theorem insert_cons_of_ne {p : κ × ν} {k : κ} (h : p.1 ≠ k) (d : Dict κ ν) (v : ν) :
    insert (p :: d) k v = p :: insert d k v := by
  have hmem : k ∈ keys (p :: d) ↔ k ∈ d.keys := by
    simp only [keys, List.map_cons, List.mem_cons, Ne.symm h, false_or]
  unfold insert
  by_cases hk : k ∈ d.keys
  · rw [if_pos hk, if_pos (hmem.2 hk), List.map_cons, if_neg h]
  · rw [if_neg hk, if_neg (mt hmem.1 hk), List.cons_append]

/-- What an assignment adds to the elements of all values. -/
theorem flatMap_insert_perm {d : Dict κ ν} (hd : d.keys.Nodup) (f : ν → List α) {k : κ} {v : ν}
    {extra : List α} (hv : (f v).Perm (((d.get? k).map f).getD [] ++ extra)) :
    ((insert d k v).flatMap fun p => f p.2).Perm ((d.flatMap fun p => f p.2) ++ extra) := by
  induction d with
  | nil => simpa [insert, keys] using hv
  | cons p d ih =>
    rw [keys, List.map_cons, List.nodup_cons] at hd
    rw [get?_cons] at hv
    by_cases hp : p.1 = k
    · subst hp
      rw [if_pos rfl, Option.map_some, Option.getD_some] at hv
      rw [insert_cons_self hd.1, List.flatMap_cons, List.flatMap_cons, List.append_assoc]
      refine (hv.append_right _).trans ?_
      rw [List.append_assoc]
      exact List.perm_append_comm.append_left _
    · rw [if_neg hp] at hv
      rw [insert_cons_of_ne hp, List.flatMap_cons, List.flatMap_cons, List.append_assoc]
      exact (ih hd.2 hv).append_left _

theorem mem_insert {d : Dict κ ν} {k : κ} {v : ν} {p : κ × ν} (h : p ∈ insert d k v) :
    p = (k, v) ∨ p ∈ d := by
  unfold insert at h
  split_ifs at h
  · obtain ⟨q, hq, rfl⟩ := List.mem_map.1 h
    split_ifs
    · exact .inl rfl
    · exact .inr hq
  · rw [List.mem_append, List.mem_singleton] at h
    exact h.symm

theorem mem_of_get? {d : Dict κ ν} {k : κ} {v : ν} (h : get? d k = some v) : (k, v) ∈ d := by
  obtain ⟨p, hp, hv⟩ := Option.map_eq_some_iff.1 h
  have hk : p.1 = k := by simpa using List.find?_some hp
  rw [← hk, ← hv]
  exact List.mem_of_find?_eq_some hp

theorem insert_ne_nil (d : Dict κ ν) (k : κ) (v : ν) : insert d k v ≠ [] := by
  intro h
  have hget := get?_insert d k v k
  rw [h] at hget
  simp at hget

end Dict

namespace Grouping

variable {κ ι ν : Type*} [DecidableEq κ] [DecidableEq ι]

/-- Lists of values by a key and a label. -/
abbrev Groups (κ ι ν : Type*) := Dict κ (Dict ι (List ν))

/-- `groups[key][label].append(value)`. -/
def add (g : Groups κ ι ν) (e : κ × ι × ν) : Groups κ ι ν :=
  let inner := (g.get? e.1).getD []
  g.insert e.1 (inner.insert e.2.1 ((inner.get? e.2.1).getD [] ++ [e.2.2]))

def addAll (g : Groups κ ι ν) (es : List (κ × ι × ν)) : Groups κ ι ν := es.foldl add g

/-- The list of a key and a label; empty if there is none. -/
def valuesAt (g : Groups κ ι ν) (k : κ) (i : ι) : List ν :=
  (((g.get? k).getD []).get? i).getD []

/-- The values of all lists. -/
def values (g : Groups κ ι ν) : List ν := g.flatMap fun p => p.2.flatMap fun q => q.2

/-- The values of the entries with a key and a label. -/
def select (es : List (κ × ι × ν)) (k : κ) (i : ι) : List ν :=
  (es.filter fun e => e.1 = k ∧ e.2.1 = i).map fun e => e.2.2

/-- Distinct keys and labels, and no empty dictionary or list. -/
structure WellFormed (g : Groups κ ι ν) : Prop where
  nodup : g.keys.Nodup
  labels : ∀ p ∈ g, p.2.keys.Nodup ∧ p.2 ≠ [] ∧ ∀ q ∈ p.2, q.2 ≠ []

/-- `g` holds the values of the entries `es`: one each, in order, by key and label. -/
structure IsGrouping (g : Groups κ ι ν) (es : List (κ × ι × ν)) : Prop where
  wellFormed : WellFormed g
  lists : ∀ k i, valuesAt g k i = select es k i
  all : (values g).Perm (es.map fun e => e.2.2)

/-! ## One entry -/

theorem addAll_cons (g : Groups κ ι ν) (e : κ × ι × ν)
    (es : List (κ × ι × ν)) : addAll g (e :: es) = addAll (add g e) es := rfl

theorem select_append (es fs : List (κ × ι × ν)) (k : κ) (i : ι) :
    select (es ++ fs) k i = select es k i ++ select fs k i := by
  rw [select, List.filter_append, List.map_append]
  rfl

theorem select_ne_nil_iff {es : List (κ × ι × ν)} {k : κ} {i : ι} :
    select es k i ≠ [] ↔ ∃ e ∈ es, e.1 = k ∧ e.2.1 = i := by
  rw [select, ne_eq, List.map_eq_nil_iff, List.filter_eq_nil_iff]
  simp

theorem valuesAt_add (g : Groups κ ι ν) (e : κ × ι × ν) (k : κ) (i : ι) :
    valuesAt (add g e) k i = valuesAt g k i ++ select [e] k i := by
  obtain ⟨k', i', v⟩ := e
  simp only [valuesAt, add, Dict.get?_insert]
  by_cases hk : k = k'
  · subst hk
    rw [if_pos rfl, Option.getD_some, Dict.get?_insert]
    by_cases hi : i = i'
    · subst hi
      simp [select]
    · simp [select, hi, Ne.symm hi]
  · simp [select, hk, Ne.symm hk]

omit [DecidableEq ι] in
theorem WellFormed.inner {g : Groups κ ι ν} (h : WellFormed g) (k : κ) :
    ((g.get? k).getD []).keys.Nodup ∧ ∀ q ∈ (g.get? k).getD [], q.2 ≠ [] := by
  cases hk : g.get? k with
  | none => exact ⟨List.nodup_nil, by simp⟩
  | some inner =>
    obtain ⟨hnodup, -, hlists⟩ := h.labels _ (Dict.mem_of_get? hk)
    exact ⟨hnodup, hlists⟩

theorem WellFormed.add {g : Groups κ ι ν} (h : WellFormed g) (e : κ × ι × ν) :
    WellFormed (add g e) := by
  obtain ⟨hnodup, hlists⟩ := h.inner e.1
  refine ⟨Dict.nodup_keys_insert h.nodup _ _, fun p hp => ?_⟩
  rcases Dict.mem_insert hp with rfl | hp
  · refine ⟨Dict.nodup_keys_insert hnodup _ _, Dict.insert_ne_nil _ _ _, fun q hq => ?_⟩
    rcases Dict.mem_insert hq with rfl | hq
    · simp
    · exact hlists q hq
  · exact h.labels p hp

theorem values_add_perm {g : Groups κ ι ν} (h : WellFormed g) (e : κ × ι × ν) :
    (values (add g e)).Perm (values g ++ [e.2.2]) := by
  have hinner := (h.inner e.1).1
  apply Dict.flatMap_insert_perm h.nodup fun d : Dict ι (List ν) => d.flatMap fun q => q.2
  have hnew : ((((g.get? e.1).getD []).get? e.2.1).getD [] ++ [e.2.2]).Perm
      (((((g.get? e.1).getD []).get? e.2.1).map fun vs => vs).getD [] ++ [e.2.2]) := by
    rw [Option.map_id']
  refine (Dict.flatMap_insert_perm hinner (fun vs => vs) hnew).trans
    (List.Perm.append_right _ ?_)
  cases g.get? e.1 with
  | none => exact .refl _
  | some d => exact .refl _

/-! ## A whole list -/

theorem isGrouping_nil : IsGrouping ([] : Groups κ ι ν) [] where
  wellFormed := ⟨List.nodup_nil, by simp⟩
  lists _ _ := rfl
  all := .refl _

theorem IsGrouping.add {g : Groups κ ι ν} {es : List (κ × ι × ν)} (h : IsGrouping g es)
    (e : κ × ι × ν) : IsGrouping (add g e) (es ++ [e]) where
  wellFormed := h.wellFormed.add e
  lists k i := by rw [valuesAt_add, h.lists, select_append]
  all := by
    rw [List.map_append]
    exact (values_add_perm h.wellFormed e).trans (h.all.append_right _)

theorem IsGrouping.addAll {g : Groups κ ι ν} {es : List (κ × ι × ν)} (h : IsGrouping g es)
    (fs : List (κ × ι × ν)) : IsGrouping (addAll g fs) (es ++ fs) := by
  induction fs generalizing g es with
  | nil => simpa [Grouping.addAll] using h
  | cons f fs ih =>
    have hstep := ih (h.add f)
    rw [List.append_assoc] at hstep
    exact hstep

/-- **Adding entries groups them.** -/
theorem isGrouping_addAll (es : List (κ × ι × ν)) : IsGrouping (addAll [] es) es :=
  isGrouping_nil.addAll es

/-- The keys are those of the entries. -/
theorem IsGrouping.mem_keys_iff {g : Groups κ ι ν} {es : List (κ × ι × ν)} (h : IsGrouping g es)
    {k : κ} : k ∈ g.keys ↔ ∃ e ∈ es, e.1 = k := by
  constructor
  · intro hk
    obtain ⟨p, hp, rfl⟩ := List.mem_map.1 hk
    obtain ⟨hnodup, hne, hlists⟩ := h.wellFormed.labels p hp
    obtain ⟨q, hq⟩ := List.exists_mem_of_ne_nil _ hne
    have hvalues : valuesAt g p.1 q.1 = q.2 := by
      rw [valuesAt, Dict.get?_of_mem h.wellFormed.nodup hp, Option.getD_some,
        Dict.get?_of_mem hnodup hq, Option.getD_some]
    have hselect : select es p.1 q.1 ≠ [] := by
      rw [← h.lists, hvalues]
      exact hlists q hq
    obtain ⟨e, he, hek, -⟩ := select_ne_nil_iff.1 hselect
    exact ⟨e, he, hek⟩
  · rintro ⟨e, he, rfl⟩
    by_contra hk
    have hvalues : valuesAt g e.1 e.2.1 ≠ [] := by
      rw [h.lists]
      exact select_ne_nil_iff.2 ⟨e, he, rfl, rfl⟩
    apply hvalues
    rw [valuesAt, Dict.get?_eq_none_iff.2 hk]
    rfl

/-- The labels are those of the entries. -/
theorem IsGrouping.mem_labels_iff {g : Groups κ ι ν} {es : List (κ × ι × ν)}
    (h : IsGrouping g es) {i : ι} : (∃ p ∈ g, i ∈ p.2.keys) ↔ ∃ e ∈ es, e.2.1 = i := by
  constructor
  · rintro ⟨p, hp, hi⟩
    obtain ⟨q, hq, rfl⟩ := List.mem_map.1 hi
    obtain ⟨hnodup, -, hlists⟩ := h.wellFormed.labels p hp
    have hselect : select es p.1 q.1 ≠ [] := by
      rw [← h.lists, valuesAt, Dict.get?_of_mem h.wellFormed.nodup hp, Option.getD_some,
        Dict.get?_of_mem hnodup hq, Option.getD_some]
      exact hlists q hq
    obtain ⟨e, he, -, hei⟩ := select_ne_nil_iff.1 hselect
    exact ⟨e, he, hei⟩
  · rintro ⟨e, he, rfl⟩
    have hvalues : valuesAt g e.1 e.2.1 ≠ [] := by
      rw [h.lists]
      exact select_ne_nil_iff.2 ⟨e, he, rfl, rfl⟩
    cases hget : g.get? e.1 with
    | none =>
      rw [valuesAt, hget] at hvalues
      exact absurd rfl hvalues
    | some inner =>
      refine ⟨(e.1, inner), Dict.mem_of_get? hget, ?_⟩
      by_contra hnot
      rw [valuesAt, hget, Option.getD_some, Dict.get?_eq_none_iff.2 hnot] at hvalues
      exact hvalues rfl

theorem valuesAt_of_notMem {g : Groups κ ι ν} {k : κ} (h : k ∉ g.keys) (i : ι) :
    valuesAt g k i = [] := by
  rw [valuesAt, Dict.get?_eq_none_iff.2 h]
  rfl

theorem valuesAt_append {g h : Groups κ ι ν} (hdisjoint : ∀ k ∈ h.keys, k ∉ g.keys) (k : κ)
    (i : ι) : valuesAt (g ++ h) k i = valuesAt g k i ++ valuesAt h k i := by
  by_cases hk : k ∈ g.keys
  · have hnot : k ∉ h.keys := fun hmem => hdisjoint k hmem hk
    rw [valuesAt_of_notMem hnot, List.append_nil, valuesAt, valuesAt, Dict.get?_append,
      Dict.get?_eq_none_iff.2 hnot, Option.or_none]
  · rw [valuesAt_of_notMem hk, List.nil_append, valuesAt, valuesAt, Dict.get?_append,
      Dict.get?_eq_none_iff.2 hk, Option.none_or]

/-- **Groupings with different keys are put together by an update.** -/
theorem IsGrouping.update {g h : Groups κ ι ν} {es fs : List (κ × ι × ν)} (hg : IsGrouping g es)
    (hh : IsGrouping h fs) (hdisjoint : ∀ k ∈ h.keys, k ∉ g.keys) :
    IsGrouping (Dict.update g h) (es ++ fs) := by
  rw [Dict.update_of_disjoint g h hh.wellFormed.nodup hdisjoint]
  refine ⟨⟨?_, fun p hp => ?_⟩, fun k i => ?_, ?_⟩
  · rw [Dict.keys, List.map_append]
    refine List.nodup_append.2 ⟨hg.wellFormed.nodup, hh.wellFormed.nodup, fun a ha b hb => ?_⟩
    rintro rfl
    exact hdisjoint a hb ha
  · rcases List.mem_append.1 hp with hp | hp
    · exact hg.wellFormed.labels p hp
    · exact hh.wellFormed.labels p hp
  · rw [valuesAt_append hdisjoint, hg.lists, hh.lists, select_append]
  · rw [values, List.flatMap_append, List.map_append]
    exact hg.all.append hh.all

end Grouping

end TransferTestbed
