import Mathlib.Data.List.Nodup
import Mathlib.Data.List.Pairwise

/-!
# Insertion-ordered dictionaries

Python's `dict` as an association list in insertion order. Assigning to an
existing key keeps its place; a new key goes to the end.

* `get?_insert`: lookup after assignment.
* `ofPairs_of_nodup`: building a dictionary from pairs with distinct keys keeps them.
* `get?_mapValues`, `mapValues_update`: dictionaries of mapped values.
* `get?_of_mem`: an entry of a dictionary with distinct keys is found.
-/

namespace TransferTestbed

/-- An insertion-ordered dictionary. -/
abbrev Dict (κ ν : Type*) := List (κ × ν)

namespace Dict

variable {κ ν : Type*} [DecidableEq κ]

def keys (d : Dict κ ν) : List κ := d.map Prod.fst

/-- `d.get(k)`. -/
def get? (d : Dict κ ν) (k : κ) : Option ν := (d.find? fun p => p.1 = k).map Prod.snd

/-- `d[k] = v`. -/
def insert (d : Dict κ ν) (k : κ) (v : ν) : Dict κ ν :=
  if k ∈ d.keys then d.map fun p => if p.1 = k then (k, v) else p else d ++ [(k, v)]

/-- `d.update(e)`, and `{**d, **e}`. -/
def update (d e : Dict κ ν) : Dict κ ν := e.foldl (fun d p => d.insert p.1 p.2) d

/-- `dict(pairs)`. -/
def ofPairs (ps : List (κ × ν)) : Dict κ ν := update [] ps

@[simp] theorem get?_nil (k : κ) : get? ([] : Dict κ ν) k = none := rfl

theorem get?_cons (p : κ × ν) (d : Dict κ ν) (k : κ) :
    get? (p :: d) k = if p.1 = k then some p.2 else get? d k := by
  by_cases h : p.1 = k <;> simp [get?, h]

theorem get?_append (d e : Dict κ ν) (k : κ) : get? (d ++ e) k = (get? d k).or (get? e k) := by
  induction d with
  | nil => rfl
  | cons p d ih =>
    rw [List.cons_append, get?_cons, get?_cons, ih]
    split_ifs <;> simp

theorem get?_eq_none_iff {d : Dict κ ν} {k : κ} : get? d k = none ↔ k ∉ d.keys := by
  induction d with
  | nil => simp [keys]
  | cons p d ih =>
    rw [get?_cons]
    by_cases h : p.1 = k
    · simp [h, keys]
    · rw [if_neg h, ih]
      simp only [keys, List.map_cons, List.mem_cons, not_or, Ne.symm h, not_false_eq_true,
        true_and]

theorem get?_map_replace (d : Dict κ ν) (k : κ) (v : ν) (j : κ) :
    get? (d.map fun p => if p.1 = k then (k, v) else p) j =
      if j = k then (get? d k).map fun _ => v else get? d j := by
  induction d with
  | nil => simp
  | cons p d ih =>
    rw [List.map_cons, get?_cons, get?_cons, get?_cons, ih]
    by_cases hp : p.1 = k
    · by_cases hj : j = k
      · simp [hp, hj]
      · simp [hp, hj, Ne.symm hj]
    · by_cases hj : j = k
      · simp [hp, hj]
      · simp [hp, hj]

theorem get?_insert (d : Dict κ ν) (k : κ) (v : ν) (j : κ) :
    get? (insert d k v) j = if j = k then some v else get? d j := by
  unfold insert
  split_ifs with hk hj hj
  · obtain ⟨w, hw⟩ := Option.ne_none_iff_exists'.1 fun h => get?_eq_none_iff.1 h hk
    rw [get?_map_replace, if_pos hj, hw]
    rfl
  · rw [get?_map_replace, if_neg hj]
  · rw [get?_append, hj, get?_eq_none_iff.2 hk]
    simp [get?_cons]
  · rw [get?_append, get?_cons, if_neg (Ne.symm hj)]
    simp

theorem insert_of_notMem {d : Dict κ ν} {k : κ} (v : ν) (h : k ∉ d.keys) :
    insert d k v = d ++ [(k, v)] := if_neg h

theorem keys_insert (d : Dict κ ν) (k : κ) (v : ν) :
    (insert d k v).keys = if k ∈ d.keys then d.keys else d.keys ++ [k] := by
  unfold insert
  split_ifs with hk
  · rw [keys, keys, List.map_map]
    refine List.map_congr_left fun p _ => ?_
    simp only [Function.comp_apply]
    split_ifs with hp
    · exact hp.symm
    · rfl
  · rw [keys, List.map_append]
    rfl

theorem nodup_keys_insert {d : Dict κ ν} (h : d.keys.Nodup) (k : κ) (v : ν) :
    (insert d k v).keys.Nodup := by
  rw [keys_insert]
  split_ifs with hk
  · exact h
  · exact List.nodup_append.2 ⟨h, List.nodup_singleton k, fun a ha b hb => by
      rw [List.mem_singleton] at hb
      rintro rfl
      exact hk (hb ▸ ha)⟩

theorem nodup_keys_update {d : Dict κ ν} (h : d.keys.Nodup) (e : Dict κ ν) :
    (update d e).keys.Nodup := by
  induction e generalizing d with
  | nil => exact h
  | cons p e ih => exact ih (nodup_keys_insert h p.1 p.2)

/-- What an update with distinct keys looks up. -/
theorem get?_update (d : Dict κ ν) {e : Dict κ ν} (he : e.keys.Nodup) (k : κ) :
    get? (update d e) k = (get? e k).or (get? d k) := by
  induction e generalizing d with
  | nil => rfl
  | cons p e ih =>
    rw [keys, List.map_cons, List.nodup_cons] at he
    show get? (update (insert d p.1 p.2) e) k = _
    rw [ih _ he.2, get?_insert, get?_cons]
    by_cases hk : p.1 = k
    · have hnone : get? e k = none := get?_eq_none_iff.2 (hk ▸ he.1)
      rw [if_pos hk, if_pos hk.symm, hnone]
      rfl
    · rw [if_neg hk, if_neg (Ne.symm hk)]

/-- Updating with fresh, distinct keys appends. -/
theorem update_of_disjoint (d e : Dict κ ν) (he : e.keys.Nodup)
    (hde : ∀ k ∈ e.keys, k ∉ d.keys) : update d e = d ++ e := by
  induction e generalizing d with
  | nil => simp [update]
  | cons p e ih =>
    have hp : p.1 ∉ d.keys := hde _ (by simp [keys])
    have hcons : p.1 ∉ keys e ∧ (keys e).Nodup := by simpa [keys] using he
    have hstep : update d (p :: e) = update (d ++ [p]) e := by
      rw [update, List.foldl_cons, insert_of_notMem _ hp]
      rfl
    rw [hstep, ih _ hcons.2, List.append_assoc]
    · rfl
    · intro k hk
      have hne : k ≠ p.1 := fun h => hcons.1 (h ▸ hk)
      have := hde k (by simp only [keys, List.map_cons, List.mem_cons]; exact Or.inr hk)
      simp only [keys, List.map_append, List.mem_append, List.map_cons, List.map_nil,
        List.mem_singleton, not_or] at this ⊢
      exact ⟨this, hne⟩

theorem ofPairs_of_nodup {ps : List (κ × ν)} (h : (ps.map Prod.fst).Nodup) : ofPairs ps = ps := by
  rw [ofPairs, update_of_disjoint _ _ h (by simp [keys]), List.nil_append]

/-- A dictionary that gives each of some keys the value of a function. -/
theorem get?_map_pair {ks : List κ} (f : κ → ν) {k : κ} (hk : k ∈ ks) :
    get? (ks.map fun k => (k, f k)) k = some (f k) := by
  induction ks with
  | nil => simp at hk
  | cons j ks ih =>
    rw [List.map_cons, get?_cons]
    by_cases h : j = k
    · simp [h]
    · rw [if_neg h]
      exact ih ((List.mem_cons.1 hk).resolve_left (Ne.symm h))

theorem get?_of_mem {d : Dict κ ν} (hd : d.keys.Nodup) {k : κ} {v : ν} (h : (k, v) ∈ d) :
    get? d k = some v := by
  induction d with
  | nil => simp at h
  | cons p d ih =>
    have hcons : p.1 ∉ keys d ∧ (keys d).Nodup := by simpa [keys] using hd
    rw [get?_cons]
    rcases List.mem_cons.1 h with rfl | h
    · simp
    · have hne : p.1 ≠ k := by
        rintro rfl
        exact hcons.1 (List.mem_map.2 ⟨(p.1, v), h, rfl⟩)
      rw [if_neg hne, ih hcons.2 h]

/-- With distinct values there is one key for each. -/
theorem eq_of_get?_eq {d : Dict κ ν} (hd : (d.map Prod.snd).Nodup) {j k : κ} {v : ν}
    (hj : d.get? j = some v) (hk : d.get? k = some v) : j = k := by
  obtain ⟨p, hp, rfl⟩ := Option.map_eq_some_iff.1 hj
  obtain ⟨q, hq, hqv⟩ := Option.map_eq_some_iff.1 hk
  have hkey := List.find?_some hp
  have hkey' := List.find?_some hq
  have heq := List.inj_on_of_nodup_map hd (List.mem_of_find?_eq_some hq)
    (List.mem_of_find?_eq_some hp) hqv
  rw [heq] at hkey'
  exact (of_decide_eq_true hkey).symm.trans (of_decide_eq_true hkey')

/-! ## Values -/

/-- `{k: f(v) for k, v in d.items()}`. -/
def mapValues {μ : Type*} (f : ν → μ) (d : Dict κ ν) : Dict κ μ := d.map fun p => (p.1, f p.2)

section mapValues

variable {μ : Type*} (f : ν → μ)

omit [DecidableEq κ] in
theorem keys_mapValues (d : Dict κ ν) : (d.mapValues f).keys = d.keys := by
  rw [keys, keys, mapValues, List.map_map]
  rfl

theorem get?_mapValues (d : Dict κ ν) (k : κ) : (d.mapValues f).get? k = (d.get? k).map f := by
  induction d with
  | nil => rfl
  | cons p d ih =>
    rw [mapValues, List.map_cons, get?_cons, get?_cons]
    split_ifs
    · rfl
    · exact ih

theorem mapValues_insert (d : Dict κ ν) (k : κ) (v : ν) :
    (d.insert k v).mapValues f = (d.mapValues f).insert k (f v) := by
  unfold insert
  rw [keys_mapValues]
  split_ifs with hk
  · rw [mapValues, mapValues, List.map_map, List.map_map]
    refine List.map_congr_left fun p _ => ?_
    simp only [Function.comp_apply]
    split_ifs
    · rfl
    · rfl
  · rw [mapValues, List.map_append]
    rfl

theorem mapValues_update (d e : Dict κ ν) :
    (d.update e).mapValues f = (d.mapValues f).update (e.mapValues f) := by
  induction e generalizing d with
  | nil => rfl
  | cons p e ih =>
    show ((d.insert p.1 p.2).update e).mapValues f = _
    rw [ih, mapValues_insert]
    rfl

end mapValues

/-- The keys of an update. -/
theorem mem_keys_update {d e : Dict κ ν} {k : κ} :
    k ∈ (d.update e).keys ↔ k ∈ d.keys ∨ k ∈ e.keys := by
  induction e generalizing d with
  | nil => simp [update, keys]
  | cons p e ih =>
    show k ∈ ((d.insert p.1 p.2).update e).keys ↔ _
    rw [ih, keys_insert, keys, keys, keys, List.map_cons, List.mem_cons]
    by_cases hp : p.1 ∈ d.map Prod.fst
    · rw [if_pos hp]
      constructor
      · rintro (hd | he)
        · exact .inl hd
        · exact .inr (.inr he)
      · rintro (hd | rfl | he)
        · exact .inl hd
        · exact .inl hp
        · exact .inr he
    · rw [if_neg hp, List.mem_append, List.mem_singleton, or_assoc]

end Dict

end TransferTestbed
