import Mathlib
import TransferTestbed.Library.Dict

/-!
# Counting dictionaries

A dictionary of counts, built one key at a time by `d[k] = d.get(k, 0) + 1`, and
the number of repeats that such a dictionary shows.

* `nodup_keys_tally`: each key has one entry.
* `get?_tally`: the count of a key.
* `sum_tally`: the counts add up to the number of keys counted.
* `repeats_add_card`: the repeats are the keys counted less the distinct ones.
-/

namespace TransferTestbed.Tally

variable {κ : Type*} [DecidableEq κ]

/-- `d[k] = d.get(k, 0) + 1`. -/
def bump (d : Dict κ ℕ) (k : κ) : Dict κ ℕ := d.insert k ((d.get? k).getD 0 + 1)

/-- The counts of the keys of a list. -/
def tally (ks : List κ) : Dict κ ℕ := ks.foldl bump []

/-- `sum(count - 1 for count in d.values() if count > 1)`. -/
def repeats (d : Dict κ ℕ) : ℕ := ((d.map Prod.snd).map fun c => if 1 < c then c - 1 else 0).sum

/-! ## Keys -/

theorem keys_insert (d : Dict κ ℕ) (k : κ) (v : ℕ) :
    (d.insert k v).keys = if k ∈ d.keys then d.keys else d.keys ++ [k] := by
  unfold Dict.insert
  split_ifs with hk
  · rw [Dict.keys, List.map_map]
    apply List.map_congr_left
    intro p _
    by_cases hp : p.1 = k
    · simp [hp]
    · simp [hp]
  · simp [Dict.keys]

theorem keys_bump (d : Dict κ ℕ) (k : κ) :
    (bump d k).keys = if k ∈ d.keys then d.keys else d.keys ++ [k] := keys_insert d k _

theorem nodup_keys_bump {d : Dict κ ℕ} (h : d.keys.Nodup) (k : κ) : (bump d k).keys.Nodup := by
  rw [keys_bump]
  split_ifs with hk
  · exact h
  · rw [List.nodup_append]
    refine ⟨h, List.nodup_singleton k, ?_⟩
    intro a ha b hb hab
    rw [List.mem_singleton] at hb
    exact hk (hb ▸ hab ▸ ha)

theorem tally_concat (ks : List κ) (k : κ) : tally (ks ++ [k]) = bump (tally ks) k := by
  rw [tally, List.foldl_append]
  rfl

theorem nodup_keys_tally (ks : List κ) : (tally ks).keys.Nodup := by
  induction ks using List.reverseRecOn with
  | nil => exact List.nodup_nil
  | append_singleton ks k ih =>
    rw [tally_concat]
    exact nodup_keys_bump ih k

theorem mem_keys_tally {ks : List κ} {k : κ} : k ∈ (tally ks).keys ↔ k ∈ ks := by
  induction ks using List.reverseRecOn with
  | nil => simp [tally, Dict.keys]
  | append_singleton ks j ih =>
    rw [tally_concat, keys_bump, List.mem_append, List.mem_singleton]
    split_ifs with hj
    · rw [ih]
      constructor
      · exact Or.inl
      · rintro (h | rfl)
        · exact h
        · exact ih.1 hj
    · rw [List.mem_append, List.mem_singleton, ih]

/-! ## Counts -/

/-- The sum of the values of a dictionary. -/
def total (d : Dict κ ℕ) : ℕ := (d.map Prod.snd).sum

/-- Assigning to a key that occurs once replaces its value in the sum. -/
theorem total_replace {d : Dict κ ℕ} (hd : d.keys.Nodup) {k : κ} (hk : k ∈ d.keys) (v : ℕ) :
    total (d.map fun p => if p.1 = k then (k, v) else p) + (Dict.get? d k).getD 0 =
      total d + v := by
  induction d with
  | nil => simp [Dict.keys] at hk
  | cons p d ih =>
    have hcons : p.1 ∉ Dict.keys d ∧ (Dict.keys d).Nodup := by simpa [Dict.keys] using hd
    rw [Dict.get?_cons]
    by_cases hp : p.1 = k
    · -- no later entry has the key `k`
      have hrest : (d.map fun q => if q.1 = k then (k, v) else q) = d := by
        conv_rhs => rw [← List.map_id d]
        apply List.map_congr_left
        intro q hq
        have hne : q.1 ≠ k := by
          rintro rfl
          exact hcons.1 (hp ▸ List.mem_map_of_mem hq)
        rw [if_neg hne, id]
      simp only [total, List.map_cons, if_pos hp, hrest, List.sum_cons, Option.getD_some]
      omega
    · have hkd : k ∈ Dict.keys d := by
        have : k = p.1 ∨ k ∈ Dict.keys d := by simpa [Dict.keys] using hk
        exact this.resolve_left (Ne.symm hp)
      have := ih hcons.2 hkd
      simp only [total, List.map_cons, if_neg hp, List.sum_cons] at this ⊢
      omega

theorem total_bump {d : Dict κ ℕ} (hd : d.keys.Nodup) (k : κ) : total (bump d k) = total d + 1 := by
  by_cases hk : k ∈ d.keys
  · have := total_replace hd hk ((Dict.get? d k).getD 0 + 1)
    rw [bump, Dict.insert, if_pos hk]
    omega
  · rw [bump, Dict.insert_of_notMem _ hk, Dict.get?_eq_none_iff.2 hk]
    simp [total]

/-- The counts add up. -/
theorem sum_tally (ks : List κ) : total (tally ks) = ks.length := by
  induction ks using List.reverseRecOn with
  | nil => rfl
  | append_singleton ks k ih =>
    rw [tally_concat, total_bump (nodup_keys_tally ks), ih, List.length_append,
      List.length_singleton]

theorem get?_bump (d : Dict κ ℕ) (k j : κ) :
    ((bump d k).get? j).getD 0 = (d.get? j).getD 0 + if j = k then 1 else 0 := by
  rw [bump, Dict.get?_insert]
  by_cases hj : j = k
  · rw [if_pos hj, if_pos hj, hj, Option.getD_some]
  · rw [if_neg hj, if_neg hj, add_zero]

/-- Each key has its number of occurrences. -/
theorem get?_tally (ks : List κ) (k : κ) : ((tally ks).get? k).getD 0 = ks.count k := by
  induction ks using List.reverseRecOn with
  | nil => rfl
  | append_singleton ks j ih =>
    rw [tally_concat, get?_bump, ih, List.count_append, List.count_singleton]
    by_cases hj : k = j
    · simp [hj]
    · rw [if_neg hj, if_neg (by simpa using Ne.symm hj)]

theorem pos_of_mem_bump {d : Dict κ ℕ} (hd : ∀ p ∈ d, 0 < p.2) (k : κ) :
    ∀ p ∈ bump d k, 0 < p.2 := by
  intro p hp
  by_cases hk : k ∈ d.keys
  · rw [bump, Dict.insert, if_pos hk] at hp
    obtain ⟨q, hq, rfl⟩ := List.mem_map.1 hp
    split_ifs
    · exact Nat.succ_pos _
    · exact hd q hq
  · rw [bump, Dict.insert_of_notMem _ hk, List.mem_append, List.mem_singleton] at hp
    rcases hp with hp | rfl
    · exact hd p hp
    · exact Nat.succ_pos _

theorem pos_of_mem_tally (ks : List κ) : ∀ p ∈ tally ks, 0 < p.2 := by
  induction ks using List.reverseRecOn with
  | nil => simp [tally]
  | append_singleton ks k ih =>
    rw [tally_concat]
    exact pos_of_mem_bump ih k

/-- Without zero counts, the repeats are the sum of the counts less their number. -/
theorem repeats_add_length {κ : Type*} {d : Dict κ ℕ} (h : ∀ p ∈ d, 0 < p.2) :
    repeats d + d.length = total d := by
  induction d with
  | nil => rfl
  | cons p d ih =>
    have hp := h p (by simp)
    have hd := ih fun q hq => h q (by simp [hq])
    simp only [repeats, total, List.map_cons, List.sum_cons, List.length_cons] at hd ⊢
    split_ifs with h1
    · omega
    · omega

/-- **Repeats.** The repeats in the counts of a list are its length less the number
    of distinct keys. -/
theorem repeats_add_card (ks : List κ) : repeats (tally ks) + ks.toFinset.card = ks.length := by
  have hkeys : (tally ks).length = ks.toFinset.card := by
    have hset : ks.toFinset = (tally ks).keys.toFinset := by
      ext k
      rw [List.mem_toFinset, List.mem_toFinset, mem_keys_tally]
    rw [hset, List.toFinset_card_of_nodup (nodup_keys_tally ks), Dict.keys, List.length_map]
  rw [← hkeys, repeats_add_length (pos_of_mem_tally ks), sum_tally]

end TransferTestbed.Tally
