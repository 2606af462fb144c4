import Mathlib

/-!
# Statistics of a list of numbers

The mean, the sample variance and the median of a list, over any ordered field, and
how they are placed relative to one another.

Results:

* `getElem_iff_lt_countP`: in a sorted list the `k`-th entry satisfies a downward
  closed property exactly if more than `k` entries do.
* `exists_le_mean`, `exists_mean_le`: the mean is within the range of the entries.
* `exists_le_median`, `exists_median_le`: so is the median.
-/

namespace TransferTestbed.Statistics

/-! ## Order statistics -/

/-- The `k`-th entry of a sorted list satisfies a downward closed property iff more
    than `k` entries do. -/
theorem getElem_iff_lt_countP {α : Type*} {r : α → α → Prop} {p : α → Bool}
    (hp : ∀ a b, r a b → p b = true → p a = true) :
    ∀ {l : List α} (_ : l.Pairwise r) {k : ℕ} (hk : k < l.length),
      p l[k] = true ↔ k < l.countP p := by
  intro l
  induction l with
  | nil =>
    intro _ k hk
    simp at hk
  | cons a l ih =>
    intro hl k hk
    obtain ⟨ha, hl⟩ := List.pairwise_cons.1 hl
    by_cases hpa : p a = true
    · rw [List.countP_cons_of_pos hpa]
      match k, hk with
      | 0, _ => simp [hpa]
      | k + 1, hk =>
        rw [List.getElem_cons_succ, ih hl (by simpa using hk)]
        omega
    · -- an entry that fails the property is followed by such entries only
      have hall : ∀ b ∈ l, ¬ p b = true := fun b hb hpb => hpa (hp a b (ha b hb) hpb)
      rw [List.countP_cons_of_neg hpa, List.countP_eq_zero.2 hall]
      match k, hk with
      | 0, _ => simp [hpa]
      | k + 1, hk =>
        have hlt : k < l.length := by simpa using hk
        have hneg := hall l[k] (List.getElem_mem hlt)
        rw [List.getElem_cons_succ]
        simp [hneg]

section

variable {α : Type*} [LinearOrder α]

/-- `sorted(values)`. -/
def ordered (xs : List α) : List α := xs.insertionSort (· ≤ ·)

theorem ordered_perm (xs : List α) : (ordered xs).Perm xs := List.perm_insertionSort _ _

@[simp] theorem length_ordered (xs : List α) : (ordered xs).length = xs.length :=
  (ordered_perm xs).length_eq

theorem pairwise_ordered (xs : List α) : (ordered xs).Pairwise (· ≤ ·) :=
  List.pairwise_insertionSort _ _

theorem ordered_getElem_le {xs : List α} {i j : ℕ} (hij : i ≤ j) (hj : j < (ordered xs).length) :
    (ordered xs)[i] ≤ (ordered xs)[j] := by
  rcases hij.eq_or_lt with rfl | hlt
  · exact le_refl _
  · exact List.pairwise_iff_getElem.1 (pairwise_ordered xs) i j (by omega) hj hlt

/-- The `k`-th smallest entry is at most `y` iff more than `k` entries are. -/
theorem ordered_le_iff {xs : List α} {k : ℕ} (hk : k < (ordered xs).length) (y : α) :
    (ordered xs)[k] ≤ y ↔ k < xs.countP (fun x => decide (x ≤ y)) := by
  have hp : ∀ a b : α, a ≤ b → decide (b ≤ y) = true → decide (a ≤ y) = true := by
    intro a b hab hb
    rw [decide_eq_true_eq] at hb ⊢
    exact hab.trans hb
  have h := getElem_iff_lt_countP hp (pairwise_ordered xs) hk
  rwa [decide_eq_true_eq, (ordered_perm xs).countP_eq] at h

/-- The `k`-th smallest entry is at least `y` iff more than `n - 1 - k` entries are. -/
theorem le_ordered_iff {xs : List α} {k : ℕ} (hk : k < (ordered xs).length) (y : α) :
    y ≤ (ordered xs)[k] ↔ xs.length - 1 - k < xs.countP (fun x => decide (y ≤ x)) := by
  have hp : ∀ a b : α, a ≤ b → decide (b < y) = true → decide (a < y) = true := by
    intro a b hab hb
    rw [decide_eq_true_eq] at hb ⊢
    exact hab.trans_lt hb
  have h := getElem_iff_lt_countP hp (pairwise_ordered xs) hk
  rw [decide_eq_true_eq, (ordered_perm xs).countP_eq] at h
  have hcount : xs.countP (fun x => decide (x < y)) + xs.countP (fun x => decide (y ≤ x)) =
      xs.length := by
    rw [List.length_eq_countP_add_countP (fun x => decide (x < y))]
    congr 2
    funext x
    simp
  rw [← not_lt, h]
  rw [length_ordered] at hk
  omega

end

/-! ## Mean and variance -/

variable {K : Type*} [Field K]

/-- The arithmetic mean. -/
def mean (xs : List K) : K := xs.sum / xs.length

/-- The sample variance. -/
def sampleVariance (xs : List K) : K :=
  (xs.map fun x => (x - mean xs) ^ 2).sum / (xs.length - 1)

theorem sum_sub_eq (xs : List K) (c : K) :
    (xs.map fun x => x - c).sum = xs.sum - xs.length * c := by
  induction xs with
  | nil => simp
  | cons x xs ih =>
    rw [List.map_cons, List.sum_cons, List.sum_cons, ih, List.length_cons]
    push_cast
    ring

variable [LinearOrder K] [IsStrictOrderedRing K]

theorem length_pos_cast {xs : List K} (h : xs ≠ []) : (0 : K) < xs.length := by
  exact_mod_cast List.length_pos_iff.2 h

theorem mul_mean_sub_eq {xs : List K} (h : xs ≠ []) (c : K) :
    xs.length * (mean xs - c) = (xs.map fun x => x - c).sum := by
  rw [sum_sub_eq, mean, mul_sub, mul_div_cancel₀ _ (length_pos_cast h).ne']

theorem sum_sub_mean_eq_zero {xs : List K} (h : xs ≠ []) :
    (xs.map fun x => x - mean xs).sum = 0 := by
  rw [← mul_mean_sub_eq h, sub_self, mul_zero]

/-- Some entry is at most the mean. -/
theorem exists_le_mean {xs : List K} (h : xs ≠ []) : ∃ x ∈ xs, x ≤ mean xs := by
  by_contra hnone
  push Not at hnone
  have hlt := List.sum_lt_sum_of_ne_nil h (fun _ => 0) (fun x => x - mean xs)
    fun x hx => sub_pos.2 (hnone x hx)
  rw [sum_sub_mean_eq_zero h] at hlt
  simp at hlt

/-- Some entry is at least the mean. -/
theorem exists_mean_le {xs : List K} (h : xs ≠ []) : ∃ x ∈ xs, mean xs ≤ x := by
  by_contra hnone
  push Not at hnone
  have hlt := List.sum_lt_sum_of_ne_nil h (fun x => x - mean xs) (fun _ => 0)
    fun x hx => sub_neg.2 (hnone x hx)
  rw [sum_sub_mean_eq_zero h] at hlt
  simp at hlt

/-! ## The median -/

/-- The middle entry, or halfway between the two in the middle. -/
def median (xs : List K) : K :=
  let n := xs.length
  if n % 2 = 1 then (ordered xs).getD (n / 2) 0
  else ((ordered xs).getD (n / 2 - 1) 0 + (ordered xs).getD (n / 2) 0) / 2

/-- For either parity the median is halfway between two entries. -/
theorem median_eq {xs : List K} (h : 0 < xs.length) :
    median xs =
      ((ordered xs).getD ((xs.length - 1) / 2) 0 + (ordered xs).getD (xs.length / 2) 0) / 2 := by
  rw [median]
  by_cases hodd : xs.length % 2 = 1
  · rw [if_pos hodd, show (xs.length - 1) / 2 = xs.length / 2 by omega]
    ring
  · rw [if_neg hodd, show (xs.length - 1) / 2 = xs.length / 2 - 1 by omega]

/-- Every entry of the lower half is at most the median. -/
theorem ordered_le_median {xs : List K} {k : ℕ} (hk : k < (ordered xs).length)
    (hlow : k ≤ (xs.length - 1) / 2) : (ordered xs)[k] ≤ median xs := by
  have hlen := length_ordered xs
  have hi : (xs.length - 1) / 2 < (ordered xs).length := by omega
  have hj : xs.length / 2 < (ordered xs).length := by omega
  have h0 : (ordered xs)[k] ≤ (ordered xs)[(xs.length - 1) / 2] := ordered_getElem_le hlow hi
  have h1 : (ordered xs)[k] ≤ (ordered xs)[xs.length / 2] := ordered_getElem_le (by omega) hj
  rw [median_eq (by omega), List.getD_eq_getElem _ _ hi, List.getD_eq_getElem _ _ hj]
  linarith

/-- Every entry of the upper half is at least the median. -/
theorem median_le_ordered {xs : List K} {k : ℕ} (hk : k < (ordered xs).length)
    (hhigh : xs.length / 2 ≤ k) : median xs ≤ (ordered xs)[k] := by
  have hlen := length_ordered xs
  have hi : (xs.length - 1) / 2 < (ordered xs).length := by omega
  have hj : xs.length / 2 < (ordered xs).length := by omega
  have h0 : (ordered xs)[(xs.length - 1) / 2] ≤ (ordered xs)[k] :=
    ordered_getElem_le (by omega) hk
  have h1 : (ordered xs)[xs.length / 2] ≤ (ordered xs)[k] := ordered_getElem_le hhigh hk
  rw [median_eq (by omega), List.getD_eq_getElem _ _ hi, List.getD_eq_getElem _ _ hj]
  linarith

theorem exists_le_median {xs : List K} (h : xs ≠ []) : ∃ x ∈ xs, x ≤ median xs := by
  have hlen : 0 < (ordered xs).length := by
    rw [length_ordered]
    exact List.length_pos_iff.2 h
  exact ⟨(ordered xs)[0], (ordered_perm xs).mem_iff.1 (List.getElem_mem hlen),
    ordered_le_median hlen (Nat.zero_le _)⟩

theorem exists_median_le {xs : List K} (h : xs ≠ []) : ∃ x ∈ xs, median xs ≤ x := by
  have hpos := List.length_pos_iff.2 h
  have hlen : xs.length - 1 < (ordered xs).length := by
    rw [length_ordered]
    omega
  exact ⟨(ordered xs)[xs.length - 1], (ordered_perm xs).mem_iff.1 (List.getElem_mem hlen),
    median_le_ordered hlen (by omega)⟩

end TransferTestbed.Statistics
