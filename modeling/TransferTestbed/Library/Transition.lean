import Mathlib.Data.List.Basic

/-!
# Runs of a partial step function

A system is a step function `step : σ → α → Option σ`: `none` means that the
action is not enabled in the state. `run` performs a list of actions, and
`Along` says that a condition holds at every step a run takes.

* `run_invariant_along`: a property that every step under a condition preserves holds
  after every run that meets the condition at each of its steps.
* `along_congr`: conditions that agree wherever an invariant holds.
* `throughout_iff_along`: a property of all states a run reaches, as a condition on its steps.
* `run_history_along`: an invariant that looks back on the actions so far.
-/

namespace TransferTestbed.Transition

variable {σ α : Type*} {step : σ → α → Option σ}

/-- The state after the actions `as` from `s`, if every one of them is enabled. -/
def run (step : σ → α → Option σ) : σ → List α → Option σ
  | s, [] => some s
  | s, a :: as => (step s a).bind fun t => run step t as

/-- `G` holds of every state and action at which the run of `as` from `s` takes a step. -/
def Along (step : σ → α → Option σ) (G : σ → α → Prop) : σ → List α → Prop
  | _, [] => True
  | s, a :: as => G s a ∧ ∀ t, step s a = some t → Along step G t as

/-- `P` holds of every state that the run of `as` from `s` reaches. -/
def Throughout (step : σ → α → Option σ) (P : σ → Prop) (s : σ) (as : List α) : Prop :=
  ∀ before u, before <+: as → run step s before = some u → P u

instance decidableAlong (G : σ → α → Prop) [∀ s a, Decidable (G s a)] :
    ∀ (s : σ) (as : List α), Decidable (Along step G s as)
  | _, [] => isTrue trivial
  | s, a :: as =>
    have : Decidable (∀ t, step s a = some t → Along step G t as) :=
      match hstep : step s a with
      | none => isTrue fun t ht => by cases ht
      | some t =>
        match decidableAlong G t as with
        | isTrue h => isTrue fun u hu => Option.some.inj hu ▸ h
        | isFalse h => isFalse fun hall => h (hall t rfl)
    inferInstanceAs (Decidable (_ ∧ _))

@[simp] theorem run_nil (s : σ) : run step s [] = some s := rfl

theorem run_cons (s : σ) (a : α) (as : List α) :
    run step s (a :: as) = (step s a).bind fun t => run step t as := rfl

theorem run_cons_eq_some {s u : σ} {a : α} {as : List α} :
    run step s (a :: as) = some u ↔ ∃ t, step s a = some t ∧ run step t as = some u := by
  rw [run_cons, Option.bind_eq_some_iff]

theorem run_append (s : σ) (as bs : List α) :
    run step s (as ++ bs) = (run step s as).bind fun t => run step t bs := by
  induction as generalizing s with
  | nil => rfl
  | cons a as ih =>
    rw [List.cons_append, run_cons, run_cons]
    cases step s a with
    | none => rfl
    | some t => exact ih t

theorem run_append_eq_some {s u : σ} {as bs : List α} :
    run step s (as ++ bs) = some u ↔ ∃ t, run step s as = some t ∧ run step t bs = some u := by
  rw [run_append, Option.bind_eq_some_iff]

theorem run_concat_eq_some {s u : σ} {as : List α} {a : α} :
    run step s (as ++ [a]) = some u ↔ ∃ t, run step s as = some t ∧ step t a = some u := by
  rw [run_append_eq_some]
  constructor
  · rintro ⟨t, h1, h2⟩
    obtain ⟨v, h3, h4⟩ := run_cons_eq_some.1 h2
    exact ⟨t, h1, by rw [h3]; exact h4⟩
  · rintro ⟨t, h1, h2⟩
    exact ⟨t, h1, run_cons_eq_some.2 ⟨u, h2, rfl⟩⟩

theorem along_cons_iff {G : σ → α → Prop} {s t : σ} {a : α} {as : List α}
    (h : step s a = some t) : Along step G s (a :: as) ↔ G s a ∧ Along step G t as := by
  rw [Along, h]
  constructor
  · rintro ⟨hG, hrest⟩
    exact ⟨hG, hrest t rfl⟩
  · rintro ⟨hG, hrest⟩
    exact ⟨hG, fun u hu => Option.some.inj hu ▸ hrest⟩

theorem along_of_append {G : σ → α → Prop} {s : σ} {as bs : List α}
    (h : Along step G s (as ++ bs)) : Along step G s as := by
  induction as generalizing s with
  | nil => trivial
  | cons a as ih => exact ⟨h.1, fun t ht => ih (h.2 t ht)⟩

/-- A condition on the actions alone. -/
theorem along_of_forall {G : α → Prop} {as : List α} (h : ∀ a ∈ as, G a) (s : σ) :
    Along step (fun _ a => G a) s as := by
  induction as generalizing s with
  | nil => trivial
  | cons a as ih =>
    exact ⟨h a List.mem_cons_self, fun t _ => ih (fun b hb => h b (List.mem_cons_of_mem a hb)) t⟩

/-- What every step meeting `G` preserves holds after every run that meets `G`
    at each of its steps. -/
theorem run_invariant_along {I : σ → Prop} {G : σ → α → Prop}
    (hstep : ∀ s a t, I s → G s a → step s a = some t → I t) :
    ∀ (as : List α) {s u : σ}, I s → Along step G s as → run step s as = some u → I u := by
  intro as
  induction as with
  | nil => intro s u hs _ hu; cases hu; exact hs
  | cons a as ih =>
    intro s u hs hG hu
    obtain ⟨t, ht, hu⟩ := run_cons_eq_some.1 hu
    exact ih (hstep s a t hs hG.1 ht) (hG.2 t ht) hu

/-- Conditions that agree wherever an invariant of the steps holds. -/
theorem along_congr {I : σ → Prop} {G H : σ → α → Prop}
    (hstep : ∀ s a t, I s → step s a = some t → I t) (hcongr : ∀ s a, I s → (G s a ↔ H s a)) :
    ∀ (as : List α) {s : σ}, I s → (Along step G s as ↔ Along step H s as) := by
  intro as
  induction as with
  | nil => intro s _; exact Iff.rfl
  | cons a as ih =>
    intro s hs
    refine and_congr (hcongr s a hs) (forall_congr' fun t => ?_)
    exact forall_congr' fun ht => ih (hstep s a t hs ht)

theorem throughout_nil_iff {P : σ → Prop} {s : σ} : Throughout step P s [] ↔ P s := by
  constructor
  · intro h
    exact h [] s List.nil_prefix rfl
  · intro h before u hbefore hu
    rw [List.prefix_nil.1 hbefore] at hu
    exact Option.some.inj hu ▸ h

theorem throughout_cons_iff {P : σ → Prop} {s : σ} {a : α} {as : List α} :
    Throughout step P s (a :: as) ↔ P s ∧ ∀ t, step s a = some t → Throughout step P t as := by
  constructor
  · intro h
    refine ⟨h [] s List.nil_prefix rfl, fun t ht before u hbefore hu => ?_⟩
    exact h (a :: before) u (List.cons_prefix_cons.2 ⟨rfl, hbefore⟩)
      (run_cons_eq_some.2 ⟨t, ht, hu⟩)
  · rintro ⟨hs, hrest⟩ before u hbefore hu
    rcases List.prefix_cons_iff.1 hbefore with rfl | ⟨rest, rfl, hle⟩
    · exact Option.some.inj hu ▸ hs
    · obtain ⟨t, ht, hu⟩ := run_cons_eq_some.1 hu
      exact hrest t ht rest u hle hu

/-- A property holds of every state reached iff every step meets the condition under which
    it keeps the property. -/
theorem throughout_iff_along {I P : σ → Prop} {G : σ → α → Prop}
    (hstep : ∀ s a t, I s → step s a = some t → I t)
    (hiff : ∀ s a, I s → P s → (G s a ↔ ∀ t, step s a = some t → P t)) :
    ∀ (as : List α) {s : σ}, I s → P s → (Throughout step P s as ↔ Along step G s as) := by
  intro as
  induction as with
  | nil => intro s _ hP; exact iff_of_true (throughout_nil_iff.2 hP) trivial
  | cons a as ih =>
    intro s hI hP
    rw [throughout_cons_iff, Along, hiff s a hI hP]
    constructor
    · rintro ⟨-, hrest⟩
      have hkept (t : σ) (ht : step s a = some t) : P t :=
        hrest t ht [] t List.nil_prefix rfl
      exact ⟨hkept, fun t ht => (ih (hstep s a t hI ht) (hkept t ht)).1 (hrest t ht)⟩
    · rintro ⟨hkept, hrest⟩
      exact ⟨hP, fun t ht => (ih (hstep s a t hI ht) (hkept t ht)).2 (hrest t ht)⟩

/-- What every step under a condition preserves, for a property of the state and the
    actions so far. -/
theorem run_history_along {I : σ → List α → Prop} {G : σ → α → Prop}
    (hstep : ∀ s before a t, I s before → G s a → step s a = some t → I t (before ++ [a])) :
    ∀ (as before : List α) {s u : σ}, I s before → Along step G s as → run step s as = some u →
      I u (before ++ as) := by
  intro as
  induction as with
  | nil =>
    intro before s u hs _ hu
    cases hu
    rwa [List.append_nil]
  | cons a as ih =>
    intro before s u hs hG hu
    obtain ⟨t, ht, hu⟩ := run_cons_eq_some.1 hu
    rw [List.append_cons]
    exact ih _ (hstep s before a t hs hG.1 ht) (hG.2 t ht) hu

end TransferTestbed.Transition
