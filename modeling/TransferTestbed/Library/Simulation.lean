import Mathlib.Data.List.Basic

/-!
# One store simulating another

A store answers a call with a reply and its next state. If related states of two stores give
related replies and related next states, then so do all sequences of calls.

* `Simulates.run`: the replies and the states after a sequence of calls.
-/

namespace TransferTestbed.Simulation

variable {σ τ α β ρ : Type*}

/-- The replies to a sequence of calls, and the state after it. -/
def replies (step : σ → α → ρ × σ) : σ → List α → List ρ × σ
  | s, [] => ([], s)
  | s, a :: as => ((step s a).1 :: (replies step (step s a).2 as).1,
      (replies step (step s a).2 as).2)

/-- Related states answer equally and stay related; `tr` translates the calls. -/
def Simulates (R : σ → τ → Prop) (tr : α → β) (f : σ → α → ρ × σ) (g : τ → β → ρ × τ) : Prop :=
  ∀ s t a, R s t → (f s a).1 = (g t (tr a)).1 ∧ R (f s a).2 (g t (tr a)).2

/-- **Simulation over every sequence of calls.** -/
theorem Simulates.run {R : σ → τ → Prop} {tr : α → β} {f : σ → α → ρ × σ} {g : τ → β → ρ × τ}
    (h : Simulates R tr f g) (as : List α) {s : σ} {t : τ} (hst : R s t) :
    (replies f s as).1 = (replies g t (as.map tr)).1 ∧
      R (replies f s as).2 (replies g t (as.map tr)).2 := by
  induction as generalizing s t with
  | nil => exact ⟨rfl, hst⟩
  | cons a as ih =>
    obtain ⟨hreply, hnext⟩ := h s t a hst
    obtain ⟨hreplies, hlast⟩ := ih hnext
    exact ⟨congrArg₂ List.cons hreply hreplies, hlast⟩

end TransferTestbed.Simulation
