import Mathlib.Data.List.Basic

/-!
# Messages over an unreliable network

The network is the list of the messages sent so far. A message may be delivered any number of
times, at any time, or never: loss, delay, reordering and duplication are all orders of delivery.
An invariant of such a system says of every message sent what its sender knew; it is kept by
steps that only add to what is known.

* `Justified.step`: one step justifies the messages that it sends.
-/

namespace TransferTestbed.Messages

variable {σ μ : Type*}

/-- Every message sent is justified in the state. -/
def Justified (sent : σ → List μ) (J : σ → μ → Prop) (s : σ) : Prop := ∀ m ∈ sent s, J s m

/-- What holds of a state holds of the states that grow out of it. -/
def Stable (grows : σ → σ → Prop) (P : σ → Prop) : Prop := ∀ s t, grows s t → P s → P t

/-- **One step**: what was justified stays so, and the new messages are justified. -/
theorem Justified.step {sent : σ → List μ} {J : σ → μ → Prop} {grows : σ → σ → Prop}
    (hstable : ∀ m, Stable grows fun s => J s m) {s t : σ} (h : Justified sent J s)
    (hgrows : grows s t) {new : List μ} (hsent : sent t = sent s ++ new)
    (hnew : ∀ m ∈ new, J t m) : Justified sent J t := by
  intro m hm
  rw [hsent] at hm
  rcases List.mem_append.1 hm with hm | hm
  · exact hstable m s t hgrows (h m hm)
  · exact hnew m hm

end TransferTestbed.Messages
