import Mathlib.Data.Nat.Notation
import Mathlib.Tactic.SplitIfs
import Mathlib.Algebra.BigOperators.Group.List.Basic
import Mathlib.Algebra.Ring.Nat

/-!
# Frames over two ordered channels

A frame is a header, which carries its size, and that many items. Headers and
items travel on two channels that each keep their order, so a receiver sees some
interleaving of the two. The receiver keeps one frame open: a header abandons the
open frame and opens its own, an item without an open frame is dropped, and a
frame completes with its last item.

* `completions_le`: every frame completes at most once.
* `eq_stream_of_completions`: if as many frames complete as there are headers, the
  interleaving was the program order.
-/

namespace TransferTestbed.Framing

inductive Msg (κ ι : Type*) where
  | header (k : κ)
  | item (x : ι)
deriving DecidableEq

variable {κ ι : Type*}

def headers (ms : List (Msg κ ι)) : List κ :=
  ms.filterMap fun m => match m with | .header k => some k | .item _ => none

def items (ms : List (Msg κ ι)) : List ι :=
  ms.filterMap fun m => match m with | .header _ => none | .item x => some x

/-- Frames in program order: each header, then its items. -/
def stream (frames : List (κ × List ι)) : List (Msg κ ι) :=
  frames.flatMap fun f => .header f.1 :: f.2.map .item

/-- How many frames complete, from a state in which the open frame still needs
    `need` items (`0` without an open frame). -/
def completions (size : κ → ℕ) : ℕ → List (Msg κ ι) → ℕ
  | _, [] => 0
  | _, .header k :: ms => completions size (size k) ms
  | need, .item _ :: ms =>
    if need = 1 then completions size 0 ms + 1 else completions size (need - 1) ms

/-- One more frame can complete when one is open. -/
def pending (need : ℕ) : ℕ := if need = 0 then 0 else 1

@[simp] theorem pending_zero : pending 0 = 0 := rfl

theorem pending_of_pos {need : ℕ} (h : 0 < need) : pending need = 1 := if_neg h.ne'

theorem pending_le_one (need : ℕ) : pending need ≤ 1 := by
  unfold pending
  split_ifs <;> omega

@[simp] theorem headers_nil : headers ([] : List (Msg κ ι)) = [] := rfl

@[simp] theorem headers_header (k : κ) (ms : List (Msg κ ι)) :
    headers (.header k :: ms) = k :: headers ms := rfl

@[simp] theorem headers_item (x : ι) (ms : List (Msg κ ι)) :
    headers (.item x :: ms) = headers ms := rfl

@[simp] theorem items_nil : items ([] : List (Msg κ ι)) = [] := rfl

@[simp] theorem items_header (k : κ) (ms : List (Msg κ ι)) :
    items (.header k :: ms) = items ms := rfl

@[simp] theorem items_item (x : ι) (ms : List (Msg κ ι)) :
    items (.item x :: ms) = x :: items ms := rfl

theorem headers_append (ms ns : List (Msg κ ι)) : headers (ms ++ ns) = headers ms ++ headers ns :=
  List.filterMap_append

theorem items_append (ms ns : List (Msg κ ι)) : items (ms ++ ns) = items ms ++ items ns :=
  List.filterMap_append

theorem headers_map_item (xs : List ι) : headers (xs.map (Msg.item (κ := κ))) = [] := by
  induction xs with
  | nil => rfl
  | cons x xs ih => rw [List.map_cons, headers_item, ih]

theorem items_map_item (xs : List ι) : items (xs.map (Msg.item (κ := κ))) = xs := by
  induction xs with
  | nil => rfl
  | cons x xs ih => rw [List.map_cons, items_item, ih]

theorem stream_cons (f : κ × List ι) (frames : List (κ × List ι)) :
    stream (f :: frames) = .header f.1 :: (f.2.map .item ++ stream frames) := rfl

theorem headers_stream (frames : List (κ × List ι)) :
    headers (stream frames) = frames.map Prod.fst := by
  induction frames with
  | nil => rfl
  | cons f frames ih =>
    rw [stream_cons, headers_header, headers_append, headers_map_item, ih]
    rfl

theorem items_stream (frames : List (κ × List ι)) :
    items (stream frames) = frames.flatMap Prod.snd := by
  induction frames with
  | nil => rfl
  | cons f frames ih =>
    rw [stream_cons, items_header, items_append, items_map_item, ih]
    rfl

/-! ## Counting completions -/

/-- Every frame completes at most once. -/
theorem completions_le (size : κ → ℕ) (ms : List (Msg κ ι)) (need : ℕ) :
    completions size need ms ≤ (headers ms).length + pending need := by
  induction ms generalizing need with
  | nil => exact Nat.zero_le _
  | cons m ms ih =>
    cases m with
    | header k =>
      have hrest := ih (size k)
      have hone := pending_le_one (size k)
      rw [completions, headers_header, List.length_cons]
      omega
    | item x =>
      rw [completions, headers_item]
      split_ifs with h
      · have hrest := ih 0
        have hopen : pending need = 1 := pending_of_pos (by omega)
        rw [pending_zero] at hrest
        omega
      · have hrest := ih (need - 1)
        have hmono : pending (need - 1) ≤ pending need := by
          unfold pending
          split_ifs <;> omega
        omega

/-- When every frame completes, none is open as the next header arrives. -/
theorem need_eq_zero_of_header {size : κ → ℕ} {k : κ} {ms : List (Msg κ ι)} {need : ℕ}
    (h : completions size (size k) ms = (headers ms).length + 1 + pending need) : need = 0 := by
  have hle := completions_le size ms (size k)
  have hone := pending_le_one (size k)
  by_contra hne
  have hopen : pending need = 1 := pending_of_pos (Nat.pos_of_ne_zero hne)
  omega

/-- When every frame completes, there are items enough for all of them. -/
theorem le_length_items (size : κ → ℕ) (ms : List (Msg κ ι)) (need : ℕ)
    (h : completions size need ms = (headers ms).length + pending need) :
    need + ((headers ms).map size).sum ≤ (items ms).length := by
  induction ms generalizing need with
  | nil =>
    have hneed : need = 0 := by
      by_contra hne
      rw [pending_of_pos (Nat.pos_of_ne_zero hne)] at h
      cases h
    simp [hneed]
  | cons m ms ih =>
    cases m with
    | header k =>
      rw [completions, headers_header, List.length_cons] at h
      obtain rfl := need_eq_zero_of_header h
      have hle := completions_le size ms (size k)
      have hone := pending_le_one (size k)
      rw [pending_zero] at h
      have hrest := ih (size k) (by omega)
      rw [headers_header, List.map_cons, List.sum_cons, items_header]
      omega
    | item x =>
      rw [completions, headers_item] at h
      rw [headers_item, items_item, List.length_cons]
      split_ifs at h with h1
      · have hopen : pending need = 1 := pending_of_pos (by omega)
        have hrest := ih 0 (by rw [pending_zero]; omega)
        omega
      · rcases Nat.eq_zero_or_pos need with rfl | hpos
        · have hrest := ih 0 (by simpa using h)
          omega
        · have hp : pending (need - 1) = pending need := by
            rw [pending_of_pos hpos, pending_of_pos (by omega)]
          have hrest := ih (need - 1) (by rw [hp]; exact h)
          omega

/-- Frames whose size is the number of their items, with at least one item. -/
def WellSized (size : κ → ℕ) (frames : List (κ × List ι)) : Prop :=
  ∀ f ∈ frames, size f.1 = f.2.length ∧ f.2 ≠ []

theorem sum_sizes {size : κ → ℕ} {frames : List (κ × List ι)} (h : WellSized size frames) :
    ((frames.map Prod.fst).map size).sum = (frames.flatMap Prod.snd).length := by
  induction frames with
  | nil => rfl
  | cons f frames ih =>
    rw [List.map_cons, List.map_cons, List.sum_cons, List.flatMap_cons, List.length_append,
      ih fun g hg => h g (List.mem_cons_of_mem _ hg), (h f List.mem_cons_self).1]

/-- An item that arrives without an open frame is lost, so its frame does not complete. -/
theorem completions_ne_of_lost {size : κ → ℕ} {ms : List (Msg κ ι)} {x : ι}
    {frames : List (κ × List ι)} (hframes : WellSized size frames)
    (hheaders : headers ms = frames.map Prod.fst)
    (hitems : x :: items ms = frames.flatMap Prod.snd) :
    completions size 0 ms ≠ frames.length := by
  intro hcompl
  have hlen := congrArg List.length hitems
  have henough := le_length_items size ms 0 (by
    rw [hheaders, List.length_map]
    exact hcompl)
  rw [hheaders, sum_sizes hframes] at henough
  rw [List.length_cons] at hlen
  omega

/-- If as many frames complete as were sent, the receiver saw the program order:
    the items `pre` of the open frame, then frame after frame. -/
theorem eq_stream_of_completions {size : κ → ℕ} (ms : List (Msg κ ι)) (pre : List ι)
    (frames : List (κ × List ι)) (hframes : WellSized size frames)
    (hheaders : headers ms = frames.map Prod.fst)
    (hitems : items ms = pre ++ frames.flatMap Prod.snd)
    (hcompl : completions size pre.length ms = frames.length + pending pre.length) :
    ms = pre.map .item ++ stream frames := by
  induction ms generalizing pre frames with
  | nil =>
    have hf : frames = [] := by simpa using hheaders.symm
    have hpre : pre = [] := by simpa [hf] using hitems.symm
    rw [hf, hpre]
    rfl
  | cons m ms ih =>
    cases m with
    | header k =>
      cases frames with
      | nil => simp at hheaders
      | cons f frames =>
        rw [headers_header, List.map_cons, List.cons.injEq] at hheaders
        obtain ⟨rfl, hheaders⟩ := hheaders
        obtain ⟨hsize, hne⟩ := hframes f List.mem_cons_self
        have hlen : (headers ms).length = frames.length := by rw [hheaders, List.length_map]
        rw [completions, List.length_cons, ← hlen] at hcompl
        obtain rfl := List.length_eq_zero_iff.1 (need_eq_zero_of_header hcompl)
        rw [List.length_nil, pending_zero, hsize] at hcompl
        have hopen : pending f.2.length = 1 := pending_of_pos (List.length_pos_iff.2 hne)
        have hrest := ih f.2 frames (fun g hg => hframes g (List.mem_cons_of_mem _ hg)) hheaders
          (by simpa using hitems) (by omega)
        rw [hrest, stream_cons]
        rfl
    | item x =>
      rw [headers_item] at hheaders
      rw [items_item] at hitems
      rw [completions] at hcompl
      cases pre with
      | nil => exact absurd hcompl (completions_ne_of_lost hframes hheaders hitems)
      | cons y pre =>
        rw [List.cons_append, List.cons.injEq] at hitems
        have hrest : completions size pre.length ms = frames.length + pending pre.length := by
          rcases eq_or_ne pre [] with rfl | hne
          · simpa [pending_of_pos] using hcompl
          · have hpos : 0 < pre.length := List.length_pos_iff.2 hne
            rw [List.length_cons, if_neg (by omega), pending_of_pos (by omega)] at hcompl
            rw [pending_of_pos hpos]
            exact hcompl
        rw [ih pre frames hframes hheaders hitems.2 hrest, hitems.1]
        rfl

end TransferTestbed.Framing
