import Mathlib.Data.List.Basic
import Mathlib.Data.Nat.Notation

/-!
# Lines of a text

Python's `str.splitlines`.

* `splitlines_concat`: a line before a line feed is split off.
* `splitlines_unlines`: lines written one after the other are read back.
-/

namespace TransferTestbed.Lines

/-- The characters at which `str.splitlines` ends a line. -/
def isLineBreak (c : Char) : Bool :=
  let n := c.toNat
  (10 ≤ n && n ≤ 13) || (28 ≤ n && n ≤ 30) || n = 0x85 || n = 0x2028 || n = 0x2029

/-- CR LF ends one line: its CR is passed over. -/
def inCrLf (c : Char) (cs : List Char) : Bool := c.toNat = 13 && (cs.head?.map Char.toNat) = some 10

/-- `s.splitlines()`. -/
def splitlines : List Char → List (List Char)
  | [] => []
  | c :: cs =>
    if inCrLf c cs then splitlines cs
    else if isLineBreak c then [] :: splitlines cs
    else
      match splitlines cs with
      | [] => [[c]]
      | line :: lines => (c :: line) :: lines

/-- The line feed. -/
def lf : Char := Char.ofNat 10

/-- Lines, each with its line feed. -/
def unlines (lines : List (List Char)) : List Char := lines.flatMap fun line => line ++ [lf]

/-- No character of the text ends a line. -/
def IsLine (line : List Char) : Prop := ∀ c ∈ line, isLineBreak c = false

theorem inCrLf_eq_false {c : Char} (h : isLineBreak c = false) (cs : List Char) :
    inCrLf c cs = false := by
  unfold inCrLf
  by_cases hc : c.toNat = 13
  · simp [isLineBreak, hc] at h
  · simp [hc]

/-- A line before a line feed is split off. -/
theorem splitlines_concat {line : List Char} (h : IsLine line) (rest : List Char) :
    splitlines (line ++ lf :: rest) = line :: splitlines rest := by
  induction line with
  | nil =>
    have hcr : inCrLf lf rest = false := by simp [inCrLf, lf]
    have hlf : isLineBreak lf = true := by decide
    rw [List.nil_append, splitlines, hcr, hlf]
    rfl
  | cons c line ih =>
    have hc : isLineBreak c = false := h c (by simp)
    have hline : IsLine line := fun d hd => h d (by simp [hd])
    rw [List.cons_append, splitlines, inCrLf_eq_false hc, hc, ih hline]
    rfl

/-- The last line needs no line feed. -/
theorem splitlines_last {line : List Char} (h : IsLine line) (hne : line ≠ []) :
    splitlines line = [line] := by
  induction line with
  | nil => exact absurd rfl hne
  | cons c line ih =>
    have hc : isLineBreak c = false := h c (by simp)
    have hline : IsLine line := fun d hd => h d (by simp [hd])
    rw [splitlines, inCrLf_eq_false hc, hc]
    rcases eq_or_ne line [] with rfl | hl
    · rfl
    · rw [ih hline hl]
      rfl

/-- Lines written one after the other are read back. -/
theorem splitlines_unlines {lines : List (List Char)} (h : ∀ line ∈ lines, IsLine line)
    {last : List Char} (hlast : IsLine last) (hne : last ≠ []) :
    splitlines (unlines lines ++ last) = lines ++ [last] := by
  induction lines with
  | nil => exact splitlines_last hlast hne
  | cons line lines ih =>
    rw [unlines, List.flatMap_cons, List.append_assoc, List.append_assoc, List.singleton_append,
      splitlines_concat (h line (by simp)), List.cons_append]
    exact congrArg _ (ih fun l hl => h l (by simp [hl]))

end TransferTestbed.Lines
