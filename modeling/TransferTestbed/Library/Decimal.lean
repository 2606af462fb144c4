import TransferTestbed.Library.Binary64

/-!
# Decimal numerals

The texts Python prints for integers (`str`), for `f"{x:.df}"`, for `f"{x:.pg}"` and
for floats (`repr`), and the reader of an unsigned numeral.

* `readNat_natText`: reading the text of `n` gives `n` back, whatever follows it,
  as long as no digit does.
-/

namespace TransferTestbed.Decimal

open Binary64

/-! ## Integers -/

def digitChar (d : ℕ) : Char := Char.ofNat (48 + d)

/-- `str(n)` for a non-negative integer. -/
def natText (n : ℕ) : List Char :=
  if n = 0 then ['0'] else ((Nat.digits 10 n).map digitChar).reverse

/-- `str(z)` for an integer. -/
def intText (z : ℤ) : List Char :=
  if z < 0 then '-' :: natText z.natAbs else natText z.natAbs

def isDigit (c : Char) : Bool := 48 ≤ c.toNat && c.toNat ≤ 57

/-- Consumes the leading digits of a text onto the value read so far. -/
def readDigits : List Char → ℕ → ℕ × List Char
  | [], acc => (acc, [])
  | c :: cs, acc =>
    if isDigit c then readDigits cs (10 * acc + (c.toNat - 48)) else (acc, c :: cs)

/-- The numeral `0 | [1-9][0-9]*` a text starts with. -/
def readNat : List Char → Option (ℕ × List Char)
  | [] => none
  | c :: cs =>
    if c = '0' then some (0, cs)
    else if isDigit c then some (readDigits (c :: cs) 0)
    else none

theorem toNat_digitChar {d : ℕ} (h : d < 10) : (digitChar d).toNat = 48 + d := by
  interval_cases d <;> rfl

theorem isDigit_digitChar {d : ℕ} (h : d < 10) : isDigit (digitChar d) = true := by
  interval_cases d <;> rfl

theorem digitChar_ne_zero {d : ℕ} (h : d < 10) (h0 : d ≠ 0) : digitChar d ≠ '0' := by
  interval_cases d <;> first | contradiction | decide

/-- The value of digits read from the most significant one on. -/
theorem readDigits_append (ds : List ℕ) (hds : ∀ d ∈ ds, d < 10) (acc : ℕ) (rest : List Char)
    (hrest : ∀ c ∈ rest.head?, isDigit c = false) :
    readDigits (ds.map digitChar ++ rest) acc =
      (acc * 10 ^ ds.length + Nat.ofDigits 10 ds.reverse, rest) := by
  induction ds generalizing acc with
  | nil =>
    cases rest with
    | nil => simp [readDigits]
    | cons c cs => simp [readDigits, hrest c (by simp)]
  | cons d ds ih =>
    have hd : d < 10 := hds d (by simp)
    simp only [List.map_cons, List.cons_append, readDigits, isDigit_digitChar hd, if_true,
      toNat_digitChar hd]
    rw [ih (fun x hx => hds x (by simp [hx]))]
    simp only [List.reverse_cons, Nat.ofDigits_append, List.length_reverse, List.length_cons,
      Nat.ofDigits_singleton, Prod.mk.injEq, and_true]
    rw [Nat.add_sub_cancel_left]
    ring

theorem natText_eq {n : ℕ} (hn : n ≠ 0) :
    natText n = (Nat.digits 10 n).reverse.map digitChar := by
  rw [natText, if_neg hn, List.map_reverse]

/-- Reading the text of `n` gives `n` back. -/
theorem readNat_natText (n : ℕ) (rest : List Char) (hrest : ∀ c ∈ rest.head?, isDigit c = false) :
    readNat (natText n ++ rest) = some (n, rest) := by
  rcases eq_or_ne n 0 with rfl | hn
  · rfl
  have hnil : Nat.digits 10 n ≠ [] := Nat.digits_ne_nil_iff_ne_zero.2 hn
  have hlt : ∀ d ∈ (Nat.digits 10 n).reverse, d < 10 := by
    intro d hd
    exact Nat.digits_lt_base (by norm_num) (List.mem_reverse.1 hd)
  have hval := readDigits_append _ hlt 0 rest hrest
  have hlast := Nat.getLast_digit_ne_zero 10 hn
  rw [List.reverse_reverse, Nat.ofDigits_digits, zero_mul, zero_add] at hval
  rw [natText_eq hn]
  obtain ⟨d, ds, hds⟩ := List.exists_cons_of_ne_nil (mt List.reverse_eq_nil_iff.1 hnil)
  -- the leading digit is the last of the little-endian digits, so it is not `0`
  have hd0 : d ≠ 0 := by
    have h := congrArg List.head? hds
    rw [List.head?_reverse, List.getLast?_eq_some_getLast hnil, List.head?_cons] at h
    rw [← Option.some.inj h]; exact hlast
  rw [hds] at hval hlt ⊢
  have hd : d < 10 := hlt d (by simp)
  rw [List.map_cons, List.cons_append] at hval ⊢
  rw [readNat, if_neg (digitChar_ne_zero hd hd0), if_pos (isDigit_digitChar hd), hval]

/-- A numeral starts with a digit. -/
theorem isDigit_head_natText (n : ℕ) : ∃ c cs, natText n = c :: cs ∧ isDigit c = true := by
  rcases eq_or_ne n 0 with rfl | hn
  · exact ⟨'0', [], rfl, rfl⟩
  rw [natText_eq hn]
  obtain ⟨d, ds, hds⟩ := List.exists_cons_of_ne_nil
    (mt List.reverse_eq_nil_iff.1 (Nat.digits_ne_nil_iff_ne_zero.2 hn))
  refine ⟨digitChar d, ds.map digitChar, by rw [hds]; rfl, isDigit_digitChar ?_⟩
  exact Nat.digits_lt_base (by norm_num) (List.mem_reverse.1 (hds ▸ List.mem_cons_self))

/-! ## Floats -/

def padLeft (w : ℕ) (cs : List Char) : List Char := List.replicate (w - cs.length) '0' ++ cs

/-- `f"{q:.df}"`. -/
def fixed (d : ℕ) (q : ℚ) : String :=
  let n := (roundEven (|q| * 10 ^ d)).natAbs
  let body :=
    if d = 0 then natText n
    else natText (n / 10 ^ d) ++ '.' :: padLeft d (natText (n % 10 ^ d))
  String.ofList (if q < 0 then '-' :: body else body)

/-- The `p`-digit decimal nearest to `x > 0`, as significand and power of ten. -/
def roundDigits (p : ℕ) (x : ℚ) : ℕ × ℤ :=
  let e := Int.log 10 x - (p - 1)
  ((roundEven (x / 10 ^ e)).natAbs, e)

/-- The two `p`-digit decimals around `x > 0`, the nearer one first. -/
def neighbours (p : ℕ) (x : ℚ) : List (ℕ × ℤ) :=
  let near := roundDigits p x
  [near, (2 * ⌊x / 10 ^ near.2⌋.natAbs + 1 - near.1, near.2)]

/-- The shortest decimal that reads back as the binary64 number `x > 0`, the nearest one
    if there are two. -/
def shortest (x : ℚ) : ℕ × ℤ :=
  let candidates := (List.range' 1 17).flatMap fun p => neighbours p x
  (candidates.find? fun c => fl ((c.1 : ℚ) * 10 ^ c.2) = x).getD (roundDigits 17 x)

/-- A text without the zeros at its end. -/
def stripZeros (ds : List Char) : List Char := (ds.reverse.dropWhile (· = '0')).reverse

/-- The exponent of a float: two digits at least. -/
def exponentText (e : ℤ) : List Char :=
  'e' :: (if e < 0 then '-' else '+') :: padLeft 2 (natText e.natAbs)

/-- The text of `m * 10 ^ e`, `m > 0`, without zeros at the end of the digits. The digits
    before the point decide between the two notations; a whole number gets a `.0` if
    `addDot0` holds. -/
def layout (limit : ℤ) (addDot0 : Bool) (m : ℕ) (e : ℤ) : List Char :=
  let ds := stripZeros (natText m)
  let point : ℤ := (natText m).length + e
  if -4 < point ∧ point ≤ limit then
    if point ≤ 0 then '0' :: '.' :: List.replicate (-point).toNat '0' ++ ds
    else if point < ds.length then ds.take point.toNat ++ '.' :: ds.drop point.toNat
    else ds ++ List.replicate (point.toNat - ds.length) '0' ++
      (if addDot0 then ['.', '0'] else [])
  else
    ds.take 1 ++ (if ds.length = 1 then [] else '.' :: ds.drop 1) ++ exponentText (point - 1)

/-- `repr(x)` for a finite float. -/
def floatText (x : ℚ) : String :=
  let sign := if x < 0 then ['-'] else []
  let body := if x = 0 then ['0', '.', '0'] else layout 16 true (shortest |x|).1 (shortest |x|).2
  String.ofList (sign ++ body)

/-- `f"{x:.pg}"`. -/
def general (p : ℕ) (x : ℚ) : String :=
  let sign := if x < 0 then ['-'] else []
  let body := if x = 0 then ['0'] else layout p false (roundDigits p |x|).1 (roundDigits p |x|).2
  String.ofList (sign ++ body)

end TransferTestbed.Decimal
