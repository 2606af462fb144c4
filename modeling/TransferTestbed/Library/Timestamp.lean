import TransferTestbed.Library.Literal

/-!
# Timestamps of fixed width

A time is printed as numbers of a fixed width with separators between them. Texts are
compared character by character, and with fixed widths this is the order of the times.

Results:

* `digits_lt_iff`: numbers padded to one width compare like numbers.
* `render_lt_iff`: printed fields compare like the fields, whatever follows them.
* `strftime_append_lt`: the texts of an earlier and of a later time.
-/

namespace TransferTestbed

open Decimal Numeral

/-! ## Texts -/

/-- Texts of one length are compared before what follows them. -/
theorem append_lt_append_iff {a b : List Char} (h : a.length = b.length) (s t : List Char) :
    a ++ s < b ++ t ↔ a < b ∨ a = b ∧ s < t := by
  induction a generalizing b with
  | nil =>
    obtain rfl := List.length_eq_zero_iff.1 h.symm
    simp
  | cons x a ih =>
    cases b with
    | nil => cases h
    | cons y b =>
      rw [List.length_cons, List.length_cons, Nat.add_right_cancel_iff] at h
      rw [List.cons_append, List.cons_append, List.cons_lt_cons_iff, List.cons_lt_cons_iff, ih h,
        List.cons.injEq]
      constructor
      · rintro (hxy | ⟨hxy, hab | ⟨hab, hst⟩⟩)
        · exact .inl (.inl hxy)
        · exact .inl (.inr ⟨hxy, hab⟩)
        · exact .inr ⟨⟨hxy, hab⟩, hst⟩
      · rintro ((hxy | ⟨hxy, hab⟩) | ⟨⟨hxy, hab⟩, hst⟩)
        · exact .inl hxy
        · exact .inr ⟨hxy, .inl hab⟩
        · exact .inr ⟨hxy, .inr ⟨hab, hst⟩⟩

theorem digitsValue_cons (c : Char) (cs : List Char) :
    digitsValue (c :: cs) = (c.toNat - 48) * 10 ^ cs.length + digitsValue cs := by
  have h := digitsValue_append [c] cs
  have hone : digitsValue [c] = c.toNat - 48 := by
    show 10 * 0 + (c.toNat - 48) = _
    omega
  rwa [List.singleton_append, hone] at h

theorem digitsValue_lt {ds : List Char} (h : ∀ c ∈ ds, isDigit c = true) :
    digitsValue ds < 10 ^ ds.length := by
  induction ds with
  | nil => exact Nat.one_pos
  | cons c ds ih =>
    have hc := h c List.mem_cons_self
    have hds := ih fun d hd => h d (List.mem_cons_of_mem _ hd)
    simp only [isDigit, Bool.and_eq_true, decide_eq_true_eq] at hc
    rw [digitsValue_cons, List.length_cons, pow_succ]
    have : (c.toNat - 48) * 10 ^ ds.length ≤ 9 * 10 ^ ds.length :=
      Nat.mul_le_mul_right _ (by omega)
    omega

/-- Digit strings of one length compare like their values. -/
theorem lt_iff_digitsValue_lt {a b : List Char} (hlength : a.length = b.length)
    (ha : ∀ c ∈ a, isDigit c = true) (hb : ∀ c ∈ b, isDigit c = true) :
    a < b ↔ digitsValue a < digitsValue b := by
  induction a generalizing b with
  | nil =>
    obtain rfl := List.length_eq_zero_iff.1 hlength.symm
    simp
  | cons x a ih =>
    cases b with
    | nil => cases hlength
    | cons y b =>
      rw [List.length_cons, List.length_cons, Nat.add_right_cancel_iff] at hlength
      have hx := ha x List.mem_cons_self
      have hy := hb y List.mem_cons_self
      have hih := ih hlength (fun c hc => ha c (List.mem_cons_of_mem _ hc))
        (fun c hc => hb c (List.mem_cons_of_mem _ hc))
      have ha' := digitsValue_lt fun c hc => ha c (List.mem_cons_of_mem _ hc)
      have hb' := digitsValue_lt fun c hc => hb c (List.mem_cons_of_mem _ hc)
      simp only [isDigit, Bool.and_eq_true, decide_eq_true_eq] at hx hy
      have hlt : x < y ↔ x.toNat < y.toNat := Iff.rfl
      have heq : x = y ↔ x.toNat = y.toNat :=
        ⟨congrArg Char.toNat, fun h => Char.toNat_inj.1 h⟩
      rw [List.cons_lt_cons_iff, hih, digitsValue_cons, digitsValue_cons, hlt, heq]
      rw [hlength] at ha' ⊢
      generalize 10 ^ b.length = scale at *
      obtain ⟨m, hm⟩ := Nat.exists_eq_add_of_le hx.1
      obtain ⟨n, hn⟩ := Nat.exists_eq_add_of_le hy.1
      rw [hm, hn, Nat.add_sub_cancel_left, Nat.add_sub_cancel_left]
      rcases Nat.lt_trichotomy m n with h | rfl | h
      · have hmul : (m + 1) * scale ≤ n * scale := Nat.mul_le_mul_right _ h
        rw [Nat.succ_mul] at hmul
        constructor
        · intro _
          omega
        · intro _
          omega
      · omega
      · have hmul : (n + 1) * scale ≤ m * scale := Nat.mul_le_mul_right _ h
        rw [Nat.succ_mul] at hmul
        constructor
        · intro hor
          omega
        · intro hor
          omega

/-! ## Numbers of a fixed width -/

/-- `f"{n:0wd}"`. -/
def digits (w n : ℕ) : List Char := padLeft w (natText n)

section Digits

variable {w m n : ℕ}

theorem length_digits (hw : 0 < w) (hn : n < 10 ^ w) : (digits w n).length = w :=
  length_padLeft_natText hw hn

theorem isDigit_of_mem_digits : ∀ c ∈ digits w n, isDigit c = true :=
  fun _ hc => isDigit_of_mem_padLeft (fun _ hc => isDigit_of_mem_natText hc) hc

theorem digitsValue_digits : digitsValue (digits w n) = n := by
  rw [digits, digitsValue_padLeft, digitsValue_natText]

/-- **Padded numbers compare like numbers.** -/
theorem digits_lt_iff (hw : 0 < w) (hm : m < 10 ^ w) (hn : n < 10 ^ w) :
    digits w m < digits w n ↔ m < n := by
  have hlength : (digits w m).length = (digits w n).length :=
    (length_digits hw hm).trans (length_digits hw hn).symm
  rw [lt_iff_digitsValue_lt hlength isDigit_of_mem_digits isDigit_of_mem_digits,
    digitsValue_digits, digitsValue_digits]

theorem digits_inj : digits w m = digits w n ↔ m = n := by
  constructor
  · intro h
    have := congrArg digitsValue h
    rwa [digitsValue_digits, digitsValue_digits] at this
  · exact congrArg (digits w)

end Digits

/-! ## Fields -/

/-- The width of a field, and what stands after it. -/
structure Field where
  width : ℕ
  separator : List Char
  pos : 0 < width

/-- A number has a place in a field. -/
def Field.Fits (f : Field) (n : ℕ) : Prop := n < 10 ^ f.width

/-- The fields of a format, filled in. -/
def render : List Field → List ℕ → List Char
  | f :: format, n :: ns => digits f.width n ++ (f.separator ++ render format ns)
  | _, _ => []

/-- **Printed fields compare like the fields**, and before what follows them. -/
theorem render_lt_iff {format : List Field} {ms ns : List ℕ}
    (hms : List.Forall₂ Field.Fits format ms) (hns : List.Forall₂ Field.Fits format ns)
    (s t : List Char) :
    render format ms ++ s < render format ns ++ t ↔ ms < ns ∨ ms = ns ∧ s < t := by
  induction hms generalizing ns with
  | nil =>
    cases hns
    simp [render]
  | @cons f m format ms hm hms ih =>
    cases hns with
    | @cons _ n _ ns hn hns =>
      have hlength : (digits f.width m).length = (digits f.width n).length :=
        (length_digits f.pos hm).trans (length_digits f.pos hn).symm
      have hirrefl : ¬ f.separator < f.separator := List.lt_irrefl _
      simp only [render, List.append_assoc]
      rw [append_lt_append_iff hlength, digits_lt_iff f.pos hm hn, digits_inj,
        append_lt_append_iff rfl, ih hns, List.cons_lt_cons_iff, List.cons.injEq]
      constructor
      · rintro (hmn | ⟨hmn, hsep | ⟨-, hlt | ⟨heq, hst⟩⟩⟩)
        · exact .inl (.inl hmn)
        · exact absurd hsep hirrefl
        · exact .inl (.inr ⟨hmn, hlt⟩)
        · exact .inr ⟨⟨hmn, heq⟩, hst⟩
      · rintro ((hmn | ⟨hmn, hlt⟩) | ⟨⟨hmn, heq⟩, hst⟩)
        · exact .inl hmn
        · exact .inr ⟨hmn, .inr ⟨rfl, .inl hlt⟩⟩
        · exact .inr ⟨hmn, .inr ⟨rfl, .inr ⟨heq, hst⟩⟩⟩

/-! ## Times -/

/-- A time to the second, in one time zone. -/
structure DateTime where
  year : ℕ
  month : ℕ
  day : ℕ
  hour : ℕ
  minute : ℕ
  second : ℕ
  valid : year < 10000 ∧ month ≤ 12 ∧ day ≤ 31 ∧ hour < 24 ∧ minute < 60 ∧ second < 60

namespace DateTime

/-- The fields from the largest to the smallest. -/
def fields (t : DateTime) : List ℕ := [t.year, t.month, t.day, t.hour, t.minute, t.second]

/-- Times are in the order of their fields. -/
instance : LT DateTime := ⟨fun s t => s.fields < t.fields⟩

instance (s t : DateTime) : Decidable (s < t) := inferInstanceAs (Decidable (s.fields < t.fields))

/-- A format with a field of four digits and five of two, each with the separator after
    it. -/
def format (separators : List (List Char)) : List Field :=
  List.zipWith (fun width separator => ⟨width + 1, separator, Nat.succ_pos width⟩)
    [3, 1, 1, 1, 1, 1] separators

def strftime (t : DateTime) (separators : List (List Char)) : List Char :=
  render (format separators) t.fields

theorem fits (t : DateTime) (a b c d e f : List Char) :
    List.Forall₂ Field.Fits (format [a, b, c, d, e, f]) t.fields := by
  obtain ⟨hyear, hmonth, hday, hhour, hminute, hsecond⟩ := t.valid
  simp only [format, fields, List.zipWith_cons_cons, List.zipWith_nil_left,
    List.forall₂_cons, List.forall₂_nil_left_iff, and_true, Field.Fits]
  omega

/-- **An earlier time has the smaller text**, whatever follows it. -/
theorem strftime_append_lt {s t : DateTime} (h : s < t) (a b c d e f u v : List Char) :
    s.strftime [a, b, c, d, e, f] ++ u < t.strftime [a, b, c, d, e, f] ++ v :=
  (render_lt_iff (s.fits a b c d e f) (t.fits a b c d e f) u v).2 (.inl h)

end DateTime

end TransferTestbed
