import TransferTestbed.Library.Decimal
import TransferTestbed.Library.Dict

/-!
# Flat JSON objects

`dumps` is Python's `json.dumps` (`ensure_ascii`, default separators) on a
dictionary from strings to scalars; `loads` is `json.loads` on the texts of such
objects. Arrays, nested objects, fractions and lone surrogate escapes are not
read: `loads` gives `none` there.

* `loads_dumps`: reading what was written gives the dictionary back.
-/

namespace TransferTestbed.Json

open Decimal

inductive Scalar where
  | null
  | bool (b : Bool)
  | int (z : ℤ)
  | str (s : String)
deriving DecidableEq, Repr

abbrev Object := Dict String Scalar

def quote : Char := Char.ofNat 34

def backslash : Char := Char.ofNat 92

/-! ## Writing -/

def hexDigit (n : ℕ) : Char := if n < 10 then Char.ofNat (48 + n) else Char.ofNat (87 + n)

/-- `\uXXXX` for a 16-bit code unit. -/
def unicodeEscape (u : ℕ) : List Char :=
  [backslash, 'u', hexDigit (u / 4096), hexDigit (u / 256 % 16), hexDigit (u / 16 % 16),
    hexDigit (u % 16)]

/-- The UTF-16 code units of a character. -/
def codeUnits (c : Char) : List ℕ :=
  if c.toNat < 0x10000 then [c.toNat]
  else [0xd800 + (c.toNat - 0x10000) / 0x400, 0xdc00 + (c.toNat - 0x10000) % 0x400]

/-- The characters with a two-character escape, with its second character. -/
def shortEscapes : List (Char × Char) :=
  [(quote, quote), (backslash, backslash), (Char.ofNat 10, 'n'), (Char.ofNat 13, 'r'),
    (Char.ofNat 9, 't'), (Char.ofNat 12, 'f'), (Char.ofNat 8, 'b')]

def isPrintable (c : Char) : Bool := 0x20 ≤ c.toNat && c.toNat ≤ 0x7e

def escapeChar (c : Char) : List Char :=
  match shortEscapes.lookup c with
  | some e => [backslash, e]
  | none => if isPrintable c then [c] else (codeUnits c).flatMap unicodeEscape

def stringText (s : String) : List Char := quote :: s.toList.flatMap escapeChar ++ [quote]

def scalarText : Scalar → List Char
  | .null => "null".toList
  | .bool true => "true".toList
  | .bool false => "false".toList
  | .int z => intText z
  | .str s => stringText s

def memberText (m : String × Scalar) : List Char :=
  stringText m.1 ++ ':' :: ' ' :: scalarText m.2

def membersText : Object → List Char
  | [] => []
  | [m] => memberText m
  | m :: ms => memberText m ++ ',' :: ' ' :: membersText ms

/-- `json.dumps(d)`. -/
def dumps (d : Object) : List Char := '{' :: membersText d ++ ['}']

/-! ## Reading -/

def isSpace (c : Char) : Bool := c = ' ' || c.toNat = 9 || c.toNat = 10 || c.toNat = 13

def skipSpace (cs : List Char) : List Char := cs.dropWhile isSpace

def hexVal (c : Char) : Option ℕ :=
  if 48 ≤ c.toNat ∧ c.toNat ≤ 57 then some (c.toNat - 48)
  else if 97 ≤ c.toNat ∧ c.toNat ≤ 102 then some (c.toNat - 87)
  else if 65 ≤ c.toNat ∧ c.toNat ≤ 70 then some (c.toNat - 55)
  else none

def hexVal4 (a b c d : Char) : Option ℕ := do
  let a ← hexVal a
  let b ← hexVal b
  let c ← hexVal c
  let d ← hexVal d
  return 4096 * a + 256 * b + 16 * c + d

/-- The characters a two-character escape can stand for, by its second character. -/
def unescapes : List (Char × Char) := ('/', '/') :: shortEscapes.map Prod.swap

/-- The code units of a string body up to its closing quote, and what follows it. -/
def scan : List Char → Option (List ℕ × List Char)
  | [] => none
  | c :: cs =>
    if c = quote then some ([], cs)
    else if c = backslash then
      match cs with
      | [] => none
      | e :: rest =>
        if e = 'u' then
          match rest with
          | h1 :: h2 :: h3 :: h4 :: tail =>
            (hexVal4 h1 h2 h3 h4).bind fun u => (scan tail).map fun r => (u :: r.1, r.2)
          | _ => none
        else (unescapes.lookup e).bind fun x => (scan rest).map fun r => (x.toNat :: r.1, r.2)
    else if c.toNat < 0x20 then none
    else (scan cs).map fun r => (c.toNat :: r.1, r.2)

def isHigh (u : ℕ) : Bool := 0xd800 ≤ u && u ≤ 0xdbff

def isLow (u : ℕ) : Bool := 0xdc00 ≤ u && u ≤ 0xdfff

/-- The characters of a sequence of code units, surrogate pairs joined. -/
def fromUnits : List ℕ → Option (List Char)
  | [] => some []
  | u :: us =>
    if isHigh u then
      match us with
      | [] => none
      | v :: vs =>
        if isLow v then
          (fromUnits vs).map (Char.ofNat (0x10000 + (u - 0xd800) * 0x400 + (v - 0xdc00)) :: ·)
        else none
    else if isLow u then none
    else (fromUnits us).map (Char.ofNat u :: ·)

/-- A string, from behind its opening quote. -/
def readString (cs : List Char) : Option (String × List Char) :=
  (scan cs).bind fun r => (fromUnits r.1).map fun s => (String.ofList s, r.2)

/-- Drops a literal word from the front of a text. -/
def dropPrefix (w : String) (cs : List Char) : Option (List Char) :=
  if w.toList.isPrefixOf cs then some (cs.drop w.toList.length) else none

def readScalar : List Char → Option (Scalar × List Char)
  | [] => none
  | c :: cs =>
    if c = quote then (readString cs).map fun r => (.str r.1, r.2)
    else if c = 'n' then (dropPrefix "null" (c :: cs)).map fun r => (.null, r)
    else if c = 't' then (dropPrefix "true" (c :: cs)).map fun r => (.bool true, r)
    else if c = 'f' then (dropPrefix "false" (c :: cs)).map fun r => (.bool false, r)
    else if c = '-' then (readNat cs).map fun r => (.int (-r.1), r.2)
    else (readNat (c :: cs)).map fun r => (.int r.1, r.2)

/-- `"key" : value`, spaces allowed before the colon and around the value. -/
def readMember (cs : List Char) : Option ((String × Scalar) × List Char) :=
  match cs with
  | [] => none
  | c :: cs =>
    if c = quote then
      (readString cs).bind fun k =>
        match skipSpace k.2 with
        | [] => none
        | d :: ds =>
          if d = ':' then (readScalar (skipSpace ds)).map fun v => ((k.1, v.1), skipSpace v.2)
          else none
    else none

/-- The members of an object up to its closing brace; each takes one unit of fuel. -/
def readMembers : ℕ → List Char → Option (List (String × Scalar) × List Char)
  | 0, _ => none
  | fuel + 1, cs =>
    (readMember cs).bind fun m =>
      match m.2 with
      | [] => none
      | c :: rest =>
        if c = ',' then (readMembers fuel (skipSpace rest)).map fun r => (m.1 :: r.1, r.2)
        else if c = '}' then some ([m.1], rest)
        else none

/-- The pairs of an object and what follows it. -/
def readObject (cs : List Char) : Option (List (String × Scalar) × List Char) :=
  match skipSpace cs with
  | [] => none
  | c :: cs =>
    if c = '{' then
      match skipSpace cs with
      | [] => none
      | d :: ds => if d = '}' then some ([], ds) else readMembers (d :: ds).length (d :: ds)
    else none

/-- `json.loads(text)` for the text of a flat object. -/
def loads (cs : List Char) : Option Object :=
  (readObject cs).bind fun r => if skipSpace r.2 = [] then some (Dict.ofPairs r.1) else none

/-! ## Strings -/

theorem hexVal_hexDigit {n : ℕ} (h : n < 16) : hexVal (hexDigit n) = some n := by
  interval_cases n <;> rfl

theorem hexVal4_hexDigits {u : ℕ} (h : u < 65536) :
    hexVal4 (hexDigit (u / 4096)) (hexDigit (u / 256 % 16)) (hexDigit (u / 16 % 16))
      (hexDigit (u % 16)) = some u := by
  rw [hexVal4, hexVal_hexDigit (by omega), hexVal_hexDigit (by omega),
    hexVal_hexDigit (by omega), hexVal_hexDigit (by omega)]
  show some _ = some _
  congr 1
  omega

theorem scan_quote (cs : List Char) : scan (quote :: cs) = some ([], cs) := by
  rw [scan.eq_def]
  simp only [if_true]

theorem scan_plain {c : Char} (hq : c ≠ quote) (hb : c ≠ backslash) (hc : 0x20 ≤ c.toNat)
    (cs : List Char) : scan (c :: cs) = (scan cs).map fun r => (c.toNat :: r.1, r.2) := by
  rw [scan.eq_def]
  simp only [if_neg hq, if_neg hb, if_neg (Nat.not_lt.2 hc)]

theorem scan_short {e : Char} (he : e ≠ 'u') (cs : List Char) :
    scan (backslash :: e :: cs) =
      (unescapes.lookup e).bind fun x => (scan cs).map fun r => (x.toNat :: r.1, r.2) := by
  have hne : backslash ≠ quote := by decide
  rw [scan.eq_def]
  simp only [if_neg hne, if_true, if_neg he]

theorem scan_unicodeEscape {u : ℕ} (h : u < 65536) (cs : List Char) :
    scan (unicodeEscape u ++ cs) = (scan cs).map fun r => (u :: r.1, r.2) := by
  have hne : backslash ≠ quote := by decide
  rw [unicodeEscape, List.cons_append, scan.eq_def]
  simp only [if_neg hne, if_true, List.cons_append, List.nil_append, hexVal4_hexDigits h,
    Option.bind_some]

theorem toNat_lt (c : Char) : c.toNat < 0x110000 := by
  rcases c.valid with h | h
  · exact Nat.lt_trans h (by norm_num)
  · exact h.2

theorem codeUnits_lt {c : Char} {u : ℕ} (h : u ∈ codeUnits c) : u < 65536 := by
  have hc := toNat_lt c
  unfold codeUnits at h
  split_ifs at h with hlt
  · rw [List.mem_singleton.1 h]; exact hlt
  · rcases List.mem_pair.1 h with h | h <;> omega

theorem scan_flatMap_unicodeEscape (us : List ℕ) (hus : ∀ u ∈ us, u < 65536) (cs : List Char) :
    scan (us.flatMap unicodeEscape ++ cs) = (scan cs).map fun r => (us ++ r.1, r.2) := by
  induction us with
  | nil => simp
  | cons u us ih =>
    rw [List.flatMap_cons, List.append_assoc, scan_unicodeEscape (hus u (by simp)),
      ih fun v hv => hus v (by simp [hv]), Option.map_map]
    rfl

/-- Each short escape stands for a character that is one code unit. -/
theorem shortEscapes_spec {c e : Char} (h : shortEscapes.lookup c = some e) :
    e ≠ 'u' ∧ unescapes.lookup e = some c ∧ codeUnits c = [c.toNat] := by
  have hmem : (c, e) ∈ shortEscapes := by
    obtain ⟨l₁, l₂, hl, -⟩ := List.lookup_eq_some_iff.1 h
    rw [hl]; simp
  simp only [shortEscapes, List.mem_cons, List.not_mem_nil, or_false, Prod.mk.injEq] at hmem
  rcases hmem with ⟨rfl, rfl⟩ | ⟨rfl, rfl⟩ | ⟨rfl, rfl⟩ | ⟨rfl, rfl⟩ | ⟨rfl, rfl⟩ | ⟨rfl, rfl⟩ |
    ⟨rfl, rfl⟩ <;> decide

theorem scan_escapeChar (c : Char) (cs : List Char) :
    scan (escapeChar c ++ cs) = (scan cs).map fun r => (codeUnits c ++ r.1, r.2) := by
  unfold escapeChar
  cases h : shortEscapes.lookup c with
  | some e =>
    obtain ⟨hu, hlookup, hunits⟩ := shortEscapes_spec h
    simp only [List.cons_append, List.nil_append]
    rw [scan_short hu, hlookup, hunits]
    rfl
  | none =>
    simp only
    split_ifs with hp
    · have hq : c ≠ quote := by rintro rfl; revert h; decide
      have hb : c ≠ backslash := by rintro rfl; revert h; decide
      simp only [isPrintable, Bool.and_eq_true, decide_eq_true_eq] at hp
      have hunits : codeUnits c = [c.toNat] := if_pos (by omega)
      rw [hunits, List.singleton_append, scan_plain hq hb hp.1]
      rfl
    · exact scan_flatMap_unicodeEscape _ (fun _ => codeUnits_lt) cs

theorem fromUnits_single {c : Char} (h : c.toNat < 0x10000) (us : List ℕ) :
    fromUnits (c.toNat :: us) = (fromUnits us).map (c :: ·) := by
  have hc : c.toNat < 0xd800 ∨ 0xdfff < c.toNat ∧ c.toNat < 0x110000 := c.valid
  have hhigh : isHigh c.toNat = false := by
    simp only [isHigh, Bool.and_eq_false_iff, decide_eq_false_iff_not]; omega
  have hlow : isLow c.toNat = false := by
    simp only [isLow, Bool.and_eq_false_iff, decide_eq_false_iff_not]; omega
  rw [fromUnits.eq_def]
  simp only [hhigh, hlow, Bool.false_eq_true, if_false, Char.ofNat_toNat]

theorem fromUnits_pair {c : Char} (h : 0x10000 ≤ c.toNat) (us : List ℕ) :
    fromUnits ((0xd800 + (c.toNat - 0x10000) / 0x400) ::
      (0xdc00 + (c.toNat - 0x10000) % 0x400) :: us) = (fromUnits us).map (c :: ·) := by
  have hc := toNat_lt c
  have hhigh : isHigh (0xd800 + (c.toNat - 0x10000) / 0x400) = true := by
    simp only [isHigh, Bool.and_eq_true, decide_eq_true_eq]; omega
  have hlow : isLow (0xdc00 + (c.toNat - 0x10000) % 0x400) = true := by
    simp only [isLow, Bool.and_eq_true, decide_eq_true_eq]; omega
  have hval : 0x10000 + (0xd800 + (c.toNat - 0x10000) / 0x400 - 0xd800) * 0x400 +
      (0xdc00 + (c.toNat - 0x10000) % 0x400 - 0xdc00) = c.toNat := by omega
  rw [fromUnits.eq_def]
  simp only [hhigh, hlow, if_true, hval, Char.ofNat_toNat]

theorem fromUnits_codeUnits (c : Char) (us : List ℕ) :
    fromUnits (codeUnits c ++ us) = (fromUnits us).map (c :: ·) := by
  unfold codeUnits
  split_ifs with h
  · exact fromUnits_single h us
  · exact fromUnits_pair (Nat.not_lt.1 h) us

theorem scan_escaped (s : List Char) (rest : List Char) :
    scan (s.flatMap escapeChar ++ quote :: rest) = some (s.flatMap codeUnits, rest) := by
  induction s with
  | nil => exact scan_quote rest
  | cons c s ih =>
    rw [List.flatMap_cons, List.append_assoc, scan_escapeChar, ih, List.flatMap_cons]
    rfl

theorem fromUnits_flatMap_codeUnits (s : List Char) :
    fromUnits (s.flatMap codeUnits) = some s := by
  induction s with
  | nil => rfl
  | cons c s ih => rw [List.flatMap_cons, fromUnits_codeUnits, ih]; rfl

/-- Reading the body of a written string gives the string back. -/
theorem readString_escaped (s : String) (rest : List Char) :
    readString (s.toList.flatMap escapeChar ++ quote :: rest) = some (s, rest) := by
  rw [readString, scan_escaped]
  simp only [Option.bind_some, fromUnits_flatMap_codeUnits, Option.map_some, String.ofList_toList]

/-! ## Objects -/

theorem skipSpace_cons {c : Char} (h : isSpace c = false) (cs : List Char) :
    skipSpace (c :: cs) = c :: cs := by
  rw [skipSpace, List.dropWhile_cons_of_neg (by simp [h])]

theorem skipSpace_space (cs : List Char) : skipSpace (' ' :: cs) = skipSpace cs := rfl

theorem isDigit_ne {c d : Char} (h : isDigit c = true) (hd : isDigit d = false) : c ≠ d := by
  rintro rfl
  rw [h] at hd
  cases hd

/-- A numeral is read as a numeral. -/
theorem readScalar_natText (n : ℕ) (rest : List Char)
    (hrest : ∀ c ∈ rest.head?, isDigit c = false) :
    readScalar (natText n ++ rest) = some (.int n, rest) := by
  obtain ⟨c, cs, hc, hd⟩ := isDigit_head_natText n
  have hread := readNat_natText n rest hrest
  rw [hc, List.cons_append] at hread ⊢
  rw [readScalar, if_neg (isDigit_ne hd (by decide)), if_neg (isDigit_ne hd (by decide)),
    if_neg (isDigit_ne hd (by decide)), if_neg (isDigit_ne hd (by decide)),
    if_neg (isDigit_ne hd (by decide)), hread]
  rfl

theorem readScalar_scalarText (v : Scalar) (rest : List Char)
    (hrest : ∀ c ∈ rest.head?, isDigit c = false) :
    readScalar (scalarText v ++ rest) = some (v, rest) := by
  cases v with
  | null => rfl
  | bool b => cases b <;> rfl
  | int z =>
    simp only [scalarText, intText]
    split_ifs with hz
    · rw [List.cons_append, readScalar, if_neg (by decide), if_neg (by decide),
        if_neg (by decide), if_neg (by decide), if_pos rfl, readNat_natText _ _ hrest]
      simp only [Option.map_some, Option.some.injEq, Prod.mk.injEq, Scalar.int.injEq, and_true]
      omega
    · rw [readScalar_natText _ _ hrest]
      simp only [Option.some.injEq, Prod.mk.injEq, Scalar.int.injEq, and_true]
      omega
  | str s =>
    rw [scalarText, stringText, List.cons_append, List.cons_append, List.append_assoc,
      List.singleton_append, readScalar, if_pos rfl, readString_escaped]
    rfl

/-- No value starts with a space. -/
theorem skipSpace_scalarText (v : Scalar) (rest : List Char) :
    skipSpace (scalarText v ++ rest) = scalarText v ++ rest := by
  cases v with
  | null => rfl
  | bool b => cases b <;> rfl
  | int z =>
    obtain ⟨c, cs, hc, hd⟩ := isDigit_head_natText z.natAbs
    have hspace : isSpace c = false := by
      simp only [isDigit, Bool.and_eq_true, decide_eq_true_eq] at hd
      have hne : c ≠ ' ' := by rintro rfl; revert hd; decide
      simp only [isSpace, hne, decide_false, Bool.false_or, Bool.or_eq_false_iff,
        decide_eq_false_iff_not]
      omega
    simp only [scalarText, intText]
    split_ifs
    · rfl
    · rw [hc, List.cons_append, skipSpace_cons hspace]
  | str s => rfl

theorem readMember_memberText (m : String × Scalar) {c : Char} (hs : isSpace c = false)
    (hd : isDigit c = false) (rest : List Char) :
    readMember (memberText m ++ c :: rest) = some (m, c :: rest) := by
  have hcolon (cs : List Char) : skipSpace (':' :: cs) = ':' :: cs := rfl
  simp only [memberText, stringText, List.cons_append, List.append_assoc, List.nil_append]
  rw [readMember, if_pos rfl, readString_escaped]
  simp only [Option.bind_some, hcolon, if_true, skipSpace_space]
  rw [skipSpace_scalarText, readScalar_scalarText _ _ (by simpa using hd)]
  simp only [Option.map_some, skipSpace_cons hs]

theorem membersText_eq_quote_cons (m : String × Scalar) (ms : Object) :
    ∃ cs, membersText (m :: ms) = quote :: cs := by
  cases ms with
  | nil => exact ⟨_, rfl⟩
  | cons n ms => exact ⟨_, rfl⟩

/-- Reading the members of a written object, with a unit of fuel for each. -/
theorem readMembers_membersText (m : String × Scalar) (ms : Object) (rest : List Char) :
    ∀ fuel, ms.length < fuel →
      readMembers fuel (membersText (m :: ms) ++ '}' :: rest) = some (m :: ms, rest) := by
  induction ms generalizing m with
  | nil =>
    rintro (_ | fuel) hfuel
    · omega
    rw [membersText, readMembers, readMember_memberText m (by decide) (by decide)]
    rfl
  | cons n ms ih =>
    rintro (_ | fuel) hfuel
    · omega
    obtain ⟨cs, hcs⟩ := membersText_eq_quote_cons n ms
    have hskip : skipSpace (membersText (n :: ms) ++ '}' :: rest) =
        membersText (n :: ms) ++ '}' :: rest := by rw [hcs]; rfl
    rw [membersText, List.append_assoc, List.cons_append, List.cons_append, readMembers,
      readMember_memberText m (by decide) (by decide)]
    simp only [Option.bind_some, if_true, skipSpace_space, hskip]
    rw [ih n fuel (by simpa using hfuel)]
    rfl
    · simp

theorem length_le_length_membersText (m : String × Scalar) (ms : Object) :
    ms.length < (membersText (m :: ms)).length := by
  induction ms generalizing m with
  | nil => simp [membersText, memberText]
  | cons n ms ih =>
    have := ih n
    simp only [membersText, List.length_append, List.length_cons] at this ⊢
    omega

theorem readObject_dumps (d : Object) (rest : List Char) :
    readObject (dumps d ++ rest) = some (d, rest) := by
  have hbrace : ∀ cs, skipSpace ('{' :: cs) = '{' :: cs := fun _ => rfl
  cases d with
  | nil => rfl
  | cons m ms =>
    obtain ⟨cs, hcs⟩ := membersText_eq_quote_cons m ms
    have hlen := length_le_length_membersText m ms
    have hread := readMembers_membersText m ms rest (membersText (m :: ms) ++ '}' :: rest).length
      (by rw [List.length_append]; omega)
    simp only [dumps, List.cons_append, List.append_assoc, List.nil_append]
    rw [readObject, hbrace]
    rw [hcs, List.cons_append] at hread ⊢
    simp only [if_true]
    rw [skipSpace_cons (by decide)]
    simp only
    rw [if_neg (by decide), hread]

/-- **Reading what was written gives the dictionary back.** -/
theorem loads_dumps (d : Object) (h : d.keys.Nodup) : loads (dumps d) = some d := by
  have hread := readObject_dumps d []
  rw [List.append_nil] at hread
  rw [loads, hread]
  simp only [Option.bind_some, skipSpace, List.dropWhile_nil, if_true]
  rw [Dict.ofPairs_of_nodup h]

end TransferTestbed.Json
