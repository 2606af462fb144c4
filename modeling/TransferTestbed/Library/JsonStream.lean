import TransferTestbed.Library.Json
import TransferTestbed.Library.Numeral

/-!
# JSON documents, written piece by piece

`json.dump(obj, fh, indent=2)` writes the pieces of a document as it walks through it and
raises where a value is not serialisable, with the pieces before that value written. A
scanner counts the brackets of a text that are open outside its strings: a document closes
them all, and what has been written of an object before its end leaves one open.

* `scan_ne_closed`: the beginning of an object leaves a bracket open.
* `emitted_eq_fullText_iff`: an object is written to its end exactly if it is serialisable.
-/

namespace TransferTestbed.JsonStream

open Decimal Json

/-- A float that is not a number. -/
inductive FloatWord where
  | nan
  | infinity
  | negInfinity

def FloatWord.text : FloatWord → List Char
  | .nan => "NaN".toList
  | .infinity => "Infinity".toList
  | .negInfinity => "-Infinity".toList

/-- A Python value as `json.dump` sees it; the keys of a dictionary are strings. `other` is a
    value of a type that it does not serialise. -/
inductive Value where
  | null
  | bool (b : Bool)
  | int (z : ℤ)
  | float (q : ℚ)
  | word (w : FloatWord)
  | str (s : String)
  | list (vs : List Value)
  | dict (ms : List (String × Value))
  | other

/-- A piece of text that is written; `none` is the `TypeError`. -/
abbrev Piece := Option (List Char)

/-- The start of a line at a depth. -/
def newline (level : ℕ) : List Char := Char.ofNat 10 :: List.replicate (2 * level) ' '

mutual

/-- What is written for a value at a depth. -/
def pieces (level : ℕ) : Value → List Piece
  | .null => [some "null".toList]
  | .bool true => [some "true".toList]
  | .bool false => [some "false".toList]
  | .int z => [some (intText z)]
  | .float q => [some (floatText q).toList]
  | .word w => [some w.text]
  | .str s => [some (stringText s)]
  | .list [] => [some ['[', ']']]
  | .list (v :: vs) =>
    some ('[' :: newline (level + 1)) ::
      (pieces (level + 1) v ++ (elementPieces (level + 1) vs ++
        [some (newline level), some [']']]))
  | .dict [] => [some ['{', '}']]
  | .dict ((k, v) :: ms) =>
    some ('{' :: newline (level + 1)) :: some (stringText k) :: some [':', ' '] ::
      (pieces (level + 1) v ++ (memberPieces (level + 1) ms ++
        [some (newline level), some ['}']]))
  | .other => [none]

/-- What is written for the elements after the first. -/
def elementPieces (level : ℕ) : List Value → List Piece
  | [] => []
  | v :: vs => some (',' :: newline level) :: (pieces level v ++ elementPieces level vs)

/-- What is written for the members after the first. -/
def memberPieces (level : ℕ) : List (String × Value) → List Piece
  | [] => []
  | (k, v) :: ms =>
    some (',' :: newline level) :: some (stringText k) :: some [':', ' '] ::
      (pieces level v ++ memberPieces level ms)

end

/-- The text written before the exception, or all of it. -/
def emitted : List Piece → List Char
  | [] => []
  | none :: _ => []
  | some text :: ps => text ++ emitted ps

/-- The text of all pieces. -/
def fullText : List Piece → List Char
  | [] => []
  | none :: ps => fullText ps
  | some text :: ps => text ++ fullText ps

mutual

/-- A value without a part of another type. -/
def serialisable : Value → Bool
  | .list vs => serialisableAll vs
  | .dict ms => serialisableMembers ms
  | .other => false
  | _ => true

def serialisableAll : List Value → Bool
  | [] => true
  | v :: vs => serialisable v && serialisableAll vs

def serialisableMembers : List (String × Value) → Bool
  | [] => true
  | (_, v) :: ms => serialisable v && serialisableMembers ms

end

/-! ## Scanning brackets -/

/-- Whether the scanner is within a string, and behind a backslash there. -/
inductive Mode where
  | outside
  | inside
  | escaped
deriving DecidableEq, Repr

/-- The brackets open, and the mode. -/
structure Scan where
  depth : ℕ
  mode : Mode
deriving DecidableEq, Repr

def Scan.char (s : Scan) (c : Char) : Scan :=
  match s.mode with
  | .outside =>
    if c = quote then ⟨s.depth, .inside⟩
    else if c = '{' ∨ c = '[' then ⟨s.depth + 1, .outside⟩
    else if c = '}' ∨ c = ']' then ⟨s.depth - 1, .outside⟩
    else s
  | .inside =>
    if c = backslash then ⟨s.depth, .escaped⟩
    else if c = quote then ⟨s.depth, .outside⟩
    else s
  | .escaped => ⟨s.depth, .inside⟩

def scan (s : Scan) (text : List Char) : Scan := text.foldl Scan.char s

/-- Nothing is open. -/
def closed : Scan := ⟨0, .outside⟩

/-! ## Texts that close what they open -/

/-- At every depth the text ends where it starts, and does not go below on the way. -/
structure Within (text : List Char) : Prop where
  close : ∀ d, scan ⟨d, .outside⟩ text = ⟨d, .outside⟩
  above : ∀ d p, p <+: text → d ≤ (scan ⟨d, .outside⟩ p).depth

theorem scan_append (s : Scan) (t u : List Char) : scan s (t ++ u) = scan (scan s t) u :=
  List.foldl_append

theorem scan_cons (s : Scan) (c : Char) (t : List Char) : scan s (c :: t) = scan (s.char c) t := rfl

theorem within_nil : Within [] where
  close _ := rfl
  above d p hp := by
    rw [List.prefix_nil.1 hp]
    exact le_rfl

theorem Within.append {t u : List Char} (ht : Within t) (hu : Within u) : Within (t ++ u) where
  close d := by rw [scan_append, ht.close, hu.close]
  above d p hp := by
    rcases List.prefix_or_prefix_of_prefix hp (List.prefix_append t u) with h | ⟨q, rfl⟩
    · exact ht.above d p h
    · rw [scan_append, ht.close]
      exact hu.above d q ((List.prefix_append_right_inj t).1 hp)

/-- A character that is neither a bracket nor a quote. -/
def isPlain (c : Char) : Bool :=
  c ≠ quote && c ≠ '{' && c ≠ '[' && c ≠ '}' && c ≠ ']'

theorem char_plain {c : Char} (h : isPlain c = true) (d : ℕ) :
    Scan.char ⟨d, .outside⟩ c = ⟨d, .outside⟩ := by
  simp only [isPlain, Bool.and_eq_true, decide_eq_true_eq, ne_eq] at h
  obtain ⟨⟨⟨⟨h1, h2⟩, h3⟩, h4⟩, h5⟩ := h
  simp [Scan.char, h1, h2, h3, h4, h5]

theorem scan_plain {t : List Char} (h : ∀ c ∈ t, isPlain c = true) (d : ℕ) :
    scan ⟨d, .outside⟩ t = ⟨d, .outside⟩ := by
  induction t with
  | nil => rfl
  | cons c t ih =>
    rw [scan_cons, char_plain (h c List.mem_cons_self)]
    exact ih fun e he => h e (List.mem_cons_of_mem _ he)

theorem within_plain {t : List Char} (h : ∀ c ∈ t, isPlain c = true) : Within t where
  close := scan_plain h
  above d p hp := by rw [scan_plain fun c hc => h c (hp.subset hc)]

theorem char_open {o : Char} (ho : o = '{' ∨ o = '[') (d : ℕ) :
    Scan.char ⟨d, .outside⟩ o = ⟨d + 1, .outside⟩ := by
  rcases ho with rfl | rfl <;> simp [Scan.char, quote]

theorem char_close {c : Char} (hc : c = '}' ∨ c = ']') (d : ℕ) :
    Scan.char ⟨d + 1, .outside⟩ c = ⟨d, .outside⟩ := by
  rcases hc with rfl | rfl <;> simp [Scan.char, quote]

/-- Between two brackets. -/
theorem depth_bracket {o c : Char} (ho : o = '{' ∨ o = '[') {body : List Char}
    (hbody : Within body) (d : ℕ) {p : List Char} (hp : p <+: o :: (body ++ [c])) (hnil : p ≠ [])
    (hne : p ≠ o :: (body ++ [c])) : d + 1 ≤ (scan ⟨d, .outside⟩ p).depth := by
  rcases List.prefix_cons_iff.1 hp with rfl | ⟨q, rfl, hq⟩
  · exact absurd rfl hnil
  · rw [scan_cons, char_open ho]
    apply hbody.above
    rcases List.prefix_concat_iff.1 hq with rfl | hq
    · exact absurd rfl hne
    · exact hq

theorem within_bracket {o c : Char} (ho : o = '{' ∨ o = '[') (hc : c = '}' ∨ c = ']')
    {body : List Char} (hbody : Within body) : Within (o :: (body ++ [c])) := by
  have hclose (d : ℕ) : scan ⟨d, .outside⟩ (o :: (body ++ [c])) = ⟨d, .outside⟩ := by
    rw [scan_cons, char_open ho, scan_append, hbody.close]
    exact char_close hc d
  refine ⟨hclose, ?_⟩
  intro d p hp
  by_cases hnil : p = []
  · rw [hnil]
    exact le_rfl
  by_cases hne : p = o :: (body ++ [c])
  · rw [hne, hclose]
  · have := depth_bracket ho hbody d hp hnil hne
    omega

/-! ## Strings -/

/-- The inside of a string: characters, and pairs of a backslash and a character. -/
inductive Body : List Char → Prop
  | nil : Body []
  | char {c : Char} {t : List Char} (hq : c ≠ quote) (hb : c ≠ backslash) (h : Body t) :
      Body (c :: t)
  | escape (e : Char) {t : List Char} (h : Body t) : Body (backslash :: e :: t)

theorem Body.append {t u : List Char} (ht : Body t) (hu : Body u) : Body (t ++ u) := by
  induction ht with
  | nil => exact hu
  | char hq hb h ih => exact .char hq hb ih
  | escape e h ih => exact .escape e ih

theorem body_flatMap {α : Type} {f : α → List Char} {l : List α} (h : ∀ a ∈ l, Body (f a)) :
    Body (l.flatMap f) := by
  induction l with
  | nil => exact .nil
  | cons a l ih =>
    rw [List.flatMap_cons]
    exact (h a List.mem_cons_self).append (ih fun b hb => h b (List.mem_cons_of_mem _ hb))

theorem hexDigit_ne (n : ℕ) (hn : n < 16) : hexDigit n ≠ quote ∧ hexDigit n ≠ backslash := by
  interval_cases n <;> decide

theorem body_unicodeEscape {u : ℕ} (hu : u < 65536) : Body (unicodeEscape u) := by
  obtain ⟨hq1, hb1⟩ := hexDigit_ne (u / 4096) (by omega)
  obtain ⟨hq2, hb2⟩ := hexDigit_ne (u / 256 % 16) (by omega)
  obtain ⟨hq3, hb3⟩ := hexDigit_ne (u / 16 % 16) (by omega)
  obtain ⟨hq4, hb4⟩ := hexDigit_ne (u % 16) (by omega)
  exact .escape 'u' (.char hq1 hb1 (.char hq2 hb2 (.char hq3 hb3 (.char hq4 hb4 .nil))))

theorem body_escapeChar (c : Char) : Body (escapeChar c) := by
  unfold escapeChar
  cases hlookup : shortEscapes.lookup c with
  | some e => exact .escape e .nil
  | none =>
    simp only
    split_ifs
    · have hq : c ≠ quote := by
        rintro rfl
        revert hlookup
        decide
      have hb : c ≠ backslash := by
        rintro rfl
        revert hlookup
        decide
      exact .char hq hb .nil
    · exact body_flatMap fun u hu => body_unicodeEscape (codeUnits_lt hu)

/-- Up to its closing quote a string keeps the depth. -/
theorem Body.scan_inside {t : List Char} (ht : Body t) (d : ℕ) :
    scan ⟨d, .inside⟩ (t ++ [quote]) = ⟨d, .outside⟩ ∧
      ∀ p, p <+: t ++ [quote] → (scan ⟨d, .inside⟩ p).depth = d := by
  have hne : quote ≠ backslash := by decide
  induction ht with
  | nil =>
    have hquote : Scan.char ⟨d, .inside⟩ quote = ⟨d, .outside⟩ := by simp [Scan.char, hne]
    refine ⟨hquote, ?_⟩
    intro p hp
    rcases List.prefix_cons_iff.1 hp with rfl | ⟨q, rfl, hq⟩
    · rfl
    · rw [List.prefix_nil.1 hq, scan_cons, hquote]
      rfl
  | @char c t hq hb h ih =>
    have hchar : Scan.char ⟨d, .inside⟩ c = ⟨d, .inside⟩ := by simp [Scan.char, hq, hb]
    refine ⟨?_, ?_⟩
    · rw [List.cons_append, scan_cons, hchar]
      exact ih.1
    · intro p hp
      rcases List.prefix_cons_iff.1 hp with rfl | ⟨q, rfl, hq⟩
      · rfl
      · rw [scan_cons, hchar]
        exact ih.2 q hq
  | @escape e t h ih =>
    have hback : Scan.char ⟨d, .inside⟩ backslash = ⟨d, .escaped⟩ := by simp [Scan.char]
    have hescaped : Scan.char ⟨d, .escaped⟩ e = ⟨d, .inside⟩ := rfl
    refine ⟨?_, ?_⟩
    · rw [List.cons_append, List.cons_append, scan_cons, hback, scan_cons, hescaped]
      exact ih.1
    · intro p hp
      rcases List.prefix_cons_iff.1 hp with rfl | ⟨q, rfl, hq⟩
      · rfl
      · rcases List.prefix_cons_iff.1 hq with rfl | ⟨r, rfl, hr⟩
        · rw [scan_cons, hback]
          rfl
        · rw [scan_cons, hback, scan_cons, hescaped]
          exact ih.2 r hr

theorem within_stringText (s : String) : Within (stringText s) := by
  have hbody : Body (s.toList.flatMap escapeChar) := body_flatMap fun c _ => body_escapeChar c
  have hquote (d : ℕ) : Scan.char ⟨d, .outside⟩ quote = ⟨d, .inside⟩ := by simp [Scan.char]
  have htext : stringText s = quote :: (s.toList.flatMap escapeChar ++ [quote]) := rfl
  constructor
  · intro d
    rw [htext, scan_cons, hquote]
    exact (hbody.scan_inside d).1
  · intro d p hp
    rw [htext] at hp
    rcases List.prefix_cons_iff.1 hp with rfl | ⟨q, rfl, hq⟩
    · exact le_rfl
    · rw [scan_cons, hquote]
      exact ((hbody.scan_inside d).2 q hq).ge

/-! ## Numbers -/

/-- The characters of a number. -/
def isNumeral (c : Char) : Bool := isDigit c || c = '.' || c = 'e' || c = '+' || c = '-'

theorem isPlain_of_isNumeral {c : Char} (h : isNumeral c = true) : isPlain c = true := by
  have hne : ∀ e : Char, isNumeral e = false → c ≠ e := by
    rintro e he rfl
    rw [h] at he
    cases he
  simp [isPlain, hne quote (by decide), hne '{' (by decide), hne '[' (by decide),
    hne '}' (by decide), hne ']' (by decide)]

/-- All characters of a text are those of a number. -/
def AllNumeral (t : List Char) : Prop := ∀ c ∈ t, isNumeral c = true

theorem AllNumeral.append {t u : List Char} (ht : AllNumeral t) (hu : AllNumeral u) :
    AllNumeral (t ++ u) := by
  intro c hc
  rcases List.mem_append.1 hc with hc | hc
  · exact ht c hc
  · exact hu c hc

theorem AllNumeral.of_subset {t u : List Char} (hu : AllNumeral u) (h : t ⊆ u) : AllNumeral t :=
  fun c hc => hu c (h hc)

theorem allNumeral_natText (n : ℕ) : AllNumeral (natText n) := by
  intro c hc
  rw [isNumeral, Numeral.isDigit_of_mem_natText hc]
  rfl

theorem AllNumeral.cons {c : Char} {t : List Char} (hc : isNumeral c = true)
    (ht : AllNumeral t) : AllNumeral (c :: t) := by
  intro d hd
  rcases List.mem_cons.1 hd with rfl | hd
  · exact hc
  · exact ht d hd

theorem allNumeral_intText (z : ℤ) : AllNumeral (intText z) := by
  unfold intText
  split_ifs
  · exact .cons (by decide) (allNumeral_natText _)
  · exact allNumeral_natText _

theorem allNumeral_zeros (n : ℕ) : AllNumeral (List.replicate n '0') := by
  intro c hc
  rw [List.eq_of_mem_replicate hc]
  rfl

theorem allNumeral_exponentText (e : ℤ) : AllNumeral (exponentText e) := by
  have hdigits : AllNumeral (padLeft 2 (natText e.natAbs)) :=
    (allNumeral_zeros _).append (allNumeral_natText _)
  unfold exponentText
  split_ifs
  · exact .cons (by decide) (.cons (by decide) hdigits)
  · exact .cons (by decide) (.cons (by decide) hdigits)

theorem allNumeral_layout (limit : ℤ) (addDot0 : Bool) (m : ℕ) (e : ℤ) :
    AllNumeral (layout limit addDot0 m e) := by
  have hds : AllNumeral (stripZeros (natText m)) := by
    refine (allNumeral_natText m).of_subset ?_
    intro c hc
    rw [stripZeros, List.mem_reverse] at hc
    exact List.mem_reverse.1 ((List.dropWhile_suffix _).subset hc)
  have htake (n : ℕ) := hds.of_subset (List.take_subset n (stripZeros (natText m)))
  have hdrop (n : ℕ) := hds.of_subset (List.drop_subset n (stripZeros (natText m)))
  have hpoint0 : AllNumeral ['.', '0'] := .cons (by decide) (allNumeral_zeros 1)
  simp only [layout]
  split_ifs
  · exact .cons (by decide) (.cons (by decide) ((allNumeral_zeros _).append hds))
  · exact (htake _).append (.cons (by decide) (hdrop _))
  · exact (hds.append (allNumeral_zeros _)).append hpoint0
  · exact (hds.append (allNumeral_zeros _)).append (allNumeral_zeros 0)
  · exact ((htake 1).append (allNumeral_zeros 0)).append (allNumeral_exponentText _)
  · exact ((htake 1).append (.cons (by decide) (hdrop 1))).append (allNumeral_exponentText _)

theorem allNumeral_floatText (q : ℚ) : AllNumeral (floatText q).toList := by
  rw [floatText, String.toList_ofList]
  have hbody : AllNumeral (if q = 0 then ['0', '.', '0']
      else layout 16 true (shortest |q|).1 (shortest |q|).2) := by
    split_ifs
    · exact .cons (by decide) (.cons (by decide) (allNumeral_zeros 1))
    · exact allNumeral_layout _ _ _ _
  have hsign : AllNumeral (if q < 0 then ['-'] else []) := by
    split_ifs
    · exact .cons (by decide) (allNumeral_zeros 0)
    · exact allNumeral_zeros 0
  exact hsign.append hbody

/-! ## Values -/

theorem within_numeral {t : List Char} (h : AllNumeral t) : Within t :=
  within_plain fun c hc => isPlain_of_isNumeral (h c hc)

theorem within_newline (level : ℕ) : Within (newline level) := by
  refine within_plain ?_
  intro c hc
  rcases List.mem_cons.1 hc with rfl | hc
  · decide
  · rw [List.eq_of_mem_replicate hc]
    decide

theorem within_separator (level : ℕ) : Within (',' :: newline level) := by
  refine within_plain ?_
  intro c hc
  rcases List.mem_cons.1 hc with rfl | hc
  · decide
  · rcases List.mem_cons.1 hc with rfl | hc
    · decide
    · rw [List.eq_of_mem_replicate hc]
      decide

theorem within_colon : Within [':', ' '] :=
  within_plain (List.all_eq_true.1 (by decide : [':', ' '].all isPlain = true))

theorem FloatWord.within_text (w : FloatWord) : Within w.text := by
  refine within_plain (List.all_eq_true.1 ?_)
  cases w <;> decide

theorem fullText_append (ps qs : List Piece) :
    fullText (ps ++ qs) = fullText ps ++ fullText qs := by
  induction ps with
  | nil => rfl
  | cons p ps ih =>
    cases p with
    | none => exact ih
    | some t => rw [List.cons_append, fullText, fullText, ih, List.append_assoc]

theorem fullText_cons_some (t : List Char) (ps : List Piece) :
    fullText (some t :: ps) = t ++ fullText ps := rfl

mutual

/-- The text of a value closes what it opens. -/
theorem within_pieces (level : ℕ) : ∀ v : Value, Within (fullText (pieces level v))
  | .null => by
    rw [pieces, fullText_cons_some]
    exact (within_plain (List.all_eq_true.1 (by decide : "null".toList.all isPlain = true))).append
      within_nil
  | .bool true => by
    rw [pieces, fullText_cons_some]
    exact (within_plain (List.all_eq_true.1 (by decide : "true".toList.all isPlain = true))).append
      within_nil
  | .bool false => by
    rw [pieces, fullText_cons_some]
    exact (within_plain (List.all_eq_true.1 (by decide : "false".toList.all isPlain = true))).append
      within_nil
  | .int z => by
    rw [pieces, fullText_cons_some]
    exact (within_numeral (allNumeral_intText z)).append within_nil
  | .float q => by
    rw [pieces, fullText_cons_some]
    exact (within_numeral (allNumeral_floatText q)).append within_nil
  | .word w => by
    rw [pieces, fullText_cons_some]
    exact w.within_text.append within_nil
  | .str s => by
    rw [pieces, fullText_cons_some]
    exact (within_stringText s).append within_nil
  | .list [] => by
    rw [pieces, fullText_cons_some]
    exact (within_bracket (.inr rfl) (.inr rfl) within_nil).append within_nil
  | .list (v :: vs) => by
    have hbody := (within_newline (level + 1)).append ((within_pieces (level + 1) v).append
      ((within_elementPieces (level + 1) vs).append (within_newline level)))
    have := within_bracket (.inr rfl) (.inr rfl) hbody
    simpa only [pieces, fullText_cons_some, fullText_append, fullText, List.append_assoc,
      List.cons_append, List.append_nil] using this
  | .dict [] => by
    rw [pieces, fullText_cons_some]
    exact (within_bracket (.inl rfl) (.inl rfl) within_nil).append within_nil
  | .dict ((k, v) :: ms) => by
    have hbody := (within_newline (level + 1)).append ((within_stringText k).append
      (within_colon.append ((within_pieces (level + 1) v).append
        ((within_memberPieces (level + 1) ms).append (within_newline level)))))
    have := within_bracket (.inl rfl) (.inl rfl) hbody
    simpa only [pieces, fullText_cons_some, fullText_append, fullText, List.append_assoc,
      List.cons_append, List.append_nil] using this
  | .other => within_nil

theorem within_elementPieces (level : ℕ) :
    ∀ vs : List Value, Within (fullText (elementPieces level vs))
  | [] => within_nil
  | v :: vs => by
    rw [elementPieces, fullText_cons_some, fullText_append]
    exact (within_separator level).append
      ((within_pieces level v).append (within_elementPieces level vs))

theorem within_memberPieces (level : ℕ) :
    ∀ ms : List (String × Value), Within (fullText (memberPieces level ms))
  | [] => within_nil
  | (k, v) :: ms => by
    rw [memberPieces, fullText_cons_some, fullText_cons_some, fullText_cons_some, fullText_append]
    exact (within_separator level).append ((within_stringText k).append
      (within_colon.append ((within_pieces level v).append (within_memberPieces level ms))))

end

/-! ## What has been written of an object -/

/-- An object is what its two braces enclose. -/
theorem exists_body (level : ℕ) (ms : List (String × Value)) :
    ∃ body, Within body ∧ fullText (pieces level (.dict ms)) = '{' :: (body ++ ['}']) := by
  match ms with
  | [] => exact ⟨[], within_nil, rfl⟩
  | (k, v) :: ms =>
    refine ⟨_, (within_newline (level + 1)).append ((within_stringText k).append
      (within_colon.append ((within_pieces (level + 1) v).append
        ((within_memberPieces (level + 1) ms).append (within_newline level))))), ?_⟩
    simp only [pieces, fullText_cons_some, fullText_append, fullText, List.append_assoc,
      List.cons_append, List.append_nil]

/-- **The beginning of an object leaves a bracket open.** -/
theorem scan_ne_closed {ms : List (String × Value)} {level : ℕ} {p : List Char}
    (hp : p <+: fullText (pieces level (.dict ms))) (hnil : p ≠ [])
    (hne : p ≠ fullText (pieces level (.dict ms))) : scan closed p ≠ closed := by
  obtain ⟨body, hbody, htext⟩ := exists_body level ms
  rw [htext] at hp hne
  intro h
  have hdepth := depth_bracket (.inl rfl) hbody 0 hp hnil hne
  rw [show (⟨0, .outside⟩ : Scan) = closed from rfl, h] at hdepth
  exact absurd hdepth (by decide)

theorem emitted_prefix_fullText (ps : List Piece) : emitted ps <+: fullText ps := by
  induction ps with
  | nil => exact List.prefix_rfl
  | cons p ps ih =>
    cases p with
    | none => exact List.nil_prefix
    | some t => exact (List.prefix_append_right_inj t).2 ih

/-- Without an exception everything is written. -/
theorem emitted_eq_fullText {ps : List Piece} (h : none ∉ ps) : emitted ps = fullText ps := by
  induction ps with
  | nil => rfl
  | cons p ps ih =>
    cases p with
    | none => exact absurd List.mem_cons_self h
    | some t => rw [emitted, fullText, ih fun hmem => h (List.mem_cons_of_mem _ hmem)]

theorem emitted_append_of_mem {ps : List Piece} (h : none ∈ ps) (qs : List Piece) :
    emitted (ps ++ qs) = emitted ps := by
  induction ps with
  | nil => cases h
  | cons p ps ih =>
    cases p with
    | none => rfl
    | some t =>
      have hmem : none ∈ ps := by simpa using h
      rw [List.cons_append, emitted, emitted, ih hmem]

/-- The text after the exception is missing. -/
theorem emitted_ne_fullText {ps : List Piece} (h : none ∈ ps) {last : List Char}
    (hlast : last ≠ []) : emitted (ps ++ [some last]) ≠ fullText (ps ++ [some last]) := by
  intro heq
  rw [emitted_append_of_mem h, fullText_append] at heq
  have hle := (emitted_prefix_fullText ps).length_le
  have hlen := congrArg List.length heq
  have hpos := List.length_pos_iff.2 hlast
  rw [List.length_append, fullText_cons_some, List.length_append] at hlen
  omega

mutual

/-- The exception is raised at a part of another type. -/
theorem none_mem_pieces_iff (level : ℕ) :
    ∀ v : Value, none ∈ pieces level v ↔ serialisable v = false
  | .null => by simp [pieces, serialisable]
  | .bool true => by simp [pieces, serialisable]
  | .bool false => by simp [pieces, serialisable]
  | .int _ => by simp [pieces, serialisable]
  | .float _ => by simp [pieces, serialisable]
  | .word _ => by simp [pieces, serialisable]
  | .str _ => by simp [pieces, serialisable]
  | .list [] => by simp [pieces, serialisable, serialisableAll]
  | .list (v :: vs) => by
    have hv := none_mem_pieces_iff (level + 1) v
    have hvs := none_mem_elementPieces_iff (level + 1) vs
    rw [serialisable, serialisableAll, Bool.and_eq_false_iff, ← hv, ← hvs]
    simp [pieces]
  | .dict [] => by simp [pieces, serialisable, serialisableMembers]
  | .dict ((k, v) :: ms) => by
    have hv := none_mem_pieces_iff (level + 1) v
    have hms := none_mem_memberPieces_iff (level + 1) ms
    rw [serialisable, serialisableMembers, Bool.and_eq_false_iff, ← hv, ← hms]
    simp [pieces]
  | .other => by simp [pieces, serialisable]

theorem none_mem_elementPieces_iff (level : ℕ) :
    ∀ vs : List Value, none ∈ elementPieces level vs ↔ serialisableAll vs = false
  | [] => by simp [elementPieces, serialisableAll]
  | v :: vs => by
    have hv := none_mem_pieces_iff level v
    have hvs := none_mem_elementPieces_iff level vs
    rw [serialisableAll, Bool.and_eq_false_iff, ← hv, ← hvs]
    simp [elementPieces]

theorem none_mem_memberPieces_iff (level : ℕ) :
    ∀ ms : List (String × Value), none ∈ memberPieces level ms ↔ serialisableMembers ms = false
  | [] => by simp [memberPieces, serialisableMembers]
  | (k, v) :: ms => by
    have hv := none_mem_pieces_iff level v
    have hms := none_mem_memberPieces_iff level ms
    rw [serialisableMembers, Bool.and_eq_false_iff, ← hv, ← hms]
    simp [memberPieces]

end

/-- **An object is written to its end exactly if it is serialisable.** -/
theorem emitted_eq_fullText_iff (level : ℕ) (ms : List (String × Value)) :
    emitted (pieces level (.dict ms)) = fullText (pieces level (.dict ms)) ↔
      serialisable (.dict ms) = true := by
  constructor
  · intro heq
    by_contra hnot
    have hnone := (none_mem_pieces_iff level (.dict ms)).2 (Bool.eq_false_iff.2 hnot)
    match ms with
    | [] => simp [pieces] at hnone
    | (k, v) :: ms =>
      have hsplit : pieces level (.dict ((k, v) :: ms)) =
          (some ('{' :: newline (level + 1)) :: some (stringText k) :: some [':', ' '] ::
            (pieces (level + 1) v ++ (memberPieces (level + 1) ms ++ [some (newline level)]))) ++
              [some ['}']] := by
        simp [pieces]
      rw [hsplit] at hnone heq
      have hfront : none ∈ some ('{' :: newline (level + 1)) :: some (stringText k) ::
          some [':', ' '] :: (pieces (level + 1) v ++
            (memberPieces (level + 1) ms ++ [some (newline level)])) := by
        rcases List.mem_append.1 hnone with h | h
        · exact h
        · simp at h
      exact emitted_ne_fullText hfront (List.cons_ne_nil _ _) heq
  · intro h
    apply emitted_eq_fullText
    rw [none_mem_pieces_iff, h]
    exact Bool.noConfusion

end TransferTestbed.JsonStream
