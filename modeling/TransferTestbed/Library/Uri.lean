import Mathlib.Data.List.TakeWhile
import Mathlib.Data.Nat.Notation

/-!
# Queries of URIs

What `urllib.parse` makes of a URI: the query that `urlsplit` finds, its pieces at
the ampersands, and the percent-decoding of `unquote(…, errors="strict")`.

* `length_unquote_le`, `length_unquote_lt`: decoding does not lengthen a text, and
  shortens it if it has an escape.
* `unquote_eq_self`: a text without an escape stays as it is.
* `length_lt_of_mem_splitOn`: pieces are shorter, unless there is only one.
-/

namespace TransferTestbed.Uri

/-! ## Splitting -/

/-- The characters that `urlsplit` removes: tab, line feed, carriage return. -/
def isRemoved (c : Char) : Bool := c.toNat = 9 || c.toNat = 10 || c.toNat = 13

/-- The URI after the removal. -/
def cleaned (uri : List Char) : List Char := uri.filter fun c => !isRemoved c

/-- `urlsplit(uri).fragment`: what follows the first number sign. -/
def fragment (uri : List Char) : List Char := ((cleaned uri).dropWhile (· ≠ '#')).drop 1

/-- `urlsplit(uri).query`: what follows the first question mark, up to the fragment. -/
def query (uri : List Char) : List Char :=
  (((cleaned uri).takeWhile (· ≠ '#')).dropWhile (· ≠ '?')).drop 1

/-- The pieces of a query; an empty one has none. -/
def pieces (q : List Char) : List (List Char) := if q = [] then [] else q.splitOn '&'

/-! ## Percent-decoding -/

def isAscii (c : Char) : Bool := c.toNat < 128

/-- The value of a hexadecimal digit. -/
def hexValue (c : Char) : ℕ :=
  if c.toNat < 58 then c.toNat - 48 else if c.toNat < 71 then c.toNat - 55 else c.toNat - 87

/-- A percent sign and two hexadecimal digits. -/
def isEscape (c a b : Char) : Bool := c = '%' && a.isHexDigit && b.isHexDigit

/-- `_unquote_impl`: the bytes of a run of ASCII characters, each escape a byte. -/
def unquoteBytes : List Char → List UInt8
  | c :: a :: b :: cs =>
    if isEscape c a b then UInt8.ofNat (16 * hexValue a + hexValue b) :: unquoteBytes cs
    else UInt8.ofNat c.toNat :: unquoteBytes (a :: b :: cs)
  | cs => cs.map fun c => UInt8.ofNat c.toNat

/-- `bytes.decode("utf-8", "strict")`. -/
def decodeUtf8 (bytes : List UInt8) : Option (List Char) :=
  bytes.toByteArray.utf8Decode?.map Array.toList

/-- `_generate_unquoted_parts`: the runs of ASCII characters are decoded, the others
    stay; `run` is the run before the rest. -/
def unquoteParts : List Char → List Char → Option (List Char)
  | run, [] => decodeUtf8 (unquoteBytes run)
  | run, c :: cs =>
    if isAscii c then unquoteParts (run ++ [c]) cs
    else
      match decodeUtf8 (unquoteBytes run), unquoteParts [] cs with
      | some part, some parts => some (part ++ c :: parts)
      | _, _ => none

/-- `unquote(text, errors="strict")`. -/
def unquote (text : List Char) : Option (List Char) := unquoteParts [] text

/-- The text has an escape. -/
def HasEscape : List Char → Prop
  | c :: a :: b :: cs => isEscape c a b = true ∨ HasEscape (a :: b :: cs)
  | _ => False

instance decidableHasEscape : DecidablePred HasEscape
  | [] => .isFalse id
  | [_] => .isFalse id
  | [_, _] => .isFalse id
  | _ :: a :: b :: cs =>
    have := decidableHasEscape (a :: b :: cs)
    inferInstanceAs (Decidable (_ ∨ _))

theorem hasEscape_cons {cs : List Char} (h : HasEscape cs) (c : Char) : HasEscape (c :: cs) := by
  match cs, h with
  | _ :: _ :: _ :: _, h => exact Or.inr h

theorem hasEscape_append {cs : List Char} (h : HasEscape cs) (pre : List Char) :
    HasEscape (pre ++ cs) := by
  induction pre with
  | nil => exact h
  | cons c pre ih => exact hasEscape_cons ih c

theorem not_hasEscape_append {pre cs : List Char} (hpre : '%' ∉ pre) (h : ¬ HasEscape cs) :
    ¬ HasEscape (pre ++ cs) := by
  induction pre with
  | nil => exact h
  | cons c pre ih =>
    have hc : c ≠ '%' := fun hc => hpre (hc ▸ List.mem_cons_self)
    have ih := ih fun hmem => hpre (List.mem_cons_of_mem c hmem)
    rw [List.cons_append]
    generalize pre ++ cs = rest at ih
    match rest, ih with
    | [], _ => exact id
    | [_], _ => exact id
    | a :: b :: rest, ih =>
      rintro (hescape | hescape)
      · simp [isEscape, hc] at hescape
      · exact ih hescape

theorem not_hasEscape {cs : List Char} (h : '%' ∉ cs) : ¬ HasEscape cs := by
  rw [← List.append_nil cs]
  exact not_hasEscape_append h id

/-- A character that is not ASCII is not in an escape. -/
theorem isEscape_eq_false {c a b : Char} (h : isAscii c = false ∨ isAscii a = false ∨
    isAscii b = false) : isEscape c a b = false := by
  have hdigit (d : Char) (hd : isAscii d = false) : d.isHexDigit = false := by
    have hle : 128 ≤ d.toNat := by simpa [isAscii] using hd
    have hval : 128 ≤ d.val.toNat := hle
    simp only [Char.isHexDigit, Char.isDigit, Bool.or_eq_false_iff, Bool.and_eq_false_iff,
      decide_eq_false_iff_not, ge_iff_le, UInt32.le_iff_toNat_le]
    refine ⟨⟨Or.inr ?_, Or.inr ?_⟩, Or.inr ?_⟩
    · show ¬ d.val.toNat ≤ 57
      omega
    · show ¬ d.val.toNat ≤ 102
      omega
    · show ¬ d.val.toNat ≤ 70
      omega
  unfold isEscape
  rcases h with h | h | h
  · have hc : c ≠ '%' := by
      rintro rfl
      exact absurd h (by decide)
    simp [hc]
  · simp [hdigit a h]
  · simp [hdigit b h]

/-- An escape does not go across a character that is not ASCII. -/
theorem hasEscape_append_cons {c : Char} (hc : isAscii c = false) (run cs : List Char) :
    HasEscape (run ++ c :: cs) ↔ HasEscape run ∨ HasEscape cs := by
  constructor
  · intro h
    induction run with
    | nil =>
      match cs, h with
      | [], h => exact h.elim
      | [_], h => exact h.elim
      | a :: b :: cs, h =>
        rcases h with h | h
        · rw [isEscape_eq_false (Or.inl hc)] at h
          exact absurd h (by simp)
        · exact Or.inr h
    | cons d run ih =>
      match run, h, ih with
      | [], h, ih =>
        match cs, h with
        | [], h => exact h.elim
        | a :: cs, h =>
          rcases h with h | h
          · rw [isEscape_eq_false (Or.inr (Or.inl hc))] at h
            exact absurd h (by simp)
          · exact (ih h).imp (fun h => h.elim) id
      | [a], h, ih =>
        rcases h with h | h
        · rw [isEscape_eq_false (Or.inr (Or.inr hc))] at h
          exact absurd h (by simp)
        · exact (ih h).imp (fun h => h.elim) id
      | a :: b :: run, h, ih =>
        rcases h with h | h
        · exact Or.inl (Or.inl h)
        · exact (ih h).imp Or.inr id
  · rintro (h | h)
    · induction run with
      | nil => exact h.elim
      | cons d run ih =>
        match run, h, ih with
        | [], h, _ => exact h.elim
        | [_], h, _ => exact h.elim
        | a :: b :: run, h, ih =>
          rcases h with h | h
          · exact Or.inl h
          · exact Or.inr (ih h)
    · exact hasEscape_append (hasEscape_cons h c) run

/-! ## Decoding -/

theorem length_unquoteBytes_le (run : List Char) :
    (unquoteBytes run).length ≤ run.length ∧
      (HasEscape run → (unquoteBytes run).length < run.length) := by
  induction run using unquoteBytes.induct with
  | case1 c a b cs h ih =>
    rw [unquoteBytes, if_pos h]
    simp only [List.length_cons]
    exact ⟨by omega, fun _ => by omega⟩
  | case2 c a b cs h ih =>
    rw [unquoteBytes, if_neg h]
    simp only [List.length_cons] at ih ⊢
    refine ⟨by omega, fun hescape => ?_⟩
    rcases hescape with hescape | hescape
    · exact absurd hescape h
    · have := ih.2 hescape
      omega
  | case3 cs hshort =>
    match cs, hshort with
    | [], _ => exact ⟨Nat.le_refl _, fun h => h.elim⟩
    | [_], _ => exact ⟨Nat.le_refl _, fun h => h.elim⟩
    | [_, _], _ => exact ⟨Nat.le_refl _, fun h => h.elim⟩
    | c :: a :: b :: cs, hshort => exact absurd rfl (hshort c a b cs)

theorem unquoteBytes_eq_map {run : List Char} (h : ¬ HasEscape run) :
    unquoteBytes run = run.map fun c => UInt8.ofNat c.toNat := by
  induction run using unquoteBytes.induct with
  | case1 c a b cs hescape ih => exact absurd (Or.inl hescape) h
  | case2 c a b cs hescape ih =>
    rw [unquoteBytes, if_neg hescape, ih fun h' => h (Or.inr h')]
    rfl
  | case3 cs hshort => rw [unquoteBytes.eq_2 cs hshort]

theorem length_decodeUtf8_le {bytes : List UInt8} {text : List Char}
    (h : decodeUtf8 bytes = some text) : text.length ≤ bytes.length := by
  obtain ⟨chars, hchars, rfl⟩ := Option.map_eq_some_iff.1 h
  have hsome : bytes.toByteArray.utf8Decode?.isSome := by rw [hchars]; rfl
  have hencode := ByteArray.utf8Encode_get_utf8Decode? (h := hsome)
  simp only [hchars, Option.get_some] at hencode
  have hsize := congrArg ByteArray.size hencode
  rw [List.utf8Encode, List.size_toByteArray, List.size_toByteArray] at hsize
  rw [← hsize]
  -- a character takes at least one byte
  generalize chars.toList = cs
  induction cs with
  | nil => exact Nat.le_refl _
  | cons c cs ih =>
    have := c.utf8Size_pos
    rw [List.flatMap_cons, List.length_append, String.length_utf8EncodeChar, List.length_cons]
    omega

theorem decodeUtf8_ascii {run : List Char} (h : ∀ c ∈ run, isAscii c = true) :
    decodeUtf8 (run.map fun c => UInt8.ofNat c.toNat) = some run := by
  have hbytes : (run.map fun c => UInt8.ofNat c.toNat) = run.flatMap String.utf8EncodeChar := by
    induction run with
    | nil => rfl
    | cons c run ih =>
      have hlt : c.toNat < 128 := by simpa [isAscii] using h c List.mem_cons_self
      have hle : c.val.toNat ≤ 0x7f := Nat.le_of_lt_succ hlt
      rw [List.map_cons, List.flatMap_cons, ih fun d hd => h d (List.mem_cons_of_mem c hd),
        String.utf8EncodeChar, if_pos hle]
      rfl
  have hencode : (run.map fun c => UInt8.ofNat c.toNat).toByteArray = run.utf8Encode := by
    rw [hbytes, List.utf8Encode]
  rw [decodeUtf8, hencode, List.utf8Decode?_utf8Encode]
  rfl

theorem length_unquoteRun_le {run text : List Char}
    (h : decodeUtf8 (unquoteBytes run) = some text) :
    text.length ≤ run.length ∧ (HasEscape run → text.length < run.length) := by
  obtain ⟨hle, hlt⟩ := length_unquoteBytes_le run
  have := length_decodeUtf8_le h
  exact ⟨by omega, fun hescape => by have := hlt hescape; omega⟩

theorem length_unquoteParts_le (run cs : List Char) {text : List Char}
    (h : unquoteParts run cs = some text) :
    text.length ≤ (run ++ cs).length ∧
      (HasEscape (run ++ cs) → text.length < (run ++ cs).length) := by
  induction cs generalizing run text with
  | nil =>
    rw [List.append_nil]
    exact length_unquoteRun_le h
  | cons c cs ih =>
    unfold unquoteParts at h
    split_ifs at h with hc
    · have := ih (run ++ [c]) h
      rwa [List.append_assoc, List.singleton_append] at this
    · split at h
      case h_1 part parts hpart hparts =>
        obtain rfl := Option.some.inj h
        obtain ⟨hle, hlt⟩ := length_unquoteRun_le hpart
        obtain ⟨hle', hlt'⟩ := ih [] hparts
        rw [List.nil_append] at hle' hlt'
        rw [hasEscape_append_cons (by simpa using hc)]
        simp only [List.length_append, List.length_cons]
        refine ⟨by omega, ?_⟩
        rintro (hescape | hescape)
        · have := hlt hescape
          omega
        · have := hlt' hescape
          omega
      case h_2 => exact absurd h (by simp)

/-- Decoding does not lengthen a text. -/
theorem length_unquote_le {cs text : List Char} (h : unquote cs = some text) :
    text.length ≤ cs.length := (length_unquoteParts_le [] cs h).1

/-- Decoding shortens a text that has an escape. -/
theorem length_unquote_lt {cs text : List Char} (h : unquote cs = some text)
    (hescape : HasEscape cs) : text.length < cs.length :=
  (length_unquoteParts_le [] cs h).2 hescape

theorem mem_mapM_unquote {ps texts : List (List Char)} (h : ps.mapM unquote = some texts)
    {text : List Char} (hmem : text ∈ texts) : ∃ piece ∈ ps, unquote piece = some text := by
  induction ps generalizing texts with
  | nil =>
    obtain rfl : [] = texts := Option.some.inj h
    exact absurd hmem (by simp)
  | cons p ps ih =>
    rw [List.mapM_cons] at h
    obtain ⟨head, hhead, h⟩ := Option.bind_eq_some_iff.1 h
    obtain ⟨tail, htail, h⟩ := Option.bind_eq_some_iff.1 h
    obtain rfl : head :: tail = texts := Option.some.inj h
    rcases List.mem_cons.1 hmem with rfl | hmem
    · exact ⟨p, List.mem_cons_self, hhead⟩
    · obtain ⟨piece, hpiece, hunquote⟩ := ih htail hmem
      exact ⟨piece, List.mem_cons_of_mem p hpiece, hunquote⟩

theorem unquoteParts_eq_self {run cs : List Char} (hrun : ∀ c ∈ run, isAscii c = true)
    (h : ¬ HasEscape (run ++ cs)) : unquoteParts run cs = some (run ++ cs) := by
  induction cs generalizing run with
  | nil =>
    rw [List.append_nil] at h ⊢
    rw [unquoteParts, unquoteBytes_eq_map h, decodeUtf8_ascii hrun]
  | cons c cs ih =>
    rw [unquoteParts]
    split_ifs with hc
    · rw [ih, List.append_assoc, List.singleton_append]
      · intro d hd
        rcases List.mem_append.1 hd with hd | hd
        · exact hrun d hd
        · rw [List.mem_singleton.1 hd, hc]
      · rwa [List.append_assoc, List.singleton_append]
    · rw [hasEscape_append_cons (by simpa using hc)] at h
      have hpart : decodeUtf8 (unquoteBytes run) = some run := by
        rw [unquoteBytes_eq_map fun h' => h (Or.inl h'), decodeUtf8_ascii hrun]
      have hparts : unquoteParts [] cs = some cs :=
        ih (by simp) fun h' => h (Or.inr h')
      rw [hpart, hparts]

/-- A text without an escape stays as it is. -/
theorem unquote_eq_self {cs : List Char} (h : ¬ HasEscape cs) : unquote cs = some cs :=
  unquoteParts_eq_self (by simp) h

/-! ## Pieces -/

/-- Pieces are not longer than the text, and shorter if the separator is in it. -/
theorem length_lt_of_mem_splitOn {sep : Char} {cs piece : List Char}
    (h : piece ∈ cs.splitOn sep) :
    piece.length ≤ cs.length ∧ (sep ∈ cs → piece.length < cs.length) := by
  induction cs generalizing piece with
  | nil =>
    rw [List.splitOn_nil, List.mem_singleton] at h
    rw [h]
    exact ⟨Nat.le_refl _, fun h => absurd h (by simp)⟩
  | cons c cs ih =>
    rw [List.splitOn_cons_eq_if_modifyHead] at h
    simp only [List.length_cons]
    split_ifs at h with hc
    · rcases List.mem_cons.1 h with rfl | h
      · exact ⟨Nat.zero_le _, fun _ => Nat.succ_pos _⟩
      · have := (ih h).1
        exact ⟨by omega, fun _ => by omega⟩
    · have hne : sep ≠ c := fun h' => hc (by simp [h'])
      cases hsplit : cs.splitOn sep with
      | nil => exact absurd hsplit (List.splitOn_ne_nil sep cs)
      | cons head tail =>
        rw [hsplit, List.modifyHead_cons] at h
        rcases List.mem_cons.1 h with rfl | h
        · obtain ⟨hle, hlt⟩ := ih (hsplit ▸ List.mem_cons_self)
          refine ⟨by simpa using hle, fun hmem => ?_⟩
          have := hlt (List.mem_of_ne_of_mem hne hmem)
          simpa using this
        · obtain ⟨hle, hlt⟩ := ih (hsplit ▸ List.mem_cons_of_mem head h)
          exact ⟨by omega, fun _ => by omega⟩

/-! ## The query of a URI with a given text -/

/-- A scheme, an authority and a path: nothing that `urlsplit` removes or splits at. -/
def IsResource (base : List Char) : Prop := ∀ c ∈ base, isRemoved c = false ∧ c ≠ '#' ∧ c ≠ '?'

instance (base : List Char) : Decidable (IsResource base) := List.decidableBAll _ base

/-- A property of the characters of a text, checked one by one. -/
theorem forall_mem_of_all {p : Char → Prop} [DecidablePred p] {cs : List Char}
    (h : (cs.all fun c => decide (p c)) = true) : ∀ c ∈ cs, p c :=
  fun c hc => of_decide_eq_true (List.all_eq_true.1 h c hc)

theorem cleaned_append (a b : List Char) : cleaned (a ++ b) = cleaned a ++ cleaned b :=
  List.filter_append a b

theorem cleaned_eq_self {cs : List Char} (h : ∀ c ∈ cs, isRemoved c = false) : cleaned cs = cs :=
  List.filter_eq_self.2 fun c hc => by rw [h c hc]; rfl

theorem cleaned_resource {base : List Char} (h : IsResource base) (text : List Char) :
    cleaned (base ++ '?' :: text) = base ++ '?' :: cleaned text := by
  have hmark : cleaned ('?' :: text) = '?' :: cleaned text := by
    rw [cleaned, List.filter_cons, if_pos (by decide)]
    rfl
  rw [cleaned_append, cleaned_eq_self fun c hc => (h c hc).1, hmark]

theorem query_resource {base : List Char} (h : IsResource base) (text : List Char) :
    query (base ++ '?' :: text) = (cleaned text).takeWhile (· ≠ '#') := by
  have hbase : ∀ c ∈ base, decide (c ≠ '#') = true := fun c hc => by simp [(h c hc).2.1]
  have hpath : ∀ c ∈ base, decide (c ≠ '?') = true := fun c hc => by simp [(h c hc).2.2]
  rw [query, cleaned_resource h, List.takeWhile_append_of_pos hbase, List.takeWhile_cons_of_pos
    (by decide), List.dropWhile_append_of_pos hpath, List.dropWhile_cons_of_neg (by decide)]
  rfl

theorem fragment_resource {base : List Char} (h : IsResource base) (text : List Char) :
    fragment (base ++ '?' :: text) = ((cleaned text).dropWhile (· ≠ '#')).drop 1 := by
  have hbase : ∀ c ∈ base, decide (c ≠ '#') = true := fun c hc => by simp [(h c hc).2.1]
  rw [fragment, cleaned_resource h, List.dropWhile_append_of_pos hbase,
    List.dropWhile_cons_of_pos (by decide)]

/-- A query of two texts with an ampersand between them. The second one is a piece of
    its own; the others are not longer than the first one, and shorter if it has a
    character that `urlsplit` removes or that ends a piece or the query. -/
theorem mem_pieces {base left right piece : List Char} (hbase : IsResource base)
    (hright : ∀ c ∈ right, c ≠ '&' ∧ c ≠ '#' ∧ isRemoved c = false)
    (h : piece ∈ pieces (query (base ++ '?' :: (left ++ '&' :: right)))) :
    piece = right ∨ piece.length ≤ left.length ∧ (piece.length = left.length →
      piece = left ∧ ∀ c ∈ left, c ≠ '&' ∧ c ≠ '#' ∧ isRemoved c = false) := by
  have hclean : cleaned (left ++ '&' :: right) = cleaned left ++ '&' :: right := by
    have hamp : cleaned ('&' :: right) = '&' :: right :=
      cleaned_eq_self fun c hc => by
        rcases List.mem_cons.1 hc with rfl | hc
        · decide
        · exact (hright c hc).2.2
    rw [cleaned_append, hamp]
  have hlength : (cleaned left).length ≤ left.length := List.length_filter_le _ _
  rw [query_resource hbase, hclean, pieces] at h
  split_ifs at h with hnil
  · exact absurd h (by simp)
  · by_cases hhash : '#' ∈ cleaned left
    · -- the query ends within the first text
      have hshort : ((cleaned left).takeWhile (· ≠ '#')).length < (cleaned left).length := by
        have hpre := List.takeWhile_prefix (l := cleaned left) (fun c => decide (c ≠ '#'))
        refine lt_of_le_of_ne hpre.length_le fun heq => ?_
        have hself := List.takeWhile_eq_self_iff.1 (hpre.eq_of_length heq) '#' hhash
        exact absurd hself (by decide)
      rw [List.takeWhile_append, if_neg (by omega)] at h
      have := (length_lt_of_mem_splitOn h).1
      exact Or.inr ⟨by omega, fun heq => by omega⟩
    · have htake : (cleaned left ++ '&' :: right).takeWhile (· ≠ '#') =
          cleaned left ++ '&' :: right := by
        refine List.takeWhile_eq_self_iff.2 fun c hc => ?_
        rcases List.mem_append.1 hc with hc | hc
        · exact decide_eq_true fun h' => hhash (h' ▸ hc)
        · rcases List.mem_cons.1 hc with rfl | hc
          · decide
          · exact decide_eq_true (hright c hc).2.1
      rw [htake, List.splitOn_append_cons_self,
        List.splitOn_eq_singleton fun hmem => (hright _ hmem).1 rfl] at h
      rcases List.mem_append.1 h with h | h
      · obtain ⟨hle, hlt⟩ := length_lt_of_mem_splitOn h
        refine Or.inr ⟨by omega, fun heq => ?_⟩
        have hself : cleaned left = left := by
          refine List.filter_eq_self.2 (List.length_filter_eq_length_iff.1 ?_)
          show (cleaned left).length = left.length
          omega
        rw [hself] at h hle hlt hhash
        have hamp : '&' ∉ left := fun hmem => by
          have := hlt hmem
          omega
        rw [List.splitOn_eq_singleton hamp, List.mem_singleton] at h
        refine ⟨h, fun c hc => ⟨fun h' => hamp (h' ▸ hc), fun h' => hhash (h' ▸ hc), ?_⟩⟩
        have := List.filter_eq_self.1 hself c hc
        simpa using this
      · exact Or.inl (List.mem_singleton.1 h)

/-- The two pieces of a query of two texts without such characters. -/
theorem pieces_of_plain {base left right : List Char} (hbase : IsResource base)
    (hleft : ∀ c ∈ left, c ≠ '&' ∧ c ≠ '#' ∧ isRemoved c = false)
    (hright : ∀ c ∈ right, c ≠ '&' ∧ c ≠ '#' ∧ isRemoved c = false) :
    pieces (query (base ++ '?' :: (left ++ '&' :: right))) = [left, right] ∧
      fragment (base ++ '?' :: (left ++ '&' :: right)) = [] := by
  have hboth : ∀ c ∈ left ++ '&' :: right, c ≠ '#' ∧ isRemoved c = false := by
    intro c hc
    rcases List.mem_append.1 hc with hc | hc
    · exact (hleft c hc).2
    · rcases List.mem_cons.1 hc with rfl | hc
      · exact ⟨by decide, by decide⟩
      · exact (hright c hc).2
  have hhash : ∀ c ∈ left ++ '&' :: right, decide (c ≠ '#') = true :=
    fun c hc => decide_eq_true (hboth c hc).1
  have hclean := cleaned_eq_self fun c hc => (hboth c hc).2
  constructor
  · rw [query_resource hbase, hclean, List.takeWhile_eq_self_iff.2 hhash, pieces,
      if_neg (by simp), List.splitOn_append_cons_self,
      List.splitOn_eq_singleton fun hmem => (hleft _ hmem).1 rfl,
      List.splitOn_eq_singleton fun hmem => (hright _ hmem).1 rfl]
    rfl
  · rw [fragment_resource hbase, hclean, List.dropWhile_eq_nil_iff.2 hhash]
    rfl

end TransferTestbed.Uri
