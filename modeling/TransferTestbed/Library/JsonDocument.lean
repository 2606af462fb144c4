import TransferTestbed.Library.JsonStream

/-!
# Reading JSON documents

`load` is Python's `json.load` on a text: arrays and objects nested to any depth, numbers, the
words of the constants and of the floats that are not numbers. The reader takes fuel, of which
twice the length of the text is enough. A text with a lone surrogate escape is not read.

Results:

* `readValue_consumes`: what is read of a text closes the brackets that it opens.
* `readValue_of_le`: more fuel makes no difference.
* `scan_of_load`: a document closes its brackets and strings.
-/

namespace TransferTestbed.JsonDocument

open Decimal Json JsonStream Numeral

/-! ## Numbers -/

/-- `0|[1-9]\d*` at the front of a text. -/
def takeNat : List Char → Option (List Char × List Char)
  | [] => none
  | c :: cs =>
    if c = '0' then some (['0'], cs)
    else if isDigit c then some (c :: cs.takeWhile isDigit, cs.dropWhile isDigit)
    else none

/-- `-?(0|[1-9]\d*)`. -/
def takeWhole : List Char → Option (List Char × List Char)
  | [] => none
  | c :: cs =>
    if c = '-' then (takeNat cs).map fun r => ('-' :: r.1, r.2) else takeNat (c :: cs)

/-- `(\.\d+)?`. -/
def takePoint : List Char → List Char × List Char
  | [] => ([], [])
  | c :: cs =>
    if c = '.' ∧ cs.takeWhile isDigit ≠ [] then
      (c :: cs.takeWhile isDigit, cs.dropWhile isDigit)
    else ([], c :: cs)

/-- `[-+]?`. -/
def takeSignText : List Char → List Char × List Char
  | [] => ([], [])
  | c :: cs => if c = '-' ∨ c = '+' then ([c], cs) else ([], c :: cs)

/-- `([eE][-+]?\d+)?`. -/
def takePower : List Char → List Char × List Char
  | [] => ([], [])
  | c :: cs =>
    let sign := takeSignText cs
    if (c = 'e' ∨ c = 'E') ∧ sign.2.takeWhile isDigit ≠ [] then
      (c :: (sign.1 ++ sign.2.takeWhile isDigit), sign.2.dropWhile isDigit)
    else ([], c :: cs)

/-- A number: an integer if it has neither a fraction nor an exponent. -/
def readNumber (cs : List Char) : Option (Value × List Char) :=
  (takeWhole cs).bind fun whole =>
    let point := takePoint whole.2
    let power := takePower point.2
    if point.1 = [] ∧ power.1 = [] then (readInt whole.1).map fun z => (.int z, power.2)
    else (readFloat (whole.1 ++ point.1 ++ power.1)).map fun q => (.float q, power.2)

/-! ## Documents -/

def words : List (String × Value) :=
  [("null", .null), ("true", .bool true), ("false", .bool false), ("NaN", .word .nan),
    ("Infinity", .word .infinity), ("-Infinity", .word .negInfinity)]

def readWord (cs : List Char) : Option (Value × List Char) :=
  words.findSome? fun w => (dropPrefix w.1 cs).map fun rest => (w.2, rest)

def readAtom (cs : List Char) : Option (Value × List Char) := (readNumber cs).or (readWord cs)

/-- A key, a colon and what follows it. -/
def readKey : List Char → Option (String × List Char)
  | [] => none
  | c :: cs =>
    if c = quote then
      (readString cs).bind fun k =>
        match skipSpace k.2 with
        | [] => none
        | d :: ds => if d = ':' then some (k.1, skipSpace ds) else none
    else none

mutual

/-- The value that a text starts with, and the rest. -/
def readValue : ℕ → List Char → Option (Value × List Char)
  | 0, _ => none
  | _ + 1, [] => none
  | fuel + 1, c :: cs =>
    if c = quote then (readString cs).map fun r => (.str r.1, r.2)
    else if c = '[' then
      match skipSpace cs with
      | [] => none
      | d :: ds =>
        if d = ']' then some (.list [], ds)
        else (readElements fuel (d :: ds)).map fun r => (.list r.1, r.2)
    else if c = '{' then
      match skipSpace cs with
      | [] => none
      | d :: ds =>
        if d = '}' then some (.dict [], ds)
        else (readMembers fuel (d :: ds)).map fun r => (.dict (Dict.ofPairs r.1), r.2)
    else readAtom (c :: cs)

/-- The elements of an array up to its closing bracket. -/
def readElements : ℕ → List Char → Option (List Value × List Char)
  | 0, _ => none
  | fuel + 1, cs =>
    (readValue fuel cs).bind fun v =>
      match skipSpace v.2 with
      | [] => none
      | c :: rest =>
        if c = ',' then (readElements fuel (skipSpace rest)).map fun r => (v.1 :: r.1, r.2)
        else if c = ']' then some ([v.1], rest)
        else none

/-- The members of an object up to its closing brace. -/
def readMembers : ℕ → List Char → Option (List (String × Value) × List Char)
  | 0, _ => none
  | fuel + 1, cs =>
    (readKey cs).bind fun k =>
      (readValue fuel k.2).bind fun v =>
        match skipSpace v.2 with
        | [] => none
        | c :: rest =>
          if c = ',' then
            (readMembers fuel (skipSpace rest)).map fun r => ((k.1, v.1) :: r.1, r.2)
          else if c = '}' then some ([(k.1, v.1)], rest)
          else none

end

/-- `json.load(fh)`, with `none` for a `ValueError`. -/
def load (text : List Char) : Option Value :=
  (readValue (2 * text.length + 1) (skipSpace text)).bind fun r =>
    if skipSpace r.2 = [] then some r.1 else none

/-! ## What is read closes what it opens -/

/-- A part of the text was read, and it closes what it opens. -/
def Consumes (cs rest : List Char) : Prop := ∃ used, used ≠ [] ∧ Within used ∧ cs = used ++ rest

theorem Consumes.length_lt {cs rest : List Char} (h : Consumes cs rest) :
    rest.length < cs.length := by
  obtain ⟨used, hne, -, rfl⟩ := h
  have := List.length_pos_iff.2 hne
  rw [List.length_append]
  omega

theorem Consumes.append {cs mid rest : List Char} (h : Consumes cs mid) {more : List Char}
    (hmore : Within more) (hmid : mid = more ++ rest) : Consumes cs rest := by
  obtain ⟨used, hne, hused, rfl⟩ := h
  refine ⟨used ++ more, List.append_ne_nil_of_left_ne_nil hne _, hused.append hmore, ?_⟩
  rw [hmid, List.append_assoc]

theorem Consumes.trans {cs mid rest : List Char} (h : Consumes cs mid) (h' : Consumes mid rest) :
    Consumes cs rest := by
  obtain ⟨more, -, hmore, hmid⟩ := h'
  exact h.append hmore hmid

theorem consumes_plain {used : List Char} (hne : used ≠ []) (h : ∀ c ∈ used, isPlain c = true)
    (rest : List Char) : Consumes (used ++ rest) rest :=
  ⟨used, hne, within_plain h, rfl⟩

theorem isPlain_of_isDigit {c : Char} (h : isDigit c = true) : isPlain c = true :=
  isPlain_of_isNumeral (by rw [isNumeral, h]; rfl)

theorem isPlain_of_isSpace {c : Char} (h : isSpace c = true) : isPlain c = true := by
  have hne : ∀ e : Char, isSpace e = false → c ≠ e := by
    rintro e he rfl
    rw [h] at he
    cases he
  simp [isPlain, hne quote (by decide), hne '{' (by decide), hne '[' (by decide),
    hne '}' (by decide), hne ']' (by decide)]

theorem exists_skipSpace (cs : List Char) : ∃ space, Within space ∧ cs = space ++ skipSpace cs :=
  ⟨cs.takeWhile isSpace,
    within_plain fun _ hc => isPlain_of_isSpace (List.mem_takeWhile_imp hc),
    List.takeWhile_append_dropWhile.symm⟩

theorem Consumes.skipSpace {cs mid : List Char} (h : Consumes cs mid) :
    Consumes cs (skipSpace mid) := by
  obtain ⟨space, hspace, hmid⟩ := exists_skipSpace mid
  exact h.append hspace hmid

theorem length_skipSpace_le (cs : List Char) : (skipSpace cs).length ≤ cs.length := by
  obtain ⟨space, -, hcs⟩ := exists_skipSpace cs
  have := congrArg List.length hcs
  rw [List.length_append] at this
  omega

theorem takeNat_spec {cs t rest : List Char} (h : takeNat cs = some (t, rest)) :
    t ≠ [] ∧ (∀ c ∈ t, isDigit c = true) ∧ cs = t ++ rest := by
  cases cs with
  | nil => cases h
  | cons c cs =>
    rw [takeNat] at h
    split_ifs at h with hzero hdigit
    · cases h
      refine ⟨by simp, ?_, by rw [hzero]; rfl⟩
      intro d hd
      rw [List.mem_singleton.1 hd]
      rfl
    · cases h
      refine ⟨by simp, ?_, ?_⟩
      · intro d hd
        rcases List.mem_cons.1 hd with rfl | hd
        · exact hdigit
        · exact List.mem_takeWhile_imp hd
      · rw [List.cons_append, List.takeWhile_append_dropWhile]

theorem takeWhole_spec {cs t rest : List Char} (h : takeWhole cs = some (t, rest)) :
    t ≠ [] ∧ (∀ c ∈ t, isPlain c = true) ∧ cs = t ++ rest := by
  cases cs with
  | nil => cases h
  | cons c cs =>
    rw [takeWhole] at h
    split_ifs at h with hminus
    · obtain ⟨⟨digits, tail⟩, hnat, hpair⟩ := Option.map_eq_some_iff.1 h
      cases hpair
      obtain ⟨-, hdigits, rfl⟩ := takeNat_spec hnat
      refine ⟨by simp, ?_, by rw [hminus]; rfl⟩
      intro d hd
      rcases List.mem_cons.1 hd with rfl | hd
      · decide
      · exact isPlain_of_isDigit (hdigits d hd)
    · obtain ⟨hne, hdigits, htext⟩ := takeNat_spec h
      exact ⟨hne, fun d hd => isPlain_of_isDigit (hdigits d hd), htext⟩

theorem takePoint_spec (cs : List Char) :
    (∀ c ∈ (takePoint cs).1, isPlain c = true) ∧ cs = (takePoint cs).1 ++ (takePoint cs).2 := by
  cases cs with
  | nil => simp [takePoint]
  | cons c cs =>
    rw [takePoint]
    split_ifs with h
    · rw [h.1]
      refine ⟨?_, by rw [List.cons_append, List.takeWhile_append_dropWhile]⟩
      intro d hd
      rcases List.mem_cons.1 hd with rfl | hd
      · decide
      · exact isPlain_of_isDigit (List.mem_takeWhile_imp hd)
    · simp

theorem takeSignText_spec (cs : List Char) :
    (∀ c ∈ (takeSignText cs).1, isPlain c = true) ∧
      cs = (takeSignText cs).1 ++ (takeSignText cs).2 := by
  cases cs with
  | nil => simp [takeSignText]
  | cons c cs =>
    rw [takeSignText]
    split_ifs with h
    · refine ⟨?_, rfl⟩
      intro d hd
      rw [List.mem_singleton.1 hd]
      rcases h with rfl | rfl
      · decide
      · decide
    · simp

theorem takePower_spec (cs : List Char) :
    (∀ c ∈ (takePower cs).1, isPlain c = true) ∧ cs = (takePower cs).1 ++ (takePower cs).2 := by
  cases cs with
  | nil => simp [takePower]
  | cons c cs =>
    obtain ⟨hsign, hcs⟩ := takeSignText_spec cs
    simp only [takePower]
    split_ifs with h
    · refine ⟨?_, ?_⟩
      · intro d hd
        rcases List.mem_cons.1 hd with rfl | hd
        · rcases h.1 with rfl | rfl
          · decide
          · decide
        · rcases List.mem_append.1 hd with hd | hd
          · exact hsign d hd
          · exact isPlain_of_isDigit (List.mem_takeWhile_imp hd)
      · rw [List.cons_append, List.append_assoc, List.takeWhile_append_dropWhile, ← hcs]
    · simp

theorem readNumber_consumes {cs rest : List Char} {v : Value}
    (h : readNumber cs = some (v, rest)) : Consumes cs rest := by
  obtain ⟨⟨whole, tail⟩, hwhole, hvalue⟩ := Option.bind_eq_some_iff.1 h
  obtain ⟨hne, hplain, rfl⟩ := takeWhole_spec hwhole
  obtain ⟨hpoint, htail⟩ := takePoint_spec tail
  obtain ⟨hpower, hpointRest⟩ := takePower_spec (takePoint tail).2
  have hrest : rest = (takePower (takePoint tail).2).2 := by
    dsimp only at hvalue
    split_ifs at hvalue
    · obtain ⟨z, -, hz⟩ := Option.map_eq_some_iff.1 hvalue
      exact (congrArg Prod.snd hz).symm
    · obtain ⟨q, -, hq⟩ := Option.map_eq_some_iff.1 hvalue
      exact (congrArg Prod.snd hq).symm
  rw [← hrest] at hpointRest
  exact ((consumes_plain hne hplain tail).append (within_plain hpoint) htail).append
    (within_plain hpower) hpointRest

theorem dropPrefix_eq_some {w : String} {cs rest : List Char} (h : dropPrefix w cs = some rest) :
    cs = w.toList ++ rest := by
  unfold dropPrefix at h
  split_ifs at h with hpre
  obtain ⟨t, rfl⟩ := List.isPrefixOf_iff_prefix.1 hpre
  rw [← Option.some.inj h, List.drop_left]

theorem readWord_consumes {cs rest : List Char} {v : Value} (h : readWord cs = some (v, rest)) :
    Consumes cs rest := by
  obtain ⟨w, hw, hread⟩ := List.exists_of_findSome?_eq_some h
  obtain ⟨tail, htail, hpair⟩ := Option.map_eq_some_iff.1 hread
  cases hpair
  have hall : words.all (fun w => w.1.toList ≠ [] ∧ w.1.toList.all isPlain) = true := by
    decide +kernel
  obtain ⟨hne, hplain⟩ := of_decide_eq_true (List.all_eq_true.1 hall w hw)
  rw [dropPrefix_eq_some htail]
  exact consumes_plain hne (List.all_eq_true.1 hplain) _

theorem readAtom_consumes {cs rest : List Char} {v : Value} (h : readAtom cs = some (v, rest)) :
    Consumes cs rest := by
  rcases Option.or_eq_some_iff.1 h with h | ⟨-, h⟩
  · exact readNumber_consumes h
  · exact readWord_consumes h

theorem hexVal_ne {c : Char} {u : ℕ} (h : hexVal c = some u) : c ≠ quote ∧ c ≠ backslash := by
  have hquote : hexVal quote = none := by decide
  have hback : hexVal backslash = none := by decide
  constructor
  · rintro rfl
    rw [hquote] at h
    cases h
  · rintro rfl
    rw [hback] at h
    cases h

/-- The inside of a string that is read, up to its closing quote. -/
theorem exists_body_of_scan {cs rest : List Char} {units : List ℕ}
    (h : Json.scan cs = some (units, rest)) : ∃ body, Body body ∧ cs = body ++ quote :: rest := by
  fun_induction Json.scan cs generalizing units rest with
  | case1 => cases h
  | case2 cs =>
    cases h
    exact ⟨[], .nil, rfl⟩
  | case3 => cases h
  | case4 h1 h2 h3 h4 tail _ ih =>
    obtain ⟨u, hu, h⟩ := Option.bind_eq_some_iff.1 h
    obtain ⟨r, hr, hpair⟩ := Option.map_eq_some_iff.1 h
    cases hpair
    obtain ⟨body, hbody, rfl⟩ := ih hr
    obtain ⟨a, ha, hu⟩ := Option.bind_eq_some_iff.1 hu
    obtain ⟨b, hb, hu⟩ := Option.bind_eq_some_iff.1 hu
    obtain ⟨c, hc, hu⟩ := Option.bind_eq_some_iff.1 hu
    obtain ⟨d, hd, -⟩ := Option.bind_eq_some_iff.1 hu
    refine ⟨backslash :: 'u' :: h1 :: h2 :: h3 :: h4 :: body, ?_, rfl⟩
    exact .escape 'u' (.char (hexVal_ne ha).1 (hexVal_ne ha).2 (.char (hexVal_ne hb).1
      (hexVal_ne hb).2 (.char (hexVal_ne hc).1 (hexVal_ne hc).2 (.char (hexVal_ne hd).1
        (hexVal_ne hd).2 hbody))))
  | case5 => cases h
  | case6 e tail _ _ ih =>
    obtain ⟨x, -, h⟩ := Option.bind_eq_some_iff.1 h
    obtain ⟨r, hr, hpair⟩ := Option.map_eq_some_iff.1 h
    cases hpair
    obtain ⟨body, hbody, rfl⟩ := ih hr
    exact ⟨backslash :: e :: body, .escape e hbody, rfl⟩
  | case7 => cases h
  | case8 c tail hquote hback _ ih =>
    obtain ⟨r, hr, hpair⟩ := Option.map_eq_some_iff.1 h
    cases hpair
    obtain ⟨body, hbody, rfl⟩ := ih hr
    exact ⟨c :: body, .char hquote hback hbody, rfl⟩

theorem within_quoted {body : List Char} (hbody : Body body) :
    Within (quote :: (body ++ [quote])) := by
  have hquote (d : ℕ) : Scan.char ⟨d, .outside⟩ quote = ⟨d, .inside⟩ := by simp [Scan.char]
  constructor
  · intro d
    rw [scan_cons, hquote]
    exact (hbody.scan_inside d).1
  · intro d p hp
    rcases List.prefix_cons_iff.1 hp with rfl | ⟨q, rfl, hq⟩
    · exact le_rfl
    · rw [scan_cons, hquote]
      exact ((hbody.scan_inside d).2 q hq).ge

theorem readString_consumes {cs rest : List Char} {s : String}
    (h : readString cs = some (s, rest)) : Consumes (quote :: cs) rest := by
  obtain ⟨r, hscan, h⟩ := Option.bind_eq_some_iff.1 h
  obtain ⟨text, -, hpair⟩ := Option.map_eq_some_iff.1 h
  cases hpair
  obtain ⟨body, hbody, rfl⟩ := exists_body_of_scan hscan
  exact ⟨quote :: (body ++ [quote]), by simp, within_quoted hbody, by simp⟩

theorem consumes_char {c : Char} (hc : isPlain c = true) (rest : List Char) :
    Consumes (c :: rest) rest :=
  consumes_plain (List.cons_ne_nil c []) (by simpa using hc) rest

theorem readKey_consumes {cs rest : List Char} {k : String} (h : readKey cs = some (k, rest)) :
    Consumes cs rest := by
  cases cs with
  | nil => cases h
  | cons c cs =>
    rw [readKey] at h
    split_ifs at h with hquote
    obtain ⟨⟨key, tail⟩, hkey, h⟩ := Option.bind_eq_some_iff.1 h
    have hread := (readString_consumes hkey).skipSpace
    dsimp only at h
    cases hskip : skipSpace tail with
    | nil =>
      rw [hskip] at h
      cases h
    | cons d ds =>
      rw [hskip] at h hread
      dsimp only at h
      split_ifs at h with hcolon
      cases h
      rw [hcolon] at hread
      rw [hquote]
      exact hread.trans (consumes_char (by decide) ds).skipSpace

/-! ### Values -/

/-- What a bracket encloses, up to the bracket that closes it. -/
def Closes (close : Char) (cs rest : List Char) : Prop :=
  ∃ body, Within body ∧ cs = body ++ close :: rest

theorem closes_nil (close : Char) (rest : List Char) : Closes close (close :: rest) rest :=
  ⟨[], within_nil, rfl⟩

theorem Closes.after {close : Char} {cs mid rest : List Char} (h : Closes close mid rest)
    (hread : Consumes cs mid) : Closes close cs rest := by
  obtain ⟨body, hbody, rfl⟩ := h
  obtain ⟨used, -, hused, rfl⟩ := hread
  exact ⟨used ++ body, hused.append hbody, (List.append_assoc _ _ _).symm⟩

theorem Closes.consumes {opening close : Char} (ho : opening = '{' ∨ opening = '[')
    (hc : close = '}' ∨ close = ']') {cs rest : List Char} (h : Closes close (skipSpace cs) rest) :
    Consumes (opening :: cs) rest := by
  obtain ⟨space, hspace, hcs⟩ := exists_skipSpace cs
  obtain ⟨body, hbody, hskip⟩ := h
  refine ⟨opening :: (space ++ body ++ [close]), by simp,
    within_bracket ho hc (hspace.append hbody), ?_⟩
  rw [hcs, hskip]
  simp

mutual

/-- **What is read of a text closes the brackets that it opens.** -/
theorem readValue_consumes : ∀ (fuel : ℕ) {cs rest : List Char} {v : Value},
    readValue fuel cs = some (v, rest) → Consumes cs rest
  | 0, _, _, _, h => by
    rw [readValue] at h
    cases h
  | _ + 1, [], _, _, h => by
    rw [readValue] at h
    cases h
  | fuel + 1, c :: cs, rest, v, h => by
    rw [readValue] at h
    split_ifs at h with hquote hlist hdict
    · obtain ⟨⟨s, tail⟩, hs, hpair⟩ := Option.map_eq_some_iff.1 h
      cases hpair
      rw [hquote]
      exact readString_consumes hs
    · rw [hlist]
      apply Closes.consumes (.inr rfl) (.inr rfl)
      cases hskip : skipSpace cs with
      | nil =>
        rw [hskip] at h
        cases h
      | cons d ds =>
        rw [hskip] at h
        dsimp only at h
        split_ifs at h with hend
        · cases h
          rw [hend]
          exact closes_nil ']' _
        · obtain ⟨⟨vs, tail⟩, hvs, hpair⟩ := Option.map_eq_some_iff.1 h
          cases hpair
          exact readElements_closes fuel hvs
    · rw [hdict]
      apply Closes.consumes (.inl rfl) (.inl rfl)
      cases hskip : skipSpace cs with
      | nil =>
        rw [hskip] at h
        cases h
      | cons d ds =>
        rw [hskip] at h
        dsimp only at h
        split_ifs at h with hend
        · cases h
          rw [hend]
          exact closes_nil '}' _
        · obtain ⟨⟨ms, tail⟩, hms, hpair⟩ := Option.map_eq_some_iff.1 h
          cases hpair
          exact readMembers_closes fuel hms
    · exact readAtom_consumes h

theorem readElements_closes : ∀ (fuel : ℕ) {cs rest : List Char} {vs : List Value},
    readElements fuel cs = some (vs, rest) → Closes ']' cs rest
  | 0, _, _, _, h => by
    rw [readElements] at h
    cases h
  | fuel + 1, cs, rest, vs, h => by
    rw [readElements] at h
    obtain ⟨⟨v, tail⟩, hv, h⟩ := Option.bind_eq_some_iff.1 h
    have hread := (readValue_consumes fuel hv).skipSpace
    dsimp only at h
    cases hskip : skipSpace tail with
    | nil =>
      rw [hskip] at h
      cases h
    | cons c ds =>
      rw [hskip] at h hread
      dsimp only at h
      split_ifs at h with hcomma hend
      · obtain ⟨⟨us, more⟩, hus, hpair⟩ := Option.map_eq_some_iff.1 h
        cases hpair
        rw [hcomma] at hread
        exact (readElements_closes fuel hus).after
          (hread.trans (consumes_char (by decide) ds).skipSpace)
      · cases h
        rw [hend] at hread
        exact (closes_nil ']' _).after hread

theorem readMembers_closes : ∀ (fuel : ℕ) {cs rest : List Char} {ms : List (String × Value)},
    readMembers fuel cs = some (ms, rest) → Closes '}' cs rest
  | 0, _, _, _, h => by
    rw [readMembers] at h
    cases h
  | fuel + 1, cs, rest, ms, h => by
    rw [readMembers] at h
    obtain ⟨⟨k, mid⟩, hk, h⟩ := Option.bind_eq_some_iff.1 h
    obtain ⟨⟨v, tail⟩, hv, h⟩ := Option.bind_eq_some_iff.1 h
    have hread := ((readKey_consumes hk).trans (readValue_consumes fuel hv)).skipSpace
    dsimp only at h
    cases hskip : skipSpace tail with
    | nil =>
      rw [hskip] at h
      cases h
    | cons c ds =>
      rw [hskip] at h hread
      dsimp only at h
      split_ifs at h with hcomma hend
      · obtain ⟨⟨us, more⟩, hus, hpair⟩ := Option.map_eq_some_iff.1 h
        cases hpair
        rw [hcomma] at hread
        exact (readMembers_closes fuel hus).after
          (hread.trans (consumes_char (by decide) ds).skipSpace)
      · cases h
        rw [hend] at hread
        exact (closes_nil '}' _).after hread

end

/-- The empty text is no document. -/
theorem load_nil : load [] = none := rfl

/-- A document closes its brackets and strings. -/
theorem scan_of_load {text : List Char} {v : Value} (h : load text = some v) :
    JsonStream.scan closed text = closed := by
  obtain ⟨⟨w, rest⟩, hread, hend⟩ := Option.bind_eq_some_iff.1 h
  obtain ⟨space, hspace, htext⟩ := exists_skipSpace text
  obtain ⟨used, -, hused, hskip⟩ := readValue_consumes _ hread
  obtain ⟨more, hmore, hrest⟩ := exists_skipSpace rest
  dsimp only at hend
  split_ifs at hend with hnil
  rw [hskip, hrest, hnil, List.append_nil] at htext
  rw [htext]
  exact (hspace.append (hused.append hmore)).close 0

/-! ## Fuel -/

mutual

/-- More fuel makes no difference where there is enough. -/
theorem readValue_succ : ∀ (fuel : ℕ) (cs : List Char), 2 * cs.length < fuel →
    readValue (fuel + 1) cs = readValue fuel cs
  | 0, _, h => absurd h (Nat.not_lt_zero _)
  | _ + 1, [], _ => by rw [readValue, readValue]
  | fuel + 1, c :: cs, h => by
    rw [List.length_cons] at h
    have hskip := length_skipSpace_le cs
    rw [readValue, readValue]
    cases hds : skipSpace cs with
    | nil => rfl
    | cons d ds =>
      rw [hds] at hskip
      dsimp only
      rw [readElements_succ fuel (d :: ds) (by omega), readMembers_succ fuel (d :: ds) (by omega)]

theorem readElements_succ : ∀ (fuel : ℕ) (cs : List Char), 2 * cs.length + 1 < fuel →
    readElements (fuel + 1) cs = readElements fuel cs
  | 0, _, h => absurd h (Nat.not_lt_zero _)
  | fuel + 1, cs, h => by
    rw [readElements, readElements, readValue_succ fuel cs (by omega)]
    cases hv : readValue fuel cs with
    | none => rfl
    | some v =>
      have hread := (readValue_consumes fuel hv).length_lt
      simp only [Option.bind_some]
      cases hds : skipSpace v.2 with
      | nil => rfl
      | cons c ds =>
        have hskip := length_skipSpace_le v.2
        have htail := length_skipSpace_le ds
        rw [hds, List.length_cons] at hskip
        dsimp only
        rw [readElements_succ fuel (skipSpace ds) (by omega)]

theorem readMembers_succ : ∀ (fuel : ℕ) (cs : List Char), 2 * cs.length + 1 < fuel →
    readMembers (fuel + 1) cs = readMembers fuel cs
  | 0, _, h => absurd h (Nat.not_lt_zero _)
  | fuel + 1, cs, h => by
    rw [readMembers, readMembers]
    cases hk : readKey cs with
    | none => rfl
    | some k =>
      have hkey := (readKey_consumes hk).length_lt
      simp only [Option.bind_some]
      rw [readValue_succ fuel k.2 (by omega)]
      cases hv : readValue fuel k.2 with
      | none => rfl
      | some v =>
        have hread := (readValue_consumes fuel hv).length_lt
        simp only [Option.bind_some]
        cases hds : skipSpace v.2 with
        | nil => rfl
        | cons c ds =>
          have hskip := length_skipSpace_le v.2
          have htail := length_skipSpace_le ds
          rw [hds, List.length_cons] at hskip
          dsimp only
          rw [readMembers_succ fuel (skipSpace ds) (by omega)]

end

/-- **Twice the length of the text is enough fuel.** -/
theorem readValue_of_le {fuel : ℕ} {cs : List Char} (h : 2 * cs.length < fuel) :
    readValue fuel cs = readValue (2 * cs.length + 1) cs := by
  induction fuel, h using Nat.le_induction with
  | base => rfl
  | succ fuel hle ih => rw [readValue_succ fuel cs hle, ih]

end TransferTestbed.JsonDocument
