import QueryLint.Proofs.TokenDivision

/-!
What string literals stand for. A decoder that reads the inside of a literal once, from left to
right, gives the value of its token. The scanner goes over the same text twice, by two patterns; the
pieces that both scans split it into are listed here, and behind the first scan the second comes to
the same pieces, all of which have a meaning. In the other direction each code point of a value can
be written in any form that is allowed for it, in any mixture, and lexing the literal gives the
value back.
-/

namespace QueryLint

/-! Decoding in one pass -/

/-- The hexadecimal digits with their values. -/
def hexDigits : List (CodePoint × Nat) :=
  (Text.ofString "0123456789").zipIdx ++ (Text.ofString "abcdef").zipIdx 10 ++
    (Text.ofString "ABCDEF").zipIdx 10

/-- The text that the inside of a string literal stands for, nothing if it is not the inside of
one. -/
def decodeString : Text → Option Text
  | [] => some []
  | .scalar '\\' :: .scalar 'u' :: a :: b :: c :: d :: rest => do
    let i ← hexDigits.lookup a
    let j ← hexDigits.lookup b
    let k ← hexDigits.lookup c
    let l ← hexDigits.lookup d
    return .ofNat (((i * 16 + j) * 16 + k) * 16 + l) :: (← decodeString rest)
  | .scalar '\\' :: sign :: rest => do
    let meant ← escapeSigns.lookup sign
    return meant :: (← decodeString rest)
  | point :: rest =>
    if point = '"' ∨ point = '\\' ∨ point ≠ '\t' ∧ point.toNat < 0x20 then none
    else (decodeString rest).map (point :: ·)

theorem CodePoint.ofNat_toNat (point : CodePoint) : ofNat point.toNat = point := by
  cases point with
  | scalar char =>
    have hscalar : ¬(0xD800 ≤ char.toNat ∧ char.toNat < 0xE000) := by
      have hvalid : char.toNat < 0xD800 ∨ 0xDFFF < char.toNat ∧ char.toNat < 0x110000 := char.valid
      omega
    rw [toNat, ofNat, dif_neg hscalar, Char.ofNat_toNat]
  | surrogate index =>
    have hrange : 0xD800 ≤ 0xD800 + index.val ∧ 0xD800 + index.val < 0xE000 := by omega
    rw [toNat, ofNat, dif_pos hrange]
    simp

theorem hexDigits_lookup_iff {digit : CodePoint} {value : Nat} :
    hexDigits.lookup digit = some value ↔ HexDigit digit value := by
  constructor
  · intro h
    have hall : ∀ entry ∈ hexDigits, hexDigit? entry.1 = some entry.2 := by decide
    exact hexDigit?_eq_some_iff.mp (hall _ (mem_of_lookup_eq_some h))
  · have hdecimal : ∀ value < 10,
        hexDigits.lookup (.ofNat ('0'.toNat + value)) = some value := by decide
    have hletter : ∀ above < 6,
        hexDigits.lookup (.ofNat ('a'.toNat + above)) = some (10 + above) ∧
        hexDigits.lookup (.ofNat ('A'.toNat + above)) = some (10 + above) := by decide
    rintro (⟨hvalue, hdigit⟩ | ⟨⟨hlow, hhigh⟩, hdigit⟩)
    · rw [← digit.ofNat_toNat, hdigit]
      exact hdecimal value hvalue
    · obtain ⟨above, rfl⟩ := Nat.exists_eq_add_of_le hlow
      have hboth := hletter above (by omega)
      rw [← digit.ofNat_toNat]
      rcases hdigit with hdigit | hdigit
      · rw [show digit.toNat = 'a'.toNat + above by omega]
        exact hboth.1
      · rw [show digit.toNat = 'A'.toNat + above by omega]
        exact hboth.2

theorem stringText_of_decodeString {inner value : Text} (h : decodeString inner = some value) :
    StringText inner value := by
  fun_induction decodeString inner generalizing value with
  | case1 =>
    cases h
    exact .done
  | case2 a b c d rest ih =>
    simp only [Option.bind_eq_bind, Option.bind_eq_some_iff, Option.pure_def, Option.some_inj,
      hexDigits_lookup_iff] at h
    obtain ⟨i, ha, j, hb, k, hc, l, hd, later, hlater, rfl⟩ := h
    exact .escape (.code ha hb hc hd) (ih hlater)
  | case3 sign rest hcode ih =>
    simp only [Option.bind_eq_bind, Option.bind_eq_some_iff, Option.pure_def, Option.some_inj,
      escapeSigns_lookup_iff] at h
    obtain ⟨meant, hmeant, later, hlater, rfl⟩ := h
    exact .escape (.sign hmeant) (ih hlater)
  | case4 point rest hcode hsign hrefused => cases h
  | case5 point rest hcode hsign hplain ih =>
    obtain ⟨later, hlater, rfl⟩ := Option.map_eq_some_iff.mp h
    simp only [not_or, not_and, Nat.not_lt] at hplain
    refine .plain hplain.1 hplain.2.1 ?_ (ih hlater)
    by_cases htab : point = '\t'
    · exact .inl htab
    · exact .inr (hplain.2.2 htab)

theorem StringText.decodeString {inner value : Text} (h : StringText inner value) :
    QueryLint.decodeString inner = some value := by
  induction h with
  | done => rfl
  | @plain point inner value hquote hbackslash hcontrol _ ih =>
    have hplain : ¬(point = '"' ∨ point = '\\' ∨ point ≠ '\t' ∧ point.toNat < 0x20) := by
      rintro (hpoint | hpoint | ⟨htab, hlow⟩)
      · exact hquote hpoint
      · exact hbackslash hpoint
      · exact absurd (hcontrol.resolve_left htab) (Nat.not_le.mpr hlow)
    rw [QueryLint.decodeString, if_neg hplain, ih]
    · rfl
    · rintro a b c d rest rfl
      exact absurd rfl hbackslash
    · rintro sign rest rfl
      exact absurd rfl hbackslash
  | @escape text inner point value htext _ ih =>
    cases htext with
    | @sign sign meant hsign =>
      have hothers : ∀ entry ∈ escapeSigns, entry.1 ≠ 'u' := by decide
      have hother : sign ≠ 'u' := hothers _ hsign
      rw [List.singleton_append, QueryLint.decodeString, escapeSigns_lookup_iff.mpr hsign, ih]
      · rfl
      · rintro a b c d rest rfl
        exact absurd rfl hother
    | @code a b c d i j k l ha hb hc hd =>
      change QueryLint.decodeString ('\\' :: 'u' :: a :: b :: c :: d :: inner) = _
      rw [QueryLint.decodeString, hexDigits_lookup_iff.mpr ha, hexDigits_lookup_iff.mpr hb,
        hexDigits_lookup_iff.mpr hc, hexDigits_lookup_iff.mpr hd, ih]
      rfl

theorem decodeString_eq_some_iff {inner value : Text} :
    decodeString inner = some value ↔ StringText inner value :=
  ⟨stringText_of_decodeString, StringText.decodeString⟩

/-! The two scans -/

/-- The pieces that the first scan of a literal takes, one after the other: plain code points and
escapes, up to the first code point that is neither. -/
def takenPieces : Text → List Text
  | [] => []
  | point :: rest =>
    if point = '\\' then
      match escapeSize? rest with
      | some size => (point :: rest.take size) :: takenPieces (rest.drop size)
      | none => []
    else if isStringChar point then [point] :: takenPieces rest
    else []
  termination_by text => text.length
  decreasing_by all_goals simp only [List.length_cons, List.length_drop]; omega

/-- The pieces into which the second scan splits a text, each with what it stands for. What matches
the pattern of an escape is one piece, with or without a meaning, and everything else stands for
itself. -/
def decodedPieces : Text → List (Text × Option CodePoint)
  | [] => []
  | point :: rest =>
    match Escape.match? (point :: rest) with
    | some escape =>
      (point :: rest.take escape.size, escape.decode?) :: decodedPieces (rest.drop escape.size)
    | none => ([point], some point) :: decodedPieces rest
  termination_by text => text.length
  decreasing_by all_goals simp only [List.length_cons, List.length_drop]; omega

/-- The first scan takes as much text as its pieces have. -/
theorem flatten_takenPieces (text : Text) :
    (takenPieces text).flatten = text.take (stringRun text) := by
  fun_induction takenPieces text with
  | case1 => simp
  | case2 rest size hsize ih =>
    have hrun : stringRun (.scalar '\\' :: rest) = size + stringRun (rest.drop size) + 1 := by
      rw [stringRun, if_pos rfl, hsize]
      dsimp only
      omega
    rw [hrun, List.take_succ_cons, List.take_add, List.flatten_cons, ih, List.cons_append]
  | case3 rest hsize =>
    rw [stringRun, if_pos rfl, hsize]
    rfl
  | case4 point rest hpoint hplain ih =>
    rw [stringRun, if_neg hpoint, if_pos hplain, List.flatten_cons, ih, Nat.add_comm 1,
      List.take_succ_cons]
    rfl
  | case5 point rest hpoint hplain =>
    rw [stringRun, if_neg hpoint, if_neg hplain]
    rfl

/-- The second scan goes over the whole text. -/
theorem flatten_decodedPieces (text : Text) :
    ((decodedPieces text).map Prod.fst).flatten = text := by
  fun_induction decodedPieces text with
  | case1 => rfl
  | case2 point rest escape hmatch ih =>
    rw [List.map_cons, List.flatten_cons, ih, List.cons_append, List.take_append_drop]
  | case3 point rest hmatch ih =>
    rw [List.map_cons, List.flatten_cons, ih]
    rfl

/-- The second scan yields what its pieces stand for, provided that all of them have a meaning. -/
theorem unescape?_eq_mapM_decodedPieces (text : Text) :
    unescape? text = (decodedPieces text).mapM Prod.snd := by
  fun_induction decodedPieces text with
  | case1 =>
    rw [unescape?]
    rfl
  | case2 point rest escape hmatch ih => rw [unescape?, hmatch, List.mapM_cons, ← ih]
  | case3 point rest hmatch ih =>
    rw [unescape?, hmatch, List.mapM_cons, ← ih]
    rfl

/-- Inside a literal both scans take the same pieces, and each of them stands for one code point of
the value. -/
theorem StringText.pieces {inner value : Text} (h : StringText inner value) (after : Text) :
    takenPieces (inner ++ .scalar '"' :: after) = (decodedPieces inner).map Prod.fst ∧
      (decodedPieces inner).map Prod.snd = value.map some := by
  induction h with
  | done =>
    rw [List.nil_append, takenPieces, decodedPieces]
    exact ⟨rfl, rfl⟩
  | @plain point inner value hquote hbackslash hcontrol _ ih =>
    have hplain : isStringChar point = true := by
      simp [isStringChar, hquote, hbackslash, hcontrol]
    rw [List.cons_append, takenPieces, if_neg hbackslash, if_pos hplain, decodedPieces,
      Escape.match?_of_ne hbackslash, ih.1, List.map_cons, List.map_cons, ih.2]
    exact ⟨rfl, rfl⟩
  | @escape text inner point value htext _ ih =>
    obtain ⟨escape, hmatch, hsize, hpoint⟩ := htext.match?_append inner
    rw [List.cons_append, List.append_assoc, takenPieces, if_pos rfl, htext.escapeSize?_append,
      decodedPieces, hmatch]
    simp only [hsize, hpoint, List.take_left, List.drop_left, List.map_cons, ih.1, ih.2, and_self]

/-! Writing literals -/

/-- The ways of writing a code point in a string literal: as itself, by the sign that stands for it,
or by its number in four hexadecimal digits. -/
inductive Spelling : CodePoint → Text → Prop where
  | plain {point : CodePoint} (hquote : point ≠ '"') (hbackslash : point ≠ '\\')
      (hcontrol : point = '\t' ∨ 0x20 ≤ point.toNat) : Spelling point [point]
  | sign {sign meant : CodePoint} (hsign : (sign, meant) ∈ escapeSigns) :
      Spelling meant ['\\', sign]
  | code {point a b c d : CodePoint} {i j k l : Nat} (ha : HexDigit a i) (hb : HexDigit b j)
      (hc : HexDigit c k) (hd : HexDigit d l)
      (hcode : point.toNat = ((i * 16 + j) * 16 + k) * 16 + l) :
      Spelling point ['\\', 'u', a, b, c, d]

theorem Spelling.stringText {point : CodePoint} {text inner value : Text} (h : Spelling point text)
    (hinner : StringText inner value) : StringText (text ++ inner) (point :: value) := by
  cases h with
  | plain hquote hbackslash hcontrol => exact .plain hquote hbackslash hcontrol hinner
  | sign hsign => exact .escape (.sign hsign) hinner
  | @code _ a b c d i j k l ha hb hc hd hcode =>
    rw [← point.ofNat_toNat, hcode]
    exact .escape (.code ha hb hc hd) hinner

theorem StringText.of_spellings {value : Text} {texts : List Text}
    (h : List.Forall₂ Spelling value texts) : StringText texts.flatten value := by
  induction h with
  | nil => exact .done
  | cons hfirst _ ih => exact hfirst.stringText ih

/-- The inside of a literal in quotes is a single token. -/
theorem StringText.lex_eq {inner value : Text} (h : StringText inner value) :
    Source.lex { body := .scalar '"' :: inner ++ [.scalar '"'] } =
      ⟨[⟨.string value, 0, inner.length + 2, 1, 1⟩],
        .ok ⟨.eof, inner.length + 2, inner.length + 2, 1, inner.length + 3⟩⟩ := by
  let source : Source := { body := .scalar '"' :: inner ++ [.scalar '"'] }
  have hform : TokenText (.string value) source.body := .string h
  have hsize : source.body.length = inner.length + 2 := by simp [source]
  rw [hform.lex_eq, hsize]

/-- String literals decode what was encoded. The first scan takes its pieces; the second splits any
text into pieces of its own, and has no result unless all of them have a meaning. The value of every
string token is what reading the inside of its literal once from left to right gives, and so is the
result of the second scan, which comes to the same pieces as the first; each of them is plain or a
known escape and stands for one code point of the value. Every text that can be read so is the
inside of a literal. And whatever code points are written, each in any form that is allowed for it,
the quoted text is a single token that has these code points as its value. -/
theorem string_literals_decode :
    (∀ text, (takenPieces text).flatten = text.take (stringRun text) ∧
      ((decodedPieces text).map Prod.fst).flatten = text ∧
      unescape? text = (decodedPieces text).mapM Prod.snd) ∧
    (∀ (source : Source), ∀ token ∈ source.lex.tokens, ∀ value, token.lexeme = .string value →
      ∃ front inner after, source.body = front ++ .scalar '"' :: (inner ++ .scalar '"' :: after) ∧
        token.start = front.length ∧ token.stop = token.start + inner.length + 2 ∧
        decodeString inner = some value ∧ unescape? inner = some value ∧
        takenPieces (inner ++ .scalar '"' :: after) = (decodedPieces inner).map Prod.fst ∧
        (decodedPieces inner).map Prod.snd = value.map some) ∧
    (∀ inner value : Text, decodeString inner = some value →
      (Source.lex { body := .scalar '"' :: inner ++ [.scalar '"'] }).tokens =
        [⟨.string value, 0, inner.length + 2, 1, 1⟩]) ∧
    ∀ (value : Text) (texts : List Text), List.Forall₂ Spelling value texts →
      let source : Source := { body := .scalar '"' :: texts.flatten ++ [.scalar '"'] }
      let size := texts.flatten.length + 2
      source.lex = ⟨[⟨.string value, 0, size, 1, 1⟩], .ok ⟨.eof, size, size, 1, size + 1⟩⟩ := by
  refine ⟨?_, ?_, ?_, ?_⟩
  · intro text
    exact ⟨flatten_takenPieces text, flatten_decodedPieces text,
      unescape?_eq_mapM_decodedPieces text⟩
  · intro source token htoken value hvalue
    obtain ⟨front, text, after, hbody, hstart, hstop, htext⟩ := Source.tokenText_of_mem_lex htoken
    rw [hvalue] at htext
    cases htext with
    | @string inner _ hinner =>
      obtain ⟨hsame, hknown⟩ := hinner.pieces after
      refine ⟨front, inner, after, by simpa using hbody, hstart, ?_,
        decodeString_eq_some_iff.mpr hinner, hinner.unescape?, hsame, hknown⟩
      rw [hstop]
      simp only [List.cons_append, List.length_cons, List.length_append, List.length_nil]
      omega
  · intro inner value hdecoded
    rw [(decodeString_eq_some_iff.mp hdecoded).lex_eq]
  · intro value texts htexts
    exact (StringText.of_spellings htexts).lex_eq

/-- A surrogate by its number and as itself, an escaped backslash in front of a plain `u`, a quote
by its sign and a line feed by its number. -/
theorem string_literals_decode_mixture :
    let value : Text := [.surrogate 61, .surrogate 61, '\\', 'u', '"', '\n']
    let texts : List Text := ["\\ud83D", [.surrogate 61], "\\\\", "u", "\\\"", "\\u000a"]
    List.Forall₂ Spelling value texts ∧
      Source.lex { body := .scalar '"' :: texts.flatten ++ [.scalar '"'] } =
        ⟨[⟨.string value, 0, 20, 1, 1⟩], .ok ⟨.eof, 20, 20, 1, 21⟩⟩ := by
  intro value texts
  have hspelled : List.Forall₂ Spelling value texts := by
    refine .cons ?_ (.cons ?_ (.cons ?_ (.cons ?_ (.cons ?_ (.cons ?_ .nil)))))
    · exact .code (hexDigit?_eq_some_iff.mp rfl) (hexDigit?_eq_some_iff.mp rfl)
        (hexDigit?_eq_some_iff.mp rfl) (hexDigit?_eq_some_iff.mp rfl) rfl
    · exact .plain (by decide) (by decide) (by decide)
    · exact .sign (by decide)
    · exact .plain (by decide) (by decide) (by decide)
    · exact .sign (by decide)
    · exact .code (hexDigit?_eq_some_iff.mp rfl) (hexDigit?_eq_some_iff.mp rfl)
        (hexDigit?_eq_some_iff.mp rfl) (hexDigit?_eq_some_iff.mp rfl) rfl
  exact ⟨hspelled, string_literals_decode.2.2.2 value texts hspelled⟩

end QueryLint
