import QueryLint.Token.Scan

/-!
String literals. The inside of a literal is a sequence of plain code points and escapes, each of
which stands for one code point. The scanner goes over it twice, first for its end and then for its
value; both scans split it into the same pieces, and they take exactly what has this form.
-/

namespace QueryLint

/-- The signs that may stand behind a backslash, with the code points that they stand for. -/
def escapeSigns : List (CodePoint × CodePoint) :=
  [('"', '"'), ('\\', '\\'), ('/', '/'), ('b', '\x08'), ('f', '\x0c'), ('n', '\n'), ('r', '\r'),
    ('t', '\t')]

/-- A hexadecimal digit, small or capital, with its value. -/
def HexDigit (digit : CodePoint) (value : Nat) : Prop :=
  value < 10 ∧ digit.toNat = '0'.toNat + value ∨
    (10 ≤ value ∧ value < 16) ∧
      (digit.toNat + 10 = 'a'.toNat + value ∨ digit.toNat + 10 = 'A'.toNat + value)

/-- What may stand behind a backslash: a sign, or the code point in four hexadecimal digits. -/
inductive EscapeText : Text → CodePoint → Prop where
  | sign {sign meant : CodePoint} (hsign : (sign, meant) ∈ escapeSigns) : EscapeText [sign] meant
  | code {a b c d : CodePoint} {i j k l : Nat} (ha : HexDigit a i) (hb : HexDigit b j)
      (hc : HexDigit c k) (hd : HexDigit d l) :
      EscapeText ['u', a, b, c, d] (.ofNat (((i * 16 + j) * 16 + k) * 16 + l))

/-- The inside of a string literal, read once from left to right, with the text that it stands
for. -/
inductive StringText : Text → Text → Prop where
  | done : StringText [] []
  | plain {point : CodePoint} {inner value : Text} (hquote : point ≠ '"')
      (hbackslash : point ≠ '\\') (hcontrol : point = '\t' ∨ 0x20 ≤ point.toNat)
      (hrest : StringText inner value) : StringText (point :: inner) (point :: value)
  | escape {text inner : Text} {point : CodePoint} {value : Text} (htext : EscapeText text point)
      (hrest : StringText inner value) : StringText ('\\' :: (text ++ inner)) (point :: value)

/-! Escapes in both scans -/

theorem mem_of_lookup_eq_some {α : Type} {entries : List (CodePoint × α)} {point : CodePoint}
    {value : α} (h : entries.lookup point = some value) : (point, value) ∈ entries := by
  obtain ⟨before, after, rfl, -⟩ := List.lookup_eq_some_iff.mp h
  simp

theorem escapeSigns_lookup_iff {sign meant : CodePoint} :
    escapeSigns.lookup sign = some meant ↔ (sign, meant) ∈ escapeSigns := by
  have hall : ∀ entry ∈ escapeSigns, escapeSigns.lookup entry.1 = some entry.2 := by decide
  exact ⟨mem_of_lookup_eq_some, hall _⟩

theorem isEscapeSign_iff {sign : CodePoint} :
    isEscapeSign sign = true ↔ ∃ meant, (sign, meant) ∈ escapeSigns := by
  constructor
  · intro h
    have hall : ∀ sign ∈ Text.ofString "\"\\/bfnrt", (escapeSigns.lookup sign).isSome := by decide
    obtain ⟨meant, hmeant⟩ :=
      Option.isSome_iff_exists.mp (hall sign (List.contains_iff_mem.mp h))
    exact ⟨meant, mem_of_lookup_eq_some hmeant⟩
  · rintro ⟨meant, hmeant⟩
    have hall : ∀ entry ∈ escapeSigns, isEscapeSign entry.1 = true := by decide
    exact hall _ hmeant

theorem Escape.meanings_lookup {sign meant : CodePoint} (h : (sign, meant) ∈ escapeSigns) :
    meanings.lookup sign = some meant := by
  have hall : ∀ entry ∈ escapeSigns, meanings.lookup entry.1 = some entry.2 := by decide
  exact hall _ h

theorem hexDigit?_eq_some_iff {digit : CodePoint} {value : Nat} :
    hexDigit? digit = some value ↔ HexDigit digit value := by
  have h0 : '0'.toNat = 48 := rfl
  have h9 : '9'.toNat = 57 := rfl
  have ha : 'a'.toNat = 97 := rfl
  have hf : 'f'.toNat = 102 := rfl
  have hA : 'A'.toNat = 65 := rfl
  have hF : 'F'.toNat = 70 := rfl
  simp only [hexDigit?, HexDigit]
  split
  · rw [Option.some_inj]
    omega
  · split
    · rw [Option.some_inj]
      omega
    · split
      · rw [Option.some_inj]
        omega
      · simp only [reduceCtorEq, false_iff]
        omega

theorem hexCode?_eq_some_iff {a b c d : CodePoint} {rest : Text} {code : Nat} :
    hexCode? (a :: b :: c :: d :: rest) = some code ↔
      ∃ i j k l, HexDigit a i ∧ HexDigit b j ∧ HexDigit c k ∧ HexDigit d l ∧
        code = ((i * 16 + j) * 16 + k) * 16 + l := by
  simp only [hexCode?, Option.bind_eq_bind, Option.bind_eq_some_iff, hexDigit?_eq_some_iff,
    Option.pure_def, Option.some_inj]
  constructor
  · rintro ⟨i, ha, j, hb, k, hc, l, hd, rfl⟩
    exact ⟨i, j, k, l, ha, hb, hc, hd, rfl⟩
  · rintro ⟨i, j, k, l, ha, hb, hc, hd, rfl⟩
    exact ⟨i, ha, j, hb, k, hc, l, hd, rfl⟩

/-- The first scan takes the whole of an escape. -/
theorem EscapeText.escapeSize?_append {text : Text} {point : CodePoint} (h : EscapeText text point)
    (rest : Text) : escapeSize? (text ++ rest) = some text.length := by
  cases h with
  | @sign sign meant hsign =>
    rw [List.singleton_append, escapeSize?, if_pos (isEscapeSign_iff.mpr ⟨_, hsign⟩)]
    rfl
  | @code a b c d i j k l ha hb hc hd =>
    have hcode : hexCode? (a :: b :: c :: d :: rest) = some _ :=
      hexCode?_eq_some_iff.mpr ⟨i, j, k, l, ha, hb, hc, hd, rfl⟩
    change escapeSize? ('u' :: a :: b :: c :: d :: rest) = _
    rw [escapeSize?, if_neg (by decide), if_pos ⟨rfl, by rw [hcode]; rfl⟩]
    rfl

/-- The second scan takes the whole of an escape as well, for the code point that it stands for. -/
theorem EscapeText.match?_append {text : Text} {point : CodePoint} (h : EscapeText text point)
    (rest : Text) :
    ∃ escape, Escape.match? ('\\' :: (text ++ rest)) = some escape ∧ escape.size = text.length ∧
      escape.decode? = some point := by
  cases h with
  | @sign sign meant hsign =>
    obtain ⟨-, hletter, hfeed⟩ := isEscapeSign_meaning (isEscapeSign_iff.mpr ⟨_, hsign⟩)
    exact ⟨.sign sign, Escape.match?_sign hletter hfeed rest, rfl, Escape.meanings_lookup hsign⟩
  | @code a b c d i j k l ha hb hc hd =>
    have hcode : hexCode? (a :: b :: c :: d :: rest) = some _ :=
      hexCode?_eq_some_iff.mpr ⟨i, j, k, l, ha, hb, hc, hd, rfl⟩
    exact ⟨.code _, Escape.match?_code hcode, rfl, rfl⟩

/-- What the first scan takes for an escape is one. -/
theorem escapeText_of_escapeSize? {rest : Text} {size : Nat} (h : escapeSize? rest = some size) :
    ∃ text point after, EscapeText text point ∧ rest = text ++ after ∧ size = text.length := by
  cases rest with
  | nil => cases h
  | cons sign rest =>
    by_cases hsign : isEscapeSign sign = true
    · rw [escapeSize?, if_pos hsign] at h
      cases h
      obtain ⟨meant, hmeant⟩ := isEscapeSign_iff.mp hsign
      exact ⟨[sign], meant, rest, .sign hmeant, rfl, rfl⟩
    · rw [escapeSize?, if_neg hsign] at h
      split at h
      next hcode =>
        cases h
        obtain ⟨rfl, hsome⟩ := hcode
        obtain ⟨number, hnumber⟩ := Option.isSome_iff_exists.mp hsome
        rcases rest with _ | ⟨a, _ | ⟨b, _ | ⟨c, _ | ⟨d, rest⟩⟩⟩⟩
        · cases hnumber
        · cases hnumber
        · cases hnumber
        · cases hnumber
        · obtain ⟨i, j, k, l, ha, hb, hc, hd, -⟩ := hexCode?_eq_some_iff.mp hnumber
          exact ⟨['u', a, b, c, d], _, rest, .code ha hb hc hd, rfl, rfl⟩
      next => cases h

/-! Literals in both scans -/

/-- What the run of a string literal takes has the form of its inside. -/
theorem stringRun_stringText (text : Text) :
    ∃ inner value after, text = inner ++ after ∧ stringRun text = inner.length ∧
      StringText inner value := by
  fun_induction stringRun text with
  | case1 => exact ⟨[], [], [], rfl, rfl, .done⟩
  | case2 rest size hsize ih =>
    obtain ⟨inner, value, after, hleft, hrun, hinner⟩ := ih
    obtain ⟨text, point, left, htext, rfl, rfl⟩ := escapeText_of_escapeSize? hsize
    rw [List.drop_left] at hleft hrun
    refine ⟨'\\' :: (text ++ inner), point :: value, after, by simp [hleft], ?_,
      .escape htext hinner⟩
    rw [List.drop_left, hrun, List.length_cons, List.length_append]
    omega
  | case3 rest hsize => exact ⟨[], [], '\\' :: rest, rfl, rfl, .done⟩
  | case4 point rest hpoint hplain ih =>
    obtain ⟨inner, value, after, rfl, hrun, hinner⟩ := ih
    simp only [isStringChar, Bool.and_eq_true, bne_iff_ne, Bool.or_eq_true, beq_iff_eq,
      decide_eq_true_eq] at hplain
    refine ⟨point :: inner, point :: value, after, rfl, ?_,
      .plain hplain.1.1 hpoint hplain.2 hinner⟩
    rw [hrun, List.length_cons]
    omega
  | case5 point rest hpoint hplain => exact ⟨[], [], point :: rest, rfl, rfl, .done⟩

/-- The inside of a string literal is taken up to its closing quote. -/
theorem StringText.stringRun_append {inner value : Text} (h : StringText inner value)
    (after : Text) : stringRun (inner ++ .scalar '"' :: after) = inner.length := by
  induction h with
  | done =>
    rw [List.nil_append, stringRun]
    rfl
  | @plain point inner value hquote hbackslash hcontrol _ ih =>
    have hplain : isStringChar point = true := by
      simp [isStringChar, hquote, hbackslash, hcontrol]
    rw [List.cons_append, stringRun, if_neg hbackslash, if_pos hplain, ih, List.length_cons,
      Nat.add_comm]
  | @escape text inner point value htext _ ih =>
    rw [List.cons_append, List.append_assoc, stringRun, if_pos rfl, htext.escapeSize?_append]
    simp only [List.drop_left, ih, List.length_cons, List.length_append]
    omega

/-- The second scan decodes the inside of a string literal as its form says. -/
theorem StringText.unescape? {inner value : Text} (h : StringText inner value) :
    QueryLint.unescape? inner = some value := by
  induction h with
  | done => rw [QueryLint.unescape?]
  | @plain point inner value hquote hbackslash hcontrol _ ih =>
    rw [QueryLint.unescape?, Escape.match?_of_ne hbackslash, ih]
    rfl
  | @escape text inner point value htext _ ih =>
    obtain ⟨escape, hmatch, hsize, hpoint⟩ := htext.match?_append inner
    rw [QueryLint.unescape?, hmatch]
    simp only [hsize, hpoint, List.drop_left, ih]
    rfl

theorem StringText.decodedRun {inner value after : Text} (h : StringText inner value)
    (hrun : stringRun (inner ++ after) = inner.length) :
    QueryLint.decodedRun (inner ++ after) = value := by
  apply Option.get_of_eq_some
  rw [hrun, List.take_left]
  exact h.unescape?

/-- What is read as a string literal is one. -/
theorem scanString_ok {rest : Text} {lexeme : Lexeme} {more : Nat}
    (h : scanString rest = .ok (lexeme, more)) :
    ∃ inner value after, StringText inner value ∧ rest = inner ++ .scalar '"' :: after ∧
      lexeme = .string value ∧ more = inner.length + 1 := by
  obtain ⟨inner, value, left, rfl, hrun, hinner⟩ := stringRun_stringText rest
  simp only [scanString, hrun, List.drop_left, hinner.decodedRun hrun] at h
  cases left with
  | nil => simp at h
  | cons stop after =>
    by_cases hstop : stop = '"'
    · subst hstop
      obtain ⟨rfl, rfl⟩ : .string value = lexeme ∧ inner.length + 1 = more := by
        simpa using h
      exact ⟨inner, value, after, hinner, rfl, rfl, rfl⟩
    · simp only [hstop, if_false] at h
      split at h
      · cases h
      · split at h <;> cases h

/-- A string literal is read up to its closing quote, whatever follows. -/
theorem scanString_append {inner value : Text} (h : StringText inner value) (after : Text) :
    scanString (inner ++ .scalar '"' :: after) = .ok (.string value, inner.length + 1) := by
  have hrun := h.stringRun_append after
  simp [scanString, hrun, h.decodedRun hrun]

end QueryLint
