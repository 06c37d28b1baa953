import QueryLint.Proofs.TokenText

/-!
The texts of tokens by their form: punctuators, names, numbers and string literals, each with the
kind and the value that it stands for. The scanner reads exactly these texts: what it takes for a
token has the form of that token, and a text of the form is read as a whole in front of any
code point that does not go on with it.
-/

namespace QueryLint

def IsLineBreak (point : CodePoint) : Prop := point = '\n' ∨ point = '\r'

instance : DecidablePred IsLineBreak :=
  fun point => inferInstanceAs (Decidable (point = '\n' ∨ point = '\r'))

def IsNameText (text : Text) : Prop :=
  ∃ first more, text = first :: more ∧ (first = '_' ∨ first.isAlpha = true) ∧
    ∀ point ∈ more, point = '_' ∨ point.isAlphanum = true

/-- The text of a token. Names and numbers stand for their own text. -/
inductive TokenText : Lexeme → Text → Prop where
  | punctuator (mark : Punctuator) : TokenText (.punctuator mark) mark.text
  | name {name : String} (hname : IsNameText name) : TokenText (.name name) name
  | int {number : String} {sign integer : Text} (hnumber : Text.ofString number = sign ++ integer)
      (hsign : IsSign sign) (hinteger : IsInteger integer) : TokenText (.int number) number
  | float {number : String} {sign integer fraction exponent : Text}
      (hnumber : Text.ofString number = sign ++ integer ++ fraction ++ exponent)
      (hsign : IsSign sign) (hinteger : IsInteger integer) (hfraction : IsFraction fraction)
      (hexponent : IsExponent exponent) (hpart : fraction ≠ [] ∨ exponent ≠ []) :
      TokenText (.float number) number
  | string {inner value : Text} (hinner : StringText inner value) :
      TokenText (.string value) (.scalar '"' :: inner ++ [.scalar '"'])

/-- A code point that goes on with a token, so that it cannot stand directly behind it. -/
def Lexeme.GoesOn (lexeme : Lexeme) (point : CodePoint) : Prop :=
  match lexeme with
  | .name _ => point = '_' ∨ point.isAlphanum = true
  | .int _ | .float _ => point = '_' ∨ point.isAlphanum = true ∨ point = '.'
  | _ => False

theorem isNameChar_iff {point : CodePoint} :
    isNameChar point = true ↔ point = '_' ∨ point.isAlphanum = true := by
  simp only [isNameChar, Bool.or_eq_true, beq_iff_eq]

theorem isNameStart_iff {point : CodePoint} :
    isNameStart point = true ↔ point = '_' ∨ point.isAlpha = true := by
  simp only [isNameStart, Bool.or_eq_true, beq_iff_eq]

theorem isAlphanum_iff {point : CodePoint} :
    point.isAlphanum = true ↔ point.isAlpha = true ∨ point.isDigit = true := by
  cases point with
  | scalar char => exact Iff.of_eq (Bool.or_eq_true ..)
  | surrogate index => simp [CodePoint.isAlphanum, CodePoint.isAlpha, CodePoint.isDigit,
      CodePoint.char?]

theorem Lexeme.endsBefore_iff {lexeme : Lexeme} {point : CodePoint} :
    lexeme.endsBefore point = true ↔ ¬lexeme.GoesOn point := by
  have hnumber : (!(point.isDigit || point == '.' || isNameStart point)) = true ↔
      ¬(point = '_' ∨ point.isAlphanum = true ∨ point = '.') := by
    simp only [Bool.not_eq_true', ← Bool.not_eq_true, Bool.or_eq_true, beq_iff_eq,
      isNameStart_iff, isAlphanum_iff, not_or]
    grind
  cases lexeme with
  | name text =>
    simp only [endsBefore, GoesOn, Bool.not_eq_true', ← isNameChar_iff, Bool.not_eq_true]
  | int text => exact hnumber
  | float text => exact hnumber
  | sof | eof | punctuator mark | string value => simp [endsBefore, GoesOn]

theorem Lexeme.mayPrecede_iff {lexeme : Lexeme} {after : Text} :
    lexeme.MayPrecede after ↔ ∀ point ∈ after.head?, ¬lexeme.GoesOn point := by
  simp only [MayPrecede, endsBefore_iff]

theorem NumberText.isInteger_iff {number : NumberText} :
    number.isInteger = true ↔ number.fraction = [] ∧ number.exponent = [] := by
  rw [isInteger, Bool.and_eq_true, List.isEmpty_iff, List.isEmpty_iff]

theorem IsExponent.mem {exponent : Text} (h : IsExponent exponent) {point : CodePoint}
    (hpoint : point ∈ exponent) : point.isDigit = true ∨ point ∈ Text.ofString "+-.eE" := by
  rcases h with rfl | ⟨mark, sign, digits, rfl, hmark, hsign, hdigits⟩
  · cases hpoint
  · rw [List.cons_append, List.mem_cons, List.mem_append] at hpoint
    rcases hpoint with rfl | hpoint | hpoint
    · rcases isExponentMark_iff.mp hmark with rfl | rfl <;> exact .inr (by decide)
    · right
      rcases hsign with rfl | rfl | rfl
      · cases hpoint
      · rw [List.mem_singleton.mp hpoint]
        decide
      · rw [List.mem_singleton.mp hpoint]
        decide
    · exact .inl (hdigits.2 point hpoint)

/-- A number is written with digits and a few signs. -/
theorem NumberText.WellFormed.mem_text {number : NumberText} (h : number.WellFormed)
    {point : CodePoint} (hpoint : point ∈ number.text) :
    point.isDigit = true ∨ point ∈ Text.ofString "+-.eE" := by
  simp only [NumberText.text, List.mem_append] at hpoint
  rcases hpoint with ((hpoint | hpoint) | hpoint) | hpoint
  · right
    rcases h.sign with hsign | hsign
    · rw [hsign] at hpoint
      cases hpoint
    · rw [hsign] at hpoint
      rw [List.mem_singleton.mp hpoint]
      decide
  · exact .inl (h.integer.digits.2 point hpoint)
  · rcases h.fraction with hfraction | ⟨digits, hfraction, hdigits⟩
    · rw [hfraction] at hpoint
      cases hpoint
    · rw [hfraction, List.mem_cons] at hpoint
      rcases hpoint with rfl | hpoint
      · exact .inr (by decide)
      · exact .inl (hdigits.2 point hpoint)
  · exact h.exponent.mem hpoint

theorem NumberText.WellFormed.ofString_asString {number : NumberText} (h : number.WellFormed) :
    Text.ofString number.text.asString = number.text := by
  apply Text.ofString_asString
  intro point hpoint
  rcases h.mem_text hpoint with hdigit | hsign
  · cases point with
    | scalar char => rfl
    | surrogate index => cases hdigit
  · have hall : ∀ point ∈ Text.ofString "+-.eE", point.char?.isSome := by decide
    exact hall point hsign

theorem TokenText.of_number {number : NumberText} (h : number.WellFormed) :
    TokenText number.lexeme number.text := by
  have hown := h.ofString_asString
  suffices htext : TokenText number.lexeme (Text.ofString number.text.asString) by
    rwa [hown] at htext
  rw [NumberText.lexeme]
  by_cases hinteger : number.isInteger = true
  · obtain ⟨hfraction, hexponent⟩ := NumberText.isInteger_iff.mp hinteger
    have hparts : number.text = number.sign ++ number.integer := by
      simp [NumberText.text, hfraction, hexponent]
    rw [if_pos hinteger]
    exact .int (hown.trans hparts) h.sign h.integer
  · have hpart : number.fraction ≠ [] ∨ number.exponent ≠ [] := by
      rw [NumberText.isInteger_iff] at hinteger
      exact Classical.not_and_iff_not_or_not.mp hinteger
    rw [if_neg hinteger]
    exact .float hown h.sign h.integer h.fraction h.exponent hpart

/-- What is read as a token has the form of that token. -/
theorem tokenText_of_scan {first : CodePoint} {text : Text} {lexeme : Lexeme}
    (h : scan first text = .ok (lexeme, text.length)) : TokenText lexeme (first :: text) := by
  rcases scan_ok_cases h with ⟨mark, hmark, rfl, hnone⟩ | ⟨after, rfl, rfl, rfl, hsize⟩ |
    ⟨rfl, hstring⟩ | ⟨hname, rfl, hsize⟩ | ⟨hnumber, hscan⟩
  · obtain rfl : text = [] := List.length_eq_zero_iff.mp hnone
    have htext : Text.ofString mark.text = [first] := by
      unfold Punctuator.ofPoint? at hmark
      split at hmark
      case h_14 => cases hmark
      all_goals
        cases hmark
        rfl
    rw [← htext]
    exact .punctuator mark
  · obtain rfl : after = [] := List.length_eq_zero_iff.mp (by simpa using hsize)
    exact .punctuator .spread
  · obtain ⟨inner, value, after, hinner, rfl, rfl, hsize⟩ := scanString_ok hstring
    obtain rfl : after = [] := by
      rw [List.length_append, List.length_cons] at hsize
      exact List.length_eq_zero_iff.mp (by omega)
    exact .string hinner
  · have hall : text.takeWhile isNameChar = text :=
      (List.takeWhile_prefix isNameChar).eq_of_length hsize.symm
    rw [hall]
    have hmore : ∀ point ∈ text, isNameChar point = true := by
      rw [← hall]
      exact List.all_eq_true.mp List.all_takeWhile
    have hown := ofString_asString_name hname hmore
    have hform : IsNameText (Text.asString (first :: text)) :=
      ⟨first, text, hown, isNameStart_iff.mp hname, fun point hpoint =>
        isNameChar_iff.mp (hmore point hpoint)⟩
    have htoken := TokenText.name hform
    rwa [hown] at htoken
  · obtain ⟨number, front, after, hformed, htext, rfl, hsize, rfl, -⟩ := scanNumber_ok hscan
    obtain rfl : after = [] := by
      rw [List.length_append] at hsize
      exact List.length_eq_zero_iff.mp (by omega)
    rw [List.append_nil, ← htext]
    exact .of_number hformed

theorem Lexeme.Writes.tokenText {lexeme : Lexeme} {first : CodePoint} {text : Text}
    (h : lexeme.Writes first text) : TokenText lexeme (first :: text) := by
  have hscan := h [] lexeme.mayPrecede_nil
  rw [List.append_nil] at hscan
  exact tokenText_of_scan hscan

theorem NumberText.WellFormed.writes {number : NumberText} (h : number.WellFormed) :
    ∃ first more, number.text = first :: more ∧ number.lexeme.Writes first more := by
  obtain ⟨first, more, htext, hfirst⟩ : ∃ first more, number.text = first :: more ∧
      (first = '-' ∨ first.isDigit = true) := by
    obtain ⟨digit, digits, hinteger⟩ := List.exists_cons_of_ne_nil h.integer.digits.1
    have hdigit := h.integer.digits.2 digit (by simp [hinteger])
    rcases h.sign with hsign | hsign
    · exact ⟨digit, _, by simp [NumberText.text, hsign, hinteger]; rfl, .inr hdigit⟩
    · exact ⟨'-', _, by simp [NumberText.text, hsign]; rfl, .inl rfl⟩
  refine ⟨first, more, htext, fun after hafter => ?_⟩
  rw [scan_numberStart hfirst, scanNumber_append h htext hafter]

/-- A text of the form of a token is read as that token. -/
theorem TokenText.writes {lexeme : Lexeme} {text : Text} (h : TokenText lexeme text) :
    ∃ first more, text = first :: more ∧ lexeme.Writes first more := by
  cases h with
  | punctuator mark => cases mark <;> exact ⟨_, _, rfl, fun after _ => rfl⟩
  | @name name hname =>
    obtain ⟨first, more, htext, hfirst, hmore⟩ := hname
    refine ⟨first, more, htext, fun after hafter => ?_⟩
    have hlong : (more ++ after).takeWhile isNameChar = more :=
      takeWhile_append_of_head? (fun point hpoint => isNameChar_iff.mpr (hmore point hpoint))
        fun point hpoint => by simpa [Lexeme.endsBefore] using hafter point hpoint
    rw [scan_nameStart (isNameStart_iff.mpr hfirst), hlong, ← htext, Text.asString_ofString]
  | @int string sign integer hstring hsign hinteger =>
    let number : NumberText := ⟨sign, integer, [], []⟩
    have hformed : number.WellFormed := ⟨hsign, hinteger, .inl rfl, .inl rfl⟩
    have htext : number.text = Text.ofString string := by simp [number, NumberText.text, hstring]
    have hlexeme : number.lexeme = .int string := by
      have hparts : number.isInteger = true := rfl
      rw [NumberText.lexeme, if_pos hparts, htext, Text.asString_ofString]
    rw [← hlexeme, ← htext]
    exact hformed.writes
  | @float string sign integer fraction exponent hstring hsign hinteger hfraction hexponent hpart =>
    let number : NumberText := ⟨sign, integer, fraction, exponent⟩
    have hformed : number.WellFormed := ⟨hsign, hinteger, hfraction, hexponent⟩
    have htext : number.text = Text.ofString string := hstring.symm
    have hlexeme : number.lexeme = .float string := by
      have hparts : ¬number.isInteger = true := by
        rw [NumberText.isInteger_iff]
        exact Classical.not_and_iff_not_or_not.mpr hpart
      rw [NumberText.lexeme, if_neg hparts, htext, Text.asString_ofString]
    rw [← hlexeme, ← htext]
    exact hformed.writes
  | @string inner value hinner =>
    refine ⟨'"', inner ++ [.scalar '"'], rfl, fun after _ => ?_⟩
    rw [List.append_assoc, List.length_append]
    exact scanString_append hinner after

/-! Tokens and line breaks -/

theorem NumberText.WellFormed.clear {number : NumberText} (h : number.WellFormed) :
    ∀ point ∈ number.text, ¬IsLineBreak point := by
  intro point hpoint hbreak
  rcases h.mem_text hpoint with hdigit | hsign
  · rcases hbreak with rfl | rfl <;> exact absurd hdigit (by decide)
  · rcases hbreak with rfl | rfl <;> exact absurd hsign (by decide)

theorem HexDigit.clear {digit : CodePoint} {value : Nat} (h : HexDigit digit value) :
    ¬IsLineBreak digit := by
  rintro (rfl | rfl)
  all_goals
    have hfound := hexDigit?_eq_some_iff.mpr h
    cases hfound

theorem EscapeText.clear {text : Text} {point : CodePoint} (h : EscapeText text point) :
    ∀ point ∈ text, ¬IsLineBreak point := by
  cases h with
  | sign hsign =>
    have hclear : ∀ pair ∈ escapeSigns, ¬IsLineBreak pair.1 := by decide
    exact List.forall_mem_singleton.mpr (hclear _ hsign)
  | code ha hb hc hd =>
    simp only [List.forall_mem_cons, List.not_mem_nil, false_imp_iff, implies_true, and_true]
    exact ⟨by decide, ha.clear, hb.clear, hc.clear, hd.clear⟩

theorem StringText.clear {inner : Text} {value : Text} (h : StringText inner value) :
    ∀ point ∈ inner, ¬IsLineBreak point := by
  induction h with
  | done => simp
  | @plain point inner value hquote hbackslash hcontrol hrest ih =>
    refine List.forall_mem_cons.mpr ⟨?_, ih⟩
    rintro (rfl | rfl) <;> exact absurd hcontrol (by decide)
  | escape htext hrest ih =>
    rw [List.forall_mem_cons, List.forall_mem_append]
    exact ⟨by decide, htext.clear, ih⟩

/-- No token goes over a line break. -/
theorem TokenText.clear {lexeme : Lexeme} {text : Text} (h : TokenText lexeme text) :
    ∀ point ∈ text, ¬IsLineBreak point := by
  cases h with
  | punctuator mark => cases mark <;> decide
  | name hname =>
    obtain ⟨first, more, htext, hfirst, hmore⟩ := hname
    rw [htext]
    refine List.forall_mem_cons.mpr ⟨?_, fun point hpoint => ?_⟩
    · rintro (rfl | rfl) <;> exact absurd hfirst (by decide)
    · have hname := hmore point hpoint
      rintro (rfl | rfl) <;> exact absurd hname (by decide)
  | @int number sign integer hnumber hsign hinteger =>
    have hformed : NumberText.WellFormed ⟨sign, integer, [], []⟩ :=
      ⟨hsign, hinteger, .inl rfl, .inl rfl⟩
    rw [hnumber]
    simpa [NumberText.text] using hformed.clear
  | @float number sign integer fraction exponent hnumber hsign hinteger hfraction hexponent hpart =>
    have hformed : NumberText.WellFormed ⟨sign, integer, fraction, exponent⟩ :=
      ⟨hsign, hinteger, hfraction, hexponent⟩
    rw [hnumber]
    exact hformed.clear
  | string hinner =>
    rw [List.cons_append, List.forall_mem_cons, List.forall_mem_append]
    exact ⟨by decide, hinner.clear, List.forall_mem_singleton.mpr (by decide)⟩

end QueryLint
