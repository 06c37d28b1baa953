import QueryLint.Proofs.StringLiterals
import QueryLint.Token.Lexer

/-!
Tokens and the texts that write them. A token is read from its own text, and nothing behind it plays
a part but the next code point, which must not go on with a name or a number.
-/

namespace QueryLint

/-! The code point behind a token -/

/-- Whether a token can end in front of a code point. -/
def Lexeme.endsBefore (lexeme : Lexeme) (point : CodePoint) : Bool :=
  match lexeme with
  | .name _ => !isNameChar point
  | .int _ | .float _ => !(point.isDigit || point == '.' || isNameStart point)
  | _ => true

def Lexeme.MayPrecede (lexeme : Lexeme) (after : Text) : Prop :=
  ∀ point ∈ after.head?, lexeme.endsBefore point = true

theorem Lexeme.mayPrecede_nil (lexeme : Lexeme) : lexeme.MayPrecede [] := by
  simp [Lexeme.MayPrecede]

theorem Lexeme.mayPrecede_blank (lexeme : Lexeme) (rest : Text) :
    lexeme.MayPrecede (.scalar ' ' :: rest) := by
  intro point hpoint
  obtain rfl : ' ' = point := by simpa using hpoint
  cases lexeme <;> rfl

theorem Lexeme.MayPrecede.of_append {lexeme : Lexeme} {after rest : Text}
    (h : lexeme.MayPrecede (after ++ rest)) : lexeme.MayPrecede after := by
  cases after with
  | nil => exact lexeme.mayPrecede_nil
  | cons point after => exact h

/-- The text writes the token, whatever may follow. -/
def Lexeme.Writes (lexeme : Lexeme) (first : CodePoint) (text : Text) : Prop :=
  ∀ after, lexeme.MayPrecede after → scan first (text ++ after) = .ok (lexeme, text.length)

/-! Names -/

theorem takeWhile_append_of_head? {α : Type} {test : α → Bool} {items after : List α}
    (hitems : ∀ item ∈ items, test item = true)
    (hafter : ∀ item ∈ after.head?, test item = false) :
    (items ++ after).takeWhile test = items := by
  rw [List.takeWhile_append_of_pos hitems]
  cases after with
  | nil => simp
  | cons item after => simp [hafter item rfl]

/-- A name is written with characters only. -/
theorem ofString_asString_name {first : CodePoint} {rest : Text} (hfirst : isNameStart first = true)
    (hrest : ∀ point ∈ rest, isNameChar point = true) :
    Text.ofString (Text.asString (first :: rest)) = first :: rest := by
  have hsome {test : Char → Bool} {point : CodePoint}
      (hpoint : (point == '_' || point.char?.any test) = true) : point.char?.isSome := by
    cases point with
    | scalar char => rfl
    | surrogate index => cases hpoint
  apply Text.ofString_asString
  exact List.forall_mem_cons.mpr ⟨hsome hfirst, fun point hpoint => hsome (hrest point hpoint)⟩

/-! Strings -/

theorem scanString_local {rest : Text} {lexeme : Lexeme} {more : Nat}
    (h : scanString rest = .ok (lexeme, more)) :
    ∃ text after, rest = text ++ after ∧ more = text.length ∧ lexeme.MayPrecede after ∧
      ∀ other, scanString (text ++ other) = .ok (lexeme, more) := by
  obtain ⟨inner, value, after, hinner, rfl, rfl, rfl⟩ := scanString_ok h
  refine ⟨inner ++ [.scalar '"'], after, by simp, by simp, fun point _ => rfl, fun other => ?_⟩
  rw [List.append_assoc]
  exact scanString_append hinner other

/-! Numbers -/

theorem forall_head?_append {test : CodePoint → Prop} {text after : Text}
    (htext : ∀ point ∈ text.head?, test point) (hafter : ∀ point ∈ after.head?, test point) :
    ∀ point ∈ (text ++ after).head?, test point := by
  cases text with
  | nil => exact hafter
  | cons point text => exact htext

/-- At least one code point, and nothing but digits. -/
def IsDigits (digits : Text) : Prop :=
  digits ≠ [] ∧ ∀ point ∈ digits, point.isDigit = true

theorem IsDigits.head? {digits : Text} (h : IsDigits digits) :
    ∀ point ∈ digits.head?, point.isDigit = true :=
  fun point hpoint => h.2 point (List.mem_of_mem_head? hpoint)

theorem IsDigits.of_takeWhile {text : Text}
    (h : (text.takeWhile CodePoint.isDigit).isEmpty = false) :
    IsDigits (text.takeWhile CodePoint.isDigit) := by
  refine ⟨by simpa [List.isEmpty_iff] using h, fun point hpoint => ?_⟩
  have hall := List.all_takeWhile (p := CodePoint.isDigit) (l := text)
  exact List.all_eq_true.mp hall point hpoint

theorem IsDigits.takeWhile_append {digits other : Text} (h : IsDigits digits)
    (hother : ∀ point ∈ other.head?, point.isDigit = false) :
    (digits ++ other).takeWhile CodePoint.isDigit = digits :=
  takeWhile_append_of_head? h.2 hother

def IsSign (sign : Text) : Prop := sign = [] ∨ sign = [.scalar '-']

/-- A zero, or digits that do not start with a zero. -/
def IsInteger (integer : Text) : Prop :=
  integer = [.scalar '0'] ∨ IsDigits integer ∧ integer.head? ≠ some (.scalar '0')

def IsFraction (fraction : Text) : Prop :=
  fraction = [] ∨ ∃ digits, fraction = .scalar '.' :: digits ∧ IsDigits digits

def IsExponent (exponent : Text) : Prop :=
  exponent = [] ∨ ∃ mark sign digits, exponent = mark :: sign ++ digits ∧
    isExponentMark mark = true ∧ (sign = [] ∨ sign = [.scalar '+'] ∨ sign = [.scalar '-']) ∧
    IsDigits digits

theorem IsInteger.digits {integer : Text} (h : IsInteger integer) : IsDigits integer := by
  rcases h with rfl | h
  · exact ⟨by simp, by simp⟩
  · exact h.1

theorem isExponentMark_iff {point : CodePoint} :
    isExponentMark point = true ↔ point = 'e' ∨ point = 'E' := by
  simp [isExponentMark]

theorem isNameStart_of_isExponentMark {point : CodePoint} (h : isExponentMark point = true) :
    isNameStart point = true := by
  rcases isExponentMark_iff.mp h with rfl | rfl <;> decide

theorem IsFraction.head? {fraction : Text} (h : IsFraction fraction) :
    ∀ point ∈ fraction.head?, point.isDigit = false := by
  rcases h with rfl | ⟨digits, rfl, _⟩
  · simp
  · intro point hpoint
    obtain rfl : '.' = point := by simpa using hpoint
    decide

theorem IsExponent.head? {exponent : Text} (h : IsExponent exponent) :
    ∀ point ∈ exponent.head?, point.isDigit = false ∧ point ≠ '.' := by
  rcases h with rfl | ⟨mark, sign, digits, rfl, hmark, _⟩
  · simp
  · intro point hpoint
    obtain rfl : mark = point := by simpa using hpoint
    rcases isExponentMark_iff.mp hmark with rfl | rfl <;> decide

theorem signPart_spec (text : Text) : IsSign (signPart text) ∧ signPart text <+: text := by
  unfold signPart
  split
  · exact ⟨.inr rfl, by simp⟩
  · exact ⟨.inl rfl, List.nil_prefix⟩

theorem signPart_append {sign body : Text} (h : IsSign sign)
    (hbody : ∀ point ∈ body.head?, point.isDigit = true) : signPart (sign ++ body) = sign := by
  rcases h with rfl | rfl
  · unfold signPart
    split
    · rename_i rest hminus
      simp only [List.nil_append] at hminus
      exact absurd (hbody '-' (by rw [hminus]; rfl)) (by decide)
    · rfl
  · rfl

theorem integerPart_isPrefix (text : Text) : integerPart text <+: text := by
  unfold integerPart
  split
  · simp
  · exact List.takeWhile_prefix _

theorem integerPart_isInteger {text : Text} (h : (integerPart text).isEmpty = false) :
    IsInteger (integerPart text) := by
  unfold integerPart at h ⊢
  split at h
  · exact .inl rfl
  · rename_i hzero
    refine .inr ⟨.of_takeWhile h, ?_⟩
    intro hhead
    obtain ⟨rest, hrest⟩ := List.head?_eq_some_iff.mp hhead
    obtain ⟨tail, htail⟩ := List.takeWhile_prefix (l := text) CodePoint.isDigit
    rw [hrest] at htail
    exact hzero _ htail.symm

theorem integerPart_append {integer other : Text} (h : IsInteger integer)
    (hother : ∀ point ∈ other.head?, point.isDigit = false) :
    integerPart (integer ++ other) = integer := by
  rcases h with rfl | ⟨hdigits, hzero⟩
  · rfl
  · unfold integerPart
    split
    · rename_i rest hrest
      cases integer with
      | nil => exact absurd rfl hdigits.1
      | cons point integer =>
        obtain rfl : point = '0' := (List.cons.inj hrest).1
        exact absurd rfl hzero
    · exact hdigits.takeWhile_append hother

theorem fractionPart_spec (text : Text) :
    IsFraction (fractionPart text) ∧ fractionPart text <+: text := by
  unfold fractionPart
  split
  · rename_i rest
    dsimp only
    split
    · exact ⟨.inl rfl, List.nil_prefix⟩
    · rename_i hdigits
      refine ⟨.inr ⟨_, rfl, .of_takeWhile (by simpa using hdigits)⟩, ?_⟩
      exact (List.cons_prefix_cons).mpr ⟨rfl, List.takeWhile_prefix _⟩
  · exact ⟨.inl rfl, List.nil_prefix⟩

theorem fractionPart_append {fraction other : Text} (h : IsFraction fraction)
    (hother : ∀ point ∈ other.head?, point.isDigit = false ∧ point ≠ '.') :
    fractionPart (fraction ++ other) = fraction := by
  rcases h with rfl | ⟨digits, rfl, hdigits⟩
  · unfold fractionPart
    split
    · rename_i rest hdot
      exact absurd rfl (hother '.' (by rw [List.nil_append] at hdot; rw [hdot]; rfl)).2
    · rfl
  · have hlong := hdigits.takeWhile_append fun point hpoint => (hother point hpoint).1
    have hne : digits.isEmpty = false := by simpa using hdigits.1
    simp [fractionPart, hlong, hne]

theorem exponentSign_spec (text : Text) :
    (exponentSign text = [] ∨ exponentSign text = [.scalar '+'] ∨
      exponentSign text = [.scalar '-']) ∧ exponentSign text <+: text := by
  unfold exponentSign
  split <;> simp

theorem exponentSign_append {sign digits : Text}
    (h : sign = [] ∨ sign = [.scalar '+'] ∨ sign = [.scalar '-']) (hdigits : IsDigits digits)
    (other : Text) : exponentSign (sign ++ (digits ++ other)) = sign := by
  rcases h with rfl | rfl | rfl
  · cases digits with
    | nil => exact absurd rfl hdigits.1
    | cons digit digits =>
      have hdigit := hdigits.2 digit List.mem_cons_self
      unfold exponentSign
      split
      · simp_all
      · simp_all
      · rfl
  · rfl
  · rfl

theorem exponentPart_spec (text : Text) :
    IsExponent (exponentPart text) ∧ exponentPart text <+: text := by
  unfold exponentPart
  split
  · rename_i mark rest
    split
    · rename_i hmark
      dsimp only
      split
      · exact ⟨.inl rfl, List.nil_prefix⟩
      · rename_i hdigits
        obtain ⟨hsign, hprefix⟩ := exponentSign_spec rest
        refine ⟨.inr ⟨mark, _, _, rfl, hmark, hsign, .of_takeWhile (by simpa using hdigits)⟩, ?_⟩
        have hrest := List.prefix_iff_eq_append.mp hprefix
        have hlong : exponentSign rest ++
              (rest.drop (exponentSign rest).length).takeWhile CodePoint.isDigit <+:
            exponentSign rest ++ rest.drop (exponentSign rest).length :=
          (List.prefix_append_right_inj _).mpr (List.takeWhile_prefix _)
        rw [hrest] at hlong
        exact List.cons_prefix_cons.mpr ⟨rfl, hlong⟩
    · exact ⟨.inl rfl, List.nil_prefix⟩
  · exact ⟨.inl rfl, List.nil_prefix⟩

theorem exponentPart_append {exponent other : Text} (h : IsExponent exponent)
    (hother : ∀ point ∈ other.head?, point.isDigit = false ∧ isExponentMark point = false) :
    exponentPart (exponent ++ other) = exponent := by
  rcases h with rfl | ⟨mark, sign, digits, rfl, hmark, hsign, hdigits⟩
  · cases other with
    | nil => rfl
    | cons point other => simp [exponentPart, (hother point rfl).2]
  · have hlong := hdigits.takeWhile_append fun point hpoint => (hother point hpoint).1
    have hne : digits.isEmpty = false := by simpa using hdigits.1
    simp [exponentPart, hmark, exponentSign_append hsign hdigits other, hlong, hne]

namespace NumberText

/-- The parts are those of a number. -/
structure WellFormed (number : NumberText) : Prop where
  sign : IsSign number.sign
  integer : IsInteger number.integer
  fraction : IsFraction number.fraction
  exponent : IsExponent number.exponent

theorem read_isPrefix (text : Text) : (read text).text <+: text := by
  have hdrop {part rest whole : Text} (h : part ++ rest = whole) :
      whole.drop part.length = rest := by
    rw [← h, List.drop_left]
  obtain ⟨unsigned, hsign⟩ := (signPart_spec text).2
  obtain ⟨afterInteger, hinteger⟩ := integerPart_isPrefix unsigned
  obtain ⟨afterFraction, hfraction⟩ := (fractionPart_spec afterInteger).2
  obtain ⟨after, hexponent⟩ := (exponentPart_spec afterFraction).2
  have hread : read text = ⟨signPart text, integerPart unsigned, fractionPart afterInteger,
      exponentPart afterFraction⟩ := by
    simp only [read, hdrop hsign, hdrop hinteger, hdrop hfraction]
  refine ⟨after, ?_⟩
  simp only [hread, NumberText.text, List.append_assoc, hexponent, hfraction, hinteger, hsign]

theorem read_wellFormed {text : Text} (h : (read text).integer.isEmpty = false) :
    (read text).WellFormed :=
  ⟨(signPart_spec _).1, integerPart_isInteger h, (fractionPart_spec _).1, (exponentPart_spec _).1⟩

theorem endsBefore_lexeme (number : NumberText) (point : CodePoint) :
    number.lexeme.endsBefore point = !(point.isDigit || point == '.' || isNameStart point) := by
  unfold lexeme
  split <;> rfl

/-- A number is read as it is in front of any code point that does not go on with it. -/
theorem read_append {number : NumberText} (h : number.WellFormed) {after : Text}
    (hafter : number.lexeme.MayPrecede after) : read (number.text ++ after) = number := by
  have hnext : ∀ point ∈ after.head?, point.isDigit = false ∧ point ≠ '.' ∧
      isExponentMark point = false := by
    intro point hpoint
    have hends := hafter point hpoint
    simp only [endsBefore_lexeme, Bool.not_eq_true', Bool.or_eq_false_iff] at hends
    refine ⟨hends.1.1, by simpa using hends.1.2, ?_⟩
    apply Bool.eq_false_iff.mpr
    intro hmark
    rw [isNameStart_of_isExponentMark hmark] at hends
    exact Bool.noConfusion hends.2
  have hmark : ∀ point ∈ (number.exponent ++ after).head?, point.isDigit = false ∧ point ≠ '.' :=
    forall_head?_append h.exponent.head? fun point hpoint =>
      ⟨(hnext point hpoint).1, (hnext point hpoint).2.1⟩
  have hdot : ∀ point ∈ (number.fraction ++ (number.exponent ++ after)).head?,
      point.isDigit = false :=
    forall_head?_append h.fraction.head? fun point hpoint => (hmark point hpoint).1
  obtain ⟨sign, integer, fraction, exponent⟩ := number
  have hexponent := exponentPart_append h.exponent fun point hpoint =>
    ⟨(hnext point hpoint).1, (hnext point hpoint).2.2⟩
  have hfraction := fractionPart_append h.fraction hmark
  have hinteger := integerPart_append h.integer hdot
  have hfirst : ∀ point ∈ (integer ++ (fraction ++ (exponent ++ after))).head?,
      point.isDigit = true := by
    have hdigits := h.integer.digits
    cases integer with
    | nil => exact absurd rfl hdigits.1
    | cons digit integer => exact hdigits.head?
  have hsign := signPart_append h.sign hfirst
  simp only [read, NumberText.text, List.append_assoc, hsign, List.drop_left, hinteger, hfraction,
    hexponent]

theorem misfit?_eq_none_iff (number : NumberText) (after : Text) :
    number.misfit? after = none ↔ number.lexeme.MayPrecede after := by
  cases after with
  | nil => simp [misfit?, Lexeme.MayPrecede]
  | cons next rest =>
    have hends : number.lexeme.MayPrecede (next :: rest) ↔
        (next.isDigit || next == '.' || isNameStart next) = false := by
      simp [Lexeme.MayPrecede, endsBefore_lexeme]
    rw [hends, misfit?]
    by_cases hdigit : next.isDigit = true
    · simp [hdigit]
    · by_cases hstop : (next == '.' || isNameStart next) = true
      · simp only [hdigit, hstop, Bool.false_or, if_true, Bool.false_eq_true, if_false]
        split
        · simp
        · split <;> simp
      · obtain ⟨hdot, hname⟩ := Bool.or_eq_false_iff.mp (Bool.eq_false_iff.mpr hstop)
        have hmark : isExponentMark next = false := by
          apply Bool.eq_false_iff.mpr
          intro hmark
          rw [isNameStart_of_isExponentMark hmark] at hname
          exact Bool.noConfusion hname
        simp [hdigit, hmark, hdot, hname]

end NumberText

/-- A number is read in front of whatever may follow it. -/
theorem scanNumber_append {number : NumberText} (hformed : number.WellFormed) {first : CodePoint}
    {text : Text} (htext : number.text = first :: text) {after : Text}
    (hafter : number.lexeme.MayPrecede after) :
    scanNumber first (text ++ after) = .ok (number.lexeme, text.length) := by
  have hread : NumberText.read (first :: (text ++ after)) = number := by
    have happend := NumberText.read_append hformed hafter
    rwa [htext] at happend
  have hinteger : number.integer.isEmpty = false := by
    simpa using hformed.integer.digits.1
  have hfits := (number.misfit?_eq_none_iff after).mpr hafter
  simp [scanNumber, hread, hinteger, htext, hfits]

/-- What is read as a number is one, up to a code point that does not go on with it. -/
theorem scanNumber_ok {first : CodePoint} {rest : Text} {lexeme : Lexeme} {more : Nat}
    (h : scanNumber first rest = .ok (lexeme, more)) :
    ∃ number text after, NumberText.WellFormed number ∧ number.text = first :: text ∧
      rest = text ++ after ∧ more = text.length ∧ lexeme = number.lexeme ∧
      lexeme.MayPrecede after := by
  obtain ⟨after, hafter⟩ := NumberText.read_isPrefix (first :: rest)
  have hwhole : (NumberText.read (first :: rest)).integer.isEmpty = false →
      (NumberText.read (first :: rest)).WellFormed := NumberText.read_wellFormed
  simp only [scanNumber] at h
  generalize NumberText.read (first :: rest) = number at h hafter hwhole
  by_cases hinteger : number.integer.isEmpty = true
  · simp [hinteger] at h
  · have hformed := hwhole (Bool.eq_false_iff.mpr hinteger)
    -- a number has a first code point since its integer part has one
    obtain ⟨text, htext⟩ : ∃ text, number.text = first :: text := by
      cases hnumber : number.text with
      | nil => simp_all [NumberText.text]
      | cons point text =>
        rw [hnumber] at hafter
        exact ⟨text, by rw [(List.cons.inj hafter).1]⟩
    obtain rfl : text ++ after = rest := by simpa [htext] using hafter
    have hdrop : (first :: (text ++ after)).drop number.text.length = after := by simp [htext]
    rw [if_neg hinteger, hdrop] at h
    cases hmisfit : number.misfit? after with
    | some misfit => simp [hmisfit] at h
    | none =>
      obtain ⟨rfl, rfl⟩ : number.lexeme = lexeme ∧ text.length = more := by
        simpa [hmisfit, htext] using h
      exact ⟨number, text, after, hformed, htext, rfl, rfl, rfl,
        (number.misfit?_eq_none_iff after).mp hmisfit⟩

/-! All tokens -/

/-- No token but a punctuator starts as a punctuator does. -/
theorem Punctuator.start_of_ofPoint? {point : CodePoint} {mark : Punctuator}
    (h : Punctuator.ofPoint? point = some mark) :
    isNameStart point = false ∧ point.isDigit = false ∧ point ≠ '-' := by
  unfold Punctuator.ofPoint? at h
  split at h
  case h_14 => cases h
  all_goals decide

theorem scan_nameStart {first : CodePoint} (h : isNameStart first = true) (rest : Text) :
    scan first rest = .ok (.name (Text.asString (first :: rest.takeWhile isNameChar)),
      (rest.takeWhile isNameChar).length) := by
  have hmark : Punctuator.ofPoint? first = none := by
    apply Option.eq_none_iff_forall_ne_some.mpr
    intro mark hmark
    rw [(Punctuator.start_of_ofPoint? hmark).1] at h
    exact Bool.noConfusion h
  have hdot : ¬(first = '.' ∧ rest.take 2 = [.scalar '.', .scalar '.']) := by
    rintro ⟨rfl, _⟩
    exact absurd h (by decide)
  have hquote : first ≠ '"' := by
    rintro rfl
    exact absurd h (by decide)
  simp only [scan, hmark, hdot, hquote, h, if_false, if_true]

theorem isNameStart_of_isDigit {point : CodePoint} (h : point.isDigit = true) :
    isNameStart point = false := by
  cases point with
  | surrogate index => cases h
  | scalar char =>
    rw [CodePoint.isDigit_scalar] at h
    have hunderscore : char ≠ '_' := by
      rintro rfl
      exact absurd h (by decide)
    have htop : char.val ≤ '9'.val := by
      simp only [Char.isDigit, Bool.and_eq_true, decide_eq_true_eq] at h
      exact h.2
    have hupper : char.isUpper = false :=
      decide_eq_false fun hletter => absurd (UInt32.le_trans hletter.1 htop) (by decide)
    have hlower : decide (char.val ≥ 'a'.val) = false :=
      decide_eq_false fun hletter => absurd (UInt32.le_trans hletter htop) (by decide)
    have halpha : char.isAlpha = false := by
      change (char.isUpper || (decide (char.val ≥ 'a'.val) && _)) = false
      rw [hupper, hlower]
      rfl
    simp [isNameStart, hunderscore, halpha]

theorem scan_numberStart {first : CodePoint} (h : first = '-' ∨ first.isDigit = true)
    (rest : Text) : scan first rest = scanNumber first rest := by
  have hmark : Punctuator.ofPoint? first = none := by
    apply Option.eq_none_iff_forall_ne_some.mpr
    intro mark hmark
    obtain ⟨_, hdigit, hminus⟩ := Punctuator.start_of_ofPoint? hmark
    rcases h with hfirst | hfirst
    · exact hminus hfirst
    · rw [hdigit] at hfirst
      exact Bool.noConfusion hfirst
  have hdot : ¬(first = '.' ∧ rest.take 2 = [.scalar '.', .scalar '.']) := by
    rintro ⟨rfl, _⟩
    exact absurd h (by decide)
  have hquote : first ≠ '"' := by
    rintro rfl
    exact absurd h (by decide)
  have hname : isNameStart first = false := by
    rcases h with rfl | hdigit
    · decide
    · exact isNameStart_of_isDigit hdigit
  simp [scan, hmark, hdot, hquote, hname, h]

/-- What a token starts with tells what it is. -/
theorem scan_ok_cases {first : CodePoint} {rest : Text} {lexeme : Lexeme} {more : Nat}
    (h : scan first rest = .ok (lexeme, more)) :
    (∃ mark, Punctuator.ofPoint? first = some mark ∧ lexeme = .punctuator mark ∧ more = 0) ∨
    (∃ after, first = '.' ∧ rest = .scalar '.' :: .scalar '.' :: after ∧
      lexeme = .punctuator .spread ∧ more = 2) ∨
    (first = '"' ∧ scanString rest = .ok (lexeme, more)) ∨
    (isNameStart first = true ∧
      lexeme = .name (Text.asString (first :: rest.takeWhile isNameChar)) ∧
      more = (rest.takeWhile isNameChar).length) ∨
    ((first = '-' ∨ first.isDigit = true) ∧ scanNumber first rest = .ok (lexeme, more)) := by
  unfold scan at h
  cases hmark : Punctuator.ofPoint? first with
  | some mark =>
    rw [hmark] at h
    obtain ⟨rfl, rfl⟩ := Prod.mk.inj (Except.ok.inj h)
    exact .inl ⟨mark, rfl, rfl, rfl⟩
  | none =>
    rw [hmark] at h
    dsimp only at h
    by_cases hspread : first = '.' ∧ rest.take 2 = [.scalar '.', .scalar '.']
    · rw [if_pos hspread] at h
      obtain ⟨rfl, rfl⟩ := Prod.mk.inj (Except.ok.inj h)
      refine .inr (.inl ⟨rest.drop 2, hspread.1, ?_, rfl, rfl⟩)
      rw [← List.take_append_drop 2 rest, hspread.2]
      rfl
    · rw [if_neg hspread] at h
      by_cases hquote : first = '"'
      · rw [if_pos hquote] at h
        exact .inr (.inr (.inl ⟨hquote, h⟩))
      · rw [if_neg hquote] at h
        by_cases hname : isNameStart first = true
        · rw [if_pos hname] at h
          obtain ⟨rfl, rfl⟩ := Prod.mk.inj (Except.ok.inj h)
          exact .inr (.inr (.inr (.inl ⟨hname, rfl, rfl⟩)))
        · rw [if_neg hname] at h
          by_cases hnumber : first = '-' ∨ first.isDigit = true
          · rw [if_pos hnumber] at h
            exact .inr (.inr (.inr (.inr ⟨hnumber, h⟩)))
          · rw [if_neg hnumber] at h
            cases h

theorem NumberText.kind_lexeme (number : NumberText) :
    number.lexeme.kind = .int ∨ number.lexeme.kind = .float := by
  unfold lexeme
  split
  · exact .inl rfl
  · exact .inr rfl

/-- The end of the source is not read from any text. -/
theorem scan_ne_eof {first : CodePoint} {rest : Text} {lexeme : Lexeme} {more : Nat}
    (h : scan first rest = .ok (lexeme, more)) : lexeme ≠ .eof := by
  rintro rfl
  rcases scan_ok_cases h with ⟨mark, _, hlexeme, _⟩ | ⟨after, _, _, hlexeme, _⟩ | ⟨_, hstring⟩ |
    ⟨_, hlexeme, _⟩ | ⟨_, hnumber⟩
  · cases hlexeme
  · cases hlexeme
  · obtain ⟨_, _, _, _, _, hlexeme, _⟩ := scanString_ok hstring
    cases hlexeme
  · cases hlexeme
  · obtain ⟨number, _, _, _, _, _, _, hlexeme, _⟩ := scanNumber_ok hnumber
    have hkind := number.kind_lexeme
    rw [← hlexeme] at hkind
    rcases hkind with hkind | hkind <;> cases hkind

/-- A name is its own characters, as far as they go on. -/
theorem scan_name {first : CodePoint} {rest : Text} {text : String} {more : Nat}
    (h : scan first rest = .ok (.name text, more)) :
    isNameStart first = true ∧ text = Text.asString (first :: rest.takeWhile isNameChar) ∧
      more = (rest.takeWhile isNameChar).length := by
  rcases scan_ok_cases h with ⟨mark, _, hlexeme, _⟩ | ⟨after, _, _, hlexeme, _⟩ | ⟨_, hstring⟩ |
    ⟨hfirst, hlexeme, hmore⟩ | ⟨_, hnumber⟩
  · cases hlexeme
  · cases hlexeme
  · obtain ⟨_, _, _, _, _, hlexeme, _⟩ := scanString_ok hstring
    cases hlexeme
  · exact ⟨hfirst, Lexeme.name.inj hlexeme, hmore⟩
  · obtain ⟨number, _, _, _, _, _, _, hlexeme, _⟩ := scanNumber_ok hnumber
    have hkind := number.kind_lexeme
    rw [← hlexeme] at hkind
    rcases hkind with hkind | hkind <;> cases hkind

/-- A token is read from its own code points, up to one that it can end in front of. -/
theorem scan_local {first : CodePoint} {rest : Text} {lexeme : Lexeme} {more : Nat}
    (h : scan first rest = .ok (lexeme, more)) :
    ∃ text after, rest = text ++ after ∧ more = text.length ∧ lexeme.MayPrecede after ∧
      lexeme.Writes first text := by
  rcases scan_ok_cases h with ⟨mark, hmark, rfl, rfl⟩ | ⟨after, rfl, rfl, rfl, rfl⟩ |
    ⟨rfl, hstring⟩ | ⟨hname, rfl, rfl⟩ | ⟨hnumber, hscan⟩
  · refine ⟨[], rest, rfl, rfl, fun point _ => rfl, fun other _ => ?_⟩
    simp only [scan, hmark]
    rfl
  · exact ⟨[.scalar '.', .scalar '.'], after, rfl, rfl, fun point _ => rfl, fun other _ => rfl⟩
  · obtain ⟨text, after, rfl, rfl, hafter, hlocal⟩ := scanString_local hstring
    exact ⟨text, after, rfl, rfl, hafter, fun other _ => hlocal other⟩
  · refine ⟨rest.takeWhile isNameChar, rest.dropWhile isNameChar,
      List.takeWhile_append_dropWhile.symm, rfl, ?_, fun other hother => ?_⟩
    · intro point hpoint
      have hstop := List.head?_dropWhile_not isNameChar rest
      rw [hpoint] at hstop
      simp [Lexeme.endsBefore, hstop]
    · have hlong : (rest.takeWhile isNameChar ++ other).takeWhile isNameChar =
          rest.takeWhile isNameChar :=
        takeWhile_append_of_head? (List.all_eq_true.mp List.all_takeWhile) fun point hpoint => by
          simpa [Lexeme.endsBefore] using hother point hpoint
      rw [scan_nameStart hname, hlong]
  · obtain ⟨number, text, after, hformed, htext, rfl, rfl, rfl, hafter⟩ := scanNumber_ok hscan
    refine ⟨text, after, rfl, rfl, hafter, fun other hother => ?_⟩
    rw [scan_numberStart hnumber, scanNumber_append hformed htext hother]

end QueryLint
