import QueryLint.Proofs.TokenText
import QueryLint.Release

/-!
How release numbers are written. A release has many spellings: with digits of any script, with zeros
in front, with two marks for a candidate and perhaps a line feed at the end. Exactly these are read,
and printing chooses one of them, so a printed release is read back.
-/

namespace QueryLint

/-! Numerals -/

/-- At least one decimal digit, of any script. -/
def IsNumeral (digits : List Char) : Prop :=
  digits ≠ [] ∧ ∀ char ∈ digits, (decimalDigit? char).isSome = true

def numeralValue (digits : List Char) : Nat :=
  digits.foldl (fun value char => value * 10 + (decimalDigit? char).getD 0) 0

/-- No digit comes next. -/
def EndsNumeral (rest : List Char) : Prop :=
  ∀ char ∈ rest.head?, (decimalDigit? char).isSome = false

theorem decimalDigit?_of_isDigit {char : Char} (h : char.isDigit = true) :
    decimalDigit? char = some (char.toNat - '0'.toNat) := by
  have hrange : 48 ≤ char.toNat ∧ char.toNat ≤ 57 := Char.isDigit_iff_toNat.mp h
  have hzero : '0'.toNat = 48 := rfl
  rw [decimalDigit?, decimalRuns, List.find?_cons_of_pos (by simpa using hrange), hzero]
  simp only [Option.map_some, Option.some.injEq]
  omega

theorem foldl_eq_ofDigitChars {digits : List Char} (h : ∀ char ∈ digits, char.isDigit = true)
    (start : Nat) :
    digits.foldl (fun value char => value * 10 + (decimalDigit? char).getD 0) start =
      Nat.ofDigitChars 10 digits start := by
  induction digits generalizing start with
  | nil => simp
  | cons digit digits ih =>
    obtain ⟨hdigit, hdigits⟩ := List.forall_mem_cons.mp h
    rw [List.foldl_cons, ih hdigits, Nat.ofDigitChars_cons, decimalDigit?_of_isDigit hdigit,
      Option.getD_some, Nat.mul_comm]

theorem isDigit_of_mem_toString {number : Nat} {char : Char}
    (h : char ∈ (toString number).toList) : char.isDigit = true := by
  rw [Nat.toString_eq_ofList_toDigits, String.toList_ofList] at h
  exact Nat.isDigit_of_mem_toDigits (by decide) (by decide) h

theorem isNumeral_toString (number : Nat) : IsNumeral (toString number).toList := by
  refine ⟨?_, fun char hchar => ?_⟩
  · rw [Nat.toString_eq_ofList_toDigits, String.toList_ofList]
    exact Nat.toDigits_ne_nil
  · rw [decimalDigit?_of_isDigit (isDigit_of_mem_toString hchar)]
    rfl

theorem numeralValue_toString (number : Nat) : numeralValue (toString number).toList = number := by
  rw [numeralValue, foldl_eq_ofDigitChars fun _ => isDigit_of_mem_toString,
    Nat.toString_eq_ofList_toDigits, String.toList_ofList, Nat.ofDigitChars_ten_toDigits]

theorem Text.mapM_char?_eq_some_iff {text : Text} {chars : List Char} :
    text.mapM CodePoint.char? = some chars ↔ text = chars.map .scalar := by
  induction text generalizing chars with
  | nil => cases chars <;> simp
  | cons point text ih =>
    cases point with
    | scalar char =>
      simp only [List.mapM_cons, CodePoint.char?, Option.bind_eq_bind, Option.bind_some,
        Option.bind_eq_some_iff, ih, Option.pure_def, Option.some.injEq]
      constructor
      · rintro ⟨rest, rfl, rfl⟩
        rfl
      · intro h
        obtain ⟨first, rest, rfl, hpoint, htext⟩ := List.map_eq_cons_iff.mp h.symm
        exact ⟨rest, htext.symm, by rw [CodePoint.scalar.inj hpoint]⟩
    | surrogate index => cases chars <;> simp [CodePoint.char?]

namespace Release

/-- All digits in front are taken. -/
theorem number?_append {digits rest : List Char}
    (hdigits : ∀ char ∈ digits, (decimalDigit? char).isSome = true) (hrest : EndsNumeral rest) :
    number? (digits ++ rest) =
      if digits = [] then none else some (numeralValue digits, rest) := by
  have htaken := takeWhile_append_of_head? hdigits hrest
  simp only [number?, htaken, List.isEmpty_iff, List.drop_left]
  rfl

theorem number?_eq_some_iff {chars rest : List Char} {value : Nat} :
    number? chars = some (value, rest) ↔
      ∃ digits, IsNumeral digits ∧ EndsNumeral rest ∧ chars = digits ++ rest ∧
        value = numeralValue digits := by
  constructor
  · intro h
    let isDigit (char : Char) : Bool := (decimalDigit? char).isSome
    have hdigits : ∀ char ∈ chars.takeWhile isDigit, isDigit char = true :=
      List.all_eq_true.mp List.all_takeWhile
    have hends : EndsNumeral (chars.dropWhile isDigit) := by
      intro char hchar
      have hstop := List.head?_dropWhile_not isDigit chars
      rwa [Option.mem_def.mp hchar] at hstop
    have hsplit : chars.takeWhile isDigit ++ chars.dropWhile isDigit = chars :=
      List.takeWhile_append_dropWhile
    rw [← hsplit, number?_append hdigits hends] at h
    split at h
    · cases h
    · rename_i hsome
      cases h
      exact ⟨_, ⟨hsome, hdigits⟩, hends, hsplit.symm, rfl⟩
  · rintro ⟨digits, ⟨hsome, hdigits⟩, hrest, rfl, rfl⟩
    rw [number?_append hdigits hrest, if_neg hsome]

theorem dotNumber?_eq_some_iff {chars rest : List Char} {value : Nat} :
    dotNumber? chars = some (value, rest) ↔
      ∃ digits, IsNumeral digits ∧ EndsNumeral rest ∧ chars = '.' :: (digits ++ rest) ∧
        value = numeralValue digits := by
  cases chars with
  | nil => simp [dotNumber?]
  | cons first chars =>
    by_cases hdot : first = '.'
    · subst hdot
      simp only [dotNumber?, number?_eq_some_iff, List.cons.injEq, true_and]
    · have hnone : dotNumber? (first :: chars) = none := by
        rw [dotNumber?]
        simpa using hdot
      simp [hnone, hdot]

/-! Levels -/

/-- The marks of the levels before the final one. -/
inductive LevelMark : ReleaseLevel → List Char → Prop where
  | alpha : LevelMark .alpha ['a']
  | beta : LevelMark .beta ['b']
  | candidate : LevelMark .candidate ['c']
  | longCandidate : LevelMark .candidate ['r', 'c']

theorem level?_eq_some_iff {chars rest : List Char} {level : ReleaseLevel} :
    level? chars = some (level, rest) ↔ ∃ mark, LevelMark level mark ∧ chars = mark ++ rest := by
  constructor
  · intro h
    unfold level? at h
    split at h
    all_goals cases h
    · exact ⟨_, .alpha, rfl⟩
    · exact ⟨_, .beta, rfl⟩
    · exact ⟨_, .longCandidate, rfl⟩
    · exact ⟨_, .candidate, rfl⟩
  · rintro ⟨mark, hmark, rfl⟩
    cases hmark <;> rfl

theorem isEnd_iff {chars : List Char} : isEnd chars = true ↔ chars = [] ∨ chars = ['\n'] := by
  simp [isEnd]

/-- What may stand behind the three numbers, with the level and the serial number it stands for. -/
inductive SuffixSpelling : ReleaseLevel → Nat → List Char → Prop where
  | final {ending : List Char} (hending : isEnd ending = true) : SuffixSpelling .final 0 ending
  | level {level : ReleaseLevel} {mark serial ending : List Char} (hmark : LevelMark level mark)
      (hserial : IsNumeral serial) (hending : isEnd ending = true) :
      SuffixSpelling level (numeralValue serial) (mark ++ (serial ++ ending))

/-- The ways of writing a release. -/
inductive Spelling : Release → List Char → Prop where
  | mk {major minor micro suffix : List Char} {level : ReleaseLevel} {serial : Nat}
      (hmajor : IsNumeral major) (hminor : IsNumeral minor) (hmicro : IsNumeral micro)
      (hsuffix : SuffixSpelling level serial suffix) :
      Spelling ⟨numeralValue major, numeralValue minor, numeralValue micro, level, serial⟩
        (major ++ '.' :: (minor ++ '.' :: (micro ++ suffix)))

theorem endsNumeral_cons {char : Char} {rest : List Char}
    (h : (decimalDigit? char).isSome = false) : EndsNumeral (char :: rest) := by
  rintro _ ⟨⟩
  exact h

theorem endsNumeral_of_isEnd {ending : List Char} (h : isEnd ending = true) :
    EndsNumeral ending := by
  rcases isEnd_iff.mp h with rfl | rfl
  · rintro _ ⟨⟩
  · exact endsNumeral_cons (by decide)

theorem LevelMark.exists_cons {level : ReleaseLevel} {mark : List Char} (h : LevelMark level mark) :
    ∃ char more, mark = char :: more ∧ (decimalDigit? char).isSome = false ∧ char ≠ '\n' := by
  cases h <;> exact ⟨_, _, rfl, by decide, by decide⟩

theorem SuffixSpelling.endsNumeral {level : ReleaseLevel} {serial : Nat} {suffix : List Char}
    (h : SuffixSpelling level serial suffix) : EndsNumeral suffix := by
  cases h with
  | final hending => exact endsNumeral_of_isEnd hending
  | level hmark _ _ =>
    obtain ⟨char, more, rfl, hchar, -⟩ := hmark.exists_cons
    exact endsNumeral_cons hchar

/-- What is read behind the three numbers. -/
def suffix? (chars : List Char) : Option (ReleaseLevel × Nat) :=
  if isEnd chars then some (.final, 0)
  else (level? chars).bind fun (level, rest) =>
    (number? rest).bind fun (serial, rest) =>
      if isEnd rest then some (level, serial) else none

theorem read?_eq (chars : List Char) :
    read? chars = (number? chars).bind fun (major, rest) =>
      (dotNumber? rest).bind fun (minor, rest) =>
        (dotNumber? rest).bind fun (micro, rest) =>
          (suffix? rest).map fun (level, serial) => ⟨major, minor, micro, level, serial⟩ := by
  rw [read?]
  apply Option.bind_congr
  rintro ⟨major, rest⟩ -
  apply Option.bind_congr
  rintro ⟨minor, rest⟩ -
  apply Option.bind_congr
  rintro ⟨micro, rest⟩ -
  simp only [suffix?]
  split
  · rfl
  · rw [Option.map_bind]
    apply Option.bind_congr
    rintro ⟨level, rest⟩ -
    simp only [Function.comp, Option.map_bind]
    apply Option.bind_congr
    rintro ⟨serial, rest⟩ -
    change _ = Option.map _ (if isEnd rest = true then some (level, serial) else none)
    split <;> rfl

theorem suffix?_eq_some_iff {chars : List Char} {level : ReleaseLevel} {serial : Nat} :
    suffix? chars = some (level, serial) ↔ SuffixSpelling level serial chars := by
  constructor
  · intro h
    rw [suffix?] at h
    split at h
    · rename_i hending
      cases h
      exact .final hending
    · simp only [Option.bind_eq_some_iff, Prod.exists] at h
      obtain ⟨_, _, hlevel, _, ending, hserial, h⟩ := h
      obtain ⟨mark, hmark, rfl⟩ := level?_eq_some_iff.mp hlevel
      obtain ⟨digits, hdigits, -, rfl, rfl⟩ := number?_eq_some_iff.mp hserial
      split at h
      · rename_i hending
        cases h
        exact .level hmark hdigits hending
      · cases h
  · intro h
    cases h with
    | final hending => rw [suffix?, if_pos hending]
    | @level _ mark digits ending hmark hserial hending =>
      have hmore : ¬isEnd (mark ++ (digits ++ ending)) = true := by
        obtain ⟨char, more, rfl, -, hchar⟩ := hmark.exists_cons
        simp [isEnd_iff, hchar]
      have hlevel : level? (mark ++ (digits ++ ending)) = some (level, digits ++ ending) :=
        level?_eq_some_iff.mpr ⟨mark, hmark, rfl⟩
      have hnumber : number? (digits ++ ending) = some (numeralValue digits, ending) :=
        number?_eq_some_iff.mpr ⟨digits, hserial, endsNumeral_of_isEnd hending, rfl, rfl⟩
      rw [suffix?, if_neg hmore]
      simp only [hlevel, hnumber, hending, Option.bind_some, if_true]

/-- Exactly the spellings are read. -/
theorem read?_eq_some_iff {chars : List Char} {release : Release} :
    read? chars = some release ↔ Spelling release chars := by
  rw [read?_eq]
  constructor
  · intro h
    simp only [Option.bind_eq_some_iff, Option.map_eq_some_iff, Prod.exists] at h
    obtain ⟨_, _, hmajor, _, _, hminor, _, suffix, hmicro, level, serial, hsuffix, rfl⟩ := h
    obtain ⟨major, hmajor', -, rfl, rfl⟩ := number?_eq_some_iff.mp hmajor
    obtain ⟨minor, hminor', -, rfl, rfl⟩ := dotNumber?_eq_some_iff.mp hminor
    obtain ⟨micro, hmicro', -, rfl, rfl⟩ := dotNumber?_eq_some_iff.mp hmicro
    exact ⟨hmajor', hminor', hmicro', suffix?_eq_some_iff.mp hsuffix⟩
  · rintro @⟨major, minor, micro, suffix, level, serial, hmajor, hminor, hmicro, hsuffix⟩
    have hdot (rest : List Char) : EndsNumeral ('.' :: rest) := endsNumeral_cons (by decide)
    simp only [number?_eq_some_iff.mpr ⟨major, hmajor, hdot _, rfl, rfl⟩,
      dotNumber?_eq_some_iff.mpr ⟨minor, hminor, hdot _, rfl, rfl⟩,
      dotNumber?_eq_some_iff.mpr ⟨micro, hmicro, hsuffix.endsNumeral, rfl, rfl⟩,
      suffix?_eq_some_iff.mpr hsuffix, Option.bind_some, Option.map_some]

/-! Printing -/

/-- The releases that can be told from what is printed: a final release has no serial number. -/
def Printable (release : Release) : Prop := release.level = .final → release.serial = 0

theorem printable_of_spelling {release : Release} {chars : List Char}
    (h : Spelling release chars) : release.Printable := by
  obtain ⟨-, -, -, hsuffix⟩ := h
  intro hfinal
  cases hsuffix with
  | final => rfl
  | level hmark => cases hmark <;> cases hfinal

theorem spelling_print {release : Release} (h : release.Printable) :
    Spelling release release.print.toList := by
  obtain ⟨major, minor, micro, level, serial⟩ := release
  have hspelling {suffix : List Char} (hsuffix : SuffixSpelling level serial suffix) :=
    Spelling.mk (isNumeral_toString major) (isNumeral_toString minor) (isNumeral_toString micro)
      hsuffix
  simp only [numeralValue_toString] at hspelling
  have hserial {mark : List Char} (hmark : LevelMark level mark) :
      SuffixSpelling level serial (mark ++ ((toString serial).toList ++ [])) := by
    have hsuffix := SuffixSpelling.level hmark (isNumeral_toString serial) (rfl : isEnd [] = true)
    rwa [numeralValue_toString] at hsuffix
  cases level with
  | final =>
    obtain rfl : serial = 0 := h rfl
    simpa [print] using hspelling (.final (rfl : isEnd [] = true))
  | alpha => simpa [print, letter] using hspelling (hserial .alpha)
  | beta => simpa [print, letter] using hspelling (hserial .beta)
  | candidate => simpa [print, letter] using hspelling (hserial .candidate)

theorem ofText?_eq_some_iff {text : Text} {release : Release} :
    ofText? text = some release ↔ ∃ chars, text = chars.map .scalar ∧ Spelling release chars := by
  simp only [ofText?, Option.bind_eq_some_iff, Text.mapM_char?_eq_some_iff, read?_eq_some_iff]

theorem ofText?_print {release : Release} (h : release.Printable) :
    ofText? release.print = some release :=
  ofText?_eq_some_iff.mpr ⟨_, rfl, spelling_print h⟩

/-- A text is read as a release if and only if it is one of its spellings: with any digits, with
zeros in front, with either mark of a candidate. What is printed for that release is read as the
same release, and so is what is printed for any release that is not final or has no serial number.
Two such releases that are printed alike are the same. -/
theorem read_print :
    (∀ (text : Text) (release : Release), ofText? text = some release ↔
      ∃ chars, text = chars.map .scalar ∧ Spelling release chars) ∧
    (∀ (text : Text) (release : Release), ofText? text = some release →
      ofText? release.print = some release) ∧
    (∀ release : Release, (release.level = .final → release.serial = 0) →
      ofText? release.print = some release) ∧
    (∀ first second : Release, (first.level = .final → first.serial = 0) →
      (second.level = .final → second.serial = 0) → first.print = second.print →
      first = second) := by
  refine ⟨fun text release => ofText?_eq_some_iff, fun text release h => ?_,
    fun release => ofText?_print, fun first second hfirst hsecond hsame => ?_⟩
  · obtain ⟨chars, -, hspelling⟩ := ofText?_eq_some_iff.mp h
    exact ofText?_print (printable_of_spelling hspelling)
  · have hread := ofText?_print hfirst
    rw [hsame, ofText?_print hsecond] at hread
    exact (Option.some.inj hread).symm

/-- Zeros in front, digits of three scripts, the longer mark of a candidate and a line feed. -/
theorem read_print_scripts :
    let text := Text.ofString "0١.2.٠३rc007\n"
    let release : Release := ⟨1, 2, 3, .candidate, 7⟩
    ofText? text = some release ∧ release.print = "1.2.3c7" ∧
      ofText? (Text.ofString "1.2.3c7") = some release := by
  intro text release
  have hread : ofText? text = some release := by decide +kernel
  have hprint : release.print = "1.2.3c7" := by decide +kernel
  refine ⟨hread, hprint, ?_⟩
  rw [← hprint]
  exact read_print.2.1 text release hread

end Release

end QueryLint
