import QueryLint.Proofs.LineCounting
import QueryLint.Proofs.TokenDivision

/-!
Offsets and their places. One code point more leads to the next column, to the next line, or nowhere
if it is the line feed that completes a line break. So places are in the order of their offsets, and
only the two offsets around such a line feed have the same place, where no token starts.
-/

namespace QueryLint

/-- Where the line breaks end in a text that starts at an offset. A carriage return and the line
feed behind it are one line break. -/
def lineBreakEnds (offset : Nat) : Text → List Nat
  | [] => []
  | .scalar '\r' :: .scalar '\n' :: rest => (offset + 2) :: lineBreakEnds (offset + 2) rest
  | point :: rest =>
    if IsLineBreak point then (offset + 1) :: lineBreakEnds (offset + 1) rest
    else lineBreakEnds (offset + 1) rest

namespace LineColumn

/-- Places are ordered by their lines and, on one line, by their columns. -/
instance : LE LineColumn :=
  ⟨fun first second =>
    first.line < second.line ∨ first.line = second.line ∧ first.column ≤ second.column⟩

theorem le_iff {first second : LineColumn} :
    first ≤ second ↔
      first.line < second.line ∨ first.line = second.line ∧ first.column ≤ second.column :=
  Iff.rfl

theorem le_refl (place : LineColumn) : place ≤ place := .inr ⟨rfl, Nat.le_refl _⟩

theorem le_trans {first second third : LineColumn} (h : first ≤ second) (h' : second ≤ third) :
    first ≤ third := by
  rw [le_iff] at h h' ⊢
  omega

theorem le_antisymm {first second : LineColumn} (h : first ≤ second) (h' : second ≤ first) :
    first = second := by
  obtain ⟨line, column⟩ := first
  obtain ⟨line', column'⟩ := second
  simp only [le_iff, mk.injEq] at h h' ⊢
  omega

/-- The column counts from the end of the last line break. -/
theorem column_advance (place : LineColumn) (text : Text) :
    ∀ {offset lineStart : Nat}, lineStart + place.column = offset + 1 →
      (lineBreakEnds offset text).getLastD lineStart + (place.advance text).column =
        offset + text.length + 1 := by
  induction place, text using advance.induct with
  | case1 place =>
    intro offset lineStart hcolumn
    exact hcolumn
  | case2 place rest ih =>
    intro offset lineStart hcolumn
    rw [advance, lineBreakEnds, List.getLastD_cons, @ih (offset + 2) (offset + 2) rfl,
      List.length_cons, List.length_cons]
    omega
  | case3 place point rest hpair hbreak ih =>
    intro offset lineStart hcolumn
    have hbreak : IsLineBreak point := hbreak
    rw [advance_cons hpair, if_pos hbreak, lineBreakEnds, if_pos hbreak, List.getLastD_cons,
      @ih (offset + 1) (offset + 1) rfl, List.length_cons]
    · omega
    · exact hpair
  | case4 place point rest hpair hbreak ih =>
    intro offset lineStart hcolumn
    have hbreak : ¬IsLineBreak point := hbreak
    have hnext : lineStart + place.nextColumn.column = offset + 1 + 1 :=
      congrArg Nat.succ hcolumn
    rw [advance_cons hpair, if_neg hbreak, lineBreakEnds, if_neg hbreak, ih hnext, List.length_cons]
    · omega
    · exact hpair

/-- One code point more at the end of a text. -/
theorem advance_concat (place : LineColumn) (before : Text) (point : CodePoint) :
    place.advance (before ++ [point]) =
      if before.getLast? = some (.scalar '\r') ∧ point = '\n' then place.advance before
      else if IsLineBreak point then (place.advance before).nextLine
      else (place.advance before).nextColumn := by
  split_ifs with hpair hbreak
  · -- the line feed goes with the carriage return, which has led to the next line already
    obtain ⟨hlast, rfl⟩ := hpair
    obtain ⟨front, rfl⟩ := List.getLast?_eq_some_iff.mp hlast
    have happend {after : Text} (hafter : after.head? ≠ some (.scalar '\n')) :
        place.advance (front ++ after) = (place.advance front).advance after :=
      advance_append (fun _ => hafter) place
    rw [List.append_assoc, happend (by simp), happend (by simp)]
    rfl
  · rw [advance_append fun hlast hfeed => hpair ⟨hlast, by simpa using hfeed⟩,
      advance_cons (by simp), if_pos hbreak]
    rfl
  · rw [advance_append fun hlast hfeed => hpair ⟨hlast, by simpa using hfeed⟩,
      advance_cons (by simp), if_neg hbreak]
    rfl

end LineColumn

theorem Lexed.mem_all_iff {lexed : Lexed} {token : Token} :
    token ∈ lexed.all ↔ token ∈ lexed.tokens ∨ lexed.ending = .ok token := by
  rw [all, List.mem_append]
  cases lexed.ending <;> simp [Except.toOption, eq_comm]

namespace Source

variable {source : Source}

/-- The offset stands between a carriage return and a line feed. -/
def DividesBreak (source : Source) (offset : Nat) : Prop :=
  1 ≤ offset ∧ source.slice (offset - 1) (offset + 1) = "\r\n"

instance (offset : Nat) : Decidable (source.DividesBreak offset) :=
  inferInstanceAs (Decidable (_ ∧ _))

theorem dividesBreak_iff {offset : Nat} :
    source.DividesBreak offset ↔
      (source.body.take offset).getLast? = some (.scalar '\r') ∧
        source.body[offset]? = some (.scalar '\n') := by
  cases offset with
  | zero => simp [DividesBreak]
  | succ offset =>
    have hsize : offset + 1 + 1 - (offset + 1 - 1) = 2 := by omega
    have hlast : (source.body.take (offset + 1)).getLast? =
        (source.body.drop offset)[0]?.or source.body.getLast? := by
      simp [List.getLast?_take]
    have hnext : source.body[offset + 1]? = (source.body.drop offset)[1]? := by simp
    have hpair : Text.ofString "\r\n" = (['\r', '\n'] : Text) := rfl
    rw [DividesBreak, slice, hsize, Nat.add_sub_cancel, hlast, hnext, hpair]
    rcases source.body.drop offset with _ | ⟨first, _ | ⟨second, rest⟩⟩ <;> simp

theorem locate_eq (source : Source) (offset : Nat) :
    source.locate offset = LineColumn.start.advance (source.body.take offset) := by
  rw [locate, offsetOf, if_neg (by omega), Int.toNat_natCast, lineColumn]

/-- Where the next offset leads to. -/
theorem locate_succ {offset : Nat} {point : CodePoint} (h : source.body[offset]? = some point) :
    source.locate (offset + 1 : Nat) =
      if source.DividesBreak offset then source.locate offset
      else if IsLineBreak point then (source.locate offset).nextLine
      else (source.locate offset).nextColumn := by
  simp only [locate_eq, List.take_add_one, h, Option.toList_some, LineColumn.advance_concat,
    dividesBreak_iff, Option.some.injEq]

theorem locate_le_succ {offset : Nat} (h : offset < source.body.length) :
    source.locate offset ≤ source.locate (offset + 1 : Nat) := by
  rw [locate_succ (List.getElem?_eq_getElem h)]
  split_ifs
  · exact LineColumn.le_refl _
  · exact .inl (Nat.lt_succ_self _)
  · exact .inr ⟨rfl, Nat.le_succ _⟩

theorem locate_eq_succ_iff {offset : Nat} (h : offset < source.body.length) :
    source.locate offset = source.locate (offset + 1 : Nat) ↔ source.DividesBreak offset := by
  rw [locate_succ (List.getElem?_eq_getElem h)]
  split_ifs with hdivides hbreak
  · simp [hdivides]
  · refine iff_of_false (fun hsame => ?_) hdivides
    have hline := congrArg LineColumn.line hsame
    simp [LineColumn.nextLine] at hline
  · refine iff_of_false (fun hsame => ?_) hdivides
    have hcolumn := congrArg LineColumn.column hsame
    simp [LineColumn.nextColumn] at hcolumn

theorem locate_mono {first second : Nat} (h : first ≤ second) :
    source.locate first ≤ source.locate second := by
  induction h with
  | refl => exact LineColumn.le_refl _
  | @step second h ih =>
    by_cases hinside : second < source.body.length
    · exact LineColumn.le_trans ih (locate_le_succ hinside)
    · rw [locate_eq source (second + 1), List.take_of_length_le (by omega)]
      rw [locate_eq source second, List.take_of_length_le (by omega)] at ih
      exact ih

/-- Only the two offsets around a line feed that completes a line break have the same place. -/
theorem locate_eq_iff {first second : Nat} (h : first < second)
    (hinside : second ≤ source.body.length) :
    source.locate first = source.locate second ↔
      second = first + 1 ∧ source.DividesBreak first := by
  constructor
  · intro hsame
    -- nothing comes between two equal places
    have hnext : source.locate first = source.locate (first + 1 : Nat) := by
      apply LineColumn.le_antisymm (locate_mono (Nat.le_succ first))
      rw [hsame]
      exact locate_mono h
    have hdivides := (locate_eq_succ_iff (by omega)).mp hnext
    refine ⟨Nat.le_antisymm (Nat.le_of_not_lt fun hfar => ?_) h, hdivides⟩
    have hafter : source.locate (first + 1 : Nat) = source.locate (first + 1 + 1 : Nat) := by
      apply LineColumn.le_antisymm (locate_mono (Nat.le_succ _))
      rw [← hnext, hsame]
      exact locate_mono hfar
    have hreturn := (dividesBreak_iff.mp ((locate_eq_succ_iff (by omega)).mp hafter)).1
    have hfeed := (dividesBreak_iff.mp hdivides).2
    rw [List.take_add_one, hfeed] at hreturn
    simp at hreturn
  · rintro ⟨rfl, hdivides⟩
    exact (locate_eq_succ_iff hinside).mpr hdivides

theorem column_locate {offset : Nat} (h : offset ≤ source.body.length) :
    (lineBreakEnds 0 (source.body.take offset)).getLastD 0 + (source.locate offset).column =
      offset + 1 := by
  rw [locate_eq, LineColumn.column_advance .start _ rfl, List.length_take, Nat.min_eq_left h,
    Nat.zero_add]

/-- No token starts inside a line break. -/
theorem not_dividesBreak_start {token : Token} (h : token ∈ source.lex.all)
    (hinside : token.start < source.body.length) : ¬source.DividesBreak token.start := by
  intro hdivides
  have hfeed := (dividesBreak_iff.mp hdivides).2
  rcases Lexed.mem_all_iff.mp h with htoken | hend
  · obtain ⟨front, text, after, hbody, hstart, -, htext⟩ := tokenText_of_mem_lex htoken
    obtain ⟨first, more, rfl, -⟩ := htext.writes
    rw [hbody, hstart] at hfeed
    obtain rfl : first = '\n' := by simpa using hfeed
    exact htext.clear '\n' (.head _) (.inl rfl)
  · have hlast := (source.lex_ending hend).1
    omega

theorem start_le_of_mem_all {token : Token} (h : token ∈ source.lex.all) :
    token.start ≤ source.body.length := by
  rcases Lexed.mem_all_iff.mp h with htoken | hend
  · have hbounds := source.lex_tokens_ordered.1 token htoken
    omega
  · exact Nat.le_of_eq (source.lex_ending hend).1

theorem locate_start_of_mem_all {token : Token} (h : token ∈ source.lex.all) :
    source.locate token.start = ⟨token.line, token.column⟩ := by
  rw [locate_eq]
  exact lexFrom_places .start source.body [] (Mark.between_start source.body) token h

theorem locate_start_ne {first second : Token} (hfirst : first ∈ source.lex.all)
    (hsecond : second ∈ source.lex.all) (h : first.start < second.start) :
    source.locate first.start ≠ source.locate second.start := by
  have hinside := start_le_of_mem_all hsecond
  rw [Ne, locate_eq_iff h hinside]
  exact fun hdivides => not_dividesBreak_start hfirst (by omega) hdivides.2

/-- Places are in the order of their offsets, and two offsets have the same place only if they stand
around the line feed behind a carriage return. The column counts from the end of the last line break
in front of the offset, or from the start of the source. So tokens that start at different offsets
stand at different places, and errors in the order of their offsets are in the order of their
places. -/
theorem locate_in_order (source : Source) :
    (∀ first second : Nat, first < second → second ≤ source.body.length →
      source.locate first ≤ source.locate second ∧
      (source.locate first = source.locate second ↔ second = first + 1 ∧ 1 ≤ first ∧
        source.slice (first - 1) (first + 1) = "\r\n")) ∧
    (∀ offset : Nat, offset ≤ source.body.length →
      ((source.locate offset).column : Int) - 1 =
        offset - (lineBreakEnds 0 (source.body.take offset)).getLastD 0) ∧
    (∀ first ∈ source.lex.all, ∀ second ∈ source.lex.all, first.start ≠ second.start →
      source.locate first.start ≠ source.locate second.start ∧
      (first.line, first.column) ≠ (second.line, second.column)) ∧
    (∀ errors : List SyntaxError,
      (errors.Pairwise fun first second => first.position ≤ second.position) →
      errors.Pairwise fun first second =>
        source.locate first.position ≤ source.locate second.position) := by
  refine ⟨fun first second hless hinside => ?_, fun offset hoffset => ?_,
    fun first hfirst second hsecond hne => ?_, fun errors hsorted => hsorted.imp locate_mono⟩
  · exact ⟨locate_mono (Nat.le_of_lt hless), locate_eq_iff hless hinside⟩
  · have hcolumn := column_locate hoffset
    omega
  · have hplaces : source.locate first.start ≠ source.locate second.start := by
      rcases Nat.lt_or_gt_of_ne hne with hless | hless
      · exact locate_start_ne hfirst hsecond hless
      · exact (locate_start_ne hsecond hfirst hless).symm
    refine ⟨hplaces, fun hsame => hplaces ?_⟩
    rw [locate_start_of_mem_all hfirst, locate_start_of_mem_all hsecond, LineColumn.mk.injEq]
    exact Prod.mk.inj hsame

/-- The second line break is cut in half by one of the offsets. -/
theorem locate_in_order_around_feed :
    let source : Source := { body := "a\n\r\nb" }
    source.locate 3 = source.locate 4 ∧ source.slice 2 4 = "\r\n" ∧
      source.locate 2 ≤ source.locate 3 ∧ source.locate 2 ≠ source.locate 3 ∧
      lineBreakEnds 0 (source.body.take 4) = [2, 4] ∧
      ((source.locate 4).column : Int) - 1 = 0 := by
  intro source
  obtain ⟨hplaces, hcolumns, -, -⟩ := locate_in_order source
  have hslice : source.slice 2 4 = "\r\n" := by decide +kernel
  have hends : lineBreakEnds 0 (source.body.take 4) = [2, 4] := by decide +kernel
  obtain ⟨hordered, hdifferent⟩ := hplaces 2 3 (by decide) (by decide)
  refine ⟨?_, hslice, hordered, fun hsame => ?_, hends, ?_⟩
  · exact (hplaces 3 4 (by decide) (by decide)).2.mpr ⟨rfl, by decide, hslice⟩
  · exact absurd (hdifferent.mp hsame).2.2 (by decide +kernel)
  · simpa [hends] using hcolumns 4 (by decide)

end Source

end QueryLint
