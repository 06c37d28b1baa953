import QueryLint.Proofs.Tokenising

/-!
Texts that are written word by word, with a blank between two words. A word is a punctuator, a name
or the text of a value, and the tokens of such a text are those of its words. Each word can be cut
out of the text again, from the start of its first token to the end of its last.
-/

namespace QueryLint

/-- A letter or underscore, with letters, digits and underscores behind it. -/
def IsName (text : String) : Prop :=
  ∃ first rest, Text.ofString text = first :: rest ∧ isNameStart first = true ∧
    rest.all isNameChar = true

/-- The text begins with its first token and ends with its last. -/
def IsTokenText (text : Text) : Prop :=
  let tokens := (lexFrom .start text).tokens
  tokens.head?.map Token.start = some 0 ∧ tokens.getLast?.map Token.stop = some text.length

/-- What is written between two blanks. -/
inductive Word where
  | mark (sign : Punctuator)
  | name (text : String)
  | literal (text : Text)

namespace Word

def text : Word → Text
  | .mark sign => sign.text
  | .name text => text
  | .literal text => text

def lexemes : Word → List Lexeme
  | .mark sign => [.punctuator sign]
  | .name text => [.name text]
  | .literal text => lexemesOf text

/-- Parts between an opening and a closing word. -/
def enclose (opening closing : Punctuator) (parts : List (List Word)) : List Word :=
  .mark opening :: (parts.flatten ++ [.mark closing])

/-- As `Word.enclose`, but nothing if there are no parts. -/
def encloseIfAny (opening closing : Punctuator) (parts : List (List Word)) : List Word :=
  if parts.isEmpty then [] else enclose opening closing parts

/-- The word is divided into its tokens, begins with the first and ends with the last of them. -/
def Proper (word : Word) : Prop :=
  ∃ tokens, Tokenised 0 word.text tokens [] ∧ tokens.map Token.lexeme = word.lexemes ∧
    tokens.head?.map Token.start = some 0 ∧
    tokens.getLast?.map Token.stop = some word.text.length

/-! Words that are proper -/

theorem proper_of_writes {word : Word} {lexeme : Lexeme} {first : CodePoint} {rest : Text}
    (htext : word.text = first :: rest) (hlexemes : word.lexemes = [lexeme])
    (hwrites : lexeme.Writes first rest) : word.Proper := by
  let token : Token := ⟨lexeme, 0, rest.length + 1, 0, 0⟩
  have hstop : token.stop = token.start + (rest.length + 1) := (Nat.zero_add _).symm
  have htoken : Tokenised 0 ([] ++ first :: (rest ++ [])) [token] [] :=
    .token rfl hwrites lexeme.mayPrecede_nil rfl hstop .done
  rw [List.nil_append, List.append_nil] at htoken
  refine ⟨[token], ?_, hlexemes.symm, rfl, ?_⟩
  · rwa [htext]
  · rw [htext]
    rfl

theorem proper_mark (sign : Punctuator) : (Word.mark sign).Proper := by
  obtain ⟨first, rest, hbody, hwrites⟩ : ∃ first rest, Text.ofString sign.text = first :: rest ∧
      (Lexeme.punctuator sign).Writes first rest := by
    cases sign <;> exact ⟨_, _, rfl, fun _ _ => rfl⟩
  exact proper_of_writes hbody rfl hwrites

theorem proper_name {text : String} (h : IsName text) : (Word.name text).Proper := by
  obtain ⟨first, rest, hbody, hfirst, hrest⟩ := h
  have hwrites : (Lexeme.name text).Writes first rest := by
    intro after hafter
    have hlong : (rest ++ after).takeWhile isNameChar = rest :=
      takeWhile_append_of_head? (List.all_eq_true.mp hrest) fun point hpoint => by
        simpa [Lexeme.endsBefore] using hafter point hpoint
    rw [scan_nameStart hfirst, hlong, ← hbody, Text.asString_ofString]
  exact proper_of_writes hbody rfl hwrites

theorem proper_literal {text : Text} (h : IsTokenText text) : (Word.literal text).Proper := by
  obtain ⟨rest, hwhole, -⟩ := lexFrom_tokenised .start text
  obtain ⟨last, hlast, hstop⟩ := Option.map_eq_some_iff.mp h.2
  rw [← List.append_nil (lexFrom .start text).tokens] at hwhole
  obtain ⟨front, left, hbody, hfront, htokens⟩ := hwhole.upTo hlast
  have hlength : text.length = front.length := by
    rw [← hstop, hfront]
    exact Nat.zero_add _
  have hleft : left = [] := by
    rw [hbody, List.length_append] at hlength
    exact List.eq_nil_of_length_eq_zero (by omega)
  rw [hleft, List.append_nil] at hbody
  refine ⟨_, ?_, rfl, h.1, h.2⟩
  change Tokenised 0 text _ []
  rw [hbody] at htokens ⊢
  exact htokens

end Word

/-! Reading a word in front of a blank -/

/-- Nothing, or a blank with more text behind it. -/
def AtBlank (after : Text) : Prop := after = [] ∨ ∃ rest, after = .scalar ' ' :: rest

theorem Lexeme.MayPrecede.append {lexeme : Lexeme} {text after : Text}
    (h : lexeme.MayPrecede text) (hafter : AtBlank after) : lexeme.MayPrecede (text ++ after) := by
  cases text with
  | cons point text => exact h
  | nil =>
    rcases hafter with rfl | ⟨rest, rfl⟩
    · exact lexeme.mayPrecede_nil
    · exact lexeme.mayPrecede_blank rest

/-- The same tokens, further on in the text. -/
structure MovedBy (distance : Nat) (tokens moved : List Token) : Prop where
  lexemes : moved.map Token.lexeme = tokens.map Token.lexeme
  starts : moved.map Token.start = tokens.map (·.start + distance)
  stops : moved.map Token.stop = tokens.map (·.stop + distance)

/-- A text that is divided into tokens is listed as these tokens in front of a blank too. -/
theorem Tokenised.lexFrom_append {offset distance : Nat} {body after : Text}
    {tokens : List Token} (h : Tokenised offset body tokens []) (hafter : AtBlank after)
    {mark : Mark} (hmark : mark.offset = offset + distance) :
    ∃ moved next, MovedBy distance tokens moved ∧ next.offset = mark.offset + body.length ∧
      lexFrom mark (body ++ after) =
        { lexFrom next after with tokens := moved ++ (lexFrom next after).tokens } := by
  generalize hrest : ([] : Text) = rest at h
  induction h generalizing mark with
  | done =>
    subst hrest
    exact ⟨[], mark, ⟨rfl, rfl, rfl⟩, rfl, rfl⟩
  | @token offset gap text behind rest first token tokens hgap htext hbehind hstart hstop _ ih =>
    obtain ⟨here, middle, hlexeme, hhere, hend, hmiddle, hlex⟩ :=
      lexFrom_of_token hgap htext (hbehind.append hafter) mark
    have hoffset : middle.offset = token.stop + distance := by omega
    obtain ⟨moved, next, hmoved, hnext, hlater⟩ := ih hoffset hrest
    have hplace : here.start = token.start + distance := by omega
    have hbound : here.stop = token.stop + distance := by omega
    refine ⟨here :: moved, next, ⟨?_, ?_, ?_⟩, ?_, ?_⟩
    · rw [List.map_cons, List.map_cons, hlexeme, hmoved.lexemes]
    · rw [List.map_cons, List.map_cons, hplace, hmoved.starts]
    · rw [List.map_cons, List.map_cons, hbound, hmoved.stops]
    · simp only [List.length_append, List.length_cons]
      omega
    · rw [List.append_assoc, List.cons_append, List.append_assoc, hlex, hlater]
      rfl

/-- A blank in front of a text is passed over. -/
theorem lexFrom_blank (mark : Mark) (body : Text) :
    lexFrom mark (.scalar ' ' :: body) = lexFrom (mark.forward 1) body := by
  have hskip : skipIgnored false mark (.scalar ' ' :: body) =
      skipIgnored false (mark.forward 1) body := by
    rw [skipIgnored_cons fun _ hreturn => absurd hreturn (by decide)]
    rfl
  rw [lexFrom, lexFrom, hskip]

/-- A word is listed as its tokens, from its start to its end. -/
theorem Word.Proper.lexFrom_append {word : Word} (h : word.Proper) {after : Text}
    (hafter : AtBlank after) (mark : Mark) :
    ∃ tokens next, tokens.map Token.lexeme = word.lexemes ∧
      tokens.head?.map Token.start = some mark.offset ∧
      tokens.getLast?.map Token.stop = some next.offset ∧
      next.offset = mark.offset + word.text.length ∧
      lexFrom mark (word.text ++ after) =
        { lexFrom next after with tokens := tokens ++ (lexFrom next after).tokens } := by
  obtain ⟨own, hown, hlexemes, hstart, hstop⟩ := h
  obtain ⟨tokens, next, hmoved, hnext, hlex⟩ :=
    hown.lexFrom_append hafter (Nat.zero_add mark.offset).symm
  refine ⟨tokens, next, hmoved.lexemes.trans hlexemes, ?_, ?_, hnext, hlex⟩
  · obtain ⟨first, hfirst, hzero⟩ := Option.map_eq_some_iff.mp hstart
    rw [← List.head?_map, hmoved.starts, List.head?_map, hfirst, Option.map_some, hzero,
      Nat.zero_add]
  · obtain ⟨last, hlast, hlength⟩ := Option.map_eq_some_iff.mp hstop
    rw [← List.getLast?_map, hmoved.stops, List.getLast?_map, hlast, Option.map_some, hlength,
      hnext, Nat.add_comm]

/-! Texts written word by word -/

/-- The words with a blank between two of them. -/
def Word.join (words : List Word) : Text := List.intercalate [' '] (words.map Word.text)

theorem Word.join_single (word : Word) : Word.join [word] = word.text ++ [] := rfl

theorem Word.join_cons (word next : Word) (words : List Word) :
    Word.join (word :: next :: words) = word.text ++ .scalar ' ' :: Word.join (next :: words) := rfl

/-- The tokens that words of a source are read as. Each word is what the source has from the start
of its first token to the end of its last. -/
inductive Spells (source : Source) : List Word → List Token → Prop where
  | nil : Spells source [] []
  | cons {word : Word} {words : List Word} {tokens later : List Token} {start stop : Nat}
      (hlexemes : tokens.map Token.lexeme = word.lexemes)
      (hstart : tokens.head?.map Token.start = some start)
      (hstop : tokens.getLast?.map Token.stop = some stop)
      (htext : source.slice start stop = word.text) (hlater : Spells source words later) :
      Spells source (word :: words) (tokens ++ later)

namespace Spells

variable {source : Source} {words : List Word} {tokens : List Token}

theorem split {first second : List Word} (h : Spells source (first ++ second) tokens) :
    ∃ early late, tokens = early ++ late ∧ Spells source first early ∧
      Spells source second late := by
  induction first generalizing tokens with
  | nil => exact ⟨[], tokens, rfl, .nil, h⟩
  | cons word first ih =>
    cases h with
    | @cons _ _ own later start stop hlexemes hstart hstop htext hlater =>
      obtain ⟨early, late, rfl, hearly, hlate⟩ := ih hlater
      exact ⟨own ++ early, late, (List.append_assoc _ _ _).symm,
        .cons hlexemes hstart hstop htext hearly, hlate⟩

/-- A word that is a single token. -/
theorem single {word : Word} {lexeme : Lexeme} (h : Spells source (word :: words) tokens)
    (hword : word.lexemes = [lexeme]) :
    ∃ token later, tokens = token :: later ∧ token.lexeme = lexeme ∧
      source.slice token.start token.stop = word.text ∧ Spells source words later := by
  cases h with
  | @cons _ _ own later start stop hlexemes hstart hstop htext hlater =>
    rw [hword] at hlexemes
    obtain ⟨token, rfl, hlexeme⟩ := List.map_eq_singleton_iff.mp hlexemes
    obtain rfl : token.start = start := Option.some.inj hstart
    obtain rfl : token.stop = stop := Option.some.inj hstop
    exact ⟨token, later, rfl, hlexeme, htext, hlater⟩

theorem length_le (h : Spells source words tokens) : words.length ≤ tokens.length := by
  induction h with
  | nil => exact Nat.le_refl _
  | @cons word words own later start stop hlexemes hstart hstop htext hlater ih =>
    obtain ⟨first, hfirst, -⟩ := Option.map_eq_some_iff.mp hstart
    obtain ⟨others, rfl⟩ := List.head?_eq_some_iff.mp hfirst
    simp only [List.length_append, List.length_cons]
    omega

end Spells

/-- The tokens of words up to the end of the source. -/
def ListedAs (source : Source) (words : List Word) (lexed : Lexed) : Prop :=
  Spells source words lexed.tokens ∧ ∃ eof, lexed.ending = .ok eof

theorem listedAs_nil (source : Source) (mark : Mark) : ListedAs source [] (lexFrom mark []) := by
  have hgap : gapEnd? false [] = some false := rfl
  obtain ⟨eof, heof⟩ := lexFrom_of_gap hgap mark
  rw [heof]
  exact ⟨.nil, eof, rfl⟩

theorem Word.Proper.listedAs {word : Word} (h : word.Proper) {source : Source} {words : List Word}
    {front after : Text} (hsource : source.body = front ++ (word.text ++ after))
    (hafter : AtBlank after) {mark : Mark} (hmark : mark.offset = front.length)
    (hlater : ∀ next : Mark, next.offset = front.length + word.text.length →
      ListedAs source words (lexFrom next after)) :
    ListedAs source (word :: words) (lexFrom mark (word.text ++ after)) := by
  obtain ⟨tokens, next, hlexemes, hstart, hstop, hnext, hlex⟩ := h.lexFrom_append hafter mark
  obtain ⟨hspells, hending⟩ := hlater next (by rw [hnext, hmark])
  have htext : source.slice mark.offset next.offset = word.text := by
    have hsize : next.offset - mark.offset = word.text.length := by omega
    rw [Source.slice, hsource, hsize, hmark, List.drop_left, List.take_left]
  rw [hlex]
  exact ⟨.cons hlexemes hstart hstop htext hspells, hending⟩

theorem Word.lexFrom_join {words : List Word} (h : ∀ word ∈ words, word.Proper) {source : Source}
    {front : Text} (hsource : source.body = front ++ Word.join words) {mark : Mark}
    (hmark : mark.offset = front.length) :
    ListedAs source words (lexFrom mark (Word.join words)) := by
  induction words generalizing front mark with
  | nil =>
    exact listedAs_nil source mark
  | cons word words ih =>
    have hword : word.Proper := h word List.mem_cons_self
    have hwords : ∀ other ∈ words, other.Proper := fun other hother =>
      h other (List.mem_cons_of_mem _ hother)
    cases words with
    | nil =>
      rw [Word.join_single] at hsource ⊢
      apply hword.listedAs hsource (.inl rfl) hmark
      intro next _
      exact listedAs_nil source next
    | cons second words =>
      rw [Word.join_cons] at hsource ⊢
      apply hword.listedAs hsource (.inr ⟨_, rfl⟩) hmark
      intro next hnext
      rw [lexFrom_blank]
      have hbefore : source.body =
          (front ++ (word.text ++ [.scalar ' '])) ++ Word.join (second :: words) := by
        rw [hsource]
        simp
      apply ih hwords hbefore
      rw [Mark.offset_forward, hnext]
      simp only [List.length_append, List.length_cons, List.length_nil]
      omega

/-- A source that is written word by word is read word by word. -/
theorem Word.lex_join {words : List Word} (h : ∀ word ∈ words, word.Proper) {source : Source}
    (hsource : source.body = Word.join words) : ListedAs source words source.lex := by
  have hbody : source.body = [] ++ Word.join words := by
    rw [hsource, List.nil_append]
  rw [Source.lex, hbody]
  exact Word.lexFrom_join h hbody rfl

end QueryLint
