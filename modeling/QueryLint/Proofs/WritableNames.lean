import QueryLint.Proofs.DocumentAcceptance
import QueryLint.Proofs.NameResolution
import QueryLint.Proofs.TokenDivision

/-!
Names of the type system and names in documents. Lexing takes a text for one name exactly if it is
a letter or underscore with letters, digits and underscores behind it, and each such name can be
referred to by a document. The type system takes one more form: it passes over a line feed at the
end of a name, and what it accepts then is a name that no document can write.
-/

namespace QueryLint

/-! Texts that are lexed as one name -/

/-- Lexing the text yields one token in front of the end of the source, and this is a name that has
the text as its value and spans all of it. -/
def Text.IsLoneName (text : Text) : Prop :=
  ∃ (source : Source) (token eof : Token), source.body = text ∧
    source.lex = ⟨[token], .ok eof⟩ ∧ token.kind = .name ∧ token.lexeme.value? = some text ∧
    token.start = 0 ∧ token.stop = text.length

theorem Token.exists_name_of_kind {token : Token} (h : token.kind = .name) :
    ∃ name, token.lexeme = .name name := by
  rw [kind] at h
  cases hlexeme : token.lexeme with
  | name text => exact ⟨text, rfl⟩
  | _ =>
    rw [hlexeme] at h
    cases h

/-- The value of a name token is a name, whatever stands around it. -/
theorem Source.isName_of_mem_lex {source : Source} {token : Token} {text : Text}
    (htoken : token ∈ source.lex.tokens) (hkind : token.kind = .name)
    (hvalue : token.lexeme.value? = some text) :
    ∃ name, IsName name ∧ text = Text.ofString name := by
  obtain ⟨name, hname⟩ := Token.exists_name_of_kind hkind
  rw [hname] at hvalue
  exact ⟨name, isName_of_mem_lexFrom htoken hname, (Option.some.inj hvalue).symm⟩

theorem IsName.tokenText {name : String} (h : IsName name) : TokenText (.name name) name := by
  obtain ⟨first, rest, htext, hfirst, hrest⟩ := h
  refine .name ⟨first, rest, htext, isNameStart_iff.mp hfirst, fun point hpoint => ?_⟩
  exact isNameChar_iff.mp (List.all_eq_true.mp hrest point hpoint)

theorem Text.isLoneName_iff {text : Text} :
    text.IsLoneName ↔ ∃ name, IsName name ∧ text = Text.ofString name := by
  constructor
  · rintro ⟨source, token, eof, -, hlex, hkind, hvalue, -, -⟩
    have htoken : token ∈ source.lex.tokens := by simp [hlex]
    exact Source.isName_of_mem_lex htoken hkind hvalue
  · rintro ⟨name, hname, rfl⟩
    have htext : TokenText (.name name) (Source.body { body := name }) := hname.tokenText
    exact ⟨{ body := name }, _, _, rfl, htext.lex_eq, rfl, rfl, rfl, rfl⟩

/-! Names of the type system -/

theorem Text.isName_iff {text : Text} :
    text.isName = true ↔ ∃ name, IsName name ∧ text.dropFinalNewline = Text.ofString name := by
  rw [isName]
  constructor
  · intro h
    split at h
    · cases h
    · rename_i first rest htext
      obtain ⟨hfirst, hrest⟩ := Bool.and_eq_true_iff.mp h
      have hown := ofString_asString_name hfirst (List.all_eq_true.mp hrest)
      exact ⟨asString (first :: rest), ⟨first, rest, hown, hfirst, hrest⟩, htext.trans hown.symm⟩
  · rintro ⟨name, ⟨first, rest, htext, hfirst, hrest⟩, hname⟩
    rw [hname, htext]
    simp only [hfirst, hrest, Bool.and_self]

/-- A name may have one line feed behind it. -/
theorem IsName.dropFinalNewline_eq_iff {name : String} (h : IsName name) {text : Text} :
    text.dropFinalNewline = Text.ofString name ↔
      text = Text.ofString name ∨ text = Text.ofString name ++ [.scalar '\n'] := by
  have hclear : (Text.ofString name).getLast? ≠ some (.scalar '\n') := fun hlast =>
    h.not_mem_newline (List.mem_of_getLast? hlast)
  rw [Text.dropFinalNewline]
  constructor
  · intro hdrop
    split at hdrop
    · rename_i hlast
      refine .inr ?_
      rw [← hdrop]
      exact (List.dropLast_append_getLast? _ hlast).symm
    · exact .inl hdrop
  · rintro (rfl | rfl)
    · rw [if_neg hclear]
    · simp

theorem checkName_eq_ok_iff {text : Text} {allowReserved : Bool} :
    checkName text allowReserved = .ok () ↔
      text.isName = true ∧ (allowReserved = true ∨ text.isReserved = false) := by
  rw [checkName]
  cases text.isReserved <;> cases allowReserved <;> cases text.isName <;> simp

theorem Text.isReserved_eq_false_iff {text : Text} :
    text.isReserved = false ↔ ¬[.scalar '_', .scalar '_'] <+: text := by
  rw [isReserved, beq_eq_false_iff_ne, List.prefix_iff_eq_take, ne_comm]
  rfl

/-- Apart from being reserved, a name of the type system is one that lexing takes for a name, or
such a name with a line feed behind it. -/
theorem Text.isName_iff_isLoneName {text : Text} :
    text.isName = true ↔
      text.IsLoneName ∨ ∃ name : Text, name.IsLoneName ∧ text = name ++ [.scalar '\n'] := by
  rw [isName_iff]
  constructor
  · rintro ⟨name, hname, hdrop⟩
    have hlone : Text.IsLoneName (Text.ofString name) := isLoneName_iff.mpr ⟨name, hname, rfl⟩
    rcases hname.dropFinalNewline_eq_iff.mp hdrop with rfl | rfl
    · exact .inl hlone
    · exact .inr ⟨_, hlone, rfl⟩
  · rintro (hlone | ⟨lone, hlone, rfl⟩)
    · obtain ⟨name, hname, rfl⟩ := isLoneName_iff.mp hlone
      exact ⟨name, hname, hname.dropFinalNewline_eq_iff.mpr (.inl rfl)⟩
    · obtain ⟨name, hname, rfl⟩ := isLoneName_iff.mp hlone
      exact ⟨name, hname, hname.dropFinalNewline_eq_iff.mpr (.inr rfl)⟩

/-- Lexing never takes a line feed into a name. -/
theorem Text.not_isLoneName_append_newline (name : Text) :
    ¬Text.IsLoneName (name ++ [.scalar '\n']) := by
  intro h
  obtain ⟨other, hother, hsame⟩ := isLoneName_iff.mp h
  apply hother.not_mem_newline
  simp [← hsame]

/-! Documents that refer to a name -/

/-- The tokens of a definition are those of its plain form, but for the keyword of a query. -/
theorem mem_of_mem_plainForm {lexeme : Lexeme} {lexemes : List Lexeme}
    (h : lexeme ∈ plainForm lexemes) : lexeme = .name "query" ∨ lexeme ∈ lexemes := by
  have hdelimiter (delimiter : Punctuator) (rest : List Lexeme) :
      dropDelimiter delimiter rest ⊆ rest := by
    unfold dropDelimiter
    split
    · split
      · exact List.subset_cons_self _ _
      · exact List.Subset.refl _
    · exact List.Subset.refl _
  have hpipe (rest : List Lexeme) : dropLeadingPipe rest ⊆ rest := by
    induction rest with
    | nil => exact List.Subset.refl _
    | cons first rest ih =>
      rw [dropLeadingPipe]
      split
      · exact List.cons_subset_cons _ (hdelimiter _ _)
      · exact List.cons_subset_cons _ ih
  have hlead (rest : List Lexeme) : withoutLead rest ⊆ rest := by
    unfold withoutLead
    split
    · exact List.cons_subset_cons _ (List.cons_subset_cons _ (List.cons_subset_cons _
        (hdelimiter _ _)))
    · exact List.cons_subset_cons _ (hpipe _)
    · exact List.Subset.refl _
  unfold plainForm at h
  split at h
  · exact List.mem_cons.mp h
  · exact .inr (List.mem_cons_of_mem _ h)
  · exact .inr (List.cons_subset_cons _ (hlead _) h)
  · exact .inr (hlead _ h)

/-- The names that a document is written with are names. -/
theorem Source.isName_of_parse {source : Source} {located : Bool} {document : Document}
    (h : source.parse located = .ok document) {definition : Definition}
    (hdefinition : definition ∈ document.definitions) {name : String}
    (hname : .name name ∈ definition.lexemes) : IsName name := by
  obtain ⟨-, parts, hflat, hparts⟩ := Source.parse_writtenAs h
  have hmem : definition.lexemes ∈ parts.map plainForm :=
    hparts ▸ List.mem_map_of_mem hdefinition
  obtain ⟨part, hpart, hplain⟩ := List.mem_map.mp hmem
  rw [← hplain] at hname
  rcases mem_of_mem_plainForm hname with hquery | htoken
  · cases hquery
    exact Grammar.isName_operationType .query
  · have hlexeme : .name name ∈ lexemesOf source.body := by
      rw [hflat]
      exact List.mem_flatten_of_mem hpart htoken
    obtain ⟨token, htoken, hlexeme⟩ := List.mem_map.mp hlexeme
    exact isName_of_mem_lexFrom htoken hlexeme

/-- A query that has the name as a type condition, and below it as a field and as an argument of
that field. -/
def Document.referringTo (name : String) : Document :=
  let named : Name := ⟨name, none⟩
  let field : Selection :=
    .field none named [⟨named, .plain "0" none, none⟩] [] none none
  let fragment : Selection := .inline (some ⟨named, none⟩) [] (.mk [field] none) none
  ⟨[.operation ⟨.query, none, [], [], .mk [fragment] none, none⟩], none⟩

theorem Document.wellFormed_referringTo {name : String} (h : IsName name) :
    (Document.referringTo name).WellFormed := by
  have hvalue : Value.WellFormed false (.plain "0" none) := by
    have hlexemes : lexemesOf "0" = [.int "0"] := by decide +kernel
    refine .plain ⟨by decide +kernel, by decide +kernel⟩ ?_ ?_
    · rw [hlexemes]
      exact .single (by decide)
    · rw [hlexemes]
      intro value hsingle
      cases hsingle
  have hfield : Selection.WellFormed (.field none ⟨name, none⟩
      [⟨⟨name, none⟩, .plain "0" none, none⟩] [] none none) :=
    .field (by simp) h (List.forall_mem_singleton.mpr ⟨h, hvalue⟩) (by simp) (by simp)
  have hinner : SelectionSet.WellFormed (.mk [_] none) :=
    .mk (List.cons_ne_nil _ _) (List.forall_mem_singleton.mpr hfield)
  have hcondition : ∀ type ∈ some (⟨⟨name, none⟩, none⟩ : TypeName), type.WellFormed := by
    intro type htype
    cases htype
    exact h
  have hfragment : Selection.WellFormed (.inline (some ⟨⟨name, none⟩, none⟩) [] _ none) :=
    .inline hcondition (by simp) hinner
  have hset : SelectionSet.WellFormed (.mk [_] none) :=
    .mk (List.cons_ne_nil _ _) (List.forall_mem_singleton.mpr hfragment)
  have hquery : OperationDefinition.WellFormed ⟨.query, none, [], [], _, none⟩ :=
    ⟨by simp, by simp, by simp, hset⟩
  exact ⟨List.cons_ne_nil _ _, List.forall_mem_singleton.mpr hquery⟩

theorem Source.parse_referringTo {name : String} (h : IsName name) {source : Source}
    (hbody : source.body = (Document.referringTo name).print) :
    source.parse false = .ok (Document.referringTo name) := by
  have hformed := Document.wellFormed_referringTo h
  obtain ⟨hspells, hending⟩ := Word.lex_join hformed.proper hbody
  have hplain : Setting.Plain ⟨source, false, source.lex.ending⟩ := ⟨rfl, hending⟩
  obtain ⟨last, hrun⟩ := Grammar.document_run hplain rfl hformed hspells
  have hunlocated : Revision.unlocated.document (Document.referringTo name) =
      Document.referringTo name := rfl
  rw [hunlocated] at hrun
  rw [Source.parse, Source.readWith]
  dsimp only at hrun ⊢
  rw [hrun]
  rfl

/-- A name can be referred to as a type, a field and an argument exactly if lexing takes it for a
name. -/
theorem Text.isLoneName_iff_referredTo {text : Text} :
    text.IsLoneName ↔ ∃ (name : String) (source : Source), text = Text.ofString name ∧
      source.parse false = .ok (Document.referringTo name) := by
  rw [isLoneName_iff]
  constructor
  · rintro ⟨name, hname, rfl⟩
    exact ⟨name, { body := (Document.referringTo name).print }, rfl,
      Source.parse_referringTo hname rfl⟩
  · rintro ⟨name, source, rfl, hparse⟩
    refine ⟨name, Source.isName_of_parse hparse List.mem_cons_self ?_, rfl⟩
    simp [Definition.lexemes, OperationDefinition.lexemes, SelectionSet.lexemes,
      Selection.listLexemes, Selection.lexemes, TypeName.lexemes, Name.lexemes]

/-- What the type system accepts as a name, told by lexing. Accepted, with reserved names allowed,
are the texts that lexing takes for one name from their start to their end, and these texts with a
line feed behind them; without leave for reserved names, those of them that do not start with two
underscores. So the type system and the lexer agree on a text exactly if it is not a name with a
line feed behind it. The names that lexing takes for names are those that stand in any source as a
name, and those that a document can refer to as a type, a field and an argument. -/
theorem checkName_eq_ok_iff_lexed (text : Text) :
    (checkName text true = .ok () ↔
      text.IsLoneName ∨ ∃ name : Text, name.IsLoneName ∧ text = name ++ [.scalar '\n']) ∧
    (checkName text = .ok () ↔
      checkName text true = .ok () ∧ ¬[.scalar '_', .scalar '_'] <+: text) ∧
    ((checkName text true = .ok () ↔ text.IsLoneName) ↔
      ¬∃ name : Text, name.IsLoneName ∧ text = name ++ [.scalar '\n']) ∧
    (text.IsLoneName ↔ ∃ source : Source, ∃ token ∈ source.lex.tokens,
      token.kind = .name ∧ token.lexeme.value? = some text) ∧
    (text.IsLoneName ↔ ∃ (name : String) (source : Source), text = Text.ofString name ∧
      source.parse false = .ok (Document.referringTo name)) := by
  have hallowed : checkName text true = .ok () ↔
      text.IsLoneName ∨ ∃ name : Text, name.IsLoneName ∧ text = name ++ [.scalar '\n'] := by
    rw [checkName_eq_ok_iff, Text.isName_iff_isLoneName]
    simp
  refine ⟨hallowed, ?_, ?_, ?_, Text.isLoneName_iff_referredTo⟩
  · rw [checkName_eq_ok_iff, checkName_eq_ok_iff, Text.isReserved_eq_false_iff]
    simp
  · rw [hallowed]
    constructor
    · rintro hagree ⟨name, hname, rfl⟩
      exact Text.not_isLoneName_append_newline name (hagree.mp (.inr ⟨name, hname, rfl⟩))
    · exact fun hplain => or_iff_left hplain
  · constructor
    · rintro ⟨source, token, eof, -, hlex, hkind, hvalue, -, -⟩
      exact ⟨source, token, by simp [hlex], hkind, hvalue⟩
    · rintro ⟨source, token, htoken, hkind, hvalue⟩
      exact Text.isLoneName_iff.mpr (Source.isName_of_mem_lex htoken hkind hvalue)

/-- The type system accepts a name with a line feed behind it, which lexing does not take for a
name. -/
theorem checkName_accepts_final_newline :
    checkName "abc\n" true = .ok () ∧ checkName "abc\n" = .ok () ∧
      ¬Text.IsLoneName (Text.ofString "abc\n") :=
  ⟨rfl, rfl, Text.not_isLoneName_append_newline (Text.ofString "abc")⟩

end QueryLint
