import QueryLint.Proofs.OperationTypeForesight

/-!
Definitions are decided by the tokens they consume and the one behind them. A description in front
of a definition is passed over as if its keyword were chosen behind it.
-/

namespace QueryLint

namespace Grammar

open Reader Reading

variable {κ α : Type} {limit bound : κ → Nat} {follow : Lexeme → Prop} {setting : Setting}
  {cursor : Cursor}

/-! Operations and fragments -/

/-- A type with what may stand behind it is told apart from what follows. -/
structure EndsInput (follow : Lexeme → Prop) : Prop where
  bang : ¬follow (.punctuator .bang)
  equals : ¬follow (.punctuator .equals)
  sign : ¬follow (.punctuator .at)
  paren : ¬follow (.punctuator .parenL)

theorem endsInput_parenR : EndsInput (· = .punctuator .parenR) where
  bang := by simp
  equals := by simp
  sign := by simp
  paren := by simp

theorem variableDefinition_foresees (hfollow : EndsInput follow) :
    Foresees (fun _ => variableDefinition) limit (· = .punctuator .dollar) follow bound :=
  (mark_foresees .dollar limit bound _).bind <| (name_foresees _ _ _).bind <|
    (mark_foresees .colon _ _ _).bind <| (typeExpr_foresees hfollow.bang).bind <|
    (defaultValue_foresees hfollow.equals).bind <|
    (directives_foresees true hfollow.sign hfollow.paren).bind <| .spanned _ _ _ _ _

theorem shorthand_foresees :
    Foresees (fun _ => shorthand) limit (· = .punctuator .braceL) anything bound :=
  (current_foresees limit bound _).bind <| selectionSet_foresees.bind <| .spanned _ _ _ _ _

/-- Directives in front of a selection set. -/
theorem openDirectives_foresees (const : Bool) :
    Foresees (fun _ => directives const) limit (· = .punctuator .braceL) (· = .punctuator .braceL)
      bound :=
  directives_foresees const (by simp) (by simp)

/-- An operation in front of whose keyword nothing is consumed. -/
theorem operationDefinition_prompt : ∃ rest : Token → OperationType → Reader OperationDefinition,
    operationDefinition = (current >>= fun start => operationType >>= rest start) ∧
      ∀ {κ : Type} (limit bound : κ → Nat),
        Foresees (fun _ => current >>= fun start => promptOperationType >>= rest start) limit
          (· = .name "query") anything bound := by
  have hname {γ : Type} {limit bound : γ → Nat} : Foresees (fun _ => optionalItem .name name) limit
      (· = .punctuator .braceL) (· = .punctuator .braceL) bound :=
    optionalItem_foresees (name_decides _ _ _) nofun (by rintro _ rfl; simp [Lexeme.kind])
  have hvariables {γ : Type} {limit bound : γ → Nat} : Foresees (fun _ =>
      optionalMany (.punctuator .parenL) variableDefinition (.punctuator .parenR)) limit
        (· = .punctuator .braceL) (· = .punctuator .braceL) bound :=
    optionalMany_foresees (variableDefinition_foresees endsInput_parenR) (by simp) rfl (by simp)
      (by simp)
  refine ⟨_, rfl, fun limit bound => ?_⟩
  exact (current_foresees limit bound _).bind <| (promptOperationType_foresees _ _ _).bind <|
    hname.bind <| hvariables.bind <| (openDirectives_foresees false).bind <|
    selectionSet_foresees.bind <| .spanned _ _ _ _ _

/-- An operation is decided in front of the name of an operation type. -/
theorem operationDefinition_decides {text : String} {operation : OperationType}
    (hknown : OperationType.ofText? text = some operation) {x : κ} (hfits : setting.Fits cursor)
    (hleft : cursor.left.length < bound x) (hhere : cursor.token.lexeme = .name text) :
    Decided (fun _ => Definition.operation <$> operationDefinition) limit (fun _ => False)
      (· = .eof) x setting cursor := by
  obtain ⟨rest, hshape, hforesees⟩ := operationDefinition_prompt
  have hprompt : Foresees (fun _ : κ => Definition.operation <$> (current >>= fun start =>
      promptOperationType >>= rest start)) limit (· = .name "query") (· = .eof) bound :=
    ((hforesees limit bound).mono fun _ _ => trivial).map
  have hstrict := hprompt.decides.strict .eof rfl (by simp)
  refine hstrict.on_strict (· = .name text) (fun _ setting cursor htext => ?_) hfits hleft hhere
  rw [map_eq_pure_bind, map_eq_pure_bind, hshape]
  refine run_bind_congr ?_ _
  rw [run_current, run_current]
  refine run_bind_congr (run_operationType_eq fun other hother => ?_) _
  obtain rfl : text = other := Lexeme.name.inj (htext.symm.trans hother)
  simp [hknown]

theorem fragmentDefinition_foresees :
    Foresees (fun _ => fragmentDefinition) limit (· = .name "fragment") anything bound := by
  have hfragment : IsName "fragment" := ⟨'f', ['r', 'a', 'g', 'm', 'e', 'n', 't'], rfl, rfl, rfl⟩
  exact (current_foresees limit bound _).bind <| (keyword_foresees hfragment _ _ _).bind <|
    (fragmentName_foresees _ _ _).bind <| (keyword_foresees isName_on _ _ _).bind <|
    (typeName_foresees _ _ _).bind <| (openDirectives_foresees false).bind <|
    selectionSet_foresees.bind <| .spanned _ _ _ _ _

/-! Descriptions -/

theorem run_description_string {decoded : Text} (h : cursor.token.lexeme = .string decoded) :
    (description : Reader (Option StringValue)) setting cursor = (expect .string >>= fun token =>
      stringAt token decoded >>= fun string => pure (some string)) setting cursor := by
  have hkind : cursor.token.lexeme.kind = .string := by rw [h]; rfl
  rw [← run_advance_bind hkind, description, run_current, h, ← bind_assoc]
  rfl

theorem run_description_missing (h : cursor.token.lexeme.kind ≠ .string) :
    (description : Reader (Option StringValue)) setting cursor = .ok (none, cursor) := by
  rw [description, run_current]
  cases hlexeme : cursor.token.lexeme with
  | string decoded => exact absurd (by rw [hlexeme]; rfl) h
  | _ => rfl

theorem string_of_kind {lexeme : Lexeme} (h : lexeme.kind = .string) :
    ∃ decoded, lexeme = .string decoded := by
  cases lexeme <;> simp_all [Lexeme.kind]

theorem description_foresees (hfollow : ∀ lexeme, follow lexeme → lexeme.kind ≠ .string) :
    Foresees (fun _ => description) limit follow follow bound := by
  have hnone : Foresees (fun _ : κ => (pure none : Reader (Option StringValue))) limit follow follow
      bound := .pure _ _ _ _
  refine ⟨hnone.samples.on fun _ _ cursor hhere => run_description_missing (hfollow _ hhere), ?_⟩
  intro x setting cursor hfits hleft
  by_cases hkind : cursor.token.lexeme.kind = .string
  · obtain ⟨decoded, hdecoded⟩ := string_of_kind hkind
    have hstring : Decides (fun _ : κ => expect .string >>= fun token => stringAt token decoded >>=
        fun string => pure (some string)) limit (fun _ => False) follow bound :=
      (expect_decides .string (by simp) limit bound _).bind
        ((stringAt_foresees _ _).bind (.pure _ _ _ _))
    exact hstring.on_strict (· = .string decoded) (fun _ _ _ => run_description_string) hfits hleft
      hdecoded
  · exact hnone.decides.on (·.kind ≠ .string) (fun _ _ _ => run_description_missing) hfollow hfits
      hleft hkind

/-- A part that starts with a name, behind its description. -/
theorem someName_kind_ne_string (lexeme : Lexeme) (h : lexeme = someName) :
    lexeme.kind ≠ .string := by
  rw [h]
  simp [someName, Lexeme.kind]

theorem inputValueDefinition_foresees (hfollow : EndsInput follow) :
    Foresees (fun _ => inputValueDefinition) limit (· = someName) follow bound :=
  (current_foresees limit bound _).bind <| (description_foresees someName_kind_ne_string).bind <|
    (name_foresees _ _ _).bind <| (mark_foresees .colon _ _ _).bind <|
    (typeExpr_foresees hfollow.bang).bind <| (defaultValue_foresees hfollow.equals).bind <|
    (directives_foresees true hfollow.sign hfollow.paren).bind <| .spanned _ _ _ _ _

theorem fieldDefinition_foresees (hbang : ¬follow (.punctuator .bang))
    (hat : ¬follow (.punctuator .at)) (hparen : ¬follow (.punctuator .parenL)) :
    Foresees (fun _ => fieldDefinition) limit (· = someName) follow bound := by
  have harguments {γ : Type} {limit bound : γ → Nat} : Foresees (fun _ =>
      optionalMany (.punctuator .parenL) inputValueDefinition (.punctuator .parenR)) limit
        (· = .punctuator .colon) (· = .punctuator .colon) bound :=
    optionalMany_foresees (inputValueDefinition_foresees endsInput_parenR) (by simp [someName]) rfl
      (by simp [someName]) (by simp)
  exact (current_foresees limit bound _).bind <|
    (description_foresees someName_kind_ne_string).bind <| (name_foresees _ _ _).bind <|
    harguments.bind <| (mark_foresees .colon _ _ _).bind <| (typeExpr_foresees hbang).bind <|
    (directives_foresees true hat hparen).bind <| .spanned _ _ _ _ _

theorem enumValueDefinition_foresees (hat : ¬follow (.punctuator .at))
    (hparen : ¬follow (.punctuator .parenL)) :
    Foresees (fun _ => enumValueDefinition) limit (· = someName) follow bound :=
  (current_foresees limit bound _).bind <| (description_foresees someName_kind_ne_string).bind <|
    (name_foresees _ _ _).bind <| (directives_foresees true hat hparen).bind <| .spanned _ _ _ _ _

theorem fieldsDefinition_foresees (hbrace : ¬follow (.punctuator .braceL)) :
    Foresees (fun _ => fieldsDefinition) limit follow follow bound :=
  optionalMany_foresees (fieldDefinition_foresees (by simp) (by simp) (by simp))
    (by simp [someName]) rfl (by simp [someName]) hbrace

theorem implementedInterfaces_foresees (hkeyword : ¬follow (.name "implements"))
    (hamp : ¬follow (.punctuator .amp)) :
    Foresees (fun _ => implementedInterfaces) limit follow follow bound := by
  have himplements : IsName "implements" :=
    ⟨'i', ['m', 'p', 'l', 'e', 'm', 'e', 'n', 't', 's'], rfl, rfl, rfl⟩
  have hlist : Foresees (fun _ : κ => expectKeyword "implements" >>= fun _ =>
      delimited (.punctuator .amp) typeName) limit (· = .name "implements") follow bound :=
    (keyword_foresees himplements _ _ _).bind <|
      delimited_foresees (typeName_foresees _ _ _) (by simp [someName]) rfl hamp
  refine (chooses_skipKeyword "implements" fun (_ : κ) found =>
    if found then delimited (.punctuator .amp) typeName else pure []).optional hlist.decides
      (.pure _ _ _ _) (fun _ => beq_iff_eq.mpr) fun lexeme hlexeme => beq_eq_false_iff_ne.mpr ?_
  rintro rfl
  exact hkeyword hlexeme

theorem unionMembers_foresees (hequals : ¬follow (.punctuator .equals))
    (hpipe : ¬follow (.punctuator .pipe)) :
    Foresees (fun _ => unionMembers) limit follow follow bound := by
  have hlist : Foresees (fun _ : κ => expect (.punctuator .equals) >>= fun _ =>
      delimited (.punctuator .pipe) typeName) limit (· = .punctuator .equals) follow bound :=
    (mark_foresees .equals _ _ _).bind <|
      delimited_foresees (typeName_foresees _ _ _) (by simp [someName]) rfl hpipe
  exact (chooses_skip (.punctuator .equals) fun (_ : κ) found =>
    if found then delimited (.punctuator .pipe) typeName else pure []).optional hlist.decides
      (.pure _ _ _ _) (fun _ => kind_beq_iff.mpr) (kind_beq_eq_false hequals)

/-! Definitions that a keyword tells -/

/-- A description, a keyword and the rest of a definition. -/
def describedBy (keyword : String) (rest : Token → Option StringValue → Reader α) : Reader α := do
  let start ← current
  let description ← description
  expectKeyword keyword
  rest start description

/-- The definition is told by its keyword, and the rest of it is decided. -/
structure Keyed (keyword : String) (p : Reader α)
    (rest : Token → Option StringValue → Reader α) : Prop where
  name : IsName keyword
  shape : p = describedBy keyword rest
  foresees : ∃ first, ∀ {κ : Type} (start : κ → Token) (description : κ → Option StringValue)
    (limit bound : κ → Nat), Foresees (fun x => rest (start x) (description x)) limit first
      (· = .eof) bound

theorem Keyed.map {β : Type} {keyword : String} {p : Reader α}
    {rest : Token → Option StringValue → Reader α} (h : Keyed keyword p rest) (f : α → β) :
    Keyed keyword (f <$> p) fun start description => f <$> rest start description where
  name := h.name
  shape := by
    rw [h.shape]
    simp only [describedBy, map_bind]
  foresees := by
    obtain ⟨first, hrest⟩ := h.foresees
    exact ⟨first, fun start description limit bound => (hrest start description limit bound).map⟩

/-- Directives at the end of a definition. -/
theorem lastDirectives_foresees (const : Bool) :
    Foresees (fun _ => directives const) limit (· = .eof) (· = .eof) bound :=
  directives_foresees const (by simp) (by simp)

theorem schemaDefinition_keyed : ∃ rest, Keyed "schema" schemaDefinition rest := by
  refine ⟨_, ⟨'s', ['c', 'h', 'e', 'm', 'a'], rfl, rfl, rfl⟩, rfl, (· = .punctuator .braceL), ?_⟩
  exact fun start _ limit bound => (openDirectives_foresees true).bind <|
    (operationTypes_foresees _).bind <|
    .spanned _ _ _ _ _

theorem scalarTypeDefinition_keyed : ∃ rest, Keyed "scalar" scalarTypeDefinition rest := by
  refine ⟨_, ⟨'s', ['c', 'a', 'l', 'a', 'r'], rfl, rfl, rfl⟩, rfl, (· = someName), ?_⟩
  exact fun start _ limit bound => (name_foresees _ _ _).bind <|
    (lastDirectives_foresees true).bind <| .spanned _ _ _ _ _

theorem objectTypeDefinition_keyed : ∃ rest, Keyed "type" objectTypeDefinition rest := by
  refine ⟨_, ⟨'t', ['y', 'p', 'e'], rfl, rfl, rfl⟩, rfl, (· = someName), ?_⟩
  exact fun start _ limit bound => (name_foresees _ _ _).bind <|
    (implementedInterfaces_foresees (by simp) (by simp)).bind <|
    (lastDirectives_foresees true).bind <| (fieldsDefinition_foresees (by simp)).bind <|
    .spanned _ _ _ _ _

theorem interfaceTypeDefinition_keyed : ∃ rest, Keyed "interface" interfaceTypeDefinition rest := by
  refine ⟨_, ⟨'i', ['n', 't', 'e', 'r', 'f', 'a', 'c', 'e'], rfl, rfl, rfl⟩, rfl,
    (· = someName), ?_⟩
  exact fun start _ limit bound => (name_foresees _ _ _).bind <|
    (lastDirectives_foresees true).bind <| (fieldsDefinition_foresees (by simp)).bind <|
    .spanned _ _ _ _ _

theorem unionTypeDefinition_keyed : ∃ rest, Keyed "union" unionTypeDefinition rest := by
  refine ⟨_, ⟨'u', ['n', 'i', 'o', 'n'], rfl, rfl, rfl⟩, rfl, (· = someName), ?_⟩
  exact fun start _ limit bound => (name_foresees _ _ _).bind <|
    (lastDirectives_foresees true).bind <| (unionMembers_foresees (by simp) (by simp)).bind <|
    .spanned _ _ _ _ _

theorem enumTypeDefinition_keyed : ∃ rest, Keyed "enum" enumTypeDefinition rest := by
  refine ⟨_, ⟨'e', ['n', 'u', 'm'], rfl, rfl, rfl⟩, rfl, (· = someName), ?_⟩
  exact fun start _ limit bound => (name_foresees _ _ _).bind <|
    (lastDirectives_foresees true).bind <|
    (optionalMany_foresees (enumValueDefinition_foresees (by simp) (by simp)) (by simp [someName])
      rfl (by simp [someName]) (by simp)).bind <| .spanned _ _ _ _ _

theorem Keyed.foresees_whole {keyword : String} {p : Reader α}
    {rest : Token → Option StringValue → Reader α} (h : Keyed keyword p rest) :
    Foresees (fun _ => p) limit (· = .name keyword) (· = .eof) bound := by
  have hkind (lexeme : Lexeme) (hlexeme : lexeme = .name keyword) : lexeme.kind ≠ .string := by
    rw [hlexeme]
    simp [Lexeme.kind]
  obtain ⟨first, hrest⟩ := h.foresees
  rw [h.shape]
  exact (current_foresees limit bound _).bind <| (description_foresees hkind).bind <|
    (keyword_foresees h.name _ _ _).bind <| hrest _ _ _ _

theorem exists_rest {keyword : String} {p : Reader α} (h : ∃ rest, Keyed keyword p rest)
    (f : α → Definition) :
    ∃ rest? : Option (Token → Option StringValue → Reader Definition),
      some (f <$> p) = rest?.map (describedBy keyword) ∧
        ∀ rest ∈ rest?, Keyed keyword (describedBy keyword rest) rest := by
  obtain ⟨rest, hrest⟩ := h
  have hmapped := hrest.map f
  refine ⟨some _, congrArg some hmapped.shape, fun other hother => ?_⟩
  obtain rfl := Option.mem_some_iff.mp hother
  rw [← hmapped.shape]
  exact hmapped

/-- What follows the keywords that may have a description in front of them. -/
theorem described?_keyed (text : String) :
    ∃ rest? : Option (Token → Option StringValue → Reader Definition),
      described? text = rest?.map (describedBy text) ∧
        ∀ rest ∈ rest?, Keyed text (describedBy text rest) rest := by
  unfold described?
  split
  · exact exists_rest schemaDefinition_keyed .schema
  · exact exists_rest scalarTypeDefinition_keyed .type
  · exact exists_rest objectTypeDefinition_keyed .type
  · exact exists_rest interfaceTypeDefinition_keyed .type
  · exact exists_rest unionTypeDefinition_keyed .type
  · exact exists_rest enumTypeDefinition_keyed .type
  · exact ⟨none, rfl, nofun⟩

/-! Telling definitions apart -/

theorem run_lookahead {next : Cursor} (h : Reader.advance setting cursor = .ok ((), next)) :
    (lookahead : Reader Token) setting cursor = .ok (next.token, cursor) := by
  obtain ⟨source, located, ending⟩ := setting
  obtain ⟨token, lastEnd, rest⟩ := cursor
  cases rest with
  | cons following rest => cases h; rfl
  | nil =>
    cases ending <;> cases h
    rfl

theorem run_lookahead_error {error : SyntaxError}
    (h : Reader.advance setting cursor = .error error) :
    (lookahead : Reader Token) setting cursor = .error error := by
  obtain ⟨source, located, ending⟩ := setting
  obtain ⟨token, lastEnd, rest⟩ := cursor
  cases rest with
  | cons following rest => cases h
  | nil =>
    cases ending <;> cases h
    rfl

/-- A keyword behind a description, with the definition that it starts. -/
def keywordThen (rest? : String → Option (Token → Option StringValue → Reader Definition))
    (token : Token) (string : StringValue) : Reader Definition := do
  let keyword ← current
  match keyword.lexeme with
  | .name text =>
    match rest? text with
    | some rest =>
      expectKeyword text
      rest token (some string)
    | none => unexpected keyword
  | _ => unexpected keyword

section

variable {rest? : String → Option (Token → Option StringValue → Reader Definition)}

/-- A definition with a description might as well be told by its keyword behind the description. -/
theorem run_definition_string
    (hshape : ∀ text, described? text = (rest? text).map (describedBy text)) {decoded : Text}
    (h : cursor.token.lexeme = .string decoded) :
    (definition : Reader Definition) setting cursor = (expect .string >>= fun token =>
      stringAt token decoded >>= keywordThen rest? token) setting cursor := by
  have hkind : cursor.token.lexeme.kind = .string := by rw [h]; rfl
  rw [definition, run_current, h, ← run_advance_bind hkind]
  dsimp only
  cases hadvance : Reader.advance setting cursor with
  | error error =>
    rw [run_bind_error (run_lookahead_error hadvance), run_bind_error (p := advance) hadvance]
  | ok result =>
    obtain ⟨⟨⟩, next⟩ := result
    obtain ⟨loc, hloc⟩ := spanFrom_looks cursor.token setting next
    let string : StringValue :=
      ⟨setting.source.slice cursor.token.start cursor.token.stop, decoded, loc⟩
    have hstring : stringAt cursor.token decoded setting next = .ok (string, next) := by
      have hslice : (slice cursor.token.start cursor.token.stop : Reader Text) setting next =
          .ok (string.text, next) := rfl
      rw [stringAt, run_bind hslice, run_bind (p := spanFrom cursor.token) hloc]
      rfl
    have hdescription : (description : Reader (Option StringValue)) setting cursor =
        .ok (some string, next) := by
      rw [run_description_string h, ← run_advance_bind hkind, run_bind (p := advance) hadvance,
        run_bind hstring]
      rfl
    rw [run_bind (run_lookahead hadvance), run_bind (p := advance) hadvance, run_bind hstring,
      keywordThen, run_current]
    cases hkeyword : next.token.lexeme with
    | name text =>
      dsimp only
      rw [hshape]
      cases rest? text with
      | none => rfl
      | some rest =>
        change (describedBy text rest) setting cursor = _
        rw [describedBy, run_current, run_bind hdescription]
    | _ => rfl

theorem keywordThen_foresees
    (hkeyed : ∀ text, ∀ rest ∈ rest? text, Keyed text (describedBy text rest) rest)
    {keyword : String} {sample : Token → Option StringValue → Reader Definition}
    (hsample : rest? keyword = some sample) (token : κ → Token) (string : κ → StringValue) :
    Foresees (fun x => keywordThen rest? (token x) (string x)) limit (· = .name keyword) (· = .eof)
      bound := by
  have hchosen {text : String} {rest : Token → Option StringValue → Reader Definition}
      (hrest : rest? text = some rest) :
      Foresees (fun x => expectKeyword text >>= fun _ => rest (token x) (some (string x))) limit
        (· = .name text) (· = .eof) bound := by
    obtain ⟨first, hforesees⟩ := (hkeyed text rest hrest).foresees
    exact (keyword_foresees (hkeyed text rest hrest).name _ _ _).bind <| hforesees _ _ _ _
  have hrun {text : String} {rest : Token → Option StringValue → Reader Definition}
      (hrest : rest? text = some rest) (x : κ) (setting : Setting) (cursor : Cursor)
      (hhere : cursor.token.lexeme = .name text) :
      keywordThen rest? (token x) (string x) setting cursor =
        (expectKeyword text >>= fun _ => rest (token x) (some (string x))) setting cursor := by
    rw [keywordThen, run_current, hhere]
    dsimp only
    rw [hrest]
  refine ⟨(hchosen hsample).samples.on fun x setting cursor => hrun hsample x setting cursor, ?_⟩
  intro x setting cursor hfits hleft
  by_cases hhere : ∃ text rest, cursor.token.lexeme = .name text ∧ rest? text = some rest
  · obtain ⟨text, rest, htext, hrest⟩ := hhere
    have hstrict := (hchosen hrest).decides.strict .eof rfl (by simp)
    exact hstrict.on_strict (· = .name text) (hrun hrest) hfits hleft htext
  · refine .refuse (fun lexeme => ¬∃ text rest, lexeme = .name text ∧ rest? text = some rest)
      .unexpectedToken (fun x setting place hplace => ?_) (fun _ => rfl) hhere
    change _ = (unexpected place.token : Reader Definition) setting place
    rw [keywordThen, run_current]
    cases hlexeme : place.token.lexeme with
    | name text =>
      have hnone : rest? text = none := by
        rw [Option.eq_none_iff_forall_ne_some]
        exact fun rest hrest => hplace ⟨text, rest, hlexeme, hrest⟩
      dsimp only
      rw [hnone]
    | _ => rfl

end

/-- The definitions that have no description in front of them. -/
theorem executable?_decides {text : String} {p : Reader Definition} (h : executable? text = some p)
    {x : κ} (hfits : setting.Fits cursor) (hleft : cursor.left.length < bound x)
    (hhere : cursor.token.lexeme = .name text) :
    Decided (fun _ => p) limit (fun _ => False) (· = .eof) x setting cursor := by
  have hfragment : Foresees (fun _ : κ => Definition.fragment <$> fragmentDefinition) limit
      (· = .name "fragment") (· = .eof) bound :=
    (fragmentDefinition_foresees.mono fun _ _ => trivial).map
  unfold executable? at h
  split at h
  · cases h
    exact operationDefinition_decides rfl hfits hleft hhere
  · cases h
    exact operationDefinition_decides rfl hfits hleft hhere
  · cases h
    exact operationDefinition_decides rfl hfits hleft hhere
  · cases h
    exact hfragment.decides.strict .eof rfl (by simp) x setting cursor hfits hleft
  · cases h

/-- The definition that a name starts, if it is a keyword. -/
def keywordDefinition? (text : String) : Option (Reader Definition) :=
  executable? text <|> described? text

theorem keywordDefinition?_decides {text : String} {p : Reader Definition}
    (h : keywordDefinition? text = some p) {x : κ} (hfits : setting.Fits cursor)
    (hleft : cursor.left.length < bound x) (hhere : cursor.token.lexeme = .name text) :
    Decided (fun _ => p) limit (fun _ => False) (· = .eof) x setting cursor := by
  cases hexecutable : (executable? text : Option (Reader Definition)) with
  | some q =>
    obtain rfl : q = p := by simpa [keywordDefinition?, hexecutable] using h
    exact executable?_decides hexecutable hfits hleft hhere
  | none =>
    have hdescribed : described? text = some p := by
      simpa [keywordDefinition?, hexecutable] using h
    obtain ⟨rest?, hshape, hkeyed⟩ := described?_keyed text
    rw [hshape] at hdescribed
    obtain ⟨rest, hrest, rfl⟩ := Option.map_eq_some_iff.mp hdescribed
    have hrests := hkeyed rest hrest
    exact hrests.foresees_whole.decides.strict .eof rfl (by simp) x setting cursor hfits hleft

/-- Whether a definition may start with the token. -/
def startsDefinition : Lexeme → Bool
  | .punctuator .braceL | .string _ => true
  | .name text => (keywordDefinition? text).isSome
  | _ => false

theorem run_definition_refused (h : startsDefinition cursor.token.lexeme = false) :
    (definition : Reader Definition) setting cursor =
      .error ⟨cursor.token.start, .unexpectedToken cursor.token.lexeme⟩ := by
  change _ = (unexpected cursor.token : Reader Definition) setting cursor
  rw [definition, run_current]
  cases hlexeme : cursor.token.lexeme with
  | name text =>
    rw [hlexeme] at h
    have hnone : (executable? text <|> described? text : Option (Reader Definition)) = none := by
      simpa [startsDefinition, keywordDefinition?] using h
    dsimp only
    rw [hnone]
    rfl
  | string decoded => rw [hlexeme] at h; cases h
  | punctuator mark =>
    rw [hlexeme] at h
    cases mark with
    | braceL => cases h
    | _ => rfl
  | _ => rfl

theorem run_definition_shorthand (h : cursor.token.lexeme = .punctuator .braceL) :
    (definition : Reader Definition) setting cursor =
      (Definition.operation <$> shorthand : Reader Definition) setting cursor := by
  rw [definition, run_current, h]

theorem run_definition_keyword {text : String} {p : Reader Definition}
    (hkeyword : keywordDefinition? text = some p) (h : cursor.token.lexeme = .name text) :
    (definition : Reader Definition) setting cursor = p setting cursor := by
  have hsome : (executable? text <|> described? text) = some p := hkeyword
  rw [definition, run_current, h]
  dsimp only
  rw [hsome]
  rfl

theorem definition_foresees :
    Foresees (fun _ => definition) limit (· = .punctuator .braceL) (· = .eof) bound := by
  have hshorthand : Foresees (fun _ : κ => Definition.operation <$> shorthand) limit
      (· = .punctuator .braceL) (· = .eof) bound :=
    (shorthand_foresees.mono fun _ _ => trivial).map
  refine ⟨hshorthand.samples.on fun _ _ _ => run_definition_shorthand, ?_⟩
  intro x setting cursor hfits hleft
  have hrefused (h : startsDefinition cursor.token.lexeme = false) :
      Decided (fun _ => definition) limit (· = .punctuator .braceL) (· = .eof) x setting cursor :=
    .refuse (startsDefinition · = false) .unexpectedToken (fun _ _ _ => run_definition_refused)
      (fun _ => rfl) h
  cases hlexeme : cursor.token.lexeme with
  | name text =>
    cases hkeyword : keywordDefinition? text with
    | some p =>
      refine ((keywordDefinition?_decides hkeyword hfits hleft hlexeme).congr (· = .name text) ?_
        (run_definition_keyword hkeyword hlexeme) hlexeme fun _ => False.elim).weaken
          fun _ _ => False.elim
      exact fun _ _ _ _ => run_definition_keyword hkeyword
    | none => exact hrefused (by rw [hlexeme, startsDefinition, hkeyword]; rfl)
  | string decoded =>
    choose rest? hshape hkeyed using described?_keyed
    obtain ⟨sample, hsample, -⟩ := Option.map_eq_some_iff.mp (hshape "scalar").symm
    have hstring : Decides (fun _ : κ => expect .string >>= fun token => stringAt token decoded >>=
        keywordThen rest? token) limit (fun _ => False) (· = .eof) bound :=
      (expect_decides .string (by simp) limit bound _).bind <| (stringAt_foresees _ _).bind <|
        keywordThen_foresees hkeyed hsample _ _
    exact hstring.on_strict (· = .string decoded) (fun _ _ _ => run_definition_string hshape) hfits
      hleft hlexeme
  | punctuator mark =>
    cases mark with
    | braceL =>
      exact hshorthand.decides.on (· = .punctuator .braceL) (fun _ _ _ => run_definition_shorthand)
        (fun _ => id) hfits hleft hlexeme
    | _ => exact hrefused (by rw [hlexeme]; rfl)
  | _ => exact hrefused (by rw [hlexeme]; rfl)

end Grammar

end QueryLint
