import QueryLint.Document.Parser
import QueryLint.Proofs.TokenOrder
import QueryLint.Proofs.TwinReading
import QueryLint.Proofs.WrittenForm

/-!
Documents depend on the tokens of their source and on nothing else. Two sources with the same tokens
are read side by side, production by production: both are documents, the same up to spans and the
texts of values, or both are refused with the same description at tokens of the same index. The same
comparison of a source with itself, with spans and without, says that spans change nothing else.
-/

namespace QueryLint

open Reader Reading

theorem Revision.optionalSelectionSet_eq (revision : Revision) (set : Option SelectionSet) :
    revision.optionalSelectionSet set = set.map revision.selectionSet := by
  cases set with
  | none => rw [Revision.optionalSelectionSet, Option.map_none]
  | some set => rw [Revision.optionalSelectionSet, Option.map_some]

namespace Pairing

open Grammar

variable {pairing : Pairing}

theorem name_repeats : pairing.Repeats name Revision.name := by
  refine .bind current_agree fun token token' htwins => ?_
  rw [pairing.lexeme_eq htwins]
  cases token'.lexeme with
  | name text =>
    refine .bind advance_agree fun _ _ _ => .bind (spanFrom_agree token token') ?_
    intro loc loc' hloc
    exact .pure (congrArg (Name.mk text) hloc)
  | _ => exact .refuse htwins _

theorem typeName_repeats : pairing.Repeats typeName Revision.typeName := by
  refine .bind current_agree fun start start' _ => .bind name_repeats fun name name' hname => ?_
  refine .bind (spanFrom_agree start start') fun loc loc' hloc => .pure ?_
  simp only [Same, Revision.typeName, hname, hloc]

/-! Values, directives and type references -/

theorem skipValue_agree (const : Bool) (depth : Nat) :
    pairing.Agree (skipValue const depth) (skipValue const depth) fun _ _ => True := by
  induction depth with
  | zero => exact .bind current_agree fun _ _ htwins => .unexpected htwins
  | succ depth ih =>
    -- A value that is passed over leaves nothing behind, so any two of them are the same.
    have hitems (closing : TokenKind) {item : Reader Unit}
        (hitem : pairing.Agree item item fun _ _ => True) (rounds rounds' : Nat)
        (hrounds : rounds = rounds') :
        pairing.Agree (itemsUntil closing item rounds >>= fun _ => pure ())
          (itemsUntil closing item rounds' >>= fun _ => pure ()) fun _ _ => True := by
      subst hrounds
      have hunits : pairing.Repeats item fun _ _ => () := fun cursor cursor' halike =>
        (hitem cursor cursor' halike).imp fun _ _ _ => rfl
      exact .bind (itemsUntil_repeats hunits closing rounds) fun _ _ _ => .pure trivial
    refine .bind current_agree fun token token' htwins => ?_
    rw [pairing.lexeme_eq htwins]
    cases token'.lexeme with
    | int _ | float _ | string _ | name _ => exact advance_agree
    | sof | eof => exact .unexpected htwins
    | punctuator mark =>
      cases mark with
      | bracketL =>
        exact .bind advance_agree fun _ _ _ => .bind budget_agree (hitems _ ih)
      | braceL =>
        refine .bind advance_agree fun _ _ _ => .bind budget_agree (hitems _ ?_)
        exact .bind (expect_agree .name) fun _ _ _ =>
          .bind (expect_agree (.punctuator .colon)) fun _ _ _ => ih
      | dollar =>
        cases const with
        | true => exact .unexpected htwins
        | false =>
          exact .bind advance_agree fun _ _ _ =>
            .bind (expect_agree .name) fun _ _ _ => .pure trivial
      | _ => exact .unexpected htwins

theorem stringValue_agree {token token' : Token} (htwins : pairing.Twins token token')
    (value : Text) :
    pairing.Agree (stringValue token value) (stringValue token' value)
      (pairing.Same Revision.stringValue) := by
  refine .bind advance_agree fun _ _ _ => ?_
  intro cursor cursor' halike
  refine (Agree.bind (spanFrom_agree token token') fun loc loc' hloc => .pure ?_) _ _ halike
  have htext := pairing.text_eq htwins (pairing.ends_stop htwins)
  simp only [Same, Revision.stringValue, htext, hloc]

theorem plainValue_agree (const : Bool) {start start' : Token}
    (htwins : pairing.Twins start start') :
    pairing.Agree (plainValue const start) (plainValue const start')
      (pairing.Same Revision.value) := by
  refine .bind budget_agree ?_
  rintro depth _ rfl
  refine .bind (skipValue_agree const depth) fun _ _ _ => ?_
  intro cursor cursor' halike
  refine (Agree.bind (spanFrom_agree start start') fun loc loc' hloc => .pure ?_) _ _ halike
  have htext := pairing.text_eq htwins halike.lastEnd
  simp only [Same, Revision.value, htext, hloc]

theorem value_repeats (const : Bool) : pairing.Repeats (value const) Revision.value := by
  refine .bind current_agree fun start start' htwins => ?_
  rw [pairing.lexeme_eq htwins]
  cases start'.lexeme with
  | string decoded =>
    exact .bind (stringValue_agree htwins decoded) fun _ _ h => .pure (congrArg Value.string h)
  | _ => exact plainValue_agree const htwins

theorem argument_repeats (const : Bool) : pairing.Repeats (argument const) Revision.argument := by
  refine .bind current_agree fun start start' _ => .bind name_repeats fun name name' hname => ?_
  refine .bind (expect_agree _) fun _ _ _ => ?_
  refine .bind (value_repeats const) fun value value' hvalue => ?_
  refine .bind (spanFrom_agree start start') fun loc loc' hloc => .pure ?_
  simp only [Same, Revision.argument, hname, hvalue, hloc]

theorem arguments_repeats (const : Bool) :
    pairing.Repeats (arguments const) fun revision => List.map revision.argument :=
  optionalMany_repeats (argument_repeats const) _ _

theorem directive_repeats (const : Bool) :
    pairing.Repeats (directive const) Revision.directive := by
  refine .bind (expect_agree _) fun start start' _ => ?_
  refine .bind name_repeats fun name name' hname => ?_
  refine .bind (arguments_repeats const) fun arguments arguments' harguments => ?_
  refine .bind (spanFrom_agree start start') fun loc loc' hloc => .pure ?_
  simp only [Same, Revision.directive, hname, harguments, hloc]

theorem directivesWithin_repeats (const : Bool) (rounds : Nat) :
    pairing.Repeats (directivesWithin const rounds)
      fun revision => List.map revision.directive := by
  induction rounds with
  | zero => exact .bind current_agree fun _ _ htwins => .unexpected htwins
  | succ rounds ih =>
    refine .bind (peek_agree _) ?_
    rintro found _ rfl
    cases found with
    | true =>
      refine .bind (directive_repeats const) fun first first' hfirst => ?_
      refine .bind ih fun others others' hothers => .pure ?_
      simp only [Same, List.map_cons, hfirst, hothers]
    | false => exact .pure rfl

theorem directives_repeats (const : Bool) :
    pairing.Repeats (directives const) fun revision => List.map revision.directive := by
  refine .bind budget_agree ?_
  rintro rounds _ rfl
  exact directivesWithin_repeats const rounds

theorem nullableType_repeats {item : Reader TypeExpr}
    (hitem : pairing.Repeats item Revision.typeExpr) :
    pairing.Repeats (nullableType item) Revision.typeExpr := by
  refine .bind current_agree fun start start' _ => .bind (skip_agree _) ?_
  rintro found _ rfl
  cases found with
  | true =>
    refine .bind hitem fun type type' htype => .bind (expect_agree _) fun _ _ _ => ?_
    refine .bind (spanFrom_agree start start') fun loc loc' hloc => .pure ?_
    simp only [Same, Revision.typeExpr, htype, hloc]
  | false => exact .bind typeName_repeats fun _ _ h => .pure (congrArg TypeExpr.named h)

theorem typeExprWithin_repeats (depth : Nat) :
    pairing.Repeats (typeExprWithin depth) Revision.typeExpr := by
  induction depth with
  | zero => exact .bind current_agree fun _ _ htwins => .unexpected htwins
  | succ depth ih =>
    refine .bind current_agree fun start start' _ => ?_
    refine .bind (nullableType_repeats ih) fun type type' htype => .bind (skip_agree _) ?_
    rintro found _ rfl
    cases found with
    | true =>
      refine .bind (spanFrom_agree start start') fun loc loc' hloc => .pure ?_
      simp only [Same, Revision.typeExpr, htype, hloc]
    | false => exact .pure htype

theorem typeExpr_repeats : pairing.Repeats typeExpr Revision.typeExpr := by
  refine .bind budget_agree ?_
  rintro depth _ rfl
  exact typeExprWithin_repeats depth

theorem defaultValue_repeats :
    pairing.Repeats defaultValue fun revision => Option.map revision.value := by
  refine .bind (skip_agree _) ?_
  rintro found _ rfl
  cases found with
  | true => exact .bind (value_repeats true) fun _ _ h => .pure (congrArg some h)
  | false => exact .pure rfl

/-! Selections -/

theorem fieldName_repeats :
    pairing.Repeats fieldName fun revision names =>
      (names.1.map revision.name, revision.name names.2) := by
  refine .bind name_repeats fun first first' hfirst => .bind (skip_agree _) ?_
  rintro found _ rfl
  cases found with
  | true =>
    refine .bind name_repeats fun name name' hname => .pure ?_
    simp only [Same, Option.map_some, hfirst, hname]
  | false =>
    refine .pure ?_
    simp only [Same, Option.map_none, hfirst]

theorem field_repeats {selectionSet : Reader SelectionSet}
    (hset : pairing.Repeats selectionSet Revision.selectionSet) :
    pairing.Repeats (field selectionSet) Revision.selection := by
  refine .bind current_agree fun start start' _ => .bind fieldName_repeats ?_
  rintro ⟨aliasName, name⟩ ⟨aliasName', name'⟩ hnames
  obtain ⟨halias, hname⟩ := Prod.mk.inj hnames
  refine .bind (arguments_repeats false) fun arguments arguments' harguments => ?_
  refine .bind (directives_repeats false) fun directives directives' hdirectives => ?_
  refine .bind (optionalItem_repeats hset _) fun set set' hset' => ?_
  refine .bind (spanFrom_agree start start') fun loc loc' hloc => .pure ?_
  simp only [Same, Revision.selection, Revision.optionalSelectionSet_eq, halias, hname, harguments,
    hdirectives, hset', hloc]

theorem fragmentName_repeats : pairing.Repeats fragmentName Revision.name := by
  refine .bind current_agree fun token token' htwins => ?_
  rw [pairing.lexeme_eq htwins]
  split
  · exact .unexpected htwins
  · exact name_repeats

theorem typeCondition_repeats (conditioned : Bool) :
    pairing.Repeats (typeCondition conditioned) fun revision => Option.map revision.typeName := by
  cases conditioned with
  | true => exact .bind typeName_repeats fun _ _ h => .pure (congrArg some h)
  | false => exact .pure rfl

theorem fragment_repeats {selectionSet : Reader SelectionSet}
    (hset : pairing.Repeats selectionSet Revision.selectionSet) :
    pairing.Repeats (fragment selectionSet) Revision.selection := by
  refine .bind (expect_agree _) fun start start' _ => .bind (skipKeyword_agree "on") ?_
  rintro conditioned _ rfl
  refine .bind (peek_agree .name) ?_
  rintro named _ rfl
  split
  · refine .bind fragmentName_repeats fun name name' hname => ?_
    refine .bind (directives_repeats false) fun directives directives' hdirectives => ?_
    refine .bind (spanFrom_agree start start') fun loc loc' hloc => .pure ?_
    simp only [Same, Revision.selection, hname, hdirectives, hloc]
  · refine .bind (typeCondition_repeats conditioned) fun condition condition' hcondition => ?_
    refine .bind (directives_repeats false) fun directives directives' hdirectives => ?_
    refine .bind hset fun set set' hset' => ?_
    refine .bind (spanFrom_agree start start') fun loc loc' hloc => .pure ?_
    simp only [Same, Revision.selection, hcondition, hdirectives, hset', hloc]

theorem selection_repeats {selectionSet : Reader SelectionSet}
    (hset : pairing.Repeats selectionSet Revision.selectionSet) :
    pairing.Repeats (selection selectionSet) Revision.selection := by
  refine .bind (peek_agree _) ?_
  rintro found _ rfl
  cases found with
  | true => exact fragment_repeats hset
  | false => exact field_repeats hset

theorem selectionSetWithin_repeats (depth : Nat) :
    pairing.Repeats (selectionSetWithin depth) Revision.selectionSet := by
  induction depth with
  | zero => exact .bind current_agree fun _ _ htwins => .unexpected htwins
  | succ depth ih =>
    refine .bind current_agree fun start start' _ => ?_
    refine .bind (many_repeats (selection_repeats ih) _ _) fun items items' hitems => ?_
    refine .bind (spanFrom_agree start start') fun loc loc' hloc => .pure ?_
    simp only [Same, Revision.selectionSet, Revision.selections_eq, hitems, hloc]

theorem selectionSet_repeats : pairing.Repeats selectionSet Revision.selectionSet := by
  refine .bind budget_agree ?_
  rintro depth _ rfl
  exact selectionSetWithin_repeats depth

/-! Operations and fragments -/

theorem operationType_repeats : pairing.Repeats operationType fun _ operation => operation := by
  refine .bind (expect_agree .name) fun token token' htwins => ?_
  rw [pairing.lexeme_eq htwins]
  cases token'.lexeme with
  | name text =>
    dsimp only
    cases OperationType.ofText? text with
    | some operation => exact .pure rfl
    | none => exact .unexpected htwins
  | _ => exact .unexpected htwins

theorem variableDefinition_repeats :
    pairing.Repeats variableDefinition Revision.variableDefinition := by
  refine .bind (expect_agree _) fun start start' _ => .bind name_repeats fun name name' hname => ?_
  refine .bind (expect_agree _) fun _ _ _ => .bind typeExpr_repeats fun type type' htype => ?_
  refine .bind defaultValue_repeats fun value value' hvalue => ?_
  refine .bind (directives_repeats true) fun directives directives' hdirectives => ?_
  refine .bind (spanFrom_agree start start') fun loc loc' hloc => .pure ?_
  simp only [Same, Revision.variableDefinition, hname, htype, hvalue, hdirectives, hloc]

theorem shorthand_repeats : pairing.Repeats shorthand Revision.operationDefinition := by
  refine .bind current_agree fun start start' _ => ?_
  refine .bind selectionSet_repeats fun set set' hset => ?_
  refine .bind (spanFrom_agree start start') fun loc loc' hloc => .pure ?_
  simp only [Same, Revision.operationDefinition, Option.map_none, List.map_nil, hset, hloc]

theorem operationDefinition_repeats :
    pairing.Repeats operationDefinition Revision.operationDefinition := by
  refine .bind current_agree fun start start' _ => .bind operationType_repeats ?_
  rintro operation _ rfl
  refine .bind (optionalItem_repeats name_repeats _) fun name name' hname => ?_
  refine .bind (optionalMany_repeats variableDefinition_repeats _ _) ?_
  intro inputs inputs' hinputs
  refine .bind (directives_repeats false) fun directives directives' hdirectives => ?_
  refine .bind selectionSet_repeats fun set set' hset => ?_
  refine .bind (spanFrom_agree start start') fun loc loc' hloc => .pure ?_
  simp only [Same, Revision.operationDefinition, hname, hinputs, hdirectives, hset, hloc]

theorem fragmentDefinition_repeats :
    pairing.Repeats fragmentDefinition Revision.fragmentDefinition := by
  refine .bind current_agree fun start start' _ => .bind (expectKeyword_agree _) fun _ _ _ => ?_
  refine .bind fragmentName_repeats fun name name' hname => ?_
  refine .bind (expectKeyword_agree _) fun _ _ _ => ?_
  refine .bind typeName_repeats fun condition condition' hcondition => ?_
  refine .bind (directives_repeats false) fun directives directives' hdirectives => ?_
  refine .bind selectionSet_repeats fun set set' hset => ?_
  refine .bind (spanFrom_agree start start') fun loc loc' hloc => .pure ?_
  simp only [Same, Revision.fragmentDefinition, hname, hcondition, hdirectives, hset, hloc]

/-! Type system definitions -/

theorem description_repeats :
    pairing.Repeats description fun revision => Option.map revision.stringValue := by
  refine .bind current_agree fun token token' htwins => ?_
  rw [pairing.lexeme_eq htwins]
  cases token'.lexeme with
  | string decoded =>
    exact .bind (stringValue_agree htwins decoded) fun _ _ h => .pure (congrArg some h)
  | _ => exact .pure rfl

theorem operationTypeDefinition_repeats :
    pairing.Repeats operationTypeDefinition Revision.operationTypeDefinition := by
  refine .bind current_agree fun start start' _ => .bind operationType_repeats ?_
  rintro operation _ rfl
  refine .bind (expect_agree _) fun _ _ _ => .bind typeName_repeats fun type type' htype => ?_
  refine .bind (spanFrom_agree start start') fun loc loc' hloc => .pure ?_
  simp only [Same, Revision.operationTypeDefinition, htype, hloc]

theorem schemaDefinition_repeats :
    pairing.Repeats schemaDefinition Revision.schemaDefinition := by
  refine .bind current_agree fun start start' _ => .bind description_repeats fun _ _ _ => ?_
  refine .bind (expectKeyword_agree _) fun _ _ _ => ?_
  refine .bind (directives_repeats true) fun directives directives' hdirectives => ?_
  refine .bind (many_repeats operationTypeDefinition_repeats _ _) fun types types' htypes => ?_
  refine .bind (spanFrom_agree start start') fun loc loc' hloc => .pure ?_
  simp only [Same, Revision.schemaDefinition, hdirectives, htypes, hloc]

theorem inputValueDefinition_repeats :
    pairing.Repeats inputValueDefinition Revision.inputValueDefinition := by
  refine .bind current_agree fun start start' _ => ?_
  refine .bind description_repeats fun text text' htext => ?_
  refine .bind name_repeats fun name name' hname => .bind (expect_agree _) fun _ _ _ => ?_
  refine .bind typeExpr_repeats fun type type' htype => ?_
  refine .bind defaultValue_repeats fun value value' hvalue => ?_
  refine .bind (directives_repeats true) fun directives directives' hdirectives => ?_
  refine .bind (spanFrom_agree start start') fun loc loc' hloc => .pure ?_
  simp only [Same, Revision.inputValueDefinition, htext, hname, htype, hvalue, hdirectives, hloc]

theorem fieldDefinition_repeats : pairing.Repeats fieldDefinition Revision.fieldDefinition := by
  refine .bind current_agree fun start start' _ => ?_
  refine .bind description_repeats fun text text' htext => ?_
  refine .bind name_repeats fun name name' hname => ?_
  refine .bind (optionalMany_repeats inputValueDefinition_repeats _ _) ?_
  intro arguments arguments' harguments
  refine .bind (expect_agree _) fun _ _ _ => ?_
  refine .bind typeExpr_repeats fun type type' htype => ?_
  refine .bind (directives_repeats true) fun directives directives' hdirectives => ?_
  refine .bind (spanFrom_agree start start') fun loc loc' hloc => .pure ?_
  simp only [Same, Revision.fieldDefinition, htext, hname, harguments, htype, hdirectives, hloc]

theorem fieldsDefinition_repeats :
    pairing.Repeats fieldsDefinition fun revision => List.map revision.fieldDefinition :=
  optionalMany_repeats fieldDefinition_repeats _ _

theorem enumValueDefinition_repeats :
    pairing.Repeats enumValueDefinition Revision.enumValueDefinition := by
  refine .bind current_agree fun start start' _ => ?_
  refine .bind description_repeats fun text text' htext => ?_
  refine .bind name_repeats fun name name' hname => ?_
  refine .bind (directives_repeats true) fun directives directives' hdirectives => ?_
  refine .bind (spanFrom_agree start start') fun loc loc' hloc => .pure ?_
  simp only [Same, Revision.enumValueDefinition, htext, hname, hdirectives, hloc]

theorem scalarTypeDefinition_repeats :
    pairing.Repeats scalarTypeDefinition Revision.typeDefinition := by
  refine .bind current_agree fun start start' _ => ?_
  refine .bind description_repeats fun text text' htext => ?_
  refine .bind (expectKeyword_agree _) fun _ _ _ => .bind name_repeats fun name name' hname => ?_
  refine .bind (directives_repeats true) fun directives directives' hdirectives => ?_
  refine .bind (spanFrom_agree start start') fun loc loc' hloc => .pure ?_
  simp only [Same, Revision.typeDefinition, Revision.typeBody, htext, hname, hdirectives, hloc]

theorem implementedInterfaces_repeats :
    pairing.Repeats implementedInterfaces fun revision => List.map revision.typeName := by
  refine .bind (skipKeyword_agree _) ?_
  rintro found _ rfl
  cases found with
  | true => exact delimited_repeats typeName_repeats _
  | false => exact .pure rfl

theorem objectTypeDefinition_repeats :
    pairing.Repeats objectTypeDefinition Revision.typeDefinition := by
  refine .bind current_agree fun start start' _ => ?_
  refine .bind description_repeats fun text text' htext => ?_
  refine .bind (expectKeyword_agree _) fun _ _ _ => .bind name_repeats fun name name' hname => ?_
  refine .bind implementedInterfaces_repeats fun interfaces interfaces' hinterfaces => ?_
  refine .bind (directives_repeats true) fun directives directives' hdirectives => ?_
  refine .bind fieldsDefinition_repeats fun fields fields' hfields => ?_
  refine .bind (spanFrom_agree start start') fun loc loc' hloc => .pure ?_
  simp only [Same, Revision.typeDefinition, Revision.typeBody, htext, hname, hinterfaces,
    hdirectives, hfields, hloc]

theorem interfaceTypeDefinition_repeats :
    pairing.Repeats interfaceTypeDefinition Revision.typeDefinition := by
  refine .bind current_agree fun start start' _ => ?_
  refine .bind description_repeats fun text text' htext => ?_
  refine .bind (expectKeyword_agree _) fun _ _ _ => .bind name_repeats fun name name' hname => ?_
  refine .bind (directives_repeats true) fun directives directives' hdirectives => ?_
  refine .bind fieldsDefinition_repeats fun fields fields' hfields => ?_
  refine .bind (spanFrom_agree start start') fun loc loc' hloc => .pure ?_
  simp only [Same, Revision.typeDefinition, Revision.typeBody, htext, hname, hdirectives, hfields,
    hloc]

theorem unionMembers_repeats :
    pairing.Repeats unionMembers fun revision => List.map revision.typeName := by
  refine .bind (skip_agree _) ?_
  rintro found _ rfl
  cases found with
  | true => exact delimited_repeats typeName_repeats _
  | false => exact .pure rfl

theorem unionTypeDefinition_repeats :
    pairing.Repeats unionTypeDefinition Revision.typeDefinition := by
  refine .bind current_agree fun start start' _ => ?_
  refine .bind description_repeats fun text text' htext => ?_
  refine .bind (expectKeyword_agree _) fun _ _ _ => .bind name_repeats fun name name' hname => ?_
  refine .bind (directives_repeats true) fun directives directives' hdirectives => ?_
  refine .bind unionMembers_repeats fun members members' hmembers => ?_
  refine .bind (spanFrom_agree start start') fun loc loc' hloc => .pure ?_
  simp only [Same, Revision.typeDefinition, Revision.typeBody, htext, hname, hdirectives, hmembers,
    hloc]

theorem enumTypeDefinition_repeats :
    pairing.Repeats enumTypeDefinition Revision.typeDefinition := by
  refine .bind current_agree fun start start' _ => ?_
  refine .bind description_repeats fun text text' htext => ?_
  refine .bind (expectKeyword_agree _) fun _ _ _ => .bind name_repeats fun name name' hname => ?_
  refine .bind (directives_repeats true) fun directives directives' hdirectives => ?_
  refine .bind (optionalMany_repeats enumValueDefinition_repeats _ _) ?_
  intro values values' hvalues
  refine .bind (spanFrom_agree start start') fun loc loc' hloc => .pure ?_
  simp only [Same, Revision.typeDefinition, Revision.typeBody, htext, hname, hdirectives, hvalues,
    hloc]

/-! Documents -/

theorem described?_repeats {keyword : String} {production : Reader Definition}
    (h : described? keyword = some production) :
    pairing.Repeats production Revision.definition := by
  unfold described? at h
  split at h
  · cases h
    exact map_repeats schemaDefinition_repeats fun _ _ => rfl
  · cases h
    exact map_repeats scalarTypeDefinition_repeats fun _ _ => rfl
  · cases h
    exact map_repeats objectTypeDefinition_repeats fun _ _ => rfl
  · cases h
    exact map_repeats interfaceTypeDefinition_repeats fun _ _ => rfl
  · cases h
    exact map_repeats unionTypeDefinition_repeats fun _ _ => rfl
  · cases h
    exact map_repeats enumTypeDefinition_repeats fun _ _ => rfl
  · cases h

theorem executable?_repeats {keyword : String} {production : Reader Definition}
    (h : executable? keyword = some production) :
    pairing.Repeats production Revision.definition := by
  unfold executable? at h
  split at h
  · cases h
    exact map_repeats operationDefinition_repeats fun _ _ => rfl
  · cases h
    exact map_repeats operationDefinition_repeats fun _ _ => rfl
  · cases h
    exact map_repeats operationDefinition_repeats fun _ _ => rfl
  · cases h
    exact map_repeats fragmentDefinition_repeats fun _ _ => rfl
  · cases h

/-- The production that a keyword chooses, or a refusal of the keyword. -/
theorem getD_agree {choice : Option (Reader Definition)} {keyword keyword' : Token}
    (htwins : pairing.Twins keyword keyword')
    (h : ∀ production, choice = some production → pairing.Repeats production Revision.definition) :
    pairing.Agree (choice.getD (unexpected keyword)) (choice.getD (unexpected keyword'))
      (pairing.Same Revision.definition) := by
  cases choice with
  | none => exact .unexpected htwins
  | some production => exact h production rfl

theorem definition_repeats : pairing.Repeats definition Revision.definition := by
  refine .bind current_agree fun token token' htwins => ?_
  rw [pairing.lexeme_eq htwins]
  cases token'.lexeme with
  | punctuator mark =>
    cases mark with
    | braceL => exact map_repeats shorthand_repeats fun _ _ => rfl
    | _ => exact .unexpected htwins
  | string decoded =>
    refine .bind lookahead_agree fun keyword keyword' hkeyword => ?_
    rw [pairing.lexeme_eq hkeyword]
    cases keyword'.lexeme with
    | name text => exact getD_agree hkeyword fun _ => described?_repeats
    | _ => exact .unexpected hkeyword
  | name text =>
    refine getD_agree htwins fun production hproduction => ?_
    rcases hexecutable : (executable? text : Option (Reader Definition)) with _ | executable
    · rw [hexecutable] at hproduction
      exact described?_repeats hproduction
    · rw [hexecutable] at hproduction
      cases hproduction
      exact executable?_repeats hexecutable
  | _ => exact .unexpected htwins

/-- From the entry on, which stands on no token of the source. -/
theorem outcomes_document (hentry : pairing.Ends 0 0) {tokens tokens' : List Token}
    (htokens : List.Forall₂ pairing.Twins tokens tokens') :
    pairing.Outcomes (pairing.Same Revision.document)
      ((document : Reader Document) pairing.first ⟨.sof, 0, tokens⟩)
      ((document : Reader Document) pairing.second ⟨.sof, 0, tokens'⟩) := by
  have hopening : pairing.Outcomes (fun _ _ => True)
      ((expect .sof : Reader Token) pairing.first ⟨.sof, 0, tokens⟩)
      ((expect .sof : Reader Token) pairing.second ⟨.sof, 0, tokens'⟩) :=
    (outcomes_advance hentry htokens).bind fun _ _ _ => .pure trivial
  have hdefinitions : pairing.Outcomes (pairing.Same fun revision => List.map revision.definition)
      ((many .sof definition .eof : Reader (List Definition)) pairing.first ⟨.sof, 0, tokens⟩)
      ((many .sof definition .eof : Reader (List Definition)) pairing.second ⟨.sof, 0, tokens'⟩) :=
    hopening.bind fun _ _ _ =>
      nonempty_repeats definition_repeats (itemsUntil_repeats definition_repeats .eof)
  have hdocument (definitions definitions' : List Definition)
      (hsame : pairing.Same (fun revision => List.map revision.definition) definitions
        definitions') :
      pairing.Agree (spanFrom .sof >>= fun loc => pure (Document.mk definitions loc))
        (spanFrom .sof >>= fun loc => pure (Document.mk definitions' loc))
        (pairing.Same Revision.document) := by
    refine .bind (spanFrom_agree .sof .sof) fun loc loc' hloc => .pure ?_
    simp only [Same, Revision.document, hsame, hloc]
  exact hdefinitions.bind hdocument

end Pairing

/-! The revision that changes nothing -/

namespace Revision

/-- Nothing is changed. -/
def same : Revision := ⟨id, id⟩

@[simp]
theorem same_loc : same.loc = id := rfl

@[simp]
theorem same_text : same.text = id := rfl

@[simp]
theorem same_name : same.name = id := rfl

@[simp]
theorem same_stringValue : same.stringValue = id := rfl

@[simp]
theorem same_value : same.value = id := by
  funext value
  cases value <;> rfl

@[simp]
theorem same_argument : same.argument = id := by
  funext argument
  simp [Revision.argument]

@[simp]
theorem same_directive : same.directive = id := by
  funext directive
  simp [Revision.directive]

@[simp]
theorem same_typeName : same.typeName = id := rfl

@[simp]
theorem same_typeExpr : same.typeExpr = id := by
  funext type
  induction type with
  | named type => rfl
  | list item loc ih => simp [Revision.typeExpr, ih]
  | nonNull item loc ih => simp [Revision.typeExpr, ih]

@[simp]
theorem same_variableDefinition : same.variableDefinition = id := by
  funext definition
  simp [Revision.variableDefinition]

mutual

theorem same_selection (item : Selection) : same.selection item = item := by
  cases item with
  | field aliasName fieldName arguments directives set loc =>
    rw [Revision.selection, same_optionalSelectionSet set]
    simp
  | spread fragmentName directives loc => simp [Revision.selection]
  | inline condition directives set loc =>
    rw [Revision.selection, same_selectionSet set]
    simp
  termination_by sizeOf item

theorem same_selectionSet (set : SelectionSet) : same.selectionSet set = set := by
  obtain ⟨items, loc⟩ := set
  rw [Revision.selectionSet, same_selections items]
  simp
  termination_by sizeOf set

theorem same_optionalSelectionSet (set : Option SelectionSet) :
    same.optionalSelectionSet set = set := by
  cases set with
  | none => rw [Revision.optionalSelectionSet]
  | some set => rw [Revision.optionalSelectionSet, same_selectionSet set]
  termination_by sizeOf set

theorem same_selections (items : List Selection) : same.selections items = items := by
  cases items with
  | nil => rw [Revision.selections]
  | cons first others => rw [Revision.selections, same_selection first, same_selections others]
  termination_by sizeOf items

end

@[simp]
theorem same_operationTypeDefinition : same.operationTypeDefinition = id := rfl

@[simp]
theorem same_inputValueDefinition : same.inputValueDefinition = id := by
  funext definition
  simp [Revision.inputValueDefinition]

@[simp]
theorem same_fieldDefinition : same.fieldDefinition = id := by
  funext definition
  simp [Revision.fieldDefinition]

@[simp]
theorem same_enumValueDefinition : same.enumValueDefinition = id := by
  funext definition
  simp [Revision.enumValueDefinition]

@[simp]
theorem same_typeBody : same.typeBody = id := by
  funext body
  cases body <;> simp [Revision.typeBody]

@[simp]
theorem same_definition : same.definition = id := by
  funext definition
  cases definition with
  | operation definition =>
    simp [Revision.definition, Revision.operationDefinition, same_selectionSet]
  | fragment definition =>
    simp [Revision.definition, Revision.fragmentDefinition, same_selectionSet]
  | schema definition => simp [Revision.definition, Revision.schemaDefinition]
  | type definition => simp [Revision.definition, Revision.typeDefinition]

theorem same_document (document : Document) : same.document document = document := by
  simp [Revision.document]

/-- Neither locations nor texts of values are left. -/
def erased : Revision := ⟨fun _ => none, fun _ => ""⟩

end Revision

/-! Sources with the same tokens -/

namespace Source

/-- The end of a source that has one is its last token, and the same in every source. -/
theorem lex_all_of_ending {source : Source} {eof : Token} (heof : source.lex.ending = .ok eof) :
    source.lex.all = source.lex.tokens ++ [eof] ∧ eof.lexeme = .eof := by
  refine ⟨?_, (lexFrom_eof .start source.body).2 eof heof⟩
  rw [Lexed.all, heof]
  rfl

/-- Tokens of the same index, of two sources that have the same tokens. -/
def pairing {first second : Source} (located located' : Bool) {eof eof' : Token}
    (heof : first.lex.ending = .ok eof) (heof' : second.lex.ending = .ok eof')
    (htokens : first.lex.tokens.map Token.lexeme = second.lex.tokens.map Token.lexeme) :
    Pairing where
  first := ⟨first, located, first.lex.ending⟩
  second := ⟨second, located', second.lex.ending⟩
  Twins token token' :=
    ∃ index : Nat, first.lex.all[index]? = some token ∧ second.lex.all[index]? = some token'
  Ends _ _ := True
  revision := .erased
  revision' := .erased
  lexeme_eq := by
    rintro token token' ⟨index, htoken, htoken'⟩
    obtain ⟨hall, hlexeme⟩ := lex_all_of_ending heof
    obtain ⟨hall', hlexeme'⟩ := lex_all_of_ending heof'
    have hsame : first.lex.all.map Token.lexeme = second.lex.all.map Token.lexeme := by
      simp only [hall, hall', List.map_append, htokens, List.map_cons, hlexeme, hlexeme']
    have hindex := congrArg (fun lexemes => lexemes[index]?) hsame
    simpa only [List.getElem?_map, htoken, htoken', Option.map_some, Option.some.injEq] using hindex
  ends_stop _ := trivial
  ending := by
    have hlength : first.lex.tokens.length = second.lex.tokens.length := by
      simpa only [List.length_map] using congrArg List.length htokens
    refine .inr ⟨eof, eof', heof, heof', first.lex.tokens.length, ?_, ?_⟩
    · rw [(lex_all_of_ending heof).1, List.getElem?_concat_length]
    · rw [(lex_all_of_ending heof').1, hlength, List.getElem?_concat_length]
  loc_eq _ _ _ _ := rfl
  text_eq _ _ := rfl

/-- The tokens of both sources are paired, one after the other. -/
theorem twins_tokens {first second : Source} {located located' : Bool} {eof eof' : Token}
    {heof : first.lex.ending = .ok eof} {heof' : second.lex.ending = .ok eof'}
    (htokens : first.lex.tokens.map Token.lexeme = second.lex.tokens.map Token.lexeme) :
    List.Forall₂ (pairing located located' heof heof' htokens).Twins first.lex.tokens
      second.lex.tokens := by
  have hlength : first.lex.tokens.length = second.lex.tokens.length := by
    simpa only [List.length_map] using congrArg List.length htokens
  refine List.forall₂_iff_get.mpr ⟨hlength, fun index hindex hindex' => ⟨index, ?_, ?_⟩⟩
  · rw [Lexed.all, List.getElem?_append_left hindex, List.getElem?_eq_getElem hindex]
    rfl
  · rw [Lexed.all, List.getElem?_append_left hindex', List.getElem?_eq_getElem hindex']
    rfl

/-- A source read with spans and without. -/
def pairingUnlocated (source : Source) : Pairing where
  first := ⟨source, true, source.lex.ending⟩
  second := ⟨source, false, source.lex.ending⟩
  Twins := Eq
  Ends := Eq
  revision := .unlocated
  revision' := .same
  lexeme_eq := congrArg Token.lexeme
  ends_stop := congrArg Token.stop
  ending := by
    cases source.lex.ending with
    | error error => exact .inl ⟨error, error, rfl, rfl⟩
    | ok eof => exact .inr ⟨eof, eof, rfl, rfl, rfl⟩
  loc_eq _ _ _ _ := rfl
  text_eq := by
    rintro token _ stop _ rfl rfl
    rfl

theorem parse_of_document_ok {source : Source} {located : Bool} {document : Document}
    {last : Cursor}
    (h : (Grammar.document : Reader Document) ⟨source, located, source.lex.ending⟩
      ⟨.sof, 0, source.lex.tokens⟩ = .ok (document, last)) :
    source.parse located = .ok document := by
  rw [parse, readWith]
  simp only [h]
  rfl

theorem parse_of_document_error {source : Source} {located : Bool} {error : SyntaxError}
    (h : (Grammar.document : Reader Document) ⟨source, located, source.lex.ending⟩
      ⟨.sof, 0, source.lex.tokens⟩ = .error error) :
    source.parse located = .error error := by
  rw [parse, readWith]
  simp only [h]
  rfl

/-- What two sources that are read side by side lead to. -/
theorem parse_paired (pairing : Pairing) {first second : Source} {located located' : Bool}
    (hfirst : pairing.first = ⟨first, located, first.lex.ending⟩)
    (hsecond : pairing.second = ⟨second, located', second.lex.ending⟩)
    (hentry : pairing.Ends 0 0)
    (htokens : List.Forall₂ pairing.Twins first.lex.tokens second.lex.tokens) :
    (∃ document document', first.parse located = .ok document ∧
      second.parse located' = .ok document' ∧
      pairing.Same Revision.document document document') ∨
    ∃ error error', first.parse located = .error error ∧ second.parse located' = .error error' ∧
      pairing.Refused error error' := by
  have houtcomes := Pairing.outcomes_document hentry htokens
  rw [hfirst, hsecond] at houtcomes
  generalize hrun : (Grammar.document : Reader Document) _ ⟨.sof, 0, first.lex.tokens⟩ =
    outcome at houtcomes
  generalize hrun' : (Grammar.document : Reader Document) _ ⟨.sof, 0, second.lex.tokens⟩ =
    outcome' at houtcomes
  cases houtcomes with
  | ok hsame halike =>
    exact .inl ⟨_, _, parse_of_document_ok hrun, parse_of_document_ok hrun', hsame⟩
  | error hrefused =>
    exact .inr ⟨_, _, parse_of_document_error hrun, parse_of_document_error hrun', hrefused⟩

/-- Spans change nothing but themselves. -/
theorem parse_unlocated (source : Source) :
    source.parse false = (source.parse true).map Revision.unlocated.document := by
  have htwins : List.Forall₂ source.pairingUnlocated.Twins source.lex.tokens source.lex.tokens :=
    List.forall₂_same.mpr fun _ _ => rfl
  rcases parse_paired source.pairingUnlocated rfl rfl rfl htwins with
    ⟨document, document', hdocument, hdocument', hsame⟩ | ⟨error, error', herror, herror', hrefused⟩
  · have hsame' : Revision.unlocated.document document = Revision.same.document document' := hsame
    rw [hdocument, hdocument', Except.map, hsame', Revision.same_document]
  · have herrors : error = error' := by
      rcases hrefused with ⟨hending, hending'⟩ | ⟨token, token', htoken, hstart, hstart', hfault⟩
      · exact Except.error.inj (hending.symm.trans hending')
      · obtain rfl : token = token' := htoken
        cases error
        cases error'
        simp_all
    rw [herror, herror', Except.map, herrors]

/-- Sources that have the same tokens are documents or not, both of them, whether spans are recorded
or not. The documents are the same up to spans and the texts of values, and the errors say the same
about the tokens of one index. -/
theorem parse_eq_of_lexemes_eq :
    (∀ (first second : Source) (located located' : Bool) (eof eof' : Token),
      first.lex.ending = .ok eof → second.lex.ending = .ok eof' →
      first.lex.tokens.map Token.lexeme = second.lex.tokens.map Token.lexeme →
      (∃ document document', first.parse located = .ok document ∧
        second.parse located' = .ok document' ∧
        Revision.erased.document document = Revision.erased.document document') ∨
      ∃ error error', first.parse located = .error error ∧
        second.parse located' = .error error' ∧ error.description = error'.description ∧
        ∃ (index : Nat) (token token' : Token), first.lex.all[index]? = some token ∧
          second.lex.all[index]? = some token' ∧ error.position = token.start ∧
          error'.position = token'.start) ∧
    ∀ source : Source,
      source.parse false = (source.parse true).map Revision.unlocated.document := by
  refine ⟨fun first second located located' eof eof' heof heof' htokens => ?_, parse_unlocated⟩
  rcases parse_paired (pairing located located' heof heof' htokens) rfl rfl trivial
    (twins_tokens htokens) with hdocuments | ⟨error, error', herror, herror', hrefused⟩
  · exact .inl hdocuments
  · refine .inr ⟨error, error', herror, herror', ?_⟩
    rcases hrefused with ⟨hending, -⟩ | ⟨token, token', hindex, hstart, hstart', hfault⟩
    · exact absurd (heof.symm.trans hending) (by simp)
    · obtain ⟨index, htoken, htoken'⟩ := hindex
      exact ⟨congrArg SyntaxFault.describe hfault, index, token, token', htoken, htoken', hstart,
        hstart'⟩

/-- A string with an escape and ignored text between the tokens, and a value that is missing. -/
theorem parse_eq_of_lexemes_eq_spaced :
    (let first : Source := { body := "\x7ba(x:\"\\u0041\")\x7d" }
    let second : Source := { body := "\x7b a, (x : \"A\") # all\n\x7d" }
    first.lex.ending = .ok ⟨.eof, 15, 15, 1, 16⟩ ∧ second.lex.ending = .ok ⟨.eof, 22, 22, 2, 2⟩ ∧
    first.lex.tokens.map Token.lexeme = second.lex.tokens.map Token.lexeme ∧
    ∃ document document', first.parse = .ok document ∧ second.parse false = .ok document' ∧
      Revision.erased.document document = Revision.erased.document document') ∧
    (let first : Source := { body := "\x7ba(x:)\x7d" }
    let second : Source := { body := "\x7b a ( x : ) \x7d" }
    first.lex.tokens.map Token.lexeme = second.lex.tokens.map Token.lexeme ∧
    ∃ error error', first.parse = .error error ∧ second.parse = .error error' ∧
      error.description = error'.description ∧
      ∃ (index : Nat) (token token' : Token), first.lex.all[index]? = some token ∧
        second.lex.all[index]? = some token' ∧ error.position = token.start ∧
        error'.position = token'.start) := by
  refine ⟨?_, ?_⟩
  · intro first second
    have heof : first.lex.ending = .ok ⟨.eof, 15, 15, 1, 16⟩ := by decide +kernel
    have heof' : second.lex.ending = .ok ⟨.eof, 22, 22, 2, 2⟩ := by decide +kernel
    have htokens : first.lex.tokens.map Token.lexeme = second.lex.tokens.map Token.lexeme := by
      decide +kernel
    refine ⟨heof, heof', htokens, ?_⟩
    rcases parse_eq_of_lexemes_eq.1 first second true false _ _ heof heof' htokens with
      hdocuments | ⟨error, _, herror, -⟩
    · exact hdocuments
    · have haccepted : first.parse.isOk = true := by decide +kernel
      rw [herror] at haccepted
      cases haccepted
  · intro first second
    have heof : first.lex.ending = .ok ⟨.eof, 7, 7, 1, 8⟩ := by decide +kernel
    have heof' : second.lex.ending = .ok ⟨.eof, 13, 13, 1, 14⟩ := by decide +kernel
    have htokens : first.lex.tokens.map Token.lexeme = second.lex.tokens.map Token.lexeme := by
      decide +kernel
    refine ⟨htokens, ?_⟩
    rcases parse_eq_of_lexemes_eq.1 first second true true _ _ heof heof' htokens with
      ⟨document, _, hdocument, -⟩ | herrors
    · have hrefused : first.parse.isOk = false := by decide +kernel
      rw [hdocument] at hrefused
      cases hrefused
    · exact herrors

end Source

end QueryLint
