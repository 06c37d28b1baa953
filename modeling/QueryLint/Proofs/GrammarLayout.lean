import QueryLint.Proofs.DocumentTrees
import QueryLint.Proofs.GrammarTokens
import QueryLint.Proofs.Layout
import QueryLint.Proofs.TokenDivision

/-!
The grammar lays its nodes over the tokens it consumes: one lemma for each production, in the order
of the grammar. A name is written as its own text and a value keeps the text it was read from, so
the leaves of a tree say what stands in the source.
-/

namespace QueryLint

open Reader Reading

/-! Leaves -/

/-- A name stands in the source as its text. -/
theorem Source.slice_of_name {source : Source} {token : Token} {text : String}
    (hmem : token ∈ source.lex.tokens) (hlexeme : token.lexeme = .name text) :
    source.slice token.start token.stop = text := by
  obtain ⟨front, own, after, hbody, hstart, hstop, htext⟩ := Source.tokenText_of_mem_lex hmem
  rw [hlexeme] at htext
  cases htext with
  | name hname =>
    rw [Source.slice, hbody, hstop, hstart]
    simp

section Leaf

variable {setting : Setting} {cursor last : Cursor} {tokens : List Token}

/-- The leaf over the tokens between two cursors keeps the text between them. -/
theorem Source.laid_leaf (hfits : setting.Fits cursor) (hmoves : setting.Moves cursor tokens last)
    (hne : tokens ≠ []) {kind : NodeKind} {content : Content} (hkind : kind.children = [])
    (hcontent : ∀ text ∈ content.text?,
      setting.source.slice cursor.token.start last.lastEnd = text) :
    setting.source.Laid tokens
      [.node ⟨kind, content, some ⟨cursor.token.start, last.lastEnd, setting.source⟩⟩ []] := by
  obtain ⟨final, hfinal⟩ : ∃ final, tokens.getLast? = some final :=
    ⟨_, List.getLast?_eq_some_getLast hne⟩
  refine Source.laid_single
    ⟨⟨cursor.token, final, hmoves.head?_eq hne, hfinal, ?_⟩, ?_, hkind.symm⟩
    (Source.laid_nil tokens)
  · rw [hmoves.getLast?_stop hfits hfinal]
    rfl
  · intro span hspan
    cases hspan
    exact hcontent

end Leaf

namespace Grammar

theorem name_lays : Lays name fun name => [name.tree] := by
  intro setting cursor hlocated hfits result last hrun
  obtain ⟨token, middle, hcurrent, hrest⟩ := bind_eq_ok hrun
  cases hcurrent
  cases hlexeme : cursor.token.lexeme with
  | name text =>
    rw [hlexeme] at hrest
    obtain ⟨_, next, hadvance, hrest⟩ := bind_eq_ok hrest
    obtain ⟨loc, _, hspan, hpure⟩ := bind_eq_ok hrest
    obtain ⟨rfl, rfl⟩ := spanFrom_run hlocated hspan
    cases hpure
    have hinside : cursor.token.lexeme ≠ .eof := by simp [hlexeme]
    have hmoves : setting.Moves cursor [cursor.token] last := .step hinside hadvance .stay
    refine ⟨_, hmoves, Source.laid_leaf hfits hmoves (List.cons_ne_nil _ _) rfl ?_⟩
    rintro _ ⟨⟩
    rw [(hfits.advance hinside hadvance).2.2]
    exact Source.slice_of_name (hfits.token_mem hinside) hlexeme
  | _ =>
    rw [hlexeme] at hrest
    cases hrest

theorem typeName_lays : Lays typeName fun type => [type.tree] :=
  .current fun _ => .bind name_lays fun _ =>
    .built (fun _ => .node (by simp) rfl rfl) (by simp)

theorem stringValue_laysAt {setting : Setting} {cursor : Cursor}
    (hlocated : setting.located = true) (hfits : setting.Fits cursor) {decoded : Text}
    (hlexeme : cursor.token.lexeme = .string decoded) :
    LaysAt (stringValue cursor.token decoded) setting cursor fun literal => [literal.tree] := by
  intro literal last hrun
  obtain ⟨_, next, hadvance, hrest⟩ := bind_eq_ok hrun
  obtain ⟨here, _, hread, hrest⟩ := bind_eq_ok hrest
  cases hread
  obtain ⟨loc, _, hspan, hpure⟩ := bind_eq_ok hrest
  obtain ⟨rfl, rfl⟩ := spanFrom_run hlocated hspan
  cases hpure
  have hinside : cursor.token.lexeme ≠ .eof := by simp [hlexeme]
  have hmoves : setting.Moves cursor [cursor.token] last := .step hinside hadvance .stay
  refine ⟨_, hmoves, Source.laid_leaf hfits hmoves (List.cons_ne_nil _ _) rfl ?_⟩
  rintro _ ⟨⟩
  rw [(hfits.advance hinside hadvance).2.2]

theorem plainValue_laysAt (const : Bool) {setting : Setting} {cursor : Cursor}
    (hlocated : setting.located = true) (hfits : setting.Fits cursor) :
    LaysAt (plainValue const cursor.token) setting cursor fun value => [value.tree] := by
  intro result last hrun
  obtain ⟨depth, _, hbudget, hrest⟩ := bind_eq_ok hrun
  cases hbudget
  obtain ⟨_, next, hskip, hrest⟩ := bind_eq_ok hrest
  obtain ⟨tokens, hmoves, hne, -⟩ := skipValue_consumes const _ setting cursor hfits _ _ hskip
  obtain ⟨here, _, hread, hrest⟩ := bind_eq_ok hrest
  cases hread
  obtain ⟨place, _, hget, hrest⟩ := bind_eq_ok hrest
  cases hget
  obtain ⟨loc, _, hspan, hpure⟩ := bind_eq_ok hrest
  obtain ⟨rfl, rfl⟩ := spanFrom_run hlocated hspan
  cases hpure
  refine ⟨tokens, hmoves, Source.laid_leaf hfits hmoves (by simpa using hne) rfl ?_⟩
  rintro _ ⟨⟩
  rfl

theorem value_lays (const : Bool) : Lays (value const) fun value => [value.tree] := by
  intro setting cursor hlocated hfits result last hrun
  obtain ⟨token, middle, hcurrent, hrest⟩ := bind_eq_ok hrun
  cases hcurrent
  cases hlexeme : cursor.token.lexeme with
  | string decoded =>
    rw [hlexeme] at hrest
    obtain ⟨literal, next, hliteral, hpure⟩ := bind_eq_ok hrest
    cases hpure
    exact stringValue_laysAt hlocated hfits hlexeme literal last hliteral
  | _ =>
    rw [hlexeme] at hrest
    exact plainValue_laysAt const hlocated hfits result last hrest

theorem description_lays :
    Lays description fun description => (description.map StringValue.tree).toList := by
  intro setting cursor hlocated hfits result last hrun
  obtain ⟨token, middle, hcurrent, hrest⟩ := bind_eq_ok hrun
  cases hcurrent
  cases hlexeme : cursor.token.lexeme with
  | string decoded =>
    rw [hlexeme] at hrest
    obtain ⟨literal, next, hliteral, hpure⟩ := bind_eq_ok hrest
    cases hpure
    exact stringValue_laysAt hlocated hfits hlexeme literal last hliteral
  | _ =>
    rw [hlexeme] at hrest
    cases hrest
    exact ⟨[], .stay, .nil⟩

/-! Arguments, directives and types -/

theorem argument_lays (const : Bool) : Lays (argument const) fun argument => [argument.tree] := by
  refine .current fun start => .bind name_lays fun name => ?_
  refine .pass (expect_punctuator .colon).lays fun _ => .bind (value_lays const) fun value => ?_
  exact .built (fun loc => .node (by simp) rfl rfl) (by simp)

theorem arguments_lays (const : Bool) : Lays (arguments const) (List.map Argument.tree) :=
  optionalMany_lays (argument_lays const) .parenL .parenR

theorem directive_lays (const : Bool) :
    Lays (directive const) fun directive => [directive.tree] := by
  refine .expect .at fun start => .bind name_lays fun name => ?_
  refine .bind (arguments_lays const) fun arguments => ?_
  exact .built (fun loc => .node (by simp) rfl rfl) (by simp)

theorem directivesWithin_lays (const : Bool) (rounds : Nat) :
    Lays (directivesWithin const rounds) (List.map Directive.tree) := by
  induction rounds with
  | zero => exact .look current_stays fun token => .refuse token _
  | succ rounds ih =>
    refine .look (peek_stays _) fun found => ?_
    cases found with
    | false => exact .of_completes fun _ => .pure rfl
    | true =>
      refine .of_completes fun _ => .bind (directive_lays const) fun first => ?_
      exact .bind ih fun others => .pure rfl

theorem directives_lays (const : Bool) : Lays (directives const) (List.map Directive.tree) :=
  .look budget_stays fun rounds => directivesWithin_lays const rounds

theorem nullableType_lays {item : Reader TypeExpr} (hitem : item.Lays fun type => [type.tree]) :
    Lays (nullableType item) fun type => [type.tree] := by
  refine .current fun start => .pass (skip_punctuator .bracketL).lays fun found => ?_
  cases found with
  | true =>
    refine .bind hitem fun item => .pass (expect_punctuator .bracketR).lays fun _ => ?_
    exact .built (fun loc => .node (by simp) rfl rfl) (by simp)
  | false => exact .bind typeName_lays fun type => .pure rfl

theorem typeExprWithin_lays (depth : Nat) :
    Lays (typeExprWithin depth) fun type => [type.tree] := by
  induction depth with
  | zero => exact .look current_stays fun token => .refuse token _
  | succ depth ih =>
    refine .current fun start => .bind (nullableType_lays ih) fun type => ?_
    refine .pass (skip_punctuator .bang).lays fun found => ?_
    cases found with
    | true => exact .built (fun loc => .node (by simp) rfl rfl) (by simp)
    | false => exact .pure rfl

theorem typeExpr_lays : Lays typeExpr fun type => [type.tree] :=
  .look budget_stays fun depth => typeExprWithin_lays depth

theorem defaultValue_lays :
    Lays defaultValue fun value => (value.map Value.tree).toList := by
  refine .of_completes fun _ => .pass (skip_punctuator .equals).lays fun found => ?_
  cases found with
  | true => exact .bind (value_lays true) fun value => .pure rfl
  | false => exact .pure rfl

/-! Selections -/

theorem fieldName_lays :
    Lays fieldName fun names => (names.1.map Name.tree).toList ++ [names.2.tree] := by
  refine .of_completes fun _ => .bind name_lays fun first => ?_
  refine .pass (skip_punctuator .colon).lays fun found => ?_
  cases found with
  | true => exact .bind name_lays fun second => .pure rfl
  | false => exact .pure rfl

theorem fragmentName_lays : Lays fragmentName fun name => [name.tree] := by
  refine .look current_stays fun token => ?_
  split
  · exact .refuse token _
  · exact name_lays

theorem typeCondition_lays (conditioned : Bool) :
    Lays (typeCondition conditioned) fun condition => (condition.map TypeName.tree).toList := by
  cases conditioned with
  | true => exact .of_completes fun _ => .bind typeName_lays fun type => .pure rfl
  | false => exact .of_completes fun _ => .pure rfl

section Nested

variable {selectionSet : Reader SelectionSet}
  (hset : Lays selectionSet fun selectionSet => [selectionSet.tree])
include hset

theorem field_lays : Lays (field selectionSet) fun selection => [selection.tree] := by
  refine .current fun start => .bind fieldName_lays fun names => ?_
  refine .bind (arguments_lays false) fun arguments => ?_
  refine .bind (directives_lays false) fun directives => ?_
  refine .bind (optionalItem_lays hset _) fun set => ?_
  refine .built (fun loc => .node ?_ rfl ?_) (by simp)
  · simp [SelectionSet.branch_eq]
  · simp [SelectionSet.branch_eq, NodeKind.children]

theorem fragment_lays : Lays (fragment selectionSet) fun selection => [selection.tree] := by
  refine .expect .spread fun start => .pass (skipKeyword_prints "on").lays fun conditioned => ?_
  refine .pass (peek_stays _).lays fun named => ?_
  split
  · refine .bind fragmentName_lays fun name => .bind (directives_lays false) fun directives => ?_
    exact .built (fun loc => .node (by simp) rfl rfl) (by simp)
  · refine .bind (typeCondition_lays conditioned) fun condition => ?_
    refine .bind (directives_lays false) fun directives => .bind hset fun set => ?_
    refine .built (fun loc => .node (by simp) rfl ?_) (by simp)
    simp [NodeKind.children]

theorem selection_lays : Lays (selection selectionSet) fun selection => [selection.tree] := by
  refine .look (peek_stays _) fun found => ?_
  cases found with
  | true => exact fragment_lays hset
  | false => exact field_lays hset

end Nested

theorem selectionSetWithin_lays (depth : Nat) :
    Lays (selectionSetWithin depth) fun selectionSet => [selectionSet.tree] := by
  induction depth with
  | zero => exact .look current_stays fun token => .refuse token _
  | succ depth ih =>
    refine .current fun start => .many (selection_lays ih) .braceL .braceR fun first others => ?_
    exact .built (fun loc => .node (by simp [Selection.trees_eq_map]) rfl rfl) (by simp)

theorem selectionSet_lays : Lays selectionSet fun selectionSet => [selectionSet.tree] :=
  .look budget_stays fun depth => selectionSetWithin_lays depth

/-! Operations and fragments -/

theorem variableDefinition_lays :
    Lays variableDefinition fun definition => [definition.tree] := by
  refine .expect .dollar fun start => .bind name_lays fun name => ?_
  refine .pass (expect_punctuator .colon).lays fun _ => .bind typeExpr_lays fun type => ?_
  refine .bind defaultValue_lays fun default => .bind (directives_lays true) fun directives => ?_
  refine .built (fun loc => .node (by simp) rfl ?_) (by simp)
  simp [NodeKind.children]

theorem shorthand_lays : Lays shorthand fun definition => [definition.tree] := by
  refine .current fun start => .bind selectionSet_lays fun selectionSet => ?_
  exact .built (fun loc => .node (by simp) rfl rfl) (by simp)

theorem operationDefinition_lays :
    Lays operationDefinition fun definition => [definition.tree] := by
  refine .current fun start => .pass operationType_prints.lays fun operation => ?_
  refine .bind (optionalItem_lays name_lays _) fun name => ?_
  refine .bind (optionalMany_lays variableDefinition_lays .parenL .parenR) fun definitions => ?_
  refine .bind (directives_lays false) fun directives => ?_
  refine .bind selectionSet_lays fun selectionSet => ?_
  refine .built (fun loc => .node (by simp) rfl ?_) (by simp)
  simp [NodeKind.children]

theorem fragmentDefinition_lays :
    Lays fragmentDefinition fun definition => [definition.tree] := by
  refine .current fun start => .pass (expectKeyword_prints "fragment").lays fun _ => ?_
  refine .bind fragmentName_lays fun name => .pass (expectKeyword_prints "on").lays fun _ => ?_
  refine .bind typeName_lays fun condition => .bind (directives_lays false) fun directives => ?_
  refine .bind selectionSet_lays fun selectionSet => ?_
  exact .built (fun loc => .node (by simp) rfl rfl) (by simp)

/-! Type system definitions -/

theorem operationTypeDefinition_lays :
    Lays operationTypeDefinition fun definition => [definition.tree] := by
  refine .current fun start => .pass operationType_prints.lays fun operation => ?_
  refine .pass (expect_punctuator .colon).lays fun _ => .bind typeName_lays fun type => ?_
  exact .built (fun loc => .node (by simp) rfl rfl) (by simp)

/-- The description is consumed, but it has no node. -/
theorem schemaDefinition_lays : Lays schemaDefinition fun definition => [definition.tree] := by
  refine .current fun start => .pass description_prints.lays fun _ => ?_
  refine .pass (expectKeyword_prints "schema").lays fun _ => ?_
  refine .bind (directives_lays true) fun directives => ?_
  refine .many operationTypeDefinition_lays .braceL .braceR fun first others => ?_
  exact .built (fun loc => .node (by simp) rfl rfl) (by simp)

theorem inputValueDefinition_lays :
    Lays inputValueDefinition fun definition => [definition.tree] := by
  refine .current fun start => .bind description_lays fun description => ?_
  refine .bind name_lays fun name => .pass (expect_punctuator .colon).lays fun _ => ?_
  refine .bind typeExpr_lays fun type => .bind defaultValue_lays fun default => ?_
  refine .bind (directives_lays true) fun directives => ?_
  refine .built (fun loc => .node (by simp) rfl ?_) (by simp)
  simp [NodeKind.children]

theorem fieldDefinition_lays : Lays fieldDefinition fun definition => [definition.tree] := by
  refine .current fun start => .bind description_lays fun description => ?_
  refine .bind name_lays fun name => ?_
  refine .bind (optionalMany_lays inputValueDefinition_lays .parenL .parenR) fun arguments => ?_
  refine .pass (expect_punctuator .colon).lays fun _ => .bind typeExpr_lays fun type => ?_
  refine .bind (directives_lays true) fun directives => ?_
  refine .built (fun loc => .node (by simp) rfl ?_) (by simp)
  simp [NodeKind.children]

theorem fieldsDefinition_lays : Lays fieldsDefinition (List.map FieldDefinition.tree) :=
  optionalMany_lays fieldDefinition_lays .braceL .braceR

theorem enumValueDefinition_lays :
    Lays enumValueDefinition fun definition => [definition.tree] := by
  refine .current fun start => .bind description_lays fun description => ?_
  refine .bind name_lays fun name => .bind (directives_lays true) fun directives => ?_
  refine .built (fun loc => .node (by simp) rfl ?_) (by simp)
  simp [NodeKind.children]

/-- A type definition starts with its description, its keyword and its name. -/
theorem typeHead_lays {β : Type} {trees : β → List Tree} (keyword : String)
    {k : Token → Option StringValue → Name → Reader β}
    (h : ∀ start description name,
      Completes start ([] ++ (description.map StringValue.tree).toList ++ [name.tree])
        (k start description name) trees) :
    Lays (do
      let start ← current
      let description ← description
      expectKeyword keyword
      let name ← name
      k start description name) trees := by
  refine .current fun start => .bind description_lays fun description => ?_
  refine .pass (expectKeyword_prints keyword).lays fun _ => .bind name_lays fun name => ?_
  exact h start description name

theorem scalarTypeDefinition_lays :
    Lays scalarTypeDefinition fun definition => [definition.tree] := by
  refine typeHead_lays "scalar" fun start description name => ?_
  refine .bind (directives_lays true) fun directives => ?_
  refine .built (fun loc => .node (by simp) rfl ?_) (by simp)
  simp [NodeKind.children]

theorem implementedInterfaces_lays : Lays implementedInterfaces (List.map TypeName.tree) := by
  refine .of_completes fun _ => .pass (skipKeyword_prints "implements").lays fun found => ?_
  cases found with
  | true =>
    rw [if_pos rfl, ← bind_pure (delimited _ _)]
    exact .bind (delimited_lays typeName_lays .amp) fun types => .pure rfl
  | false => exact .pure rfl

theorem objectTypeDefinition_lays :
    Lays objectTypeDefinition fun definition => [definition.tree] := by
  refine typeHead_lays "type" fun start description name => ?_
  refine .bind implementedInterfaces_lays fun interfaces => ?_
  refine .bind (directives_lays true) fun directives => ?_
  refine .bind fieldsDefinition_lays fun fields => ?_
  refine .built (fun loc => .node (by simp) rfl ?_) (by simp)
  simp [NodeKind.children]

theorem interfaceTypeDefinition_lays :
    Lays interfaceTypeDefinition fun definition => [definition.tree] := by
  refine typeHead_lays "interface" fun start description name => ?_
  refine .bind (directives_lays true) fun directives => ?_
  refine .bind fieldsDefinition_lays fun fields => ?_
  refine .built (fun loc => .node (by simp) rfl ?_) (by simp)
  simp [NodeKind.children]

theorem unionMembers_lays : Lays unionMembers (List.map TypeName.tree) := by
  refine .of_completes fun _ => .pass (skip_punctuator .equals).lays fun found => ?_
  cases found with
  | true =>
    rw [if_pos rfl, ← bind_pure (delimited _ _)]
    exact .bind (delimited_lays typeName_lays .pipe) fun types => .pure rfl
  | false => exact .pure rfl

theorem unionTypeDefinition_lays :
    Lays unionTypeDefinition fun definition => [definition.tree] := by
  refine typeHead_lays "union" fun start description name => ?_
  refine .bind (directives_lays true) fun directives => ?_
  refine .bind unionMembers_lays fun members => ?_
  refine .built (fun loc => .node (by simp) rfl ?_) (by simp)
  simp [NodeKind.children]

theorem enumTypeDefinition_lays :
    Lays enumTypeDefinition fun definition => [definition.tree] := by
  refine typeHead_lays "enum" fun start description name => ?_
  refine .bind (directives_lays true) fun directives => ?_
  refine .bind (optionalMany_lays enumValueDefinition_lays .braceL .braceR) fun values => ?_
  refine .built (fun loc => .node (by simp) rfl ?_) (by simp)
  simp [NodeKind.children]

/-! Documents -/

theorem described?_lays {text : String} {reader : Reader Definition}
    (h : described? text = some reader) : reader.Lays fun definition => [definition.tree] := by
  unfold described? at h
  split at h <;> cases h
  · exact .map schemaDefinition_lays
  · exact .map scalarTypeDefinition_lays
  · exact .map objectTypeDefinition_lays
  · exact .map interfaceTypeDefinition_lays
  · exact .map unionTypeDefinition_lays
  · exact .map enumTypeDefinition_lays

theorem executable?_lays {text : String} {reader : Reader Definition}
    (h : executable? text = some reader) : reader.Lays fun definition => [definition.tree] := by
  unfold executable? at h
  split at h <;> cases h
  · exact .map operationDefinition_lays
  · exact .map operationDefinition_lays
  · exact .map operationDefinition_lays
  · exact .map fragmentDefinition_lays

theorem definition_lays : Lays definition fun definition => [definition.tree] := by
  refine .look current_stays fun token => ?_
  split
  · exact .map shorthand_lays
  · refine .look lookahead_stays fun keyword => ?_
    split
    · exact .getD (fun _ hfound => described?_lays hfound) keyword
    · exact .refuse keyword _
  · rename_i text _
    refine .getD (fun reader hfound => ?_) token
    cases hexecutable : (executable? text : Option (Reader Definition)) with
    | some other =>
      rw [hexecutable] at hfound
      cases hfound
      exact executable?_lays hexecutable
    | none =>
      rw [hexecutable] at hfound
      exact described?_lays hfound
  · exact .refuse token _

end Grammar

end QueryLint
