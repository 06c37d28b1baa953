import QueryLint.Document.Parser
import QueryLint.Proofs.WatchedReading

/-!
Every production of the grammar, watched, comes to the same result as when it is merely run. The
watched production consumes tokens of the source alone, at least one where items of a loop and
nested calls rely on it, and the clock does not run down as long as it shows more than the number of
tokens that are left.
-/

namespace QueryLint

namespace Watched

open Reading Grammar

variable {condition : Condition} {bound : Nat}

theorem name_tracks : Tracks condition bound 1 name name := by
  refine current_bind_tracks fun point h => ?_
  cases hlexeme : point.cursor.token.lexeme with
  | name text =>
    refine advance_bind_tracksAt h condition.leads_self (by simp [hlexeme]) ?_
    exact (spanFrom_tracks _).bind fun _ => .pure _
  | _ => exact refuse_tracksAt _ _

theorem typeName_tracks : Tracks condition bound 1 typeName typeName :=
  current_tracks.bind fun start => name_tracks.bind fun _ =>
    (spanFrom_tracks start).bind fun _ => .pure _

/-! Values, directives and type references -/

theorem skipValue_tracks (const : Bool) (depth depth' : Nat) :
    Tracks condition (min bound (min depth depth')) 1 (skipValue const depth)
      (skipValue const depth') := by
  refine spending_tracks id ?_ depth depth' condition
  intro depth depth' bound _ hinner condition
  refine enclosing_tracks fun mark => ?_
  have hitem := nested_tracks (hinner (.movedSince mark))
  refine current_bind_tracks fun point h => ?_
  cases hlexeme : point.cursor.token.lexeme with
  | int _ | float _ | string _ | name _ => exact advance_tracksAt h.follows (by simp [hlexeme])
  | punctuator punctuator =>
    cases punctuator with
    | bracketL =>
      refine advance_bind_tracksAt h (Condition.begun_leads mark) (by simp [hlexeme]) ?_
      refine budget_bind_tracks fun rounds rounds' => ?_
      exact (itemsUntil_tracks (by decide) hitem rounds rounds').bind fun _ => .pure ()
    | braceL =>
      refine advance_bind_tracksAt h (Condition.begun_leads mark) (by simp [hlexeme]) ?_
      refine budget_bind_tracks fun rounds rounds' => ?_
      refine (itemsUntil_tracks (by decide) ?_ rounds rounds').bind fun _ => .pure ()
      exact (expect_tracks (by decide)).bind fun _ =>
        (expect_tracks (by decide)).bind fun _ => hitem.mono (Nat.zero_le _) (Nat.le_refl _)
    | dollar =>
      cases const with
      | true => exact refuse_tracksAt _ _
      | false =>
        refine advance_bind_tracksAt h (Condition.begun_leads mark) (by simp [hlexeme]) ?_
        exact (expect_tracks (by decide)).bind fun _ => .pure ()
    | _ => exact refuse_tracksAt _ _
  | _ => exact refuse_tracksAt _ _

theorem stringValue_tracksAt {point : Point} (h : Ready condition bound point) {decoded : Text}
    (hlexeme : point.cursor.token.lexeme = .string decoded) :
    TracksAt 1 (stringValue point.cursor.token decoded) (stringValue point.cursor.token decoded)
      point := by
  refine advance_bind_tracksAt h condition.leads_self (by simp [hlexeme]) ?_
  exact (slice_tracks _ _).bind fun _ => (spanFrom_tracks _).bind fun _ => .pure _

theorem plainValue_tracks (const : Bool) (start : Token) :
    Tracks condition bound 1 (plainValue const start) (plainValue const start) := by
  refine budget_bind_tracks fun depth depth' => ?_
  refine (skipValue_tracks const depth depth').bind fun _ => lastEnd_tracks.bind fun _ => ?_
  exact (slice_tracks _ _).bind fun _ => (spanFrom_tracks start).bind fun _ => .pure _

theorem value_tracks (const : Bool) :
    Tracks condition bound 1 (value const) (value const) := by
  refine current_bind_tracks fun point h => ?_
  cases hlexeme : point.cursor.token.lexeme with
  | string decoded => exact .bind h (stringValue_tracksAt h hlexeme) fun _ => .pure _
  | _ => exact plainValue_tracks const _ point h

theorem argument_tracks (const : Bool) :
    Tracks condition bound 1 (argument const) (argument const) :=
  current_tracks.bind fun start => name_tracks.bind fun _ => (expect_tracks (by decide)).bind
    fun _ => (value_tracks const).bind fun _ => (spanFrom_tracks start).bind fun _ => .pure _

theorem arguments_tracks (const : Bool) :
    Tracks condition bound 0 (arguments const) (arguments const) :=
  optionalMany_tracks (by decide) (by decide) (argument_tracks const)

theorem directive_tracks (const : Bool) :
    Tracks condition bound 1 (directive const) (directive const) :=
  (expect_tracks (by decide)).bind fun start => name_tracks.bind fun _ =>
    (arguments_tracks const).bind fun _ => (spanFrom_tracks start).bind fun _ => .pure _

theorem directivesWithin_tracks (const : Bool) (rounds rounds' : Nat) :
    Tracks condition (min bound (min rounds rounds')) 0 (directivesWithin const rounds)
      (directivesWithin const rounds') := by
  refine spending_tracks (fun _ : Unit => condition) ?_ rounds rounds' ()
  intro rounds rounds' bound _ hothers _
  refine (peek_tracks _).bind fun found => ?_
  cases found with
  | false => exact .pure []
  | true =>
    exact (round_tracks (directive_tracks const)).step condition.leads_self fun directive =>
      (hothers ()).bind fun others => .pure (directive :: others)

theorem directives_tracks (const : Bool) :
    Tracks condition bound 0 (directives const) (directives const) :=
  budget_bind_tracks (directivesWithin_tracks const)

theorem nullableType_tracks {before after : Condition} (hleads : before.Leads after)
    {item : Watched TypeExpr} {item' : Reader TypeExpr}
    (hitem : Tracks after (bound - 1) 1 item item') :
    Tracks before bound 1 (nullableType item) (nullableType item') := by
  refine current_tracks.bind fun start => skip_bind_tracks (by decide) hleads ?_ ?_
  · exact hitem.bind fun _ => (expect_tracks (by decide)).bind fun _ =>
      (spanFrom_tracks start).bind fun _ => .pure _
  · exact typeName_tracks.bind fun _ => .pure _

theorem typeExprWithin_tracks (depth depth' : Nat) :
    Tracks condition (min bound (min depth depth')) 1 (typeExprWithin depth)
      (typeExprWithin depth') := by
  refine spending_tracks id ?_ depth depth' condition
  intro depth depth' bound _ hinner condition
  refine enclosing_tracks fun mark => current_tracks.bind fun start => ?_
  have hitem := nested_tracks (hinner (.movedSince mark))
  refine (nullableType_tracks (Condition.begun_leads mark) hitem).bind fun type => ?_
  refine skip_bind_tracks (by decide) (Condition.leads_self _) ?_ (.pure type)
  exact (spanFrom_tracks start).bind fun _ => .pure _

theorem typeExpr_tracks : Tracks condition bound 1 typeExpr typeExpr :=
  budget_bind_tracks typeExprWithin_tracks

theorem defaultValue_tracks : Tracks condition bound 0 defaultValue defaultValue :=
  skip_bind_tracks (by decide) condition.leads_self ((value_tracks true).bind fun _ => .pure _)
    (.pure none)

/-! Selections -/

theorem fieldName_tracks : Tracks condition bound 1 fieldName fieldName :=
  name_tracks.bind fun first => skip_bind_tracks (by decide) condition.leads_self
    (name_tracks.bind fun _ => .pure _) (.pure (none, first))

section Selections

variable {set : Watched SelectionSet} {set' : Reader SelectionSet}

theorem field_tracks (hset : Tracks condition bound 1 set set') :
    Tracks condition bound 1 (field set) (field set') :=
  current_tracks.bind fun start => fieldName_tracks.bind fun _ => (arguments_tracks false).bind
    fun _ => (directives_tracks false).bind fun _ => (optionalItem_tracks _ hset).bind fun _ =>
      (spanFrom_tracks start).bind fun _ => .pure _

theorem fragmentName_tracks : Tracks condition bound 1 fragmentName fragmentName := by
  refine current_tracks.bind fun token => ?_
  cases token.lexeme.value? == some (Text.ofString "on") with
  | true => exact unexpected_tracks token
  | false => exact name_tracks

theorem typeCondition_tracks (conditioned : Bool) :
    Tracks condition bound 0 (typeCondition conditioned) (typeCondition conditioned) := by
  cases conditioned with
  | true => exact typeName_tracks.bind fun _ => .pure _
  | false => exact .pure none

theorem fragment_tracks (hset : Tracks condition bound 1 set set') :
    Tracks condition bound 1 (fragment set) (fragment set') := by
  refine (expect_tracks (by decide)).bind fun start => (skipKeyword_tracks "on").bind
    fun conditioned => (peek_tracks .name).bind fun named => ?_
  cases !conditioned && named with
  | true =>
    exact fragmentName_tracks.bind fun _ => (directives_tracks false).bind fun _ =>
      (spanFrom_tracks start).bind fun _ => .pure _
  | false =>
    exact (typeCondition_tracks conditioned).bind fun _ => (directives_tracks false).bind fun _ =>
      hset.bind fun _ => (spanFrom_tracks start).bind fun _ => .pure _

theorem selection_tracks (hset : Tracks condition bound 1 set set') :
    Tracks condition bound 1 (selection set) (selection set') := by
  refine (peek_tracks _).bind fun found => ?_
  cases found with
  | true => exact fragment_tracks hset
  | false => exact field_tracks hset

end Selections

theorem selectionSetWithin_tracks (depth depth' : Nat) :
    Tracks condition (min bound (min depth depth')) 1 (selectionSetWithin depth)
      (selectionSetWithin depth') := by
  refine spending_tracks id ?_ depth depth' condition
  intro depth depth' bound _ hinner condition
  refine enclosing_tracks fun mark => current_tracks.bind fun start => ?_
  -- a selection stands behind the opening brace, so a set inside it is entered with progress
  have hset := nested_tracks (hinner (.movedSince mark))
  refine (many_tracks (by decide) (by decide) (Condition.begun_leads mark)
    (selection_tracks hset)).bind fun _ => ?_
  exact (spanFrom_tracks start).bind fun _ => .pure _

theorem selectionSet_tracks : Tracks condition bound 1 selectionSet selectionSet :=
  budget_bind_tracks selectionSetWithin_tracks

/-! Operations and fragments -/

theorem operationType_tracks : Tracks condition bound 1 operationType operationType := by
  refine (expect_tracks (by decide)).bind fun token => ?_
  cases token.lexeme with
  | name text =>
    cases hoperation : OperationType.ofText? text with
    | some operation => simpa only [hoperation] using Tracks.pure operation
    | none => simpa only [hoperation] using unexpected_tracks token
  | _ => exact unexpected_tracks token

theorem variableDefinition_tracks :
    Tracks condition bound 1 variableDefinition variableDefinition :=
  (expect_tracks (by decide)).bind fun start => name_tracks.bind fun _ =>
    (expect_tracks (by decide)).bind fun _ => typeExpr_tracks.bind fun _ =>
      defaultValue_tracks.bind fun _ => (directives_tracks true).bind fun _ =>
        (spanFrom_tracks start).bind fun _ => .pure _

theorem shorthand_tracks : Tracks condition bound 1 shorthand shorthand :=
  current_tracks.bind fun start => selectionSet_tracks.bind fun _ =>
    (spanFrom_tracks start).bind fun _ => .pure _

theorem operationDefinition_tracks :
    Tracks condition bound 1 operationDefinition operationDefinition :=
  current_tracks.bind fun start => operationType_tracks.bind fun _ =>
    (optionalItem_tracks .name name_tracks).bind fun _ =>
      (optionalMany_tracks (by decide) (by decide) variableDefinition_tracks).bind fun _ =>
        (directives_tracks false).bind fun _ => selectionSet_tracks.bind fun _ =>
          (spanFrom_tracks start).bind fun _ => .pure _

theorem fragmentDefinition_tracks :
    Tracks condition bound 1 fragmentDefinition fragmentDefinition :=
  current_tracks.bind fun start => (expectKeyword_tracks "fragment").bind fun _ =>
    fragmentName_tracks.bind fun _ => (expectKeyword_tracks "on").bind fun _ =>
      typeName_tracks.bind fun _ => (directives_tracks false).bind fun _ =>
        selectionSet_tracks.bind fun _ => (spanFrom_tracks start).bind fun _ => .pure _

/-! Type system definitions -/

theorem description_tracks : Tracks condition bound 0 description description := by
  refine current_bind_tracks fun point h => ?_
  cases hlexeme : point.cursor.token.lexeme with
  | string decoded => exact .bind h (stringValue_tracksAt h hlexeme) fun _ => .pure _
  | _ => exact .pure h none

theorem operationTypeDefinition_tracks :
    Tracks condition bound 1 operationTypeDefinition operationTypeDefinition :=
  current_tracks.bind fun start => operationType_tracks.bind fun _ =>
    (expect_tracks (by decide)).bind fun _ => typeName_tracks.bind fun _ =>
      (spanFrom_tracks start).bind fun _ => .pure _

theorem schemaDefinition_tracks :
    Tracks condition bound 1 schemaDefinition schemaDefinition :=
  current_tracks.bind fun start => description_tracks.bind fun _ =>
    (expectKeyword_tracks "schema").bind fun _ => (directives_tracks true).bind fun _ =>
      (many_tracks (by decide) (by decide) condition.leads_self
        operationTypeDefinition_tracks).bind fun _ => (spanFrom_tracks start).bind fun _ => .pure _

theorem inputValueDefinition_tracks :
    Tracks condition bound 1 inputValueDefinition inputValueDefinition :=
  current_tracks.bind fun start => description_tracks.bind fun _ => name_tracks.bind fun _ =>
    (expect_tracks (by decide)).bind fun _ => typeExpr_tracks.bind fun _ =>
      defaultValue_tracks.bind fun _ => (directives_tracks true).bind fun _ =>
        (spanFrom_tracks start).bind fun _ => .pure _

theorem fieldDefinition_tracks :
    Tracks condition bound 1 fieldDefinition fieldDefinition :=
  current_tracks.bind fun start => description_tracks.bind fun _ => name_tracks.bind fun _ =>
    (optionalMany_tracks (by decide) (by decide) inputValueDefinition_tracks).bind fun _ =>
      (expect_tracks (by decide)).bind fun _ => typeExpr_tracks.bind fun _ =>
        (directives_tracks true).bind fun _ => (spanFrom_tracks start).bind fun _ => .pure _

theorem fieldsDefinition_tracks :
    Tracks condition bound 0 fieldsDefinition fieldsDefinition :=
  optionalMany_tracks (by decide) (by decide) fieldDefinition_tracks

theorem enumValueDefinition_tracks :
    Tracks condition bound 1 enumValueDefinition enumValueDefinition :=
  current_tracks.bind fun start => description_tracks.bind fun _ => name_tracks.bind fun _ =>
    (directives_tracks true).bind fun _ => (spanFrom_tracks start).bind fun _ => .pure _

theorem scalarTypeDefinition_tracks :
    Tracks condition bound 1 scalarTypeDefinition scalarTypeDefinition :=
  current_tracks.bind fun start => description_tracks.bind fun _ =>
    (expectKeyword_tracks "scalar").bind fun _ => name_tracks.bind fun _ =>
      (directives_tracks true).bind fun _ => (spanFrom_tracks start).bind fun _ => .pure _

theorem implementedInterfaces_tracks :
    Tracks condition bound 0 implementedInterfaces implementedInterfaces :=
  skipKeyword_bind_tracks condition.leads_self
    ((delimited_tracks (by decide) typeName_tracks).mono (Nat.zero_le _) (Nat.le_refl _)) (.pure [])

theorem objectTypeDefinition_tracks :
    Tracks condition bound 1 objectTypeDefinition objectTypeDefinition :=
  current_tracks.bind fun start => description_tracks.bind fun _ =>
    (expectKeyword_tracks "type").bind fun _ => name_tracks.bind fun _ =>
      implementedInterfaces_tracks.bind fun _ => (directives_tracks true).bind fun _ =>
        fieldsDefinition_tracks.bind fun _ => (spanFrom_tracks start).bind fun _ => .pure _

theorem interfaceTypeDefinition_tracks :
    Tracks condition bound 1 interfaceTypeDefinition interfaceTypeDefinition :=
  current_tracks.bind fun start => description_tracks.bind fun _ =>
    (expectKeyword_tracks "interface").bind fun _ => name_tracks.bind fun _ =>
      (directives_tracks true).bind fun _ => fieldsDefinition_tracks.bind fun _ =>
        (spanFrom_tracks start).bind fun _ => .pure _

theorem unionMembers_tracks : Tracks condition bound 0 unionMembers unionMembers :=
  skip_bind_tracks (by decide) condition.leads_self
    ((delimited_tracks (by decide) typeName_tracks).mono (Nat.zero_le _) (Nat.le_refl _)) (.pure [])

theorem unionTypeDefinition_tracks :
    Tracks condition bound 1 unionTypeDefinition unionTypeDefinition :=
  current_tracks.bind fun start => description_tracks.bind fun _ =>
    (expectKeyword_tracks "union").bind fun _ => name_tracks.bind fun _ =>
      (directives_tracks true).bind fun _ => unionMembers_tracks.bind fun _ =>
        (spanFrom_tracks start).bind fun _ => .pure _

theorem enumTypeDefinition_tracks :
    Tracks condition bound 1 enumTypeDefinition enumTypeDefinition :=
  current_tracks.bind fun start => description_tracks.bind fun _ =>
    (expectKeyword_tracks "enum").bind fun _ => name_tracks.bind fun _ =>
      (directives_tracks true).bind fun _ =>
        (optionalMany_tracks (by decide) (by decide) enumValueDefinition_tracks).bind fun _ =>
          (spanFrom_tracks start).bind fun _ => .pure _

/-! Documents -/

theorem described?_tracks (text : String) :
    Option.Rel (Tracks condition bound 1) (described? text) (described? text) := by
  unfold described?
  split
  · exact .some schemaDefinition_tracks.map
  · exact .some scalarTypeDefinition_tracks.map
  · exact .some objectTypeDefinition_tracks.map
  · exact .some interfaceTypeDefinition_tracks.map
  · exact .some unionTypeDefinition_tracks.map
  · exact .some enumTypeDefinition_tracks.map
  next hschema hscalar htype hinterface hunion henum =>
    exact .none

theorem executable?_tracks (text : String) :
    Option.Rel (Tracks condition bound 1) (executable? text) (executable? text) := by
  unfold executable?
  split
  · exact .some operationDefinition_tracks.map
  · exact .some operationDefinition_tracks.map
  · exact .some operationDefinition_tracks.map
  · exact .some fragmentDefinition_tracks.map
  next hquery hmutation hsubscription hfragment =>
    exact .none

theorem rel_orElse {watched? others? : Option (Watched Definition)}
    {reader? others'? : Option (Reader Definition)}
    (h : Option.Rel (Tracks condition bound 1) watched? reader?)
    (hothers : Option.Rel (Tracks condition bound 1) others? others'?) :
    Option.Rel (Tracks condition bound 1) (watched? <|> others?) (reader? <|> others'?) := by
  cases h with
  | some h => exact .some h
  | none => exact hothers

theorem getD_unexpected_tracks {watched? : Option (Watched Definition)}
    {reader? : Option (Reader Definition)}
    (h : Option.Rel (Tracks condition bound 1) watched? reader?) (token : Token) :
    Tracks condition bound 1 (watched?.getD (unexpected token))
      (reader?.getD (unexpected token)) := by
  cases h with
  | some h => exact h
  | none => exact unexpected_tracks token

theorem definition_tracks : Tracks condition bound 1 definition definition := by
  refine current_tracks.bind fun token => ?_
  cases token.lexeme with
  | punctuator mark =>
    cases mark with
    | braceL => exact shorthand_tracks.map
    | _ => exact unexpected_tracks token
  | string _ =>
    refine lookahead_tracks.bind fun keyword => ?_
    cases keyword.lexeme with
    | name text => exact getD_unexpected_tracks (described?_tracks text) keyword
    | _ => exact unexpected_tracks keyword
  | name text =>
    refine getD_unexpected_tracks ?_ token
    exact rel_orElse (executable?_tracks text) (described?_tracks text)
  | _ => exact unexpected_tracks token

end Watched

end QueryLint
