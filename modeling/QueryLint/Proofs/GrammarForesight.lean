import QueryLint.Document.Parser
import QueryLint.Proofs.ChoiceForesight

/-!
Every production is decided by the tokens it consumes and the one behind them. What may follow a
production is limited where an optional piece at its end is missing: the next token must not be
taken for that piece.
-/

namespace QueryLint

namespace Grammar

open Reader Reading

variable {κ β : Type} {limit bound : κ → Nat} {follow : Lexeme → Prop} {setting : Setting}
  {cursor : Cursor}

theorem run_current (k : Token → Reader β) :
    (current >>= k) setting cursor = k cursor.token setting cursor := rfl

/-- Consuming the current token, told by its kind. -/
theorem run_advance_bind {kind : TokenKind} (h : cursor.token.lexeme.kind = kind)
    (k : Token → Reader β) :
    (advance >>= fun _ => k cursor.token : Reader β) setting cursor =
      (expect kind >>= k) setting cursor := by
  rw [run_bind_congr (run_expect h), bind_assoc]
  rfl

theorem run_name {text : String} (h : cursor.token.lexeme = .name text) :
    (name : Reader Name) setting cursor = (expect .name >>= fun token => spanFrom token >>=
      fun loc => pure ⟨text, loc⟩ : Reader Name) setting cursor := by
  have hkind : cursor.token.lexeme.kind = .name := by rw [h]; rfl
  rw [name, run_current, h, ← run_advance_bind hkind]

theorem run_name_missing (h : cursor.token.lexeme.kind ≠ .name) :
    (name : Reader Name) setting cursor =
      .error ⟨cursor.token.start, .expectedToken .name cursor.token.lexeme⟩ := by
  rw [name, run_current]
  cases hlexeme : cursor.token.lexeme with
  | name text => exact absurd (by rw [hlexeme]; rfl) h
  | _ => rfl

theorem name_of_kind {lexeme : Lexeme} (h : lexeme.kind = .name) : ∃ text, lexeme = .name text := by
  cases lexeme <;> simp_all [Lexeme.kind]

theorem name_decides (limit bound : κ → Nat) (follow : Lexeme → Prop) :
    Decides (fun _ => name) limit (fun _ => False) follow bound := by
  intro x setting cursor hfits hleft
  by_cases hkind : cursor.token.lexeme.kind = .name
  · obtain ⟨text, htext⟩ := name_of_kind hkind
    have hname : Decides (fun _ : κ => expect .name >>= fun token => spanFrom token >>= fun loc =>
        pure (⟨text, loc⟩ : Name)) limit (fun _ => False) follow bound :=
      (expect_decides .name (by simp) limit bound follow).bind (.spanned _ _ _ _ _)
    exact hname.on_strict (· = .name text) (fun _ _ _ => run_name) hfits hleft htext
  · exact .refuse (·.kind ≠ .name) (.expectedToken .name) (fun _ _ _ => run_name_missing)
      (fun _ => rfl) hkind

theorem name_foresees (limit bound : κ → Nat) (follow : Lexeme → Prop) :
    Foresees (fun _ => name) limit (· = someName) follow bound where
  samples := by
    have hname : Foresees (fun _ : κ => expect .name >>= fun token => spanFrom token >>= fun loc =>
        pure (⟨"a", loc⟩ : Name)) limit (· = someName) follow bound :=
      (expect_name_foresees limit bound follow).bind (.spanned _ _ _ _ _)
    exact hname.samples.on fun _ _ _ => run_name
  decides := (name_decides limit bound follow).weaken

theorem typeName_foresees (limit bound : κ → Nat) (follow : Lexeme → Prop) :
    Foresees (fun _ => typeName) limit (· = someName) follow bound :=
  (current_foresees limit bound _).bind ((name_foresees _ _ follow).bind (.spanned _ _ _ _ _))

/-! Values -/

/-- Any token may follow. -/
abbrev anything : Lexeme → Prop := fun _ => True

/-- Whether a value starts with the token. -/
def startsValue (const : Bool) : Lexeme → Bool
  | .int _ | .float _ | .string _ | .name _ => true
  | .punctuator .bracketL | .punctuator .braceL => true
  | .punctuator .dollar => !const
  | _ => false

section

variable {const : Bool} {depth : Nat}

theorem skipValue_scalar {kind : TokenKind} (h : cursor.token.lexeme.kind = kind)
    (hscalar : kind ∈ [TokenKind.int, .float, .string, .name]) :
    (skipValue const (depth + 1) : Reader Unit) setting cursor =
      (expect kind >>= fun _ => pure () : Reader Unit) setting cursor := by
  subst h
  rw [← run_advance_bind rfl, skipValue, enclosing_eq, run_current]
  cases hlexeme : cursor.token.lexeme with
  | int | float | string | name => simp
  | _ => simp [hlexeme, Lexeme.kind] at hscalar

theorem skipValue_list (h : cursor.token.lexeme = .punctuator .bracketL) :
    (skipValue const (depth + 1) : Reader Unit) setting cursor =
      (expect (.punctuator .bracketL) >>= fun _ => budget >>= fun rounds =>
        itemsUntil (.punctuator .bracketR) (skipValue const depth) rounds >>= fun _ => pure () :
          Reader Unit) setting cursor := by
  have hkind : cursor.token.lexeme.kind = .punctuator .bracketL := by rw [h]; rfl
  rw [← run_advance_bind hkind, skipValue, enclosing_eq, run_current, h]

/-- A name and the value behind it. -/
def skipEntry (value : Reader Unit) : Reader Unit := do
  let _ ← expect .name
  let _ ← expect (.punctuator .colon)
  value

theorem skipValue_object (h : cursor.token.lexeme = .punctuator .braceL) :
    (skipValue const (depth + 1) : Reader Unit) setting cursor =
      (expect (.punctuator .braceL) >>= fun _ => budget >>= fun rounds =>
        itemsUntil (.punctuator .braceR) (skipEntry (skipValue const depth)) rounds >>= fun _ =>
          pure () : Reader Unit) setting cursor := by
  have hkind : cursor.token.lexeme.kind = .punctuator .braceL := by rw [h]; rfl
  rw [← run_advance_bind hkind, skipValue, enclosing_eq, run_current, h]
  rfl

theorem skipValue_variable (h : cursor.token.lexeme = .punctuator .dollar)
    (hconst : const = false) :
    (skipValue const (depth + 1) : Reader Unit) setting cursor =
      (expect (.punctuator .dollar) >>= fun _ => expect .name >>= fun _ => pure () :
        Reader Unit) setting cursor := by
  have hkind : cursor.token.lexeme.kind = .punctuator .dollar := by rw [h]; rfl
  rw [← run_advance_bind hkind, skipValue, enclosing_eq, run_current, h, hconst]
  rfl

theorem skipValue_refused (h : startsValue const cursor.token.lexeme = false) :
    (skipValue const (depth + 1) : Reader Unit) setting cursor =
      .error ⟨cursor.token.start, .unexpectedToken cursor.token.lexeme⟩ := by
  change _ = (unexpected cursor.token : Reader Unit) setting cursor
  rw [skipValue, enclosing_eq, run_current]
  cases hlexeme : cursor.token.lexeme with
  | sof | eof => rfl
  | int | float | string | name => rw [hlexeme] at h; cases h
  | punctuator mark =>
    rw [hlexeme] at h
    cases mark with
    | bracketL | braceL => cases h
    | dollar =>
      obtain rfl : const = true := by simpa [startsValue] using h
      rfl
    | _ => rfl

end

/-- The items of a list or an object, which may be empty. -/
theorem skipItems_decides {item : κ → Reader Unit} {closing : Punctuator} {first : Lexeme → Prop}
    (hitem : Foresees item (fun y => limit y - 1) first (· = .punctuator closing)
      fun x => bound x - 1)
    (hclosing : ¬first (.punctuator closing)) (opening : Punctuator) (follow : Lexeme → Prop) :
    Decides (fun x => expect (.punctuator opening) >>= fun _ => budget >>= fun rounds =>
      itemsUntil (.punctuator closing) (item x) rounds >>= fun _ => pure ()) limit
        (fun _ => False) follow bound := by
  refine (expect_decides (.punctuator opening) (by simp) limit bound
    (· = .punctuator closing)).bind_step rfl id (.budget ?_)
  refine .bind (itemsUntil_foresees ?_ hclosing follow Prod.snd (fun _ => Nat.min_le_right _ _)
    fun _ => Nat.min_le_right _ _) (.pure _ _ _ _)
  exact hitem.after.after.anti (fun _ => Nat.min_le_left _ _)
    fun _ => Nat.min_le_left _ _

theorem skipValue_foresees (const : Bool) (depth : κ → Nat) (hlimit : ∀ y, limit y ≤ depth y)
    (hbound : ∀ x, bound x ≤ depth x) :
    Foresees (fun x => skipValue const (depth x)) limit (· = someName) anything bound := by
  refine .spending (fun _ => skipValue const) (fun depth => ?_)
    (fun depth limit bound _ _ hinner => ?_) depth hlimit hbound
  · have hname : Foresees (fun _ : κ => expect .name >>= fun _ => pure ()) limit (· = someName)
        anything bound := (expect_name_foresees limit bound _).bind (.pure _ _ _ _)
    refine hname.samples.on fun x setting cursor hhere => skipValue_scalar ?_ (by simp)
    rw [hhere]
    rfl
  intro x setting cursor hfits hleft
  have hscalar (h : cursor.token.lexeme.kind ∈ [TokenKind.int, .float, .string, .name]) :
      Decided (fun x => skipValue const (depth x + 1)) limit (· = someName) anything x setting
        cursor := by
    have hinside : cursor.token.lexeme.kind ≠ .eof := fun heof => by simp [heof] at h
    have hone : Decides (fun _ : κ => expect cursor.token.lexeme.kind >>= fun _ => pure ()) limit
        (fun _ => False) anything bound :=
      (expect_decides _ hinside limit bound _).bind (.pure _ _ _ _)
    exact hone.on_strict (·.kind = cursor.token.lexeme.kind)
      (fun _ _ _ hother => skipValue_scalar hother h) hfits hleft rfl
  have hrefused (h : startsValue const cursor.token.lexeme = false) :
      Decided (fun x => skipValue const (depth x + 1)) limit (· = someName) anything x setting
        cursor :=
    .refuse (startsValue const · = false) .unexpectedToken (fun _ _ _ => skipValue_refused)
      (fun _ => rfl) h
  cases hlexeme : cursor.token.lexeme with
  | int | float | string | name => exact hscalar (by rw [hlexeme]; simp [Lexeme.kind])
  | sof | eof => exact hrefused (by rw [hlexeme]; rfl)
  | punctuator mark =>
    cases mark with
    | bracketL =>
      have hitem : Foresees (fun x => skipValue const (depth x)) (fun y => limit y - 1)
          (· = someName) (· = .punctuator .bracketR) fun x => bound x - 1 :=
        hinner.mono fun _ _ => trivial
      have hlist := skipItems_decides hitem (by simp [someName]) .bracketL anything
      exact hlist.on_strict (· = .punctuator .bracketL) (fun _ _ _ => skipValue_list) hfits hleft
        hlexeme
    | braceL =>
      have hentry : Foresees (fun x => skipEntry (skipValue const (depth x)))
          (fun y => limit y - 1) (· = someName) (· = .punctuator .braceR) fun x => bound x - 1 :=
        (expect_name_foresees _ _ _).bind ((mark_foresees .colon _ _ _).bind
          (hinner.after.after.mono fun _ _ => trivial))
      have hobject := skipItems_decides hentry (by simp [someName]) .braceL anything
      exact hobject.on_strict (· = .punctuator .braceL) (fun _ _ _ => skipValue_object) hfits hleft
        hlexeme
    | dollar =>
      cases hconst : const with
      | true => exact hconst ▸ hrefused (by rw [hlexeme, hconst]; rfl)
      | false =>
        have hvariable : Decides (fun _ : κ => expect (.punctuator .dollar) >>= fun _ =>
            expect .name >>= fun _ => pure ()) limit (fun _ => False) anything bound :=
          (expect_decides (.punctuator .dollar) (by simp) limit bound _).bind
            ((expect_name_foresees _ _ _).bind (.pure _ _ _ _))
        exact hvariable.on_strict (· = .punctuator .dollar)
          (fun _ _ _ hhere => skipValue_variable hhere rfl) hfits hleft hlexeme
    | _ => exact hrefused (by rw [hlexeme]; rfl)

theorem plainValue_foresees (const : Bool) (start : κ → Token) :
    Foresees (fun x => plainValue const (start x)) limit (· = someName) anything bound := by
  refine .budget (.bind (skipValue_foresees const Prod.snd (fun _ => Nat.min_le_right _ _)
    fun _ => Nat.min_le_right _ _) ?_)
  refine .bind (.look (fun _ _ _ => ⟨_, rfl⟩) _ _ _) ?_
  exact .bind (.look (fun _ _ _ => ⟨_, rfl⟩) _ _ _) (.spanned _ _ _ _ _)

/-- The string that a consumed token stands for. -/
def stringAt (token : Token) (value : Text) : Reader StringValue := do
  return ⟨← slice token.start token.stop, value, ← spanFrom token⟩

theorem stringAt_foresees (token : κ → Token) (value : κ → Text) :
    Foresees (fun x => stringAt (token x) (value x)) limit follow follow bound :=
  .bind (.look (fun _ _ _ => ⟨_, rfl⟩) _ _ _) (.spanned _ _ _ _ _)

theorem run_value_string {const : Bool} {decoded : Text}
    (h : cursor.token.lexeme = .string decoded) :
    (value const : Reader Value) setting cursor = (expect .string >>= fun token =>
      stringAt token decoded >>= fun string => pure (.string string)) setting cursor := by
  have hkind : cursor.token.lexeme.kind = .string := by rw [h]; rfl
  rw [← run_advance_bind hkind, value, run_current, h, ← bind_assoc]
  rfl

theorem run_value_plain {const : Bool} (h : cursor.token.lexeme.kind ≠ .string) :
    (value const : Reader Value) setting cursor =
      (current >>= plainValue const : Reader Value) setting cursor := by
  rw [value, run_current, run_current]
  cases hlexeme : cursor.token.lexeme with
  | string decoded => exact absurd (by rw [hlexeme]; rfl) h
  | _ => rfl

theorem value_foresees (const : Bool) :
    Foresees (fun _ => value const) limit (· = someName) anything bound := by
  have hplain : Foresees (fun _ : κ => current >>= plainValue const) limit (· = someName) anything
      bound := (current_foresees limit bound _).bind (plainValue_foresees const Prod.snd)
  constructor
  · refine hplain.samples.on fun _ _ cursor hhere => run_value_plain ?_
    simp [hhere, someName, Lexeme.kind]
  intro x setting cursor hfits hleft
  by_cases hkind : cursor.token.lexeme.kind = .string
  · obtain ⟨decoded, hdecoded⟩ : ∃ decoded, cursor.token.lexeme = .string decoded := by
      cases hlexeme : cursor.token.lexeme <;> simp_all [Lexeme.kind]
    have hstring : Decides (fun _ : κ => expect .string >>= fun token => stringAt token decoded >>=
        fun string => pure (Value.string string)) limit (fun _ => False) anything bound :=
      (expect_decides .string (by simp) limit bound _).bind
        ((stringAt_foresees _ _).bind (.pure _ _ _ _))
    exact hstring.on_strict (· = .string decoded) (fun _ _ _ => run_value_string) hfits hleft
      hdecoded
  · have hstrict := hplain.decides.strict .eof trivial (by simp [someName])
    exact hstrict.on_strict (·.kind ≠ .string) (fun _ _ _ => run_value_plain) hfits hleft hkind

/-! Arguments and directives -/

theorem argument_foresees (const : Bool) (follow : Lexeme → Prop) :
    Foresees (fun _ => argument const) limit (· = someName) follow bound :=
  (current_foresees limit bound _).bind ((name_foresees _ _ _).bind
    ((mark_foresees .colon _ _ _).bind (((value_foresees const).mono fun _ _ => trivial).bind
      (.spanned _ _ _ _ _))))

theorem arguments_foresees (const : Bool) (hfollow : ¬follow (.punctuator .parenL)) :
    Foresees (fun _ => arguments const) limit follow follow bound :=
  optionalMany_foresees (argument_foresees const _) (by simp [someName]) rfl (by simp [someName])
    hfollow

theorem directives_foresees (const : Bool) (hat : ¬follow (.punctuator .at))
    (hparen : ¬follow (.punctuator .parenL)) :
    Foresees (fun _ => directives const) limit follow follow bound := by
  have hnone := kind_beq_eq_false hat
  have hchooses (rounds : κ × Nat → Nat) := chooses_peek (.punctuator .at) fun x found =>
    if found then directive const >>= fun first => directivesWithin const (rounds x) >>=
      fun others => pure (first :: others) else pure []
  refine .budget (.spending (fun _ => directivesWithin const) (fun rounds => ?_)
    (fun rounds limit bound _ _ hinner => ?_) Prod.snd (fun _ => Nat.min_le_right _ _)
    fun _ => Nat.min_le_right _ _)
  · exact (hchooses rounds).samples_missing (Foresees.pure _ _ (fun _ => 0) follow).samples hnone
  · have hmore : Foresees (fun x => directive const >>= fun first =>
        directivesWithin const (rounds x) >>= fun others => pure (first :: others)) limit
        (· = .punctuator .at) follow bound := by
      simp only [directive, bind_assoc, pure_bind]
      refine (mark_foresees .at limit bound (· = someName)).bind_step rfl (by simp [someName]) ?_
      refine (name_foresees _ _ follow).bind ((arguments_foresees const hparen).bind ?_)
      refine .bind (.look (fun _ => spanFrom_looks _) _ _ _) (.bind ?_ (.pure _ _ _ _))
      exact hinner.after.after.after.after
    exact (hchooses rounds).decides hmore.decides (Foresees.pure _ _ _ follow).decides
      (fun _ => kind_beq_iff.mpr) hnone fun _ hlexeme _ => hlexeme

/-! Type references -/

section

variable {item : κ → Reader TypeExpr}

/-- The type behind an opening bracket, up to the closing one. -/
def listType (item : Reader TypeExpr) (start : Token) : Reader TypeExpr := do
  let item ← item
  let _ ← expect (.punctuator .bracketR)
  return .list item (← spanFrom start)

theorem chooses_listType (item : κ → Reader TypeExpr) :
    Chooses (fun lexeme => lexeme.kind == .punctuator .bracketL)
      (fun z : κ × Token => skip (.punctuator .bracketL) >>= fun found =>
        if found then listType (item z.1) z.2 else return TypeExpr.named (← typeName))
      (fun z => expect (.punctuator .bracketL) >>= fun _ => listType (item z.1) z.2)
      fun _ => return TypeExpr.named (← typeName) :=
  chooses_skip _ _

theorem namedType_foresees (limit bound : κ → Nat) (follow : Lexeme → Prop) :
    Foresees (fun _ => return TypeExpr.named (← typeName)) limit (· = someName) follow bound :=
  (typeName_foresees limit bound follow).bind (.pure _ _ _ _)

/-- A type name will do, whatever the items of a list may be. -/
theorem nullableType_samples (item : κ → Reader TypeExpr) (limit : κ → Nat)
    (follow : Lexeme → Prop) :
    Samples (fun x => nullableType (item x)) limit (· = someName) follow := by
  have hnamed := (chooses_listType item).samples_missing
    (namedType_foresees (fun z => limit z.1) (fun _ => 0) follow).samples
    (kind_someName .bracketL)
  exact ((current_foresees limit (fun _ => 0) _).bind hnamed.foresees).samples

theorem nullableType_foresees
    (hitem : Foresees item (fun y => limit y - 1) (· = someName) (· = .punctuator .bracketR)
      fun x => bound x - 1) (follow : Lexeme → Prop) :
    Foresees (fun x => nullableType (item x)) limit (· = someName) follow bound := by
  have hlist : Decides (fun z : κ × Token => expect (.punctuator .bracketL) >>= fun _ =>
      listType (item z.1) z.2) (fun z => limit z.1) (fun _ => False) follow fun z => bound z.1 := by
    refine (expect_decides (.punctuator .bracketL) (by simp) _ _ (· = someName)).bind_step rfl id ?_
    refine .bind hitem.after.after ?_
    exact (mark_foresees .bracketR _ _ _).bind (.spanned _ _ _ _ _)
  refine (current_foresees limit bound _).bind ⟨?_, ?_⟩
  · exact (chooses_listType item).samples_missing
      (namedType_foresees _ (fun _ => 0) follow).samples (kind_someName .bracketL)
  · exact (chooses_listType item).decides hlist (namedType_foresees _ _ follow).decides nofun
      (kind_someName .bracketL) fun _ _ hfirst => hfirst.elim False.elim id

end

/-- A mark behind a type makes it non-null. -/
theorem bang_foresees (start : κ → Token) (type : κ → TypeExpr)
    (hfollow : ¬follow (.punctuator .bang)) :
    Foresees (fun x => skip (.punctuator .bang) >>= fun found =>
      if found then spanFrom (start x) >>= fun loc => pure (TypeExpr.nonNull (type x) loc)
      else pure (type x)) limit follow follow bound :=
  (chooses_skip (.punctuator .bang) fun x found =>
    if found then spanFrom (start x) >>= fun loc => pure (TypeExpr.nonNull (type x) loc)
    else pure (type x)).optional
      ((mark_foresees .bang limit bound follow).bind (.spanned _ _ _ _ _)).decides
      (.pure _ _ _ _) (fun _ => kind_beq_iff.mpr) (kind_beq_eq_false hfollow)

theorem typeExpr_foresees (hfollow : ¬follow (.punctuator .bang)) :
    Foresees (fun _ => typeExpr) limit (· = someName) follow bound := by
  suffices h : Foresees (fun _ => typeExpr) limit (· = someName) (· ≠ .punctuator .bang) bound from
    h.mono fun next hnext hbang => hfollow (hbang ▸ hnext)
  refine .budget (.spending (fun _ => typeExprWithin) (fun depth => ?_)
    (fun depth limit bound _ _ hinner => ?_) Prod.snd (fun _ => Nat.min_le_right _ _)
    fun _ => Nat.min_le_right _ _)
  · exact ((current_foresees _ (fun _ => 0) _).bind
      ((nullableType_samples _ _ _).foresees.bind (bang_foresees _ _ (by simp)))).samples
  · have hitem : Foresees (fun z : (κ × Nat) × Token => typeExprWithin (depth z.1))
        (fun z => limit z.1 - 1) (· = someName) (· = .punctuator .bracketR)
        fun z => bound z.1 - 1 :=
      hinner.after.mono (by simp)
    exact ((current_foresees limit bound _).bind
      ((nullableType_foresees hitem _).bind (bang_foresees _ _ (by simp)))).decides

theorem defaultValue_foresees (hfollow : ¬follow (.punctuator .equals)) :
    Foresees (fun _ => defaultValue) limit follow follow bound :=
  (chooses_skip (.punctuator .equals) fun (_ : κ) found =>
    if found then value true >>= fun value => pure (some value) else pure none).optional
      ((mark_foresees .equals limit bound _).bind
        (((value_foresees true).mono fun _ _ => trivial).bind (.pure _ _ _ _))).decides
      (.pure _ _ _ _) (fun _ => kind_beq_iff.mpr) (kind_beq_eq_false hfollow)

/-! Selections -/

theorem isName_on : IsName "on" := ⟨'o', ['n'], rfl, rfl, rfl⟩

theorem fieldName_foresees (hfollow : ¬follow (.punctuator .colon)) :
    Foresees (fun _ => fieldName) limit (· = someName) follow bound :=
  (name_foresees limit bound follow).bind ((chooses_skip (.punctuator .colon)
    fun (z : κ × Name) found => if found then name >>= fun name => pure (some z.2, name)
      else pure (none, z.2)).optional
        ((mark_foresees .colon _ _ _).bind ((name_foresees _ _ _).bind (.pure _ _ _ _))).decides
        (.pure _ _ _ _) (fun _ => kind_beq_iff.mpr) (kind_beq_eq_false hfollow))

/-- The parts of a selection are told apart from what follows it. -/
structure EndsSelection (follow : Lexeme → Prop) : Prop where
  colon : ¬follow (.punctuator .colon)
  paren : ¬follow (.punctuator .parenL)
  sign : ¬follow (.punctuator .at)
  brace : ¬follow (.punctuator .braceL)

section

variable {set : κ → Reader SelectionSet}

theorem field_foresees (hset : Decides set limit (· = .punctuator .braceL) follow bound)
    (hfollow : EndsSelection follow) :
    Foresees (fun x => field (set x)) limit (· = someName) follow bound := by
  have hnested : Foresees (fun x => optionalItem (.punctuator .braceL) (set x)) limit follow follow
      bound := by
    refine optionalItem_foresees hset (fun lexeme hlexeme => by rw [hlexeme]; rfl) ?_
    exact fun lexeme hlexeme hkind => hfollow.brace (Lexeme.eq_of_kind hkind ▸ hlexeme)
  refine (current_foresees limit bound _).bind ((fieldName_foresees hfollow.colon).bind ?_)
  refine (arguments_foresees false hfollow.paren).bind
    ((directives_foresees false hfollow.sign hfollow.paren).bind ?_)
  exact .bind (hnested.after.after.after.after) (.spanned _ _ _ _ _)

/-- A token that would be taken for the keyword of a type condition. -/
def readsOn (lexeme : Lexeme) : Bool := lexeme.value? == some (Text.ofString "on")

theorem chooses_fragmentName :
    Chooses readsOn (fun _ : κ => fragmentName) (fun _ => current >>= unexpected)
      fun _ => name where
  found _ setting cursor h := by
    have hvalue : (cursor.token.lexeme.value? == some (Text.ofString "on")) = true := h
    rw [fragmentName, run_current, run_current, if_pos hvalue]
  missing _ setting cursor h := by
    rw [fragmentName, run_current, if_neg (by simpa [readsOn] using h)]

theorem fragmentName_decides (limit bound : κ → Nat) (follow : Lexeme → Prop) :
    Decides (fun _ => fragmentName) limit (fun _ => False) follow bound := by
  intro x setting cursor hfits hleft
  cases hon : readsOn cursor.token.lexeme with
  | true =>
    exact .refuse (readsOn · = true) .unexpectedToken chooses_fragmentName.found (fun _ => rfl) hon
  | false =>
    exact (name_decides limit bound follow).on_strict (readsOn · = false)
      chooses_fragmentName.missing hfits hleft hon

theorem fragmentName_foresees (limit bound : κ → Nat) (follow : Lexeme → Prop) :
    Foresees (fun _ => fragmentName) limit (· = someName) follow bound where
  samples := chooses_fragmentName.samples_missing (name_foresees limit bound follow).samples
    (by rintro _ rfl; decide)
  decides := (fragmentName_decides limit bound follow).weaken

/-- A fragment that is named, behind the dots. -/
def spreadFrom (start : Token) : Reader Selection := do
  let name ← fragmentName
  let directives ← directives false
  return .spread name directives (← spanFrom start)

/-- A fragment that stands in place, behind its condition. -/
def inlineFrom (set : Reader SelectionSet) (start : Token) (condition : Option TypeName) :
    Reader Selection := do
  let directives ← directives false
  let selectionSet ← set
  return .inline condition directives selectionSet (← spanFrom start)

/-- What stands behind the dots of a fragment and the keyword of its condition. -/
def fragmentFrom (set : Reader SelectionSet) (start : Token) (conditioned : Bool) :
    Reader Selection := do
  if !conditioned && (← peek .name) then spreadFrom start
  else inlineFrom set start (← typeCondition conditioned)

theorem spreadFrom_foresees (start : κ → Token) (hat : ¬follow (.punctuator .at))
    (hparen : ¬follow (.punctuator .parenL)) :
    Foresees (fun x => spreadFrom (start x)) limit (· = someName) follow bound :=
  (fragmentName_foresees limit bound follow).bind
    ((directives_foresees false hat hparen).bind (.spanned _ _ _ _ _))

section

variable (hset : Foresees set limit (· = .punctuator .braceL) follow bound)
include hset

theorem inlineFrom_foresees (start : κ → Token) (condition : κ → Option TypeName) :
    Foresees (fun x => inlineFrom (set x) (start x) (condition x)) limit (· = .punctuator .braceL)
      follow bound :=
  (directives_foresees false (by simp) (by simp)).bind (hset.after.bind (.spanned _ _ _ _ _))

theorem fragmentFrom_foresees (start : κ → Token) (hat : ¬follow (.punctuator .at))
    (hparen : ¬follow (.punctuator .parenL)) :
    Foresees (fun x => fragmentFrom (set x) (start x) false) limit
      (fun next => next = someName ∨ next = .punctuator .braceL) follow bound := by
  have hnamed : Foresees (fun x => spreadFrom (start x)) limit (· = someName) follow bound :=
    spreadFrom_foresees start hat hparen
  have hinline : Foresees (fun x => typeCondition false >>= inlineFrom (set x) (start x)) limit
      (· = .punctuator .braceL) follow bound :=
    .bind (.look (fun _ _ _ => ⟨none, rfl⟩) _ _ _) (inlineFrom_foresees hset.after _ _)
  have hchooses := chooses_peek .name fun x found =>
    if !false && found then spreadFrom (start x)
    else typeCondition false >>= inlineFrom (set x) (start x)
  have hfound (lexeme : Lexeme) (h : lexeme = someName) : (lexeme.kind == .name) = true := by
    rw [h]
    rfl
  have hmissing (lexeme : Lexeme) (h : lexeme = .punctuator .braceL) :
      (lexeme.kind == .name) = false := by
    rw [h]
    rfl
  constructor
  · exact (hchooses.samples_found hnamed.samples hfound).weaken fun _ => .inl
  · exact hchooses.decides hnamed.decides hinline.decides hfound hmissing fun _ _ => id

theorem fragment_foresees (hat : ¬follow (.punctuator .at))
    (hparen : ¬follow (.punctuator .parenL)) :
    Foresees (fun x => fragment (set x)) limit (· = .punctuator .spread) follow bound := by
  have hfree : Foresees (fun z : κ × Token => fragmentFrom (set z.1) z.2 false)
      (fun z => limit z.1) (fun next => next = someName ∨ next = .punctuator .braceL) follow
      fun z => bound z.1 := fragmentFrom_foresees hset.after Prod.snd hat hparen
  have hcondition : Foresees (fun z : κ × Token => expectKeyword "on" >>= fun _ =>
      fragmentFrom (set z.1) z.2 true) (fun z => limit z.1) (· = .name "on") follow
      fun z => bound z.1 := by
    refine (keyword_foresees isName_on _ _ (· = someName)).bind ?_
    refine .bind (.look (fun _ _ cursor => ⟨cursor.token.kind == .name, rfl⟩) _ _ _) ?_
    refine .bind ((typeName_foresees _ _ (· = .punctuator .braceL)).bind (.pure _ _ _ _)) ?_
    exact inlineFrom_foresees hset.after.after.after.after _ _
  have hchooses := chooses_skipKeyword "on" fun (z : κ × Token) conditioned =>
    fragmentFrom (set z.1) z.2 conditioned
  have hmissing (lexeme : Lexeme) (h : lexeme = someName ∨ lexeme = .punctuator .braceL) :
      (lexeme == .name "on") = false := by
    rcases h with rfl | rfl <;> decide
  refine (mark_foresees .spread limit bound fun next =>
    next = .name "on" ∨ next = someName ∨ next = .punctuator .braceL).bind ⟨?_, ?_⟩
  · exact (hchooses.samples_missing hfree.samples hmissing).weaken fun _ => .inr
  · exact hchooses.decides hcondition.decides hfree.decides (fun _ => beq_iff_eq.mpr) hmissing
      fun _ _ => id

end

theorem chooses_selection (set : κ → Reader SelectionSet) :
    Chooses (fun lexeme => lexeme.kind == .punctuator .spread) (fun x => selection (set x))
      (fun x => fragment (set x)) fun x => field (set x) :=
  chooses_peek (.punctuator .spread) fun x found =>
    if found then fragment (set x) else field (set x)

/-- A field will do, whatever the selections below it may be. -/
theorem selection_samples (set : κ → Reader SelectionSet) (limit : κ → Nat)
    (hfollow : EndsSelection follow) :
    Samples (fun x => selection (set x)) limit (· = someName) follow := by
  have hset : Decides set limit (· = .punctuator .braceL) follow fun _ => 0 :=
    fun _ _ _ _ hleft => absurd hleft (Nat.not_lt_zero _)
  exact (chooses_selection set).samples_missing (field_foresees hset hfollow).samples
    (kind_someName .spread)

theorem selection_foresees (hset : Foresees set limit (· = .punctuator .braceL) follow bound)
    (hfollow : EndsSelection follow) :
    Foresees (fun x => selection (set x)) limit
      (fun next => next = .punctuator .spread ∨ next = someName) follow bound where
  samples := (selection_samples set limit hfollow).weaken fun _ => .inr
  decides := (chooses_selection set).decides
    (fragment_foresees hset hfollow.sign hfollow.paren).decides
    (field_foresees hset.decides hfollow).decides (fun _ => kind_beq_iff.mpr)
    (kind_someName .spread) fun _ _ => id

end

theorem endsSelection_braceR : EndsSelection (· = .punctuator .braceR) where
  colon := by simp
  paren := by simp
  sign := by simp
  brace := by simp

theorem selectionSet_foresees :
    Foresees (fun _ => selectionSet) limit (· = .punctuator .braceL) anything bound := by
  refine .budget (.spending (fun _ => selectionSetWithin) (fun depth => ?_)
    (fun depth limit bound _ _ hinner => ?_) Prod.snd (fun _ => Nat.min_le_right _ _)
    fun _ => Nat.min_le_right _ _)
  · have hitem : Foresees (fun z : (κ × Nat) × Token => selection (selectionSetWithin (depth z.1)))
        (fun z => min (limit z.1.1) z.1.2 - 1) (· = someName) (· = .punctuator .braceR)
        fun _ => 0 - 1 := (selection_samples _ _ endsSelection_braceR).foresees
    exact ((current_foresees _ (fun _ => 0) _).bind
      ((many_foresees hitem (by simp [someName]) rfl (by simp [someName]) _).bind
        (.spanned _ _ _ _ _))).samples
  · have hset : Foresees (fun z : (κ × Nat) × Token => selectionSetWithin (depth z.1))
        (fun z => limit z.1 - 1) (· = .punctuator .braceL) (· = .punctuator .braceR)
        fun z => bound z.1 - 1 :=
      hinner.after.mono fun _ _ => trivial
    have hitem := selection_foresees hset endsSelection_braceR
    exact ((current_foresees limit bound _).bind
      ((many_foresees hitem (by simp [someName]) (.inr rfl) (by simp [someName]) _).bind
        (.spanned _ _ _ _ _))).decides

end Grammar

end QueryLint
