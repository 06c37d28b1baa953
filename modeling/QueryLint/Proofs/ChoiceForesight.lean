import QueryLint.Proofs.Foresight

/-!
Single tokens, choices and repetition. A choice looks at the current token, and each branch must
start only with tokens that lead to it. A list of items is decided if no item starts with the token
that closes it.
-/

namespace QueryLint

namespace Reader

open Reading

variable {κ α β : Type}

section

variable {p q yes no : κ → Reader α} {bound limit : κ → Nat}
  {first firstYes firstNo follow : Lexeme → Prop} {x : κ} {setting : Setting} {cursor : Cursor}

/-- A reader that fails at certain tokens if it finds them in front of it. -/
theorem Decided.refuse (on : Lexeme → Prop) (fault : Lexeme → SyntaxFault)
    (hrefuse : ∀ y setting cursor, on cursor.token.lexeme →
      p y setting cursor = .error ⟨cursor.token.start, fault cursor.token.lexeme⟩)
    (hfound : ∀ lexeme, (fault lexeme).found? = some lexeme) (hon : on cursor.token.lexeme) :
    Decided p limit first follow x setting cursor := by
  have hrefused := hrefuse x setting cursor hon
  constructor
  · intro result last hrun
    rw [hrefused] at hrun
    cases hrun
  · intro error hrun
    obtain rfl : ⟨cursor.token.start, fault cursor.token.lexeme⟩ = error := by
      rw [hrefused] at hrun
      cases hrun
      rfl
    refine .inr ⟨[], cursor, false, .stay, rfl, hfound _, nofun, ?_, fun hne => absurd rfl hne⟩
    intro y other place hfits _ rest hahead
    have hplace := hfits.lexeme_eq hahead
    refine ⟨nofun, fun _ => ⟨[], place, .stay, rfl, ?_⟩⟩
    rw [hrefuse y other place (by rwa [hplace]), hplace]

/-- The readers agree with decided ones on what those may start with. -/
theorem Decides.on (hq : Decides q limit first follow bound) (on : Lexeme → Prop)
    (hsame : ∀ y setting cursor, on cursor.token.lexeme →
      p y setting cursor = q y setting cursor)
    (hfirst : ∀ next, first next → on next) (hfits : setting.Fits cursor)
    (hleft : cursor.left.length < bound x) (hon : on cursor.token.lexeme) :
    Decided p limit first follow x setting cursor :=
  (hq x setting cursor hfits hleft).congr on (fun y setting cursor _ => hsame y setting cursor)
    (hsame x setting cursor hon) hon hfirst

/-- The same for a reader that always consumes a token. -/
theorem Decides.on_strict (hq : Decides q limit (fun _ => False) follow bound)
    (on : Lexeme → Prop)
    (hsame : ∀ y setting cursor, on cursor.token.lexeme →
      p y setting cursor = q y setting cursor)
    (hfits : setting.Fits cursor) (hleft : cursor.left.length < bound x)
    (hon : on cursor.token.lexeme) : Decided p limit first follow x setting cursor :=
  (hq.on on hsame (fun _ => False.elim) hfits hleft hon).weaken fun _ _ => False.elim

/-- If something that may follow cannot be first, a token is consumed. -/
theorem Decides.strict (h : Decides p limit first follow bound) (next : Lexeme)
    (hfollow : follow next) (hfirst : ¬first next) :
    Decides p limit (fun _ => False) follow bound := by
  intro x setting cursor hfits hleft
  obtain ⟨honward, hrefusal⟩ := h x setting cursor hfits hleft
  refine ⟨fun result last hrun => ?_, hrefusal⟩
  obtain ⟨tokens, hmoves, hidle, hpasses⟩ := honward result last hrun
  exact ⟨tokens, hmoves, fun hnil => absurd (hidle hnil next hfollow) hfirst, hpasses⟩

/-! Single tokens -/

theorem run_bind_congr {p q : Reader α} {setting : Setting} {cursor : Cursor}
    (h : p setting cursor = q setting cursor) (k : α → Reader β) :
    (p >>= k) setting cursor = (q >>= k) setting cursor := by
  change (p setting cursor >>= fun r => k r.1 setting r.2) =
    (q setting cursor >>= fun r => k r.1 setting r.2)
  rw [h]

theorem run_expect {kind : TokenKind} (h : cursor.token.lexeme.kind = kind) :
    (expect kind : Reader Token) setting cursor =
      (Reader.advance >>= fun _ => pure cursor.token) setting cursor := by
  change (if cursor.token.lexeme.kind == kind then _ else _ : Reader Token) setting cursor = _
  rw [if_pos (beq_iff_eq.mpr h)]
  rfl

theorem run_expect_missing {kind : TokenKind} (h : cursor.token.lexeme.kind ≠ kind) :
    (expect kind : Reader Token) setting cursor =
      .error ⟨cursor.token.start, .expectedToken kind cursor.token.lexeme⟩ := by
  change (if cursor.token.lexeme.kind == kind then _ else _ : Reader Token) setting cursor = _
  rw [if_neg (by simpa using h)]
  rfl

theorem run_skip {kind : TokenKind} (h : cursor.token.lexeme.kind = kind) :
    (skip kind : Reader Bool) setting cursor =
      (expect kind >>= fun _ => pure true : Reader Bool) setting cursor := by
  change (if cursor.token.lexeme.kind == kind then _ else _ : Reader Bool) setting cursor = _
  rw [if_pos (beq_iff_eq.mpr h), run_bind_congr (run_expect h), bind_assoc]
  rfl

theorem run_skip_missing {kind : TokenKind} (h : cursor.token.lexeme.kind ≠ kind) :
    (skip kind : Reader Bool) setting cursor = .ok (false, cursor) := by
  change (if cursor.token.lexeme.kind == kind then _ else _ : Reader Bool) setting cursor = _
  rw [if_neg (by simpa using h)]
  rfl

theorem Passes.expect {lexeme : Lexeme} {kind : TokenKind} (hkind : lexeme.kind = kind)
    (limit : Nat) (next : Lexeme → Prop) : Passes (Reading.expect kind) limit [lexeme] next := by
  intro setting cursor hfits _ following rest hahead _
  have hlexeme := hfits.lexeme_eq hahead
  obtain ⟨hinside, later, hlater⟩ := hfits.advance_ok hahead
  refine ⟨cursor.token, later, [cursor.token], ?_, .step hinside hlater .stay, by simp [hlexeme]⟩
  rw [run_expect (by rw [hlexeme, hkind]), run_bind hlater]
  rfl

theorem expect_decides (kind : TokenKind) (hkind : kind ≠ .eof) (limit bound : κ → Nat)
    (follow : Lexeme → Prop) :
    Decides (fun _ => expect kind) limit (fun _ => False) follow bound := by
  intro x setting cursor hfits hleft
  by_cases hhere : cursor.token.lexeme.kind = kind
  · have hinside : cursor.token.lexeme ≠ .eof := by
      intro hend
      rw [hend] at hhere
      exact hkind hhere.symm
    have hrun : (expect kind : Reader Token) setting cursor = _ := run_expect hhere
    constructor
    · intro result last hok
      rw [hrun] at hok
      obtain ⟨_, later, hadvance, hpure⟩ := bind_eq_ok hok
      cases hpure
      exact ⟨[cursor.token], .step hinside hadvance .stay, nofun, fun y => .expect hhere _ _⟩
    · intro error herror
      rw [hrun] at herror
      rcases bind_eq_error herror with hadvance | ⟨_, later, _, hpure⟩
      · exact .inl (Setting.ending_of_advance hadvance)
      · cases hpure
  · exact .refuse (·.kind ≠ kind) (.expectedToken kind) (fun _ _ _ => run_expect_missing)
      (fun _ => rfl) hhere

theorem expect_foresees {lexeme : Lexeme} (hwritable : Writable [lexeme]) (hinside : lexeme ≠ .eof)
    (limit bound : κ → Nat) (follow : Lexeme → Prop) :
    Foresees (fun _ => expect lexeme.kind) limit (· = lexeme) follow bound where
  samples := ⟨[lexeme], hwritable, fun _ _ => rfl, fun _ => .expect rfl _ _⟩
  decides := by
    have hkind : lexeme.kind ≠ .eof := by cases lexeme <;> simp_all [Lexeme.kind]
    exact (expect_decides lexeme.kind hkind limit bound follow).weaken

/-! Choices -/

/-- The current token decides between two readers. -/
structure Chooses (test : Lexeme → Bool) (p yes no : κ → Reader α) : Prop where
  found : ∀ y setting cursor, test cursor.token.lexeme = true →
    p y setting cursor = yes y setting cursor
  missing : ∀ y setting cursor, test cursor.token.lexeme = false →
    p y setting cursor = no y setting cursor

theorem chooses_peek (kind : TokenKind) (k : κ → Bool → Reader β) :
    Chooses (fun lexeme => lexeme.kind == kind) (fun y => peek kind >>= k y) (fun y => k y true)
      fun y => k y false where
  found y setting cursor hkind := by
    change k y (cursor.token.lexeme.kind == kind) setting cursor = _
    rw [hkind]
  missing y setting cursor hkind := by
    change k y (cursor.token.lexeme.kind == kind) setting cursor = _
    rw [hkind]

theorem chooses_skip (kind : TokenKind) (k : κ → Bool → Reader β) :
    Chooses (fun lexeme => lexeme.kind == kind) (fun y => skip kind >>= k y)
      (fun y => expect kind >>= fun _ => k y true) fun y => k y false where
  found y setting cursor hkind := by
    rw [run_bind_congr (run_skip (beq_iff_eq.mp hkind)), bind_assoc]
    rfl
  missing y setting cursor hkind := run_bind (run_skip_missing (beq_eq_false_iff_ne.mp hkind))

section

variable {test : Lexeme → Bool} (hp : Chooses test p yes no)
include hp

theorem Chooses.samples_found (hyes : Samples yes limit first follow)
    (htest : ∀ lexeme, first lexeme → test lexeme = true) : Samples p limit first follow :=
  hyes.on fun y setting cursor hfirst => hp.found y setting cursor (htest _ hfirst)

theorem Chooses.samples_missing (hno : Samples no limit first follow)
    (htest : ∀ lexeme, first lexeme → test lexeme = false) : Samples p limit first follow :=
  hno.on fun y setting cursor hfirst => hp.missing y setting cursor (htest _ hfirst)

/-- Each branch is decided, and starts with tokens that lead to it. -/
theorem Chooses.decides (hyes : Decides yes limit firstYes follow bound)
    (hno : Decides no limit firstNo follow bound)
    (hfound : ∀ lexeme, firstYes lexeme → test lexeme = true)
    (hmissing : ∀ lexeme, firstNo lexeme → test lexeme = false)
    (hfirst : ∀ lexeme, follow lexeme → firstYes lexeme ∨ firstNo lexeme → first lexeme) :
    Decides p limit first follow bound := by
  intro x setting cursor hfits hleft
  cases htest : test cursor.token.lexeme with
  | true =>
    exact (hyes.on (fun lexeme => test lexeme = true) hp.found hfound hfits hleft htest).weaken
      fun next hnext hyes => hfirst next hnext (.inl hyes)
  | false =>
    exact (hno.on (fun lexeme => test lexeme = false) hp.missing hmissing hfits hleft htest).weaken
      fun next hnext hno => hfirst next hnext (.inr hno)

/-- A part that is left out unless the current token leads to it. -/
theorem Chooses.optional (hyes : Decides yes limit firstYes follow bound)
    (hno : Foresees no limit follow follow bound)
    (hfound : ∀ lexeme, firstYes lexeme → test lexeme = true)
    (hfollow : ∀ lexeme, follow lexeme → test lexeme = false) :
    Foresees p limit follow follow bound where
  samples := hp.samples_missing hno.samples hfollow
  decides := hp.decides hyes hno.decides hfound hfollow fun _ hlexeme _ => hlexeme

end

theorem mark_foresees (mark : Punctuator) (limit bound : κ → Nat) (follow : Lexeme → Prop) :
    Foresees (fun _ => expect (.punctuator mark)) limit (· = .punctuator mark) follow bound :=
  expect_foresees (writable_mark mark) (by simp) limit bound follow

/-- The name that stands for all names where one has to be supplied. -/
def someName : Lexeme := .name "a"

theorem isName_some : IsName "a" := ⟨'a', [], rfl, rfl, rfl⟩

theorem expect_name_foresees (limit bound : κ → Nat) (follow : Lexeme → Prop) :
    Foresees (fun _ => expect .name) limit (· = someName) follow bound :=
  expect_foresees (writable_name isName_some) (by simp) limit bound follow

/-! Keywords -/

theorem run_skipKeyword {keyword : String} (h : cursor.token.lexeme = .name keyword) :
    (skipKeyword keyword : Reader Bool) setting cursor =
      (expect .name >>= fun _ => pure true : Reader Bool) setting cursor := by
  have hkind : cursor.token.lexeme.kind = .name := by rw [h]; rfl
  change (if cursor.token.lexeme == .name keyword then _ else _ : Reader Bool) setting cursor = _
  rw [if_pos (beq_iff_eq.mpr h), run_bind_congr (run_expect hkind), bind_assoc]
  rfl

theorem run_skipKeyword_missing {keyword : String} (h : cursor.token.lexeme ≠ .name keyword) :
    (skipKeyword keyword : Reader Bool) setting cursor = .ok (false, cursor) := by
  change (if cursor.token.lexeme == .name keyword then _ else _ : Reader Bool) setting cursor = _
  rw [if_neg (by simpa using h)]
  rfl

theorem run_expectKeyword {keyword : String} (h : cursor.token.lexeme = .name keyword) :
    (expectKeyword keyword : Reader Unit) setting cursor =
      (expect .name >>= fun _ => pure () : Reader Unit) setting cursor := by
  unfold expectKeyword
  rw [run_bind_congr (run_skipKeyword h), bind_assoc]
  rfl

theorem run_expectKeyword_missing {keyword : String} (h : cursor.token.lexeme ≠ .name keyword) :
    (expectKeyword keyword : Reader Unit) setting cursor =
      .error ⟨cursor.token.start, .expectedKeyword keyword cursor.token.lexeme⟩ := by
  unfold expectKeyword
  rw [run_bind (run_skipKeyword_missing h)]
  rfl

theorem keyword_foresees {keyword : String} (hname : IsName keyword) (limit bound : κ → Nat)
    (follow : Lexeme → Prop) :
    Foresees (fun _ => expectKeyword keyword) limit (· = .name keyword) follow bound := by
  have hexpect : Foresees (fun _ : κ => expect .name >>= fun _ => pure ()) limit
      (· = .name keyword) follow bound :=
    (expect_foresees (writable_name hname) (by simp) limit bound follow).bind (.pure _ _ _ _)
  refine ⟨hexpect.samples.on fun _ _ _ => run_expectKeyword, ?_⟩
  · intro x setting cursor hfits hleft
    by_cases hhere : cursor.token.lexeme = .name keyword
    · exact hexpect.decides.on (· = .name keyword) (fun _ _ _ => run_expectKeyword)
        (fun _ => id) hfits hleft hhere
    · exact .refuse (· ≠ .name keyword) (.expectedKeyword keyword)
        (fun _ _ _ => run_expectKeyword_missing) (fun _ => rfl) hhere

theorem chooses_skipKeyword (keyword : String) (k : κ → Bool → Reader β) :
    Chooses (fun lexeme => lexeme == .name keyword) (fun y => skipKeyword keyword >>= k y)
      (fun y => expectKeyword keyword >>= fun _ => k y true) fun y => k y false where
  found y setting cursor hkeyword := by
    have hhere := beq_iff_eq.mp hkeyword
    rw [run_bind_congr (run_skipKeyword hhere), run_bind_congr (run_expectKeyword hhere),
      bind_assoc, bind_assoc]
    rfl
  missing y setting cursor hkeyword :=
    run_bind (run_skipKeyword_missing (beq_eq_false_iff_ne.mp hkeyword))

end

/-! Optional parts and repetition -/

section

variable {item : κ → Reader α} {limit bound : κ → Nat} {first follow : Lexeme → Prop}

theorem kind_beq_iff {lexeme : Lexeme} {mark : Punctuator} :
    (lexeme.kind == .punctuator mark) = true ↔ lexeme = .punctuator mark := by
  rw [beq_iff_eq]
  exact ⟨Lexeme.eq_of_kind, fun h => by rw [h]; rfl⟩

theorem kind_beq_eq_false {mark : Punctuator} (h : ¬follow (.punctuator mark)) (lexeme : Lexeme)
    (hlexeme : follow lexeme) : (lexeme.kind == .punctuator mark) = false := by
  rw [Bool.eq_false_iff, Ne, kind_beq_iff]
  rintro rfl
  exact h hlexeme

theorem kind_someName (mark : Punctuator) (lexeme : Lexeme) (h : lexeme = someName) :
    (lexeme.kind == .punctuator mark) = false := by
  rw [h]
  rfl

theorem optionalItem_foresees (hitem : Decides item limit first follow bound) {kind : TokenKind}
    (hkind : ∀ lexeme, first lexeme → lexeme.kind = kind)
    (hfollow : ∀ lexeme, follow lexeme → lexeme.kind ≠ kind) :
    Foresees (fun x => optionalItem kind (item x)) limit follow follow bound := by
  have hyes : Decides (fun x => item x >>= fun a => pure (some a)) limit first follow bound :=
    hitem.bind (.pure _ _ _ _)
  exact (chooses_peek kind fun x found =>
    if found then item x >>= fun a => pure (some a) else pure none).optional hyes (.pure _ _ _ _)
      (fun lexeme hlexeme => beq_iff_eq.mpr (hkind lexeme hlexeme))
      fun lexeme hlexeme => beq_eq_false_iff_ne.mpr (hfollow lexeme hlexeme)

section

variable {closing : Punctuator}

/-- A round of a loop either closes it or reads another item. -/
theorem chooses_itemsUntil (item : κ → Reader α) (closing : Punctuator) (rounds : κ → Nat) :
    Chooses (fun lexeme => lexeme.kind == .punctuator closing)
      (fun x => itemsUntil (.punctuator closing) (item x) (rounds x + 1))
      (fun _ => expect (.punctuator closing) >>= fun _ => pure [])
      fun x => item x >>= fun first =>
        itemsUntil (.punctuator closing) (item x) (rounds x) >>= fun others =>
          pure (first :: others) :=
  chooses_skip (.punctuator closing) fun x found => if found then pure [] else
    item x >>= fun first => itemsUntil (.punctuator closing) (item x) (rounds x) >>= fun others =>
      pure (first :: others)

theorem close_foresees (closing : Punctuator) (limit bound : κ → Nat) (follow : Lexeme → Prop) :
    Foresees (fun _ => expect (.punctuator closing) >>= fun _ => (pure [] : Reader (List α))) limit
      (· = .punctuator closing) follow bound :=
  (mark_foresees closing limit bound follow).bind (.pure _ _ _ _)

/-- Items up to a closing token with which no item starts. -/
theorem itemsUntil_foresees (hitem : Foresees item limit first (· = .punctuator closing) bound)
    (hclosing : ¬first (.punctuator closing)) (follow : Lexeme → Prop) (rounds : κ → Nat)
    (hlimit : ∀ y, limit y ≤ rounds y) (hbound : ∀ x, bound x ≤ rounds x) :
    Foresees (fun x => itemsUntil (.punctuator closing) (item x) (rounds x)) limit
      (· = .punctuator closing) follow bound := by
  refine Foresees.spending (fun x => itemsUntil (.punctuator closing) (item x)) (fun rounds => ?_)
    (fun rounds limit' bound' hlimit' hbound' hinner => ?_) rounds hlimit hbound
  · exact (chooses_itemsUntil item closing rounds).samples_found
      (close_foresees closing limit bound follow).samples fun _ => kind_beq_iff.mpr
  · have hstrict := (hitem.anti hlimit' hbound').decides.strict _ rfl hclosing
    have hmore : Decides (fun x => item x >>= fun first =>
        itemsUntil (.punctuator closing) (item x) (rounds x) >>= fun others =>
          pure (first :: others)) limit' (fun _ => False) follow bound' :=
      hstrict.bind_step rfl id (hinner.after.bind (.pure _ _ _ _))
    exact (chooses_itemsUntil item closing rounds).decides
      (close_foresees closing limit' bound' follow).decides hmore (fun _ => kind_beq_iff.mpr) nofun
      fun _ _ hfirst => hfirst.elim id False.elim

/-- At least one item between an opening and a closing token. -/
theorem many_foresees {opening : Punctuator} {head : Lexeme}
    (hitem : Foresees item (fun y => limit y - 1) first (· = .punctuator closing)
      fun x => bound x - 1)
    (hclosing : ¬first (.punctuator closing)) (hhead : first head)
    (hopening : head ≠ .punctuator opening) (follow : Lexeme → Prop) :
    Foresees (fun x => many (.punctuator opening) (item x) (.punctuator closing)) limit
      (· = .punctuator opening) follow bound := by
  refine (mark_foresees opening limit bound first).bind_step hhead hopening ?_
  refine hitem.after.bind (.budget ?_)
  refine Foresees.bind (itemsUntil_foresees ?_ hclosing follow Prod.snd
    (fun _ => Nat.min_le_right _ _) fun _ => Nat.min_le_right _ _) (.pure _ _ _ _)
  exact hitem.after.after.after.anti
    (fun _ => Nat.min_le_left _ _) fun _ => Nat.min_le_left _ _

end

theorem optionalMany_foresees {opening closing : Punctuator} {head : Lexeme}
    (hitem : Foresees item (fun y => limit y - 1) first (· = .punctuator closing)
      fun x => bound x - 1)
    (hclosing : ¬first (.punctuator closing)) (hhead : first head)
    (hopening : head ≠ .punctuator opening) (hfollow : ¬follow (.punctuator opening)) :
    Foresees (fun x => optionalMany (.punctuator opening) (item x) (.punctuator closing)) limit
      follow follow bound :=
  (chooses_peek (.punctuator opening) fun x found =>
    if found then many (.punctuator opening) (item x) (.punctuator closing) else pure []).optional
      (many_foresees hitem hclosing hhead hopening follow).decides (.pure _ _ _ _)
      (fun _ => kind_beq_iff.mpr) (kind_beq_eq_false hfollow)

/-- Items that each follow a delimiter. -/
theorem itemsAfter_foresees {delimiter : Punctuator} {head : Lexeme}
    (hitem : Foresees item limit first follow bound) (hhead : first head)
    (hdelimiter : head ≠ .punctuator delimiter) (hfollow : ¬follow (.punctuator delimiter))
    (rounds : κ → Nat) (hlimit : ∀ y, limit y ≤ rounds y) (hbound : ∀ x, bound x ≤ rounds x) :
    Foresees (fun x => itemsAfter (.punctuator delimiter) (item x) (rounds x)) limit follow follow
      bound := by
  have hchooses (rounds : κ → Nat) := chooses_skip (.punctuator delimiter) fun x found =>
    if found then item x >>= fun first =>
      itemsAfter (.punctuator delimiter) (item x) (rounds x) >>= fun others =>
        pure (first :: others)
    else pure []
  have hnone := kind_beq_eq_false hfollow
  refine Foresees.spending (fun x => itemsAfter (.punctuator delimiter) (item x)) (fun rounds => ?_)
    (fun rounds limit' bound' hlimit' hbound' hinner => ?_) rounds hlimit hbound
  · exact (hchooses rounds).samples_missing (Foresees.pure _ limit bound follow).samples hnone
  · have hless := hitem.anti (fun y => Nat.le_trans (Nat.sub_le _ 1) (hlimit' y))
      fun x => Nat.le_trans (Nat.sub_le _ 1) (hbound' x)
    have hmore : Foresees (fun x => expect (.punctuator delimiter) >>= fun _ =>
        item x >>= fun first => itemsAfter (.punctuator delimiter) (item x) (rounds x) >>=
          fun others => pure (first :: others)) limit' (· = .punctuator delimiter) follow bound' :=
      (mark_foresees delimiter limit' bound' first).bind_step hhead hdelimiter
        (hless.after.bind (hinner.after.after.bind
          (.pure _ _ _ _)))
    exact (hchooses rounds).decides hmore.decides (Foresees.pure _ _ _ _).decides
      (fun _ => kind_beq_iff.mpr) hnone fun _ hlexeme _ => hlexeme

/-- At least one item, with delimiters between them and perhaps one in front. -/
theorem delimited_foresees {delimiter : Punctuator} {head : Lexeme}
    (hitem : Foresees item limit first follow bound) (hfirst : ¬first (.punctuator delimiter))
    (hhead : first head) (hfollow : ¬follow (.punctuator delimiter)) :
    Foresees (fun x => delimited (.punctuator delimiter) (item x)) limit
      (fun next => next = .punctuator delimiter ∨ first next) follow bound := by
  have hdelimiter : head ≠ .punctuator delimiter := by
    rintro rfl
    exact hfirst hhead
  let items (x : κ) : Reader (List α) := item x >>= fun first => budget >>= fun rounds =>
    itemsAfter (.punctuator delimiter) (item x) rounds >>= fun others => pure (first :: others)
  have hitems : Foresees items limit first follow bound := by
    refine hitem.bind (.budget ?_)
    refine Foresees.bind (itemsAfter_foresees ?_ hhead hdelimiter hfollow Prod.snd
      (fun _ => Nat.min_le_right _ _) fun _ => Nat.min_le_right _ _) (.pure _ _ _ _)
    exact hitem.after.after.anti (fun _ => Nat.min_le_left _ _)
      fun _ => Nat.min_le_left _ _
  have hchooses := chooses_skip (.punctuator delimiter) fun x (_ : Bool) => items x
  have hmark : Foresees (fun x => expect (.punctuator delimiter) >>= fun _ => items x) limit
      (· = .punctuator delimiter) follow bound :=
    (mark_foresees delimiter limit bound first).bind hitems.after
  have hnone := kind_beq_eq_false hfirst
  constructor
  · exact (hchooses.samples_missing hitems.samples hnone).weaken fun _ => .inr
  · exact hchooses.decides hmark.decides hitems.decides (fun _ => kind_beq_iff.mpr) hnone
      fun _ _ => id

end

end Reader

end QueryLint
