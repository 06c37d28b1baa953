import QueryLint.Proofs.Reading
import QueryLint.Proofs.Walk

/-!
Nodes over tokens. The trees that a reader returns lie over the tokens that it consumes, one behind
the other, with gaps between them. A tree spans its tokens from the first to the last, and the nodes
directly below it lie over the same tokens in the same way. What a reader lays out is read off its
text: a node is built behind the token at which it starts, from the trees that were read since.
-/

namespace QueryLint

/-- What a node keeps of its text. -/
def Content.text? : Content → Option Text
  | .name text => some text
  | .value text | .string text _ => some text
  | _ => .none

/-- The node stands from the start of the first token to the end of the last one. What it keeps of
its text is written there. -/
structure Source.Spans (source : Source) (tokens : List Token) (tree : Tree) : Prop where
  loc : ∃ first last, tokens.head? = some first ∧ tokens.getLast? = some last ∧
    tree.loc = some ⟨first.start, last.stop, source⟩
  written : ∀ span ∈ tree.loc, ∀ text ∈ tree.data.content.text?,
    source.slice span.start span.stop = text
  attributes : tree.branches.map Branch.name = tree.kind.children

/-- The trees lie over the tokens one behind the other, and so do the nodes below each of them. -/
inductive Source.Laid (source : Source) : List Token → List Tree → Prop where
  | nil : Source.Laid source [] []
  | skip (token : Token) {tokens : List Token} {trees : List Tree}
      (hlater : Source.Laid source tokens trees) : Source.Laid source (token :: tokens) trees
  | tree {own later : List Token} {tree : Tree} {trees : List Tree} (hspans : source.Spans own tree)
      (hbelow : Source.Laid source own tree.children) (hlater : Source.Laid source later trees) :
      Source.Laid source (own ++ later) (tree :: trees)

namespace Source

variable {source : Source} {tokens own later : List Token} {tree : Tree} {trees others : List Tree}

theorem Laid.append (hfirst : source.Laid tokens trees) (hsecond : source.Laid later others) :
    source.Laid (tokens ++ later) (trees ++ others) := by
  induction hfirst with
  | nil => exact hsecond
  | skip token _ ih => exact .skip token ih
  | tree hspans hbelow _ _ ih =>
    rw [List.append_assoc]
    exact .tree hspans hbelow ih

theorem laid_nil (tokens : List Token) : source.Laid tokens [] := by
  induction tokens with
  | nil => exact .nil
  | cons token tokens ih => exact .skip token ih

theorem laid_single (hspans : source.Spans own tree) (hbelow : source.Laid own tree.children) :
    source.Laid own [tree] := by
  have h := Laid.tree hspans hbelow .nil
  rwa [List.append_nil] at h

theorem Laid.ne_nil (h : source.Laid tokens trees) (hne : trees ≠ []) : tokens ≠ [] := by
  induction h with
  | nil => exact absurd rfl hne
  | skip token _ _ => exact List.cons_ne_nil _ _
  | tree hspans _ _ _ _ =>
    obtain ⟨first, last, hfirst, -⟩ := hspans.loc
    intro hnil
    rw [(List.append_eq_nil_iff.mp hnil).1] at hfirst
    cases hfirst

end Source

/-- The node is put together from the trees and stands at the location. -/
structure Tree.MadeOf (tree : Tree) (trees : List Tree) (loc : Option Location) : Prop where
  children : tree.children = trees
  loc : tree.loc = loc
  text : tree.data.content.text? = none
  attributes : tree.branches.map Branch.name = tree.kind.children

theorem Tree.MadeOf.node {kind : NodeKind} {content : Content} {loc : Option Location}
    {branches : List Branch} {trees : List Tree} (hchildren : branches.flatMap Branch.nodes = trees)
    (htext : content.text? = none) (hattributes : branches.map Branch.name = kind.children) :
    (Tree.node ⟨kind, content, loc⟩ branches).MadeOf trees loc :=
  ⟨hchildren, rfl, htext, hattributes⟩

namespace Reader

open Reading

variable {α β : Type}

/-- From this cursor on, the tokens that a successful reading consumes have the trees of its result
over them. -/
def LaysAt (p : Reader α) (setting : Setting) (cursor : Cursor) (trees : α → List Tree) : Prop :=
  ∀ result last, p setting cursor = .ok (result, last) →
    ∃ tokens, setting.Moves cursor tokens last ∧ setting.source.Laid tokens (trees result)

def Lays (p : Reader α) (trees : α → List Tree) : Prop :=
  ∀ setting cursor, setting.located = true → setting.Fits cursor → p.LaysAt setting cursor trees

/-- From a token on, with given trees over what has been consumed since, the reading goes on until
the trees of its result lie over all that has been consumed. -/
def Completes (start : Token) (before : List Tree) (p : Reader α) (trees : α → List Tree) : Prop :=
  ∀ setting origin cursor done, setting.located = true → setting.Fits origin →
    origin.token = start → setting.Moves origin done cursor → setting.source.Laid done before →
      ∀ result last, p setting cursor = .ok (result, last) →
        ∃ later, setting.Moves cursor later last ∧
          setting.source.Laid (done ++ later) (trees result)

theorem spanFrom_run {start : Token} {setting : Setting} {cursor last : Cursor}
    {loc : Option Location} (hlocated : setting.located = true)
    (h : Reader.spanFrom start setting cursor = .ok (loc, last)) :
    loc = some ⟨start.start, cursor.lastEnd, setting.source⟩ ∧ last = cursor := by
  change (if setting.located then _ else _ : Reader (Option Location)) setting cursor = _ at h
  rw [if_pos hlocated] at h
  cases h
  exact ⟨rfl, rfl⟩

variable {p : Reader α} {k : α → Reader β} {own : α → List Tree} {trees : β → List Tree}
  {start : Token} {before : List Tree} {setting : Setting} {cursor : Cursor}

theorem Completes.bind (hp : p.Lays own)
    (hk : ∀ a, Completes start (before ++ own a) (k a) trees) :
    Completes start before (p >>= k) trees := by
  intro setting origin cursor done hlocated hfits hstart hmoves hlaid result last hrun
  obtain ⟨a, middle, hfirst, hrest⟩ := bind_eq_ok hrun
  obtain ⟨tokens, htokens, hown⟩ := hp setting cursor hlocated (hmoves.fits hfits).1 a middle hfirst
  obtain ⟨later, hlater, hall⟩ := hk a setting origin middle (done ++ tokens) hlocated hfits hstart
    (hmoves.append htokens) (hlaid.append hown) result last hrest
  exact ⟨tokens ++ later, htokens.append hlater, by rwa [← List.append_assoc]⟩

/-- What is read has no nodes of its own. -/
theorem Completes.pass (hp : p.Lays fun _ => []) (hk : ∀ a, Completes start before (k a) trees) :
    Completes start before (p >>= k) trees :=
  .bind hp fun a => by simpa using hk a

theorem Completes.pure {result : β} (h : trees result = before) :
    Completes start before (Pure.pure result : Reader β) trees := by
  intro setting origin cursor done _ _ _ _ hlaid result' last hrun
  cases hrun
  exact ⟨[], .stay, by rw [h, List.append_nil]; exact hlaid⟩

theorem Completes.refuse (token : Token) (fault : SyntaxFault) :
    Completes start before (Reader.refuse token fault : Reader β) trees := by
  intro setting origin cursor done _ _ _ _ _ result last hrun
  cases hrun

/-- The node stands from the token at which it starts to the last consumed one. -/
theorem Completes.spanned {k : Option Location → Reader β} {node : Option Location → Tree}
    (hmade : ∀ loc, (node loc).MadeOf before loc) (hne : before ≠ [])
    (hk : ∀ loc, Completes start [node loc] (k loc) trees) :
    Completes start before (spanFrom start >>= k) trees := by
  intro setting origin cursor done hlocated hfits hstart hmoves hlaid result last hrun
  obtain ⟨loc, middle, hspan, hrest⟩ := bind_eq_ok hrun
  obtain ⟨rfl, rfl⟩ := spanFrom_run hlocated hspan
  -- The node has children, so tokens have been consumed and the cursor keeps the end of the last.
  have hdone := hlaid.ne_nil hne
  obtain ⟨final, hfinal⟩ : ∃ final, done.getLast? = some final :=
    ⟨_, List.getLast?_eq_some_getLast hdone⟩
  have hfirst := hmoves.head?_eq hdone
  rw [hstart] at hfirst
  obtain ⟨hchildren, hloc, htext, hattributes⟩ := hmade _
  refine hk _ setting origin middle done hlocated hfits hstart hmoves ?_ result last hrest
  refine Source.laid_single ⟨⟨start, final, hfirst, hfinal, ?_⟩, ?_, hattributes⟩ ?_
  · rw [hloc, hmoves.getLast?_stop hfits hfinal]
  · rw [htext]
    simp
  · rwa [hchildren]

theorem Completes.built {build : Option Location → β} {tree : β → Tree}
    (hmade : ∀ loc, (tree (build loc)).MadeOf before loc) (hne : before ≠ []) :
    Completes start before (spanFrom start >>= fun loc => Pure.pure (build loc))
      fun result => [tree result] :=
  .spanned hmade hne fun _ => .pure rfl

/-! Where a node starts -/

theorem Lays.of_completes (h : ∀ start, Completes start [] p own) : p.Lays own := by
  intro setting cursor hlocated hfits result last hrun
  exact h cursor.token setting cursor cursor [] hlocated hfits rfl .stay .nil result last hrun

theorem Lays.current {k : Token → Reader β} (h : ∀ start, Completes start [] (k start) trees) :
    Lays (Reader.current >>= k) trees :=
  fun setting cursor hlocated hfits =>
    h cursor.token setting cursor cursor [] hlocated hfits rfl .stay .nil

theorem expect_token {kind : TokenKind} {token : Token} {last : Cursor}
    (h : (expect kind : Reader Token) setting cursor = .ok (token, last)) :
    token = cursor.token := by
  obtain ⟨here, middle, hcurrent, hrest⟩ := bind_eq_ok h
  cases hcurrent
  split at hrest
  · obtain ⟨_, next, -, hpure⟩ := bind_eq_ok hrest
    cases hpure
    rfl
  · cases hrest

/-- The token at which the node starts is the mark in front of it. -/
theorem Lays.expect {k : Token → Reader β} (mark : Punctuator)
    (h : ∀ start, Completes start [] (k start) trees) :
    Lays (Reading.expect (.punctuator mark) >>= k) trees := by
  intro setting cursor hlocated hfits result last hrun
  obtain ⟨token, middle, hexpect, hrest⟩ := bind_eq_ok hrun
  obtain ⟨tokens, hmoves, -⟩ := expect_punctuator mark setting cursor hfits token middle hexpect
  obtain ⟨later, hlater, hlaid⟩ := h token setting cursor middle tokens hlocated hfits
    (expect_token hexpect).symm hmoves (Source.laid_nil tokens) result last hrest
  exact ⟨tokens ++ later, hmoves.append hlater, hlaid⟩

/-- Looking comes before the place where the node starts. -/
theorem Lays.look (hp : p.Stays) (hk : ∀ a, (k a).Lays trees) : (p >>= k).Lays trees := by
  intro setting cursor hlocated hfits result last hrun
  obtain ⟨a, middle, hlook, hrest⟩ := bind_eq_ok hrun
  obtain rfl := hp setting cursor a middle hlook
  exact hk a setting middle hlocated hfits result last hrest

theorem Lays.map {f : α → β} (hp : p.Lays fun a => trees (f a)) : (f <$> p).Lays trees := by
  rw [map_eq_pure_bind]
  exact .of_completes fun start => .bind hp fun a => .pure rfl

theorem Lays.refuse (token : Token) (fault : SyntaxFault) :
    (Reader.refuse token fault : Reader α).Lays own :=
  .of_completes fun _ => .refuse token fault

theorem Lays.getD {found : Option (Reader α)} (h : ∀ reader, found = some reader → reader.Lays own)
    (token : Token) : (found.getD (unexpected token)).Lays own := by
  cases found with
  | none => exact .refuse token _
  | some reader => exact h reader rfl

theorem Stays.lays (h : p.Stays) : p.Lays fun _ => [] := by
  intro setting cursor _ _ result last hrun
  obtain rfl := h _ _ _ _ hrun
  exact ⟨[], .stay, .nil⟩

theorem Consumes.lays {post : List Lexeme → α → Prop} (h : p.Consumes post) :
    p.Lays fun _ => [] := by
  intro setting cursor _ hfits result last hrun
  obtain ⟨tokens, hmoves, -⟩ := h setting cursor hfits result last hrun
  exact ⟨tokens, hmoves, Source.laid_nil tokens⟩

/-! Items -/

section Items

variable {item : Reader α} {tree : α → Tree}

theorem optionalItem_lays (hitem : item.Lays fun a => [tree a]) (kind : TokenKind) :
    Lays (optionalItem kind item) fun found => (found.map tree).toList := by
  refine .look (peek_stays _) fun found => ?_
  cases found with
  | true => exact .of_completes fun _ => .bind hitem fun a => .pure rfl
  | false => exact .of_completes fun _ => .pure rfl

/-- The items lie over what is consumed in front of the closing token. -/
theorem itemsUntil_laid (hitem : item.Lays fun a => [tree a]) {closing : TokenKind} (rounds : Nat)
    {last : Cursor} {items : List α} (hlocated : setting.located = true)
    (hfits : setting.Fits cursor)
    (h : itemsUntil closing item rounds setting cursor = .ok (items, last)) :
    ∃ tokens middle, setting.Moves cursor tokens middle ∧ middle.token.kind = closing ∧
      Reader.advance setting middle = .ok ((), last) ∧
      setting.source.Laid tokens (items.map tree) := by
  induction rounds generalizing cursor items with
  | zero =>
    obtain ⟨token, middle, hcurrent, hrefuse⟩ := bind_eq_ok h
    cases hrefuse
  | succ rounds ih =>
    obtain ⟨found, middle, hskip, hrest⟩ := bind_eq_ok h
    rcases skip_run hskip with ⟨rfl, hkind, hadvance⟩ | ⟨rfl, rfl⟩
    · cases hrest
      exact ⟨[], cursor, .stay, hkind, hadvance, .nil⟩
    · obtain ⟨first, next, hfirst, hothers⟩ := bind_eq_ok hrest
      obtain ⟨others, final, hitems, hpure⟩ := bind_eq_ok hothers
      cases hpure
      obtain ⟨own, hmoves, hown⟩ := hitem setting _ hlocated hfits first next hfirst
      obtain ⟨later, closed, hlater, hkind, hadvance, hlaid⟩ := ih (hmoves.fits hfits).1 hitems
      exact ⟨own ++ later, closed, hmoves.append hlater, hkind, hadvance, hown.append hlaid⟩

theorem itemsUntil_lays (hitem : item.Lays fun a => [tree a]) (closing : Punctuator)
    (rounds : Nat) : Lays (itemsUntil (.punctuator closing) item rounds) (List.map tree) := by
  intro setting cursor hlocated hfits items last h
  obtain ⟨tokens, middle, hmoves, hkind, hadvance, hlaid⟩ :=
    itemsUntil_laid hitem rounds hlocated hfits h
  have hclose : setting.Moves middle [middle.token] last :=
    .step (by simp [Token.lexeme_of_kind hkind]) hadvance .stay
  refine ⟨tokens ++ [middle.token], hmoves.append hclose, ?_⟩
  rw [← List.append_nil (items.map tree)]
  exact hlaid.append (Source.laid_nil _)

/-- Between an opening and a closing token there is at least one node. -/
theorem Completes.many {k : List α → Reader β} (hitem : item.Lays fun a => [tree a])
    (opening closing : Punctuator)
    (hk : ∀ first others,
      Completes start (before ++ (first :: others).map tree) (k (first :: others)) trees) :
    Completes start before
      (Reading.many (.punctuator opening) item (.punctuator closing) >>= k) trees := by
  simp only [Reading.many, bind_assoc, pure_bind]
  refine .pass (expect_punctuator opening).lays fun _ => .bind hitem fun first => ?_
  refine .pass budget_stays.lays fun rounds => .bind (itemsUntil_lays hitem closing rounds) ?_
  intro others
  rw [List.append_assoc]
  exact hk first others

theorem optionalMany_lays (hitem : item.Lays fun a => [tree a]) (opening closing : Punctuator) :
    Lays (optionalMany (.punctuator opening) item (.punctuator closing)) (List.map tree) := by
  refine .of_completes fun start => .pass (peek_stays _).lays fun found => ?_
  cases found with
  | false => exact .pure rfl
  | true =>
    rw [if_pos rfl, ← bind_pure (Reading.many _ _ _)]
    exact .many hitem opening closing fun first others => .pure rfl

theorem itemsAfter_lays (hitem : item.Lays fun a => [tree a]) (delimiter : Punctuator)
    (rounds : Nat) : Lays (itemsAfter (.punctuator delimiter) item rounds) (List.map tree) := by
  induction rounds with
  | zero => exact .look current_stays fun token => .refuse token _
  | succ rounds ih =>
    refine .of_completes fun start => .pass (skip_punctuator delimiter).lays fun found => ?_
    cases found with
    | false => exact .pure rfl
    | true => exact .bind hitem fun first => .bind ih fun others => .pure rfl

theorem delimited_lays (hitem : item.Lays fun a => [tree a]) (delimiter : Punctuator) :
    Lays (delimited (.punctuator delimiter) item) (List.map tree) := by
  refine .of_completes fun start => .pass (skip_punctuator delimiter).lays fun _ => ?_
  refine .bind hitem fun first => .pass budget_stays.lays fun rounds => ?_
  exact .bind (itemsAfter_lays hitem delimiter rounds) fun others => .pure rfl

end Items

end Reader

end QueryLint
