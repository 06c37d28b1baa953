import QueryLint.Proofs.GrammarLayout
import QueryLint.Proofs.TokenOrder
import QueryLint.Proofs.UndefinedFields
import QueryLint.Proofs.WalkOrder

/-!
Locations mirror the structure of a document. The nodes of a parsed document lie over the tokens of
its source, and the tokens stand one behind the other, so nodes that follow each other in the tree
follow each other in the source, a walk enters them in that order, and so the standard check reports
its problems.
-/

namespace QueryLint

/-! Parts of a layout -/

namespace Source

variable {source : Source} {tokens own : List Token} {tree : Tree} {trees others : List Tree}

theorem Laid.split (h : source.Laid tokens (trees ++ others)) :
    ∃ first second, tokens = first ++ second ∧ source.Laid first trees ∧
      source.Laid second others := by
  generalize hall : trees ++ others = all at h
  induction h generalizing trees with
  | nil =>
    obtain ⟨rfl, rfl⟩ := List.append_eq_nil_iff.mp hall
    exact ⟨[], [], rfl, .nil, .nil⟩
  | skip token _ ih =>
    obtain ⟨first, second, rfl, hfirst, hsecond⟩ := ih hall
    exact ⟨token :: first, second, rfl, .skip token hfirst, hsecond⟩
  | @tree own later _ _ hspans hbelow hlater _ ih =>
    cases trees with
    | nil =>
      obtain rfl := hall
      exact ⟨[], own ++ later, rfl, .nil, .tree hspans hbelow hlater⟩
    | cons tree trees =>
      obtain ⟨rfl, hrest⟩ := List.cons.inj hall
      obtain ⟨first, second, rfl, hfirst, hsecond⟩ := ih hrest
      have hparts := (List.append_assoc own first second).symm
      exact ⟨own ++ first, second, hparts, .tree hspans hbelow hfirst, hsecond⟩

/-- Each tree has tokens of its own. -/
theorem Laid.of_mem (h : source.Laid tokens trees) (hmem : tree ∈ trees) :
    ∃ own, own <:+: tokens ∧ source.Spans own tree ∧ source.Laid own tree.children := by
  induction h with
  | nil => cases hmem
  | skip token _ ih =>
    obtain ⟨own, hwithin, hown⟩ := ih hmem
    exact ⟨own, hwithin.trans (List.suffix_cons _ _).isInfix, hown⟩
  | @tree own later _ _ hspans hbelow _ _ ih =>
    rcases List.mem_cons.mp hmem with rfl | hlater
    · exact ⟨own, (List.prefix_append own later).isInfix, hspans, hbelow⟩
    · obtain ⟨part, hwithin, hpart⟩ := ih hlater
      exact ⟨part, hwithin.trans (List.suffix_append own later).isInfix, hpart⟩

end Source

/-! Tokens in order -/

/-- The tokens stand one behind the other, and none is empty. -/
structure InOrder (tokens : List Token) : Prop where
  filled : ∀ token ∈ tokens, token.start < token.stop
  apart : tokens.Pairwise fun first second => first.stop ≤ second.start

theorem Source.lex_inOrder (source : Source) : InOrder source.lex.tokens :=
  ⟨fun token hmem => (source.lex_tokens_ordered.1 token hmem).1, source.lex_tokens_ordered.2⟩

namespace InOrder

variable {tokens own later : List Token}

theorem sublist (h : InOrder tokens) (hsub : own.Sublist tokens) : InOrder own :=
  ⟨fun token hmem => h.filled token (hsub.subset hmem), h.apart.sublist hsub⟩

theorem starts_increase (h : InOrder tokens) : (tokens.map Token.start).Pairwise (· < ·) := by
  rw [List.pairwise_map]
  refine h.apart.imp_of_mem fun hfirst _ hbehind => ?_
  exact Nat.lt_of_lt_of_le (h.filled _ hfirst) hbehind

theorem stop_le (h : InOrder (own ++ later)) {token other : Token} (htoken : token ∈ own)
    (hother : other ∈ later) : token.stop ≤ other.start :=
  (List.pairwise_append.mp h.apart).2.2 token htoken other hother

theorem head_le (h : InOrder tokens) {first token : Token} (hfirst : tokens.head? = some first)
    (htoken : token ∈ tokens) : first.start ≤ token.start := by
  obtain ⟨rest, rfl⟩ := List.head?_eq_some_iff.mp hfirst
  rcases List.mem_cons.mp htoken with rfl | hlater
  · exact Nat.le_refl _
  · have hbehind := (List.pairwise_cons.mp h.apart).1 token hlater
    exact Nat.le_of_lt (Nat.lt_of_lt_of_le (h.filled first List.mem_cons_self) hbehind)

theorem le_last (h : InOrder tokens) {last token : Token} (hlast : tokens.getLast? = some last)
    (htoken : token ∈ tokens) : token.stop ≤ last.stop := by
  obtain ⟨front, rfl⟩ := List.getLast?_eq_some_iff.mp hlast
  rcases List.mem_append.mp htoken with hearlier | hend
  · have hbehind := h.stop_le hearlier (List.mem_singleton.mpr rfl)
    exact Nat.le_of_lt (Nat.lt_of_le_of_lt hbehind (h.filled last (by simp)))
  · rw [List.mem_singleton.mp hend]

end InOrder

/-! Where nodes stand -/

namespace Source

variable {source : Source} {tokens own : List Token} {tree : Tree} {trees : List Tree}

/-- The node starts and ends with tokens of its own, and encloses all of them. -/
theorem Spans.bounds (h : source.Spans own tree) (hordered : InOrder own) :
    ∃ first ∈ own, ∃ last ∈ own, tree.loc = some ⟨first.start, last.stop, source⟩ ∧
      first.start < last.stop ∧ ∀ token ∈ own, first.start ≤ token.start ∧
        token.stop ≤ last.stop := by
  obtain ⟨first, last, hfirst, hlast, hloc⟩ := h.loc
  have hfirstmem := List.mem_of_head? hfirst
  have hlastmem := List.mem_of_getLast? hlast
  refine ⟨first, hfirstmem, last, hlastmem, hloc, ?_, fun token htoken =>
    ⟨hordered.head_le hfirst htoken, hordered.le_last hlast htoken⟩⟩
  exact Nat.lt_of_lt_of_le (hordered.filled first hfirstmem) (hordered.le_last hlast hfirstmem)

/-- Trees that follow each other stand one behind the other. -/
theorem Laid.disjoint (h : source.Laid tokens trees) (hordered : InOrder tokens) :
    trees.Pairwise fun early late =>
      ∀ before ∈ early.loc, ∀ behind ∈ late.loc, before.stop ≤ behind.start := by
  induction h with
  | nil => exact .nil
  | skip token _ ih => exact ih (hordered.sublist (List.sublist_cons_self _ _))
  | @tree own later early trees hspans _ hlater _ ih =>
    have hlaterordered := hordered.sublist (List.sublist_append_right own later)
    refine .cons (fun late hlate => ?_) (ih hlaterordered)
    obtain ⟨first, last, -, hlast, hloc⟩ := hspans.loc
    obtain ⟨part, hwithin, hpart, -⟩ := hlater.of_mem hlate
    obtain ⟨first', last', hfirst', -, hloc'⟩ := hpart.loc
    rw [hloc, hloc']
    rintro _ ⟨⟩ _ ⟨⟩
    exact hordered.stop_le (List.mem_of_getLast? hlast)
      (hwithin.subset (List.mem_of_head? hfirst'))

end Source

/-! The starts of nodes -/

def Tree.start? (tree : Tree) : Option Nat := tree.loc.map Location.start

theorem Source.Spans.start?_eq {source : Source} {own : List Token} {tree : Tree} {first : Token}
    (h : source.Spans own tree) (hfirst : own.head? = some first) :
    tree.start? = some first.start := by
  obtain ⟨other, last, hother, -, hloc⟩ := h.loc
  obtain rfl : other = first := Option.some.inj (hother.symm.trans hfirst)
  rw [Tree.start?, hloc]
  rfl

/-- Leaving out nodes leaves out their starts. -/
theorem starts_of_sublist {nodes others : List Tree} {starts : List Nat}
    (h : nodes.map Tree.start? = starts.map some) (hsub : others.Sublist nodes) :
    ∃ fewer : List Nat, fewer.Sublist starts ∧ others.map Tree.start? = fewer.map some := by
  have hmap := hsub.map Tree.start?
  rw [h] at hmap
  exact List.sublist_map_iff.mp hmap

/-- The nodes start at tokens, and never before a node in front of them. -/
def StartWithin (nodes : List Tree) (tokens : List Token) : Prop :=
  ∃ starts : List Nat, nodes.map Tree.start? = starts.map some ∧
    (∀ start ∈ starts, ∃ token ∈ tokens, token.start = start) ∧ starts.Pairwise (· ≤ ·)

namespace StartWithin

variable {nodes others : List Tree} {tokens later : List Token}

theorem nil : StartWithin [] tokens := ⟨[], rfl, nofun, .nil⟩

theorem skip (h : StartWithin nodes tokens) (token : Token) :
    StartWithin nodes (token :: tokens) := by
  obtain ⟨starts, hstarts, hmem, hsorted⟩ := h
  refine ⟨starts, hstarts, fun start hstart => ?_, hsorted⟩
  obtain ⟨other, hother, rfl⟩ := hmem start hstart
  exact ⟨other, List.mem_cons_of_mem _ hother, rfl⟩

/-- A node that starts with the first token may stand in front. -/
theorem cons (h : StartWithin nodes tokens) (hordered : InOrder tokens) {tree : Tree}
    {first : Token} (hfirst : tokens.head? = some first) (htree : tree.start? = some first.start) :
    StartWithin (tree :: nodes) tokens := by
  obtain ⟨starts, hstarts, hmem, hsorted⟩ := h
  refine ⟨first.start :: starts, by rw [List.map_cons, List.map_cons, hstarts, htree], ?_, ?_⟩
  · exact List.forall_mem_cons.mpr ⟨⟨first, List.mem_of_head? hfirst, rfl⟩, hmem⟩
  · refine .cons (fun start hstart => ?_) hsorted
    obtain ⟨token, htoken, rfl⟩ := hmem start hstart
    exact hordered.head_le hfirst htoken

theorem append (hfirst : StartWithin nodes tokens) (hsecond : StartWithin others later)
    (hordered : InOrder (tokens ++ later)) : StartWithin (nodes ++ others) (tokens ++ later) := by
  obtain ⟨starts, hstarts, hmem, hsorted⟩ := hfirst
  obtain ⟨starts', hstarts', hmem', hsorted'⟩ := hsecond
  refine ⟨starts ++ starts', by rw [List.map_append, List.map_append, hstarts, hstarts'], ?_, ?_⟩
  · refine List.forall_mem_append.mpr ⟨fun start hstart => ?_, fun start hstart => ?_⟩
    · obtain ⟨token, htoken, rfl⟩ := hmem start hstart
      exact ⟨token, List.mem_append_left _ htoken, rfl⟩
    · obtain ⟨token, htoken, rfl⟩ := hmem' start hstart
      exact ⟨token, List.mem_append_right _ htoken, rfl⟩
  · refine List.pairwise_append.mpr ⟨hsorted, hsorted', fun start hstart start' hstart' => ?_⟩
    obtain ⟨token, htoken, rfl⟩ := hmem start hstart
    obtain ⟨other, hother, rfl⟩ := hmem' start' hstart'
    have hfilled := hordered.filled token (List.mem_append_left _ htoken)
    exact Nat.le_trans (Nat.le_of_lt hfilled) (hordered.stop_le htoken hother)

end StartWithin

/-- From node to node in the order of the trees, the starts never go back. -/
theorem Source.Laid.preorder_startWithin {source : Source} {tokens : List Token}
    {trees : List Tree} (h : source.Laid tokens trees) (hordered : InOrder tokens) :
    StartWithin (trees.flatMap Tree.preorder) tokens := by
  induction h with
  | nil => exact .nil
  | skip token _ ih => exact (ih (hordered.sublist (List.sublist_cons_self _ _))).skip token
  | @tree own later tree trees hspans _ _ ihbelow ihlater =>
    have hown := hordered.sublist (List.sublist_append_left own later)
    have hlater := hordered.sublist (List.sublist_append_right own later)
    obtain ⟨first, last, hfirst, -⟩ := hspans.loc
    rw [List.flatMap_cons, Tree.preorder_eq]
    have hfront := (ihbelow hown).cons hown hfirst (hspans.start?_eq hfirst)
    exact hfront.append (ihlater hlater) hordered

/-! The starts of fields -/

/-- The nodes start at different tokens, in their order. -/
def StartAmong (nodes : List Tree) (tokens : List Token) : Prop :=
  ∃ starts : List Nat, nodes.map Tree.start? = starts.map some ∧
    starts.Sublist (tokens.map Token.start)

namespace StartAmong

variable {nodes others : List Tree} {tokens later : List Token}

theorem nil : StartAmong [] tokens := ⟨[], rfl, List.nil_sublist _⟩

theorem append (hfirst : StartAmong nodes tokens) (hsecond : StartAmong others later) :
    StartAmong (nodes ++ others) (tokens ++ later) := by
  obtain ⟨starts, hstarts, hsub⟩ := hfirst
  obtain ⟨starts', hstarts', hsub'⟩ := hsecond
  refine ⟨starts ++ starts', by rw [List.map_append, List.map_append, hstarts, hstarts'], ?_⟩
  rw [List.map_append]
  exact hsub.append hsub'

theorem mono (h : StartAmong nodes tokens) (hsub : tokens.Sublist later) :
    StartAmong nodes later := by
  obtain ⟨starts, hstarts, hstartsub⟩ := h
  exact ⟨starts, hstarts, hstartsub.trans (hsub.map _)⟩

/-- Leaving out nodes keeps the others in order. -/
theorem sublist (h : StartAmong nodes tokens) (hsub : others.Sublist nodes) :
    StartAmong others tokens := by
  obtain ⟨starts, hstarts, hstartsub⟩ := h
  obtain ⟨fewer, hfewer, hothers⟩ := starts_of_sublist hstarts hsub
  exact ⟨fewer, hothers, hfewer.trans hstartsub⟩

end StartAmong

theorem Selection.children_field (aliasName : Option Name) (name : Name)
    (arguments : List Argument) (directives : List Directive) (selectionSet : Option SelectionSet)
    (loc : Option Location) :
    (Selection.field aliasName name arguments directives selectionSet loc).tree.children =
      ((aliasName.map Name.tree).toList ++ [name.tree]) ++
        ((arguments.map Argument.tree ++ directives.map Directive.tree) ++
          (selectionSet.map SelectionSet.tree).toList) := by
  rw [Selection.tree]
  simp [Tree.children, Tree.branches, SelectionSet.branch_eq]

theorem SelectionSet.children_mk (selections : List Selection) (loc : Option Location) :
    (SelectionSet.mk selections loc).tree.children = Selection.trees selections := by
  rw [SelectionSet.tree]
  simp [Tree.children, Tree.branches]

section Sites

variable {source : Source} {tokens : List Token}

/-- A field starts with its name or alias, so what is below it starts later. -/
theorem Selection.startAmong_field {aliasName : Option Name} {name : Name}
    {arguments : List Argument} {directives : List Directive} {selectionSet : Option SelectionSet}
    {loc : Option Location} {nodes : List Tree}
    (h : source.Laid tokens
      [(Selection.field aliasName name arguments directives selectionSet loc).tree])
    (hset : ∀ tokens, source.Laid tokens (selectionSet.map SelectionSet.tree).toList →
      StartAmong nodes tokens) :
    StartAmong
      ((Selection.field aliasName name arguments directives selectionSet loc).tree :: nodes)
      tokens := by
  obtain ⟨own, hwithin, hspans, hbelow⟩ := h.of_mem (List.mem_singleton.mpr rfl)
  rw [Selection.children_field] at hbelow
  -- The name has a token of its own, in front of those of the selections.
  obtain ⟨named, rest, rfl, hnamed, hrest⟩ := hbelow.split
  obtain ⟨middle, final, rfl, -, hfinal⟩ := hrest.split
  obtain ⟨first, front, rfl⟩ := List.exists_cons_of_ne_nil (hnamed.ne_nil (by simp))
  have hstart := hspans.start?_eq (List.head?_cons ..)
  have hfirst : StartAmong
      [(Selection.field aliasName name arguments directives selectionSet loc).tree]
      (first :: front) :=
    ⟨[first.start], by rw [List.map_singleton, hstart]; rfl, by simp⟩
  have hlater := (hset final hfinal).mono (List.sublist_append_right middle final)
  exact (hfirst.append hlater).mono hwithin.sublist

theorem Source.Laid.startAmong_children {tree : Tree} {nodes : List Tree}
    (h : source.Laid tokens [tree])
    (hchildren : ∀ tokens, source.Laid tokens tree.children → StartAmong nodes tokens) :
    StartAmong nodes tokens := by
  obtain ⟨own, hwithin, -, hbelow⟩ := h.of_mem (List.mem_singleton.mpr rfl)
  exact (hchildren own hbelow).mono hwithin.sublist

theorem Source.Laid.startAmong_child {tree node : Tree} {nodes : List Tree}
    (h : source.Laid tokens [tree]) (hmem : node ∈ tree.children)
    (hnode : ∀ tokens, source.Laid tokens [node] → StartAmong nodes tokens) :
    StartAmong nodes tokens := by
  refine h.startAmong_children fun own hbelow => ?_
  obtain ⟨part, hpart, hspans, hinner⟩ := hbelow.of_mem hmem
  exact (hnode part (Source.laid_single hspans hinner)).mono hpart.sublist

variable (schema : Schema)

mutual

theorem Selection.fieldSites_startAmong (selection : Selection) (owner : Option TypeRef)
    {tokens : List Token} (h : source.Laid tokens [selection.tree]) :
    StartAmong ((selection.fieldSites schema owner).map FieldSite.node) tokens := by
  cases selection with
  | field aliasName name arguments directives selectionSet loc =>
    rw [Selection.fieldSites]
    exact Selection.startAmong_field h fun _ hset =>
      SelectionSet.optionalFieldSites_startAmong selectionSet _ hset
  | spread name directives loc =>
    rw [Selection.fieldSites]
    exact .nil
  | inline condition directives selectionSet loc =>
    have hmem : selectionSet.tree ∈
        (Selection.inline condition directives selectionSet loc).tree.children := by
      rw [Selection.tree]
      simp [Tree.children, Tree.branches]
    rw [Selection.fieldSites]
    exact h.startAmong_child hmem fun _ hset =>
      SelectionSet.fieldSites_startAmong selectionSet _ hset
  termination_by sizeOf selection

theorem SelectionSet.fieldSites_startAmong (selectionSet : SelectionSet) (owner : Option TypeRef)
    {tokens : List Token} (h : source.Laid tokens [selectionSet.tree]) :
    StartAmong ((selectionSet.fieldSites schema owner).map FieldSite.node) tokens := by
  cases selectionSet with
  | mk selections loc =>
    rw [SelectionSet.fieldSites]
    refine h.startAmong_children fun _ hbelow => ?_
    rw [SelectionSet.children_mk] at hbelow
    exact Selection.allFieldSites_startAmong selections owner hbelow
  termination_by sizeOf selectionSet

theorem SelectionSet.optionalFieldSites_startAmong (selectionSet : Option SelectionSet)
    (owner : Option TypeRef) {tokens : List Token}
    (h : source.Laid tokens (selectionSet.map SelectionSet.tree).toList) :
    StartAmong ((SelectionSet.optionalFieldSites schema owner selectionSet).map FieldSite.node)
      tokens := by
  cases selectionSet with
  | none =>
    rw [SelectionSet.optionalFieldSites]
    exact .nil
  | some selectionSet =>
    rw [SelectionSet.optionalFieldSites]
    exact SelectionSet.fieldSites_startAmong selectionSet owner h
  termination_by sizeOf selectionSet

theorem Selection.allFieldSites_startAmong (selections : List Selection) (owner : Option TypeRef)
    {tokens : List Token} (h : source.Laid tokens (Selection.trees selections)) :
    StartAmong ((Selection.allFieldSites schema owner selections).map FieldSite.node) tokens := by
  cases selections with
  | nil =>
    rw [Selection.allFieldSites]
    exact .nil
  | cons selection selections =>
    rw [Selection.trees, ← List.singleton_append] at h
    obtain ⟨first, second, rfl, hfirst, hsecond⟩ := h.split
    rw [Selection.allFieldSites, List.map_append]
    exact (Selection.fieldSites_startAmong selection owner hfirst).append
      (Selection.allFieldSites_startAmong selections owner hsecond)
  termination_by sizeOf selections

end

theorem Definition.fieldSites_startAmong (definition : Definition)
    (h : source.Laid tokens [definition.tree]) :
    StartAmong ((definition.fieldSites schema).map FieldSite.node) tokens := by
  cases definition with
  | operation definition =>
    have hmem : definition.selectionSet.tree ∈ definition.tree.children := by
      simp [OperationDefinition.tree, Tree.children, Tree.branches]
    exact h.startAmong_child hmem fun _ hset =>
      definition.selectionSet.fieldSites_startAmong schema _ hset
  | fragment definition =>
    have hmem : definition.selectionSet.tree ∈ definition.tree.children := by
      simp [FragmentDefinition.tree, Tree.children, Tree.branches]
    exact h.startAmong_child hmem fun _ hset =>
      definition.selectionSet.fieldSites_startAmong schema _ hset
  | schema definition => exact .nil
  | type definition => exact .nil

theorem Definition.allFieldSites_startAmong (definitions : List Definition) {tokens : List Token}
    (h : source.Laid tokens (definitions.map Definition.tree)) :
    StartAmong ((definitions.flatMap (Definition.fieldSites schema)).map FieldSite.node)
      tokens := by
  induction definitions generalizing tokens with
  | nil => exact .nil
  | cons definition definitions ih =>
    rw [List.map_cons, ← List.singleton_append] at h
    obtain ⟨first, second, rfl, hfirst, hsecond⟩ := h.split
    rw [List.flatMap_cons, List.map_append]
    exact (definition.fieldSites_startAmong schema hfirst).append (ih hsecond)

end Sites

/-! Parsed documents -/

/-- The definitions of a parsed document lie over all tokens of its source, and the document spans
the whole text. -/
theorem Source.parse_laid {source : Source} {document : Document}
    (h : source.parse = .ok document) :
    document.loc = some ⟨0, source.body.length, source⟩ ∧
      source.Laid source.lex.tokens (document.definitions.map Definition.tree) := by
  obtain ⟨last, hmany, hspan⟩ := Source.parse_run h
  obtain ⟨definitions, loc⟩ := document
  obtain ⟨_, opened, hexpect, hrest⟩ := Reader.bind_eq_ok hmany
  obtain ⟨first, next, hfirst, hcounted⟩ := Reader.bind_eq_ok hrest
  obtain ⟨rounds, _, hbudget, hlist⟩ := Reader.bind_eq_ok hcounted
  obtain rfl := Reader.budget_stays _ _ _ _ hbudget
  obtain ⟨others, _, hothers, hpure⟩ := Reader.bind_eq_ok hlist
  cases hpure
  obtain ⟨hopened, hleft, -⟩ :=
    Setting.fits_of_advance rfl (List.suffix_refl _) (Reader.expect_run hexpect)
  obtain ⟨own, hmoves, hown⟩ := Grammar.definition_lays _ opened rfl hopened first _ hfirst
  obtain ⟨later, middle, hlater, hkind, hadvance, hlaid⟩ :=
    Reader.itemsUntil_laid Grammar.definition_lays rounds rfl (hmoves.fits hopened).1 hothers
  obtain ⟨hmiddle, hall⟩ := (hmoves.append hlater).fits hopened
  have hlexeme : middle.token.lexeme = .eof := Token.lexeme_of_kind_eof hkind
  obtain ⟨hover, hending⟩ := hmiddle.atEnd hlexeme
  constructor
  -- The end of the source is consumed like a token, so the document ends where it does.
  · obtain ⟨-, -, hend⟩ :=
      Setting.fits_of_advance hmiddle.ending (hover ▸ List.nil_suffix) hadvance
    obtain ⟨rfl, -⟩ := Reader.spanFrom_run rfl hspan
    rw [hend, (source.lex_ending hending).2]
    rfl
  · have hnone : middle.left = [] := if_pos hlexeme
    rw [hnone, List.append_nil, hleft] at hall
    rw [show source.lex.tokens = own ++ later from hall]
    exact hown.append hlaid

/-- A node stands at its span, which says what is written in the source, and the nodes below it
stand inside the span one behind the other, each from the start of a token to the end of one. -/
structure Tree.Mirrors (tree : Tree) (source : Source) (span : Location) : Prop where
  loc : tree.loc = some span
  inSource : span.source = source
  written : ∀ text ∈ tree.data.content.text?, source.slice span.start span.stop = text
  attributes : tree.branches.map Branch.name = tree.kind.children
  inside : ∀ node ∈ tree.children, ∃ first ∈ source.lex.tokens, ∃ last ∈ source.lex.tokens,
    node.loc = some ⟨first.start, last.stop, source⟩ ∧ first.start < last.stop ∧
      span.start ≤ first.start ∧ last.stop ≤ span.stop
  disjoint : tree.children.Pairwise fun early late =>
    ∀ before ∈ early.loc, ∀ behind ∈ late.loc, before.stop ≤ behind.start

/-- The document spans the whole source, all its nodes mirror the source, every walk enters them in
the order of their starts, and the standard check reports its problems in that order, no two at one
place. -/
structure Document.Mirrors (document : Document) (source : Source) : Prop where
  whole : document.loc = some ⟨0, source.body.length, source⟩
  nodes : ∀ tree place, document.tree.Reaches tree place → ∃ span, tree.Mirrors source span
  entered : ∀ (ε σ : Type) (visitor : Visitor ε σ) (state : σ), ∃ starts : List Nat,
    (enteredNodes (document.tree.visit visitor.recording ([], state)).2.1).map Tree.start? =
      starts.map some ∧ starts.Pairwise (· ≤ ·)
  reported : ∀ (ε σ : Type) (schema : Schema) (state : σ), ∃ starts : List Nat,
    (schema.check (ε := ε) schema.lookup [schema.undefinedFields] document.tree .empty
        state).problems.map (fun problem => problem.report.positions) =
      starts.map (fun start : Nat => [(start : Int)]) ∧ starts.Pairwise (· < ·)

section Mirrors

variable {source : Source} {own : List Token} {tree : Tree}

theorem Source.Laid.mirrors {span : Location} (h : source.Laid own tree.children)
    (hwithin : own <:+: source.lex.tokens) (hloc : tree.loc = some span)
    (hsource : span.source = source)
    (hbounds : ∀ token ∈ own, span.start ≤ token.start ∧ token.stop ≤ span.stop)
    (hwritten : ∀ text ∈ tree.data.content.text?, source.slice span.start span.stop = text)
    (hattributes : tree.branches.map Branch.name = tree.kind.children) :
    tree.Mirrors source span := by
  have hordered := source.lex_inOrder.sublist hwithin.sublist
  refine ⟨hloc, hsource, hwritten, hattributes, fun node hnode => ?_, h.disjoint hordered⟩
  obtain ⟨part, hpart, hspans, -⟩ := h.of_mem hnode
  obtain ⟨first, hfirst, last, hlast, hnodeloc, hless, -⟩ :=
    hspans.bounds (hordered.sublist hpart.sublist)
  have hin := hpart.subset
  exact ⟨first, hwithin.subset (hin hfirst), last, hwithin.subset (hin hlast), hnodeloc, hless,
    (hbounds first (hin hfirst)).1, (hbounds last (hin hlast)).2⟩

theorem Source.Spans.mirrors (h : source.Spans own tree) (hbelow : source.Laid own tree.children)
    (hwithin : own <:+: source.lex.tokens) : ∃ span, tree.Mirrors source span := by
  have hordered := source.lex_inOrder.sublist hwithin.sublist
  obtain ⟨first, -, last, -, hloc, -, hbounds⟩ := h.bounds hordered
  exact ⟨_, hbelow.mirrors hwithin hloc rfl hbounds (h.written _ hloc) h.attributes⟩

variable {document : Document}

theorem Document.children_tree (document : Document) :
    document.tree.children = document.definitions.map Definition.tree := by
  simp [Document.tree, Tree.children, Tree.branches]

/-- Every node but the document itself has tokens of the source. -/
theorem Source.Laid.reached
    (h : source.Laid source.lex.tokens (document.definitions.map Definition.tree)) {place : Place}
    (hreached : document.tree.Reaches tree place) :
    tree = document.tree ∨ ∃ own, own <:+: source.lex.tokens ∧ source.Spans own tree ∧
      source.Laid own tree.children := by
  induction hreached with
  | start => exact .inl rfl
  | step _ hbelow ih =>
    right
    have hmem := hbelow.mem_children
    rcases ih with rfl | ⟨own, hwithin, -, hinner⟩
    · rw [document.children_tree] at hmem
      exact h.of_mem hmem
    · obtain ⟨part, hpart, hlaid⟩ := hinner.of_mem hmem
      exact ⟨part, hpart.trans hwithin, hlaid⟩

theorem Source.Laid.document_starts {stop : Nat}
    (h : source.Laid source.lex.tokens (document.definitions.map Definition.tree))
    (hloc : document.loc = some ⟨0, stop, source⟩) :
    ∃ starts : List Nat, document.tree.preorder.map Tree.start? = starts.map some ∧
      starts.Pairwise (· ≤ ·) := by
  obtain ⟨starts, hstarts, -, hsorted⟩ := h.preorder_startWithin source.lex_inOrder
  have hroot : document.tree.start? = some 0 := congrArg (Option.map Location.start) hloc
  refine ⟨0 :: starts, ?_, .cons (fun start _ => Nat.zero_le start) hsorted⟩
  rw [Tree.preorder_eq, List.map_cons, document.children_tree, hstarts, hroot, List.map_cons]

end Mirrors

/-! Reported problems -/

theorem Problem.positions_report (problem : Problem) :
    problem.report.positions = problem.node.start?.toList.map fun start : Nat => (start : Int) := by
  rw [Problem.report, Report.about, Tree.start?]
  cases problem.node.loc <;> rfl

/-- A problem with a field is about the node of the field. -/
theorem Schema.problems_sublist (schema : Schema) (sites : List FieldSite) :
    ((sites.filterMap schema.problemAt?).map Problem.node).Sublist (sites.map FieldSite.node) := by
  induction sites with
  | nil => exact .slnil
  | cons site sites ih =>
    cases hproblem : schema.problemAt? site with
    | none =>
      rw [List.filterMap_cons_none hproblem]
      exact ih.cons _
    | some problem =>
      obtain ⟨parent, -, hfound⟩ := Option.bind_eq_some_iff.mp hproblem
      split at hfound
      · cases hfound
        rw [List.filterMap_cons_some hproblem]
        exact ih.cons_cons _
      · cases hfound

/-- Locations mirror the structure of a parsed document. -/
theorem Source.parse_mirrors {source : Source} {document : Document}
    (h : source.parse = .ok document) : document.Mirrors source := by
  obtain ⟨hwhole, hlaid⟩ := Source.parse_laid h
  refine ⟨hwhole, fun tree place hreached => ?_, fun ε σ visitor state => ?_,
    fun ε σ schema state => ?_⟩
  · rcases hlaid.reached hreached with rfl | ⟨own, hwithin, hspans, hbelow⟩
    · rw [← document.children_tree] at hlaid
      refine ⟨_, hlaid.mirrors (List.infix_refl _) hwhole rfl (fun token htoken => ?_) nofun rfl⟩
      have hbound := (source.lex_tokens_ordered.1 token htoken).2
      exact ⟨Nat.zero_le _, hbound⟩
    · exact hspans.mirrors hbelow hwithin
  · obtain ⟨starts, hstarts, hsorted⟩ := hlaid.document_starts hwhole
    obtain ⟨fewer, hfewer, hentered⟩ :=
      starts_of_sublist hstarts (document.tree.visit_enters visitor state)
    exact ⟨fewer, hentered, hsorted.sublist hfewer⟩
  · obtain ⟨starts, hstarts, hsub⟩ :=
      (Definition.allFieldSites_startAmong schema document.definitions hlaid).sublist
        (schema.problems_sublist (document.fieldSites schema))
    refine ⟨starts, ?_, source.lex_inOrder.starts_increase.sublist hsub⟩
    rw [schema.check_problems]
    have hpositions := congrArg (List.map fun start? : Option Nat =>
      start?.toList.map fun start : Nat => (start : Int)) hstarts
    simpa [Problem.positions_report, Function.comp_def] using hpositions

set_option maxRecDepth 20000 in
/-- Nodes that share their first token, nested lists of types, and ignored text around them. -/
theorem Source.parse_mirrors_nested :
    let source : Source :=
      { body := " query Q($v:[Int!]!=[1,2]@d)\x7ba:b(x:\"s\")@d\x7bc ...on T\x7be\x7d\x7d" ++
          "...F\x7d # end\n\"d\" type T implements&I\x7bf(x:Int=1):[U!]!\x7d" }
    ∃ document, source.parse = .ok document ∧ document.Mirrors source := by
  intro source
  have hparsed : source.parse.toOption.isSome = true := by decide +kernel
  cases hdocument : source.parse with
  | error error => simp [hdocument, Except.toOption] at hparsed
  | ok document => exact ⟨document, rfl, Source.parse_mirrors hdocument⟩

end QueryLint
