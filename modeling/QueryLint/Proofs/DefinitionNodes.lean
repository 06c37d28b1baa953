import QueryLint.Proofs.SessionResults
import QueryLint.Proofs.SettledBenches

/-!
What the nodes of definitions hold. The bench reads names, descriptions, directives and lists off a
node as they stand in the definition that it was made of.
-/

namespace QueryLint.Workbench

variable {β γ : Type}

section Nodes

variable {origin node : Datum} {tree : Tree}

theorem Datum.sequence?_tupleOf (id : Nat) (items : List Datum) :
    (Datum.tupleOf id items).sequence? = some items := by
  cases items <;> rfl

theorem itemsOf_eq {name : String} {trees : List Tree} (h : Depicts origin tree node)
    (hbranch : .sequence name trees ∈ tree.branches) :
    ∃ items, List.Forall₂ (Depicts origin) trees items ∧ itemsOf node name = pure items := by
  obtain ⟨id, items, hattr, hitems⟩ := h.branch hbranch
  refine ⟨items, hitems, ?_⟩
  rw [itemsOf, attr_eq hattr, pure_bind]
  cases items <;> rfl

theorem descriptionOf_eq {description : Option StringValue} (h : Depicts origin tree node)
    (hbranch : descriptionBranch description ∈ tree.branches) :
    descriptionOf node = pure (.ofText? (describe description)) := by
  cases description with
  | none =>
    have hattr : node.attr? "description" = some .null := h.branch hbranch
    rw [descriptionOf, attr_eq hattr, pure_bind]
    rfl
  | some literal =>
    obtain ⟨child, hattr, hchild⟩ := h.branch hbranch
    have hvalue : child.attr? "value" = some (.text literal.value) :=
      hchild.content ("value", .text literal.value)
        (by simp [StringValue.tree, Tree.data, contentAttributes])
    obtain ⟨id, attributes, hshape, -⟩ := hchild.shape
    have hsome : child.isSome = true := by rw [hshape]; rfl
    rw [descriptionOf, attr_eq hattr, pure_bind, if_pos hsome, attr_eq hvalue]
    rfl

/-- The attributes of a node with two more keys than its location. -/
theorem Depicts.eq_triple {first second : String} {value : Datum} (h : Depicts origin tree node)
    (hkeys : tree.kind.keys = ["loc", first, second]) (hloc : second ≠ "loc")
    (hfirst : second ≠ first) (hvalue : node.attr? second = some value) :
    ∃ id loc held, node = .node id (.exact tree.kind) [loc, held, value] := by
  obtain ⟨id, attributes, rfl, hlength⟩ := h.shape
  rw [hkeys] at hlength
  obtain ⟨loc, held, last, rfl⟩ := List.length_eq_three.mp hlength
  have hother : (second == "loc") = false := beq_eq_false_iff_ne.mpr hloc
  have hnext : (second == first) = false := beq_eq_false_iff_ne.mpr hfirst
  rw [Datum.attr?, Datum.attributes, NodeClass.keys, hkeys] at hvalue
  simp only [List.zip_cons_cons, List.cons_append, List.lookup_cons, hother, hnext,
    beq_self_eq_true, Option.some.injEq] at hvalue
  exact ⟨id, loc, held, by rw [hvalue]⟩

theorem reasonAmong_eq {arguments : List Argument} {items : List Datum}
    (h : List.Forall₂ (fun argument => Depicts origin argument.tree) arguments items) :
    reasonAmong items =
      pure (.text ((arguments.findSome? Argument.reason?).getD defaultDeprecation)) := by
  induction h with
  | nil => rfl
  | @cons argument item arguments items hitem hitems ih =>
    have hname : nameOf item = pure (.ofString argument.name.value) :=
      nameOf_eq hitem (by simp [Argument.tree, Tree.branches])
    have hbranch : .single "value" argument.value.tree ∈ argument.tree.branches := by
      simp [Argument.tree, Tree.branches]
    obtain ⟨child, hattr, hchild⟩ := hitem.branch hbranch
    rw [reasonAmong, hname, pure_bind, Datum.equal_ofString, attr_eq hattr, pure_bind,
      List.findSome?_cons, Argument.reason?]
    by_cases hreason : argument.name.value = "reason"
    · rw [if_pos (decide_eq_true hreason)]
      cases hvalue : argument.value with
      | string literal =>
        rw [hvalue] at hchild
        obtain ⟨id, loc, text, rfl⟩ := hchild.eq_triple rfl (by decide) (by decide)
          (hchild.content ("value", .text literal.value)
            (by simp [Value.tree, StringValue.tree, Tree.data, contentAttributes]))
        simp only [if_pos hreason, Option.getD_some]
        rfl
      | plain text loc =>
        rw [hvalue] at hchild
        obtain ⟨id, attributes, rfl, -⟩ := hchild.shape
        exact ih
    · rw [if_neg (by simpa using hreason), ih]
      cases argument.value <;> simp [hreason]

theorem deprecates_eq {directive : Directive} (h : Depicts origin directive.tree node) :
    deprecates node = pure (directive.name.value == "deprecated") := by
  have hname : nameOf node = pure (.ofString directive.name.value) :=
    nameOf_eq h (by simp [Directive.tree, Tree.branches])
  rw [deprecates, hname, pure_bind, Datum.equal_ofString]
  rfl

theorem findM?_deprecates {directives : List Directive} {items : List Datum}
    (h : List.Forall₂ (fun directive => Depicts origin directive.tree) directives items) :
    ∃ found, items.findM? deprecates = pure found ∧
      Option.Rel (fun item (directive : Directive) => Depicts origin directive.tree item) found
        (directives.find? (·.name.value == "deprecated")) := by
  induction h with
  | nil => exact ⟨none, rfl, .none⟩
  | @cons directive item directives items hitem hitems ih =>
    rw [List.findM?, deprecates_eq hitem, pure_bind, List.find?_cons]
    cases directive.name.value == "deprecated" with
    | true => exact ⟨some item, rfl, .some hitem⟩
    | false => exact ih

/-- The reason why a field is deprecated, if it is. -/
theorem deprecationOf_eq {field : FieldDefinition} (h : Depicts origin field.tree node) :
    deprecationOf node = pure (.ofText? field.deprecation?) := by
  have hbranch : .sequence "directives" (field.directives.map Directive.tree) ∈
      field.tree.branches := by simp [FieldDefinition.tree, Tree.branches, directiveBranch]
  obtain ⟨items, hitems, hread⟩ := itemsOf_eq h hbranch
  obtain ⟨found, hfound, hrel⟩ := findM?_deprecates (List.forall₂_map_left_iff.mp hitems)
  rw [deprecationOf, hread, pure_bind, hfound, pure_bind, FieldDefinition.deprecation?]
  generalize field.directives.find? (·.name.value == "deprecated") = chosen at hrel ⊢
  cases hrel with
  | none => rfl
  | @some item directive hitem =>
    have hbranch : .sequence "arguments" (directive.arguments.map Argument.tree) ∈
        directive.tree.branches := by simp [Directive.tree, Tree.branches]
    obtain ⟨arguments, harguments, hread⟩ := itemsOf_eq hitem hbranch
    simp only [hread, pure_bind, reasonAmong_eq (List.forall₂_map_left_iff.mp harguments)]
    rfl

end Nodes

/-! Maps -/

section Maps

variable {bench : Bench} {related : Datum → β → Prop}

/-- The entry has a value for the item under its name. -/
def EntryOf (related : Datum → β → Prop) (entry : Entry) (item : String × β) : Prop :=
  entry.key = .ofString item.1 ∧ related entry.value item.2

/-- The value is a map with a value for each item, in the same order and under the same names. -/
def IsMapOf (related : Datum → β → Prop) (value : Datum) (map : OrderedMap β) : Prop :=
  ∃ id entries, value = .map id entries ∧ List.Forall₂ (EntryOf related) entries map

theorem forall₂_insert {entries : List Entry} {map : OrderedMap β} {value : Datum} {item : β}
    (h : List.Forall₂ (EntryOf related) entries map) (name : String) (hvalue : related value item) :
    List.Forall₂ (EntryOf related) ((Entry.mk (.ofString name) value).insert entries)
      (map.insert name item) := by
  induction h with
  | nil => exact .cons ⟨rfl, hvalue⟩ .nil
  | @cons entry other entries map hentry hentries ih =>
    obtain ⟨key, old⟩ := other
    have hkey : entry.key.sameKey (Entry.mk (.ofString name) value).key = true ↔ key = name := by
      rw [hentry.1]
      exact (Datum.sameKey_ofString _ _).trans ⟨Text.ofString_injective, congrArg _⟩
    rw [Entry.insert, OrderedMap.insert]
    by_cases hsame : key = name
    · rw [if_pos hsame, if_pos (hkey.mpr hsame)]
      exact .cons ⟨hentry.1, hvalue⟩ hentries
    · rw [if_neg hsame, if_neg (hsame ∘ hkey.mp)]
      exact .cons hentry ih

/-- What nodes make under their names is what is read off the items. -/
theorem mapByName_agrees {origin : Datum} {make : Datum → Session Datum}
    {read : γ → Except SchemaError β} {tree : γ → Tree} {name : γ → Name} {nodes : List Datum}
    {items : List γ} (hnodes : List.Forall₂ (Depicts origin) (items.map tree) nodes)
    (hname : ∀ item, .single "name" (name item).tree ∈ (tree item).branches)
    (hmake : ∀ node item, Depicts origin (tree item) node →
      Agrees bench (make node) (read item) related) :
    Agrees bench (mapByName make nodes)
      (items.foldlM
        (fun (map : OrderedMap β) item => do return map.insert (name item).value (← read item)) [])
      (IsMapOf related) := by
  refine (Agrees.foldlM (List.forall₂_map_left_iff.mp hnodes).flip
    (fun entries map node item hnode hentries => ?_) .nil).bindMakes
    fun entries map _ hentries => (makeMap_makes entries).mono fun value ⟨id, hvalue⟩ =>
      ⟨id, entries, hvalue, hentries⟩
  rw [nameOf_eq hnode (hname item)]
  simp only [pure_bind]
  exact (hmake node item hnode).bind fun value found _ hvalue =>
    .pure (forall₂_insert hentries (name item).value hvalue)

end Maps

end QueryLint.Workbench
