import SpiceDB.Schema.Compile

/-!
# What the schema compiler accepts

`Schema.Compile` runs the translator on the parse tree of a schema and finds the schema's
compilation. This module goes the other way: whatever tree `translate` accepts is the parse tree
of a schema, and what it returns is that schema's compilation. The translator rejects every other
tree, so the two together say that it accepts exactly the schema trees (`SchemaTree`) and
computes `Definition.compile` on them.

Each translator function gets one inversion lemma that reads its success back as the tree
relation of its node: `Parses` for expressions, `RefTree` for type references, `MemberTree`,
`DefinitionTree` and `SchemaTree` above them. Expressions and type references recurse on the
node's size, as the translator does; lists of nodes are joined by
`exists_forall₂_of_mapM_eq_ok`, the converse of `mapM_eq_map_of_forall₂`.

Neither `translate` nor `translateDefinition` reads a node's type: any node with a definition
name whose children are relations and permissions compiles as a definition. `DefinitionTree`
asks for no node type either.
-/

namespace SpiceDB

namespace Schema

/-! ## Reading success back -/

section Except

variable {α β γ ε : Type}

theorem bind_eq_ok {x : Except ε α} {f : α → Except ε β} {b : β} :
    x >>= f = .ok b ↔ ∃ a, x = .ok a ∧ f a = .ok b := by
  cases x <;> simp [bind, Except.bind]

theorem mapError_eq_ok {ε' : Type} {x : Except ε α} {f : ε → ε'} {a : α} :
    x.mapError f = .ok a ↔ x = .ok a := by
  cases x <;> simp [Except.mapError]

/-- A list mapped without error relates, element by element, to a list it is the image of. -/
theorem exists_forall₂_of_mapM_eq_ok {R : α → γ → Prop} {f : α → Except ε β} {g : γ → β} :
    ∀ {l : List α} {bs : List β}, (∀ a ∈ l, ∀ b, f a = .ok b → ∃ c, R a c ∧ b = g c) →
      l.mapM f = .ok bs → ∃ cs, List.Forall₂ R l cs ∧ bs = cs.map g
  | [], bs, _, h => by
    cases h
    exact ⟨[], .nil, rfl⟩
  | a :: l, bs, hf, h => by
    rw [List.mapM_cons] at h
    obtain ⟨b, hb, h⟩ := bind_eq_ok.mp h
    obtain ⟨bs', hbs, h⟩ := bind_eq_ok.mp h
    obtain rfl : b :: bs' = bs := Except.ok.inj h
    obtain ⟨c, hc, rfl⟩ := hf a (List.mem_cons_self _ _) b hb
    obtain ⟨cs, hcs, rfl⟩ :=
      exists_forall₂_of_mapM_eq_ok (fun a' ha' => hf a' (List.mem_cons_of_mem _ ha')) hbs
    exact ⟨c :: cs, .cons hc hcs, rfl⟩

end Except

/-! ## Expressions -/

theorem Parses.nodeType_eq {node : DslNode} {e : Expression} (h : Parses node e) :
    node.nodeType = e.nodeType := by
  cases h with
  | identifier hnt => exact hnt
  | arrow hnt => exact hnt
  | binary _ hnt => exact hnt

theorem Expression.rewrite_of_not_isSetOperation {e : Expression}
    (h : e.nodeType.isSetOperation = false) : e.rewrite = Namespace.union e.operation [] := by
  cases e <;> first | rfl | cases h

theorem Expression.operation_of_isSetOperation {e : Expression}
    (h : e.nodeType.isSetOperation = true) : e.operation = Namespace.rewrite e.rewrite := by
  cases e <;> first | rfl | cases h

variable (tctx : TranslationContext)

theorem translateBinary_eq_ok {node : DslNode} {l r : SetOperationChild}
    (h : translateBinary tctx node = .ok (l, r)) :
    ∃ leftChild rightChild, node.lookup .leftExpr = .ok leftChild ∧
      node.lookup .rightExpr = .ok rightChild ∧
      translateExpressionOperation tctx leftChild = .ok l ∧
      translateExpressionOperation tctx rightChild = .ok r := by
  rw [translateBinary] at h
  split at h
  · cases h
  · cases h
  · rename_i leftChild rightChild hl hr
    obtain ⟨l', hl', h⟩ := bind_eq_ok.mp h
    obtain ⟨r', hr', h⟩ := bind_eq_ok.mp h
    cases h
    exact ⟨leftChild, rightChild, hl, hr, hl', hr'⟩

/-- On a set operation node, `translateExpression` succeeds only with the node's operator applied
to the two operations `translateBinary` finds, which is the rewrite of the expression of that
operator on any two operand expressions of those operations. -/
theorem translateExpression_binary_eq_ok {node : DslNode} {rw : UsersetRewrite}
    (hset : node.nodeType.isSetOperation = true) (h : translateExpression tctx node = .ok rw) :
    ∃ l r, translateBinary tctx node = .ok (l, r) ∧
      ∀ left right : Expression, l = left.operation → r = right.operation →
        ∃ e : Expression,
          (e = .union left right ∨ e = .intersection left right ∨ e = .exclusion left right) ∧
          node.nodeType = e.nodeType ∧ rw = e.rewrite := by
  revert h
  rw [translateExpression]
  split
  case h_1 hnt | h_2 hnt | h_3 hnt =>
    intro h
    obtain ⟨⟨l, r⟩, hb, h⟩ := bind_eq_ok.mp h
    cases h
    refine ⟨l, r, hb, fun left right hl hr => ?_⟩
    subst hl hr
    first
      | exact ⟨.union left right, .inl rfl, hnt, rfl⟩
      | exact ⟨.intersection left right, .inr (.inl rfl), hnt, rfl⟩
      | exact ⟨.exclusion left right, .inr (.inr rfl), hnt, rfl⟩
  all_goals rename_i hnt; simp [hnt, NodeType.isSetOperation] at hset

/-- **What `translateExpressionOperation` accepts.** Where it succeeds, the node is a parse
tree of an expression and the operation is that expression's. -/
theorem parses_of_translateExpressionOperation {node : DslNode} {op : SetOperationChild}
    (h : translateExpressionOperation tctx node = .ok op) :
    ∃ e, Parses node e ∧ op = e.operation := by
  cases hset : node.nodeType.isSetOperation
  case true =>
    -- a set operation: its rewrite, from the operations of the two operands
    rw [translateExpressionOperation_of_isSetOperation tctx hset] at h
    obtain ⟨rw, hrw, h⟩ := bind_eq_ok.mp h
    cases h
    obtain ⟨l, r, hb, hcomb⟩ := translateExpression_binary_eq_ok tctx hset hrw
    obtain ⟨leftChild, rightChild, hl, hr, hlo, hro⟩ := translateBinary_eq_ok tctx hb
    obtain ⟨left, hleft, rfl⟩ := parses_of_translateExpressionOperation hlo
    obtain ⟨right, hright, rfl⟩ := parses_of_translateExpressionOperation hro
    obtain ⟨e, he, hnt, rfl⟩ := hcomb left right rfl rfl
    exact ⟨e, .binary he hnt hl hr hleft hright,
      (Expression.operation_of_isSetOperation (hnt ▸ hset)).symm⟩
  case false =>
    rw [translateExpressionOperation] at h
    split at h
    case h_1 hnt =>
      obtain ⟨name, hv, h⟩ := bind_eq_ok.mp h
      cases h
      exact ⟨.identifier name, .identifier hnt hv, rfl⟩
    case h_2 hnt =>
      split at h
      · cases h
      · cases h
      · rename_i leftChild rightChild hl hr
        split at h
        · cases h
        · rename_i hlt
          obtain ⟨tuplesetRelation, hlv, h⟩ := bind_eq_ok.mp h
          obtain ⟨computedRelation, hrv, h⟩ := bind_eq_ok.mp h
          cases h
          exact ⟨.arrow tuplesetRelation computedRelation,
            .arrow hnt hl hr (by simpa using hlt) hlv hrv, rfl⟩
    all_goals first | cases h | (rename_i hnt; simp [hnt, NodeType.isSetOperation] at hset)
termination_by sizeOf node
decreasing_by
  · exact DslNode.sizeOf_lookup hl
  · exact DslNode.sizeOf_lookup hr

/-- **What `translateExpression` accepts.** Where it succeeds, the node is a parse tree of an
expression and the rewrite is that expression's. -/
theorem parses_of_translateExpression {node : DslNode} {rw : UsersetRewrite}
    (h : translateExpression tctx node = .ok rw) : ∃ e, Parses node e ∧ rw = e.rewrite := by
  cases hset : node.nodeType.isSetOperation
  case false =>
    rw [translateExpression_of_not_isSetOperation tctx hset] at h
    obtain ⟨op, hop, h⟩ := bind_eq_ok.mp h
    cases h
    obtain ⟨e, he, rfl⟩ := parses_of_translateExpressionOperation tctx hop
    exact ⟨e, he, (Expression.rewrite_of_not_isSetOperation (he.nodeType_eq ▸ hset)).symm⟩
  case true =>
    have hop := translateExpressionOperation_of_isSetOperation tctx hset
    rw [h] at hop
    obtain ⟨e, he, hrw⟩ := parses_of_translateExpressionOperation tctx hop
    rw [Expression.operation_of_isSetOperation (he.nodeType_eq ▸ hset)] at hrw
    exact ⟨e, he, SetOperationChild.usersetRewrite.inj hrw⟩

/-! ## Type references -/

theorem translateSpecificTypeReference_eq_ok {node : DslNode} {ref : RelationReference}
    (h : translateSpecificTypeReference tctx node = .ok ref) :
    ∃ path relation, node.getString .specificReferenceType = .ok path ∧
      node.WritesRelation relation ∧
      ref = ⟨referencedNamespace tctx.objectTypePrefix path, relation.getD Ellipsis⟩ := by
  obtain ⟨path, hpath, -⟩ := bind_eq_ok.mp h
  rw [mapError_eq_ok] at hpath
  obtain ⟨relation, hrel⟩ : ∃ relation, node.WritesRelation relation := by
    cases hhas : node.has .specificReferenceRelation
    · exact ⟨none, hhas⟩
    · rcases hr : node.getString .specificReferenceRelation with err | r
      · -- a relation predicate without a string: the translator fails
        simp [translateSpecificTypeReference, hpath, hhas, hr, Except.mapError, bind,
          Except.bind] at h
      · exact ⟨some r, hr⟩
  rw [translateSpecificTypeReference_eq hpath hrel] at h
  exact ⟨path, relation, hpath, hrel, (Except.ok.inj h).symm⟩

theorem refTrees_of_forall₂ :
    ∀ {nodes : List DslNode} {ts : List TypeRef}, List.Forall₂ RefTree nodes ts → RefTrees nodes ts
  | _, _, .nil => .nil
  | _, _, .cons h hs => .cons h (refTrees_of_forall₂ hs)

/-- **What `translateTypeReference` accepts.** Where it succeeds, the node is a type reference
tree and the references are the tree's. -/
theorem refTree_of_translateTypeReference {node : DslNode} {refs : List RelationReference}
    (h : translateTypeReference tctx node = .ok refs) :
    ∃ t, RefTree node t ∧ refs = t.references tctx.objectTypePrefix := by
  rw [translateTypeReference] at h
  split at h
  case h_1 hnt =>
    obtain ⟨subReferences, hsub, h⟩ := bind_eq_ok.mp h
    cases h
    rw [mapM_subtype (fun _ => rfl), List.attach_map_subtype_val] at hsub
    obtain ⟨ts, hts, rfl⟩ := exists_forall₂_of_mapM_eq_ok
      (fun _ hmem _ hb => refTree_of_translateTypeReference hb) hsub
    exact ⟨.typeReference ts, .typeReference hnt (refTrees_of_forall₂ hts),
      by rw [TypeRef.references, referencesAll_eq]⟩
  case h_2 hnt =>
    obtain ⟨ref, href, h⟩ := bind_eq_ok.mp h
    cases h
    obtain ⟨path, relation, hpath, hrel, rfl⟩ := translateSpecificTypeReference_eq_ok tctx href
    exact ⟨.specific path relation, .specific hnt hpath hrel, rfl⟩
  all_goals cases h
termination_by sizeOf node
decreasing_by exact DslNode.sizeOf_of_mem_list hmem

/-! ## Members, definitions and schemas -/

theorem memberTree_of_translateRelationOrPermission {node : DslNode} {r : Relation}
    (h : translateRelationOrPermission tctx node = .ok r) :
    ∃ m, MemberTree node m ∧ r = m.compile tctx.objectTypePrefix := by
  rw [translateRelationOrPermission] at h
  split at h
  case h_1 hnt =>
    obtain ⟨name, hname, h⟩ := bind_eq_ok.mp h
    obtain ⟨allowed, hallowed, h⟩ := bind_eq_ok.mp h
    cases h
    obtain ⟨ts, hts, rfl⟩ := exists_forall₂_of_mapM_eq_ok
      (fun _ _ _ hb => refTree_of_translateTypeReference tctx hb) hallowed
    exact ⟨.relation name ts, .relation hnt (mapError_eq_ok.mp hname) (refTrees_of_forall₂ hts),
      by rw [Member.compile, referencesAll_eq]⟩
  case h_2 hnt =>
    obtain ⟨name, hname, h⟩ := bind_eq_ok.mp h
    obtain ⟨expressionNode, hexpr, h⟩ := bind_eq_ok.mp h
    obtain ⟨rw, hrw, h⟩ := bind_eq_ok.mp h
    cases h
    obtain ⟨e, he, rfl⟩ := parses_of_translateExpression tctx hrw
    exact ⟨.permission name e,
      .permission hnt (mapError_eq_ok.mp hname) (mapError_eq_ok.mp hexpr) he, rfl⟩
  all_goals cases h

theorem definitionTree_of_translateDefinition {node : DslNode} {ns : NamespaceDefinition}
    (h : translateDefinition tctx node = .ok ns) :
    ∃ d, DefinitionTree node d ∧ ns = d.compile tctx := by
  obtain ⟨name, hname, h⟩ := bind_eq_ok.mp h
  obtain ⟨rs, hrs, h⟩ := bind_eq_ok.mp h
  obtain ⟨ms, hms, rfl⟩ := exists_forall₂_of_mapM_eq_ok
    (fun _ _ _ hb => memberTree_of_translateRelationOrPermission tctx hb) hrs
  refine ⟨⟨name, ms⟩, ⟨mapError_eq_ok.mp hname, hms⟩, ?_⟩
  -- both branches build the namespace of the members' relations
  split at h
  · rename_i hempty
    cases h
    rw [Definition.compile, List.isEmpty_iff.mp hempty]
  · cases h
    rfl

/-- **The schema compiler accepts exactly the schema trees.** Under any object type prefix,
`translate` succeeds on a parse tree exactly when the tree is the parse tree of a schema, and
what it returns is then that schema's compilation: one namespace per definition, in order, with
one relation per member, in order. -/
theorem translate_accepts_schemaTrees (root : DslNode) (nss : List NamespaceDefinition) :
    translate tctx root = .ok nss ↔
      ∃ defs, SchemaTree root defs ∧ nss = defs.map (Definition.compile tctx) := by
  constructor
  · exact exists_forall₂_of_mapM_eq_ok fun _ _ _ hb => definitionTree_of_translateDefinition tctx hb
  · rintro ⟨defs, hdefs, rfl⟩
    exact translate_of_schemaTree tctx hdefs

end Schema

end SpiceDB
