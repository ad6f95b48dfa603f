import SpiceDB.Schema.Translator
import Mathlib.Data.Set.Basic

/-!
# What a translated permission means

A permission's expression is written with relation names, arrows `a->b` and the operators `+`,
`&` and `-`. Under a valuation that gives each relation name and each arrow a set of subjects, the
expression means a set, read left to right. A userset rewrite means a set under the same
valuation: a union, intersection or exclusion of its children, where an exclusion takes the first
child minus the others.

`translateExpression` is correct: on every parse tree of an expression it succeeds, and the
rewrite it returns means what the expression means. The proof goes through the rewrite the
translator builds for an expression (`Expression.rewrite`): `translateExpression_parses` shows
the translator computes it on any parse tree, by induction on the tree, and
`Expression.denote_rewrite` that it means what the expression means, by induction on the
expression.
-/

namespace SpiceDB

namespace Schema

/-- A valuation: the subjects of each relation of the object, of each arrow (its tupleset
relation, then the relation computed on the tupleset's subjects), and of the relation's own
tuples. -/
structure Valuation (α : Type) where
  relation : String → Set α
  arrow : String → String → Set α
  this : Set α

end Schema

section Denote

variable {α : Type} (ρ : Schema.Valuation α)

mutual

/-- The set a rewrite means. -/
def UsersetRewrite.denote : UsersetRewrite → Set α
  | .union child => SetOperationChild.unionOf child
  | .intersection child => SetOperationChild.interOf child
  | .exclusion child => SetOperationChild.exceptOf child
  | .unset => ∅

/-- The set a child of a set operation means. A computed userset is read on the request's own
object (`TUPLE_OBJECT`) and an arrow's computed userset on each tupleset subject
(`TUPLE_USERSET_OBJECT`); a child read on any other object is outside the valuation and means
nothing. -/
def SetOperationChild.denote : SetOperationChild → Set α
  | .this => ρ.this
  | .computedUserset cu => if cu.object = .tupleObject then ρ.relation cu.relation else ∅
  | .usersetRewrite rw => rw.denote
  | .tupleToUserset ttu =>
    if ttu.computedUserset.object = .tupleUsersetObject then
      ρ.arrow ttu.tupleset.relation ttu.computedUserset.relation
    else ∅
  | .unset => ∅

/-- The union of the children. -/
def SetOperationChild.unionOf : List SetOperationChild → Set α
  | [] => ∅
  | c :: cs => c.denote ∪ SetOperationChild.unionOf cs

/-- The intersection of the children. -/
def SetOperationChild.interOf : List SetOperationChild → Set α
  | [] => Set.univ
  | c :: cs => c.denote ∩ SetOperationChild.interOf cs

/-- The first child minus the union of the others. -/
def SetOperationChild.exceptOf : List SetOperationChild → Set α
  | [] => ∅
  | c :: cs => c.denote \ SetOperationChild.unionOf cs

end

@[simp]
theorem Namespace.denote_union (first : SetOperationChild) (rest : List SetOperationChild) :
    (Namespace.union first rest).denote ρ =
      first.denote ρ ∪ SetOperationChild.unionOf ρ rest := by
  simp only [Namespace.union, UsersetRewrite.denote, SetOperationChild.unionOf]

@[simp]
theorem Namespace.denote_intersection (first : SetOperationChild) (rest : List SetOperationChild) :
    (Namespace.intersection first rest).denote ρ =
      first.denote ρ ∩ SetOperationChild.interOf ρ rest := by
  simp only [Namespace.intersection, UsersetRewrite.denote, SetOperationChild.interOf]

@[simp]
theorem Namespace.denote_exclusion (first : SetOperationChild) (rest : List SetOperationChild) :
    (Namespace.exclusion first rest).denote ρ =
      first.denote ρ \ SetOperationChild.unionOf ρ rest := by
  simp only [Namespace.exclusion, UsersetRewrite.denote, SetOperationChild.exceptOf]

@[simp]
theorem unionOf_singleton (c : SetOperationChild) :
    SetOperationChild.unionOf ρ [c] = c.denote ρ := by
  simp only [SetOperationChild.unionOf, Set.union_empty]

@[simp]
theorem interOf_singleton (c : SetOperationChild) :
    SetOperationChild.interOf ρ [c] = c.denote ρ := by
  simp only [SetOperationChild.interOf, Set.inter_univ]

@[simp]
theorem unionOf_nil : SetOperationChild.unionOf ρ [] = ∅ := rfl

theorem SetOperationChild.denote_computedUserset {cu : ComputedUserset}
    (h : cu.object = .tupleObject) :
    SetOperationChild.denote ρ (.computedUserset cu) = ρ.relation cu.relation :=
  if_pos h

theorem SetOperationChild.denote_tupleToUserset {ttu : TupleToUserset}
    (h : ttu.computedUserset.object = .tupleUsersetObject) :
    SetOperationChild.denote ρ (.tupleToUserset ttu) =
      ρ.arrow ttu.tupleset.relation ttu.computedUserset.relation :=
  if_pos h

@[simp]
theorem Namespace.denote_computedUserset (relation : String) :
    (Namespace.computedUserset relation).denote ρ = ρ.relation relation := rfl

@[simp]
theorem Namespace.denote_tupleToUserset (tuplesetRelation usersetRelation : String) :
    (Namespace.tupleToUserset tuplesetRelation usersetRelation).denote ρ =
      ρ.arrow tuplesetRelation usersetRelation := rfl

@[simp]
theorem Namespace.denote_rewrite (rw : UsersetRewrite) :
    (Namespace.rewrite rw).denote ρ = rw.denote ρ := rfl

end Denote

namespace Schema

/-! ## Permission expressions -/

/-- A permission expression: relation names, arrows between relation names, and the three set
operations. -/
inductive Expression where
  | identifier (name : String)
  | arrow (tuplesetRelation computedRelation : String)
  | union (left right : Expression)
  | intersection (left right : Expression)
  | exclusion (left right : Expression)
deriving DecidableEq, Repr

/-- What an expression means, operands read left to right. -/
def Expression.denote {α : Type} (ρ : Valuation α) : Expression → Set α
  | .identifier name => ρ.relation name
  | .arrow tuplesetRelation computedRelation => ρ.arrow tuplesetRelation computedRelation
  | .union left right => left.denote ρ ∪ right.denote ρ
  | .intersection left right => left.denote ρ ∩ right.denote ρ
  | .exclusion left right => left.denote ρ \ right.denote ρ

/-- The node type of an expression's parse tree. -/
def Expression.nodeType : Expression → NodeType
  | .identifier _ => .identifier
  | .arrow _ _ => .arrowExpression
  | .union _ _ => .unionExpression
  | .intersection _ _ => .intersectExpression
  | .exclusion _ _ => .exclusionExpression

/-- `node` is a parse tree of the expression: it has the expression's node type, an identifier
its name, and a binary node its two operands, which for an arrow are identifiers and otherwise
parse trees of the subexpressions. Other predicates and children may be present. -/
inductive Parses : DslNode → Expression → Prop
  | identifier {node : DslNode} {name : String} :
      node.nodeType = .identifier → node.getString .identifierValue = .ok name →
      Parses node (.identifier name)
  | arrow {node leftChild rightChild : DslNode} {tuplesetRelation computedRelation : String} :
      node.nodeType = .arrowExpression →
      node.lookup .leftExpr = .ok leftChild → node.lookup .rightExpr = .ok rightChild →
      leftChild.nodeType = .identifier →
      leftChild.getString .identifierValue = .ok tuplesetRelation →
      rightChild.getString .identifierValue = .ok computedRelation →
      Parses node (.arrow tuplesetRelation computedRelation)
  | binary {node leftChild rightChild : DslNode} {e left right : Expression} :
      e = .union left right ∨ e = .intersection left right ∨ e = .exclusion left right →
      node.nodeType = e.nodeType →
      node.lookup .leftExpr = .ok leftChild → node.lookup .rightExpr = .ok rightChild →
      Parses leftChild left → Parses rightChild right → Parses node e

/-- An identifier node. -/
def identifierNode (name : String) : DslNode := .mk .identifier [(.identifierValue, name)] [] []

/-- A binary node of two operands. -/
def binaryNode (nodeType : NodeType) (left right : DslNode) : DslNode :=
  .mk nodeType [] [(.leftExpr, left), (.rightExpr, right)] []

/-- The parse tree of an expression the parser would build, without source positions. -/
def Expression.toNode : Expression → DslNode
  | .identifier name => identifierNode name
  | .arrow tuplesetRelation computedRelation =>
    binaryNode .arrowExpression (identifierNode tuplesetRelation) (identifierNode computedRelation)
  | .union left right => binaryNode .unionExpression left.toNode right.toNode
  | .intersection left right => binaryNode .intersectExpression left.toNode right.toNode
  | .exclusion left right => binaryNode .exclusionExpression left.toNode right.toNode

theorem parses_toNode : ∀ e : Expression, Parses e.toNode e
  | .identifier _ => .identifier rfl rfl
  | .arrow _ _ => .arrow rfl rfl rfl rfl rfl rfl
  | .union left right => .binary (.inl rfl) rfl rfl rfl (parses_toNode left) (parses_toNode right)
  | .intersection left right =>
    .binary (.inr (.inl rfl)) rfl rfl rfl (parses_toNode left) (parses_toNode right)
  | .exclusion left right =>
    .binary (.inr (.inr rfl)) rfl rfl rfl (parses_toNode left) (parses_toNode right)

/-! ## What the translator builds -/

/-- The set operation child `translateExpressionOperation` builds for an expression. -/
def Expression.operation : Expression → SetOperationChild
  | .identifier name => Namespace.computedUserset name
  | .arrow tuplesetRelation computedRelation =>
    Namespace.tupleToUserset tuplesetRelation computedRelation
  | .union left right => Namespace.rewrite (Namespace.union left.operation [right.operation])
  | .intersection left right =>
    Namespace.rewrite (Namespace.intersection left.operation [right.operation])
  | .exclusion left right =>
    Namespace.rewrite (Namespace.exclusion left.operation [right.operation])

/-- The rewrite `translateExpression` builds for an expression. -/
def Expression.rewrite : Expression → UsersetRewrite
  | .union left right => Namespace.union left.operation [right.operation]
  | .intersection left right => Namespace.intersection left.operation [right.operation]
  | .exclusion left right => Namespace.exclusion left.operation [right.operation]
  | e => Namespace.union e.operation []

theorem Expression.denote_operation {α : Type} (ρ : Valuation α) :
    ∀ e : Expression, e.operation.denote ρ = e.denote ρ
  | .identifier _ | .arrow _ _ => rfl
  | .union left right | .intersection left right | .exclusion left right => by
    simp only [operation, Namespace.denote_rewrite, Namespace.denote_union,
      Namespace.denote_intersection, Namespace.denote_exclusion,
      unionOf_singleton, interOf_singleton, denote_operation ρ left, denote_operation ρ right,
      denote]

theorem Expression.denote_rewrite {α : Type} (ρ : Valuation α) (e : Expression) :
    e.rewrite.denote ρ = e.denote ρ := by
  cases e <;>
    simp only [rewrite, Namespace.denote_union, Namespace.denote_intersection,
      Namespace.denote_exclusion, unionOf_singleton,
      interOf_singleton, unionOf_nil, Set.union_empty, denote_operation, denote]

/-! ## The translator on parse trees -/

variable (tctx : TranslationContext)

theorem translateBinary_eq {node leftChild rightChild : DslNode}
    {leftOperation rightOperation : SetOperationChild}
    (hl : node.lookup .leftExpr = .ok leftChild) (hr : node.lookup .rightExpr = .ok rightChild)
    (hlo : translateExpressionOperation tctx leftChild = .ok leftOperation)
    (hro : translateExpressionOperation tctx rightChild = .ok rightOperation) :
    translateBinary tctx node = .ok (leftOperation, rightOperation) := by
  rw [translateBinary]
  split
  · simp_all
  · simp_all
  · simp_all [bind, Except.bind, pure, Except.pure]

theorem translateExpressionOperation_of_isSetOperation {node : DslNode}
    (h : node.nodeType.isSetOperation = true) :
    translateExpressionOperation tctx node =
      Namespace.rewrite <$> translateExpression tctx node := by
  rw [translateExpressionOperation]
  split <;> simp_all [NodeType.isSetOperation]

theorem translateExpression_of_not_isSetOperation {node : DslNode}
    (h : node.nodeType.isSetOperation = false) :
    translateExpression tctx node =
      (Namespace.union · []) <$> translateExpressionOperation tctx node := by
  rw [translateExpression]
  split <;> simp_all [NodeType.isSetOperation]

/-- On an identifier or an arrow, `translateExpression` is the union of the operation alone. -/
theorem translateExpression_of_operation {node : DslNode} {e : Expression}
    (he : e.nodeType.isSetOperation = false) (hnt : node.nodeType = e.nodeType)
    (hop : translateExpressionOperation tctx node = .ok e.operation) :
    translateExpressionOperation tctx node = .ok e.operation ∧
      translateExpression tctx node = .ok e.rewrite := by
  refine ⟨hop, ?_⟩
  rw [translateExpression_of_not_isSetOperation tctx (hnt ▸ he), hop]
  cases e <;> simp_all [NodeType.isSetOperation, Expression.nodeType] <;> rfl

theorem translateExpressionOperation_of_identifier {node : DslNode} {name : String}
    (hnt : node.nodeType = .identifier) (hv : node.getString .identifierValue = .ok name) :
    translateExpressionOperation tctx node = .ok (Namespace.computedUserset name) := by
  rw [translateExpressionOperation]
  split <;> simp_all

theorem translateExpressionOperation_of_arrow {node leftChild rightChild : DslNode}
    {tuplesetRelation computedRelation : String} (hnt : node.nodeType = .arrowExpression)
    (hl : node.lookup .leftExpr = .ok leftChild) (hr : node.lookup .rightExpr = .ok rightChild)
    (hlt : leftChild.nodeType = .identifier)
    (hlv : leftChild.getString .identifierValue = .ok tuplesetRelation)
    (hrv : rightChild.getString .identifierValue = .ok computedRelation) :
    translateExpressionOperation tctx node =
      .ok (Namespace.tupleToUserset tuplesetRelation computedRelation) := by
  rw [translateExpressionOperation]
  split <;> simp_all [bind, Except.bind, pure, Except.pure]

/-- On a set operation whose operands translate, both functions combine them. -/
theorem translateExpression_of_binary {node : DslNode} {e left right : Expression}
    (he : e = .union left right ∨ e = .intersection left right ∨ e = .exclusion left right)
    (hnt : node.nodeType = e.nodeType)
    (hb : translateBinary tctx node = .ok (left.operation, right.operation)) :
    translateExpressionOperation tctx node = .ok e.operation ∧
      translateExpression tctx node = .ok e.rewrite := by
  have hrw : translateExpression tctx node = .ok e.rewrite := by
    rw [translateExpression]
    rcases he with rfl | rfl | rfl <;> split <;> simp_all [Expression.nodeType] <;> rfl
  have hset : node.nodeType.isSetOperation = true := by
    rcases he with rfl | rfl | rfl <;> simp [hnt, Expression.nodeType, NodeType.isSetOperation]
  rw [translateExpressionOperation_of_isSetOperation tctx hset, hrw]
  rcases he with rfl | rfl | rfl <;> exact ⟨rfl, rfl⟩

/-- On every parse tree of an expression, the translator builds the expression's operation and
rewrite. -/
theorem translateExpression_parses {node : DslNode} {e : Expression} (h : Parses node e) :
    translateExpressionOperation tctx node = .ok e.operation ∧
      translateExpression tctx node = .ok e.rewrite := by
  induction h with
  | identifier hnt hv =>
    exact translateExpression_of_operation tctx rfl hnt
      (translateExpressionOperation_of_identifier tctx hnt hv)
  | arrow hnt hl hr hlt hlv hrv =>
    exact translateExpression_of_operation tctx rfl hnt
      (translateExpressionOperation_of_arrow tctx hnt hl hr hlt hlv hrv)
  | binary he hnt hl hr _ _ ihl ihr =>
    exact translateExpression_of_binary tctx he hnt (translateBinary_eq tctx hl hr ihl.1 ihr.1)

/-- A permission whose expression parses compiles to a relation with the expression's rewrite and
no allowed types. -/
theorem translatePermission_parses {permissionNode expressionNode : DslNode} {name : String}
    {e : Expression} (hname : permissionNode.getString .name = .ok name)
    (hexpr : permissionNode.lookup .computeExpression = .ok expressionNode)
    (h : Parses expressionNode e) :
    translatePermission tctx permissionNode =
      .ok (Namespace.relation name (some e.rewrite) []) := by
  simp only [translatePermission, hname, hexpr, Except.mapError, bind, Except.bind,
    (translateExpression_parses tctx h).2]
  rfl

/-- **The translator preserves meaning.** On every parse tree of a permission expression,
`translateExpression` succeeds, and under every valuation the rewrite it returns means what the
expression means read left to right. -/
theorem translateExpression_preserves_meaning {node : DslNode} {e : Expression}
    (h : Parses node e) :
    ∃ rw, translateExpression tctx node = .ok rw ∧
      ∀ (α : Type) (ρ : Valuation α), rw.denote ρ = e.denote ρ :=
  ⟨e.rewrite, (translateExpression_parses tctx h).2, fun _ ρ => e.denote_rewrite ρ⟩

/-- `viewer + parent->view - banned`. -/
def viewerOrParentNotBanned : Expression :=
  .exclusion (.union (.identifier "viewer") (.arrow "parent" "view")) (.identifier "banned")

theorem translateExpression_preserves_meaning_viewerOrParentNotBanned :
    Parses viewerOrParentNotBanned.toNode viewerOrParentNotBanned ∧
      ∃ rw, translateExpression ⟨"example"⟩ viewerOrParentNotBanned.toNode = .ok rw ∧
        ∀ (α : Type) (ρ : Valuation α), rw.denote ρ = viewerOrParentNotBanned.denote ρ :=
  ⟨parses_toNode _, translateExpression_preserves_meaning _ (parses_toNode _)⟩

end Schema

end SpiceDB
