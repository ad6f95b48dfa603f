import SpiceDB.Api

/-!
# The schema translator

`pkg/schemadsl/compiler/translator.go` turns the parse tree of a schema into namespace
definitions: a `definition` node becomes a namespace under the context's object type prefix, its
`relation` and `permission` nodes become relations, a relation's type references its allowed
direct relations, and a permission's expression a userset rewrite.

Three things the file uses are not in the repository snapshot. The parse tree type `dslNode` is
modelled as the translator uses it: a node has a type, string predicates (`GetString`, `Has`),
node predicates (`Lookup` takes the first node of a predicate, `List` all of them) and children
(`GetChildren`). The `dslshape` constants are the enums `NodeType` and `Predicate`, printed under
their Go names. The `pkg/namespace` builders (`Namespace.union` and the others) build the
messages they are named after, with a computed userset on the tuple's object and an arrow's
computed userset on the tuple's userset.

The expression functions call each other on the same node (`translateExpressionOperation` hands
a set operation back to `translateExpression`), so they recurse on three times the node's size
plus a rank that puts a set operation node's `translateExpression` below its
`translateExpressionOperation` and every other node's above it.
-/

namespace SpiceDB

/-! ## The `pkg/namespace` builders -/

namespace Namespace

/-- `namespace.Namespace(name, relations...)`. -/
def namespace_ (name : String) (relations : List Relation) : NamespaceDefinition :=
  ⟨name, relations⟩

/-- `namespace.Relation(name, rewrite, allowedDirectRelations...)`. -/
def relation (name : String) (rewrite : Option UsersetRewrite)
    (allowedDirectRelations : List RelationReference) : Relation :=
  ⟨name, rewrite, allowedDirectRelations⟩

/-- `namespace.Union(firstChild, rest...)`. -/
def union (firstChild : SetOperationChild) (rest : List SetOperationChild) : UsersetRewrite :=
  .union (firstChild :: rest)

/-- `namespace.Intersection(firstChild, rest...)`. -/
def intersection (firstChild : SetOperationChild) (rest : List SetOperationChild) :
    UsersetRewrite :=
  .intersection (firstChild :: rest)

/-- `namespace.Exclusion(firstChild, rest...)`. -/
def exclusion (firstChild : SetOperationChild) (rest : List SetOperationChild) : UsersetRewrite :=
  .exclusion (firstChild :: rest)

/-- `namespace.ComputedUserset(relation)`, taken on the tuple's object. -/
def computedUserset (relation : String) : SetOperationChild :=
  .computedUserset ⟨.tupleObject, relation⟩

/-- `namespace.TupleToUserset(tuplesetRelation, usersetRelation)`. -/
def tupleToUserset (tuplesetRelation usersetRelation : String) : SetOperationChild :=
  .tupleToUserset ⟨⟨tuplesetRelation⟩, ⟨.tupleUsersetObject, usersetRelation⟩⟩

/-- `namespace.Rewrite(rewrite)`. -/
def rewrite (rewrite : UsersetRewrite) : SetOperationChild := .usersetRewrite rewrite

end Namespace

namespace Schema

/-! ## Parse trees -/

/-- The `dslshape.NodeType`s the translator tells apart. -/
inductive NodeType where
  | file
  | definition
  | relation
  | permission
  | unionExpression
  | intersectExpression
  | exclusionExpression
  | arrowExpression
  | identifier
  | typeReference
  | specificTypeReference
  /-- Any other node type, by its name. -/
  | other (name : String)
deriving DecidableEq, Repr

/-- The `%s` of a node type. -/
def NodeType.string : NodeType → String
  | .file => "NodeTypeFile"
  | .definition => "NodeTypeDefinition"
  | .relation => "NodeTypeRelation"
  | .permission => "NodeTypePermission"
  | .unionExpression => "NodeTypeUnionExpression"
  | .intersectExpression => "NodeTypeIntersectExpression"
  | .exclusionExpression => "NodeTypeExclusionExpression"
  | .arrowExpression => "NodeTypeArrowExpression"
  | .identifier => "NodeTypeIdentifier"
  | .typeReference => "NodeTypeTypeReference"
  | .specificTypeReference => "NodeTypeSpecificTypeReference"
  | .other name => name

/-- The three set operation node types. -/
def NodeType.isSetOperation : NodeType → Bool
  | .unionExpression | .intersectExpression | .exclusionExpression => true
  | _ => false

/-- The `dslshape` predicates the translator reads. -/
inductive Predicate where
  /-- `NodeDefinitionPredicateName`. -/
  | definitionName
  /-- `NodePredicateName`. -/
  | name
  /-- `NodeRelationPredicateAllowedTypes`. -/
  | allowedTypes
  /-- `NodePermissionPredicateComputeExpression`. -/
  | computeExpression
  /-- `NodeExpressionPredicateLeftExpr`. -/
  | leftExpr
  /-- `NodeExpressionPredicateRightExpr`. -/
  | rightExpr
  /-- `NodeIdentiferPredicateValue`. -/
  | identifierValue
  /-- `NodeTypeReferencePredicateType`. -/
  | typeReferenceType
  /-- `NodeSpecificReferencePredicateType`. -/
  | specificReferenceType
  /-- `NodeSpecificReferencePredicateRelation`. -/
  | specificReferenceRelation
deriving DecidableEq, Repr

/-- `dslNode`: a node type, string predicates, node predicates and children. -/
inductive DslNode where
  | mk (nodeType : NodeType) (strings : List (Predicate × String))
      (nodes : List (Predicate × DslNode)) (children : List DslNode)

/-- The errors of the translator. -/
inductive TranslateError where
  /-- `GetString` or `Lookup` of a predicate the node does not have. Its text is not in the
  snapshot. -/
  | missingPredicate (predicate : Predicate)
  /-- `node.Errorf(format, ...)`: the formatted message, and the error it wraps with `%w`. -/
  | errorf (message : String) (wrapped : Option TranslateError)

/-- `Errorf(message + "%w", err)`. -/
def TranslateError.wrapping (message : String) (err : TranslateError) : TranslateError :=
  .errorf message (some err)

namespace DslNode

/-- `GetType`. -/
def nodeType : DslNode → NodeType
  | mk nodeType _ _ _ => nodeType

/-- `GetChildren`. -/
def getChildren : DslNode → List DslNode
  | mk _ _ _ children => children

/-- `Has`. -/
def has : DslNode → Predicate → Bool
  | mk _ strings nodes _, predicate =>
    (strings.lookup predicate).isSome || (nodes.lookup predicate).isSome

/-- `GetString`. -/
def getString : DslNode → Predicate → Except TranslateError String
  | mk _ strings _ _, predicate =>
    match strings.lookup predicate with
    | some value => .ok value
    | none => .error (.missingPredicate predicate)

/-- `Lookup`: the first node of a predicate. -/
def lookup : DslNode → Predicate → Except TranslateError DslNode
  | mk _ _ nodes _, predicate =>
    match nodes.lookup predicate with
    | some node => .ok node
    | none => .error (.missingPredicate predicate)

/-- `List`: every node of a predicate, in order. -/
def list : DslNode → Predicate → List DslNode
  | mk _ _ nodes _, predicate => nodes.filterMap fun p => if p.1 = predicate then some p.2 else none

theorem mem_of_lookup {predicate : Predicate} {node : DslNode}
    {nodes : List (Predicate × DslNode)} (h : nodes.lookup predicate = some node) :
    (predicate, node) ∈ nodes := by
  obtain ⟨_, _, rfl, _⟩ := List.lookup_eq_some_iff.mp h
  exact List.mem_append_right _ (List.mem_cons_self _ _)

theorem sizeOf_lt_of_mem {node : DslNode} {nodeType : NodeType}
    {strings : List (Predicate × String)}
    {nodes : List (Predicate × DslNode)} {children : List DslNode} {predicate : Predicate}
    (h : (predicate, node) ∈ nodes) :
    sizeOf node < sizeOf (mk nodeType strings nodes children) := by
  have := List.sizeOf_lt_of_mem h
  simp only [mk.sizeOf_spec, Prod.mk.sizeOf_spec] at this ⊢
  omega

theorem sizeOf_lookup {n node : DslNode} {predicate : Predicate}
    (h : n.lookup predicate = .ok node) :
    sizeOf node < sizeOf n := by
  obtain ⟨_, _, nodes, _⟩ := n
  simp only [lookup] at h
  split at h
  · cases h
    exact sizeOf_lt_of_mem (mem_of_lookup ‹_›)
  · cases h

theorem sizeOf_of_mem_list {n node : DslNode} {predicate : Predicate}
    (h : node ∈ n.list predicate) :
    sizeOf node < sizeOf n := by
  obtain ⟨_, _, nodes, _⟩ := n
  obtain ⟨⟨q, m⟩, hm, hq⟩ := List.mem_filterMap.mp h
  simp only [Option.ite_none_right_eq_some, Option.some.injEq] at hq
  obtain ⟨rfl, rfl⟩ := hq
  exact sizeOf_lt_of_mem hm

end DslNode

/-! ## The translator -/

/-- `translationContext`. -/
structure TranslationContext where
  objectTypePrefix : String

/-- `translationContext.NamespacePath`. -/
def TranslationContext.namespacePath (tc : TranslationContext) (namespaceName : String) : String :=
  tc.objectTypePrefix ++ "/" ++ namespaceName

/-- `stringz.SplitExact(s, sep, &a, &b)`, not in the snapshot: `s` split at every `sep`, when
that gives exactly two parts. -/
def splitExact (s sep : String) : Option (String × String) :=
  match s.splitOn sep with
  | [first, second] => some (first, second)
  | _ => none

mutual

/-- `translateBinary`: the operations of a set operation node's two operands. -/
def translateBinary (tctx : TranslationContext) (expressionNode : DslNode) :
    Except TranslateError (SetOperationChild × SetOperationChild) :=
  match _hleft : expressionNode.lookup .leftExpr, _hright : expressionNode.lookup .rightExpr with
  | .error err, _ => .error err
  | .ok _, .error err => .error err
  | .ok leftChild, .ok rightChild => do
    let leftOperation ← translateExpressionOperation tctx leftChild
    let rightOperation ← translateExpressionOperation tctx rightChild
    pure (leftOperation, rightOperation)
termination_by 3 * sizeOf expressionNode
decreasing_by
  all_goals
    simp_wf
    have := DslNode.sizeOf_lookup _hleft
    have := DslNode.sizeOf_lookup _hright
    split <;> omega

/-- `translateExpression`: the rewrite of a permission's expression. -/
def translateExpression (tctx : TranslationContext) (expressionNode : DslNode) :
    Except TranslateError UsersetRewrite :=
  match _hnode : expressionNode.nodeType with
  | .unionExpression => do
    let (leftOperation, rightOperation) ← translateBinary tctx expressionNode
    pure (Namespace.union leftOperation [rightOperation])
  | .intersectExpression => do
    let (leftOperation, rightOperation) ← translateBinary tctx expressionNode
    pure (Namespace.intersection leftOperation [rightOperation])
  | .exclusionExpression => do
    let (leftOperation, rightOperation) ← translateBinary tctx expressionNode
    pure (Namespace.exclusion leftOperation [rightOperation])
  | .file | .definition | .relation | .permission | .arrowExpression | .identifier
  | .typeReference | .specificTypeReference | .other _ => do
    let op ← translateExpressionOperation tctx expressionNode
    pure (Namespace.union op [])
termination_by 3 * sizeOf expressionNode + if expressionNode.nodeType.isSetOperation then 1 else 2
decreasing_by all_goals simp_wf; simp [_hnode, NodeType.isSetOperation]

/-- `translateExpressionOperation`: the set operation child of an expression. -/
def translateExpressionOperation (tctx : TranslationContext) (expressionOpNode : DslNode) :
    Except TranslateError SetOperationChild :=
  match _hnode : expressionOpNode.nodeType with
  | .identifier => do
    let referencedRelationName ← expressionOpNode.getString .identifierValue
    pure (Namespace.computedUserset referencedRelationName)
  | .arrowExpression =>
    match expressionOpNode.lookup .leftExpr, expressionOpNode.lookup .rightExpr with
    | .error err, _ => .error err
    | .ok _, .error err => .error err
    | .ok leftChild, .ok rightChild =>
      if leftChild.nodeType != .identifier then
        .error (.errorf "Nested arrows not yet supported" none)
      else do
        let tuplesetRelation ← leftChild.getString .identifierValue
        let usersetRelation ← rightChild.getString .identifierValue
        pure (Namespace.tupleToUserset tuplesetRelation usersetRelation)
  | .unionExpression | .intersectExpression | .exclusionExpression => do
    let rewrite ← translateExpression tctx expressionOpNode
    pure (Namespace.rewrite rewrite)
  | .file | .definition | .relation | .permission | .typeReference | .specificTypeReference
  | .other _ =>
    .error (.errorf ("unknown expression node type " ++ expressionOpNode.nodeType.string) none)
termination_by
  3 * sizeOf expressionOpNode + if expressionOpNode.nodeType.isSetOperation then 2 else 1
decreasing_by all_goals simp_wf; simp [_hnode, NodeType.isSetOperation]

end

/-- `translateSpecificTypeReference`: the relation reference a type names. A path with one `/`
names its namespace; any other path is taken under the context's prefix. -/
def translateSpecificTypeReference (tctx : TranslationContext) (typeRefNode : DslNode) :
    Except TranslateError RelationReference := do
  let typePath ← (typeRefNode.getString .specificReferenceType).mapError
    (TranslateError.wrapping "invalid type name: ")
  let (typePrefix, typeName) :=
    match splitExact typePath "/" with
    | some parts => parts
    | none => (tctx.objectTypePrefix, typePath)
  let relationName ←
    if typeRefNode.has .specificReferenceRelation then
      (typeRefNode.getString .specificReferenceRelation).mapError
        (TranslateError.wrapping "invalid type relation: ")
    else pure Ellipsis
  pure ⟨typePrefix ++ "/" ++ typeName, relationName⟩

/-- `translateTypeReference`: the specific references below a type reference, left to right. -/
def translateTypeReference (tctx : TranslationContext) (typeRefNode : DslNode) :
    Except TranslateError (List RelationReference) :=
  match typeRefNode.nodeType with
  | .typeReference => do
    let subReferences ← (typeRefNode.list .typeReferenceType).attach.mapM
      fun ⟨subRefNode, _⟩ => translateTypeReference tctx subRefNode
    pure subReferences.flatten
  | .specificTypeReference => do
    let ref ← translateSpecificTypeReference tctx typeRefNode
    pure [ref]
  | _ => .error (.errorf ("unknown type ref node type " ++ typeRefNode.nodeType.string) none)
termination_by sizeOf typeRefNode
decreasing_by exact DslNode.sizeOf_of_mem_list ‹_›

/-- `translateRelation`. -/
def translateRelation (tctx : TranslationContext) (relationNode : DslNode) :
    Except TranslateError Relation := do
  let relationName ← (relationNode.getString .name).mapError
    (TranslateError.wrapping "invalid relation name: ")
  let allowedDirectTypes ← (relationNode.list .allowedTypes).mapM (translateTypeReference tctx)
  pure (Namespace.relation relationName none allowedDirectTypes.flatten)

/-- `translatePermission`. -/
def translatePermission (tctx : TranslationContext) (permissionNode : DslNode) :
    Except TranslateError Relation := do
  let permissionName ← (permissionNode.getString .name).mapError
    (TranslateError.wrapping "invalid permission name: ")
  let expressionNode ← (permissionNode.lookup .computeExpression).mapError
    (TranslateError.wrapping "invalid permission expression: ")
  let rewrite ← translateExpression tctx expressionNode
  pure (Namespace.relation permissionName (some rewrite) [])

/-- `translateRelationOrPermission`. -/
def translateRelationOrPermission (tctx : TranslationContext) (relOrPermNode : DslNode) :
    Except TranslateError Relation :=
  match relOrPermNode.nodeType with
  | .relation => translateRelation tctx relOrPermNode
  | .permission => translatePermission tctx relOrPermNode
  | _ => .error (.errorf
      ("unknown definition top-level node type " ++ relOrPermNode.nodeType.string) none)

/-- `translateDefinition`: a namespace under the context's prefix. -/
def translateDefinition (tctx : TranslationContext) (defNode : DslNode) :
    Except TranslateError NamespaceDefinition := do
  let definitionName ← (defNode.getString .definitionName).mapError
    (TranslateError.wrapping "invalid definition name: ")
  let relationsAndPermissions ← defNode.getChildren.mapM (translateRelationOrPermission tctx)
  if relationsAndPermissions.isEmpty then
    pure (Namespace.namespace_ (tctx.namespacePath definitionName) [])
  else
    pure (Namespace.namespace_ (tctx.namespacePath definitionName) relationsAndPermissions)

/-- `translate`: one namespace per definition below the root. -/
def translate (tctx : TranslationContext) (root : DslNode) :
    Except TranslateError (List NamespaceDefinition) :=
  root.getChildren.mapM (translateDefinition tctx)

end Schema

end SpiceDB
