import SpiceDB.Api

/-!
# The expander

`internal/graph/expand.go` builds, for a request and the relation it names, a tree
of deferred closures (`ReduceableExpandFunc`), and a reducer later runs the
children of each node and folds their results into a `RelationTupleTreeNode`.

The closures are defunctionalised: `ExpandFunc` has one constructor per closure
literal of the file, carrying what that closure captured. Building a closure uses
nothing of the expander; running it does, so construction (`expand`,
`expandUsersetRewrite`, `expandComputedUserset`) is pure and may only panic, and
`ConcurrentExpander.run` is the body of each closure against a dispatcher `d` and
a datastore `ds`.

This file is the *sequential* reading: a reducer runs its children one at a time
in list order and stops at the first failure. `Goroutines.lean` runs the same
closures concurrently and shows it returns nothing else.

The dispatcher is not in the repository snapshot. `LocalDispatcher` is modelled
from the spec, and the recursion through it is cut by fuel; `Depth.lean` shows that
fuel above `DepthRemaining` never runs out.
-/

namespace SpiceDB.Graph

/-- `ExpansionMode`. -/
inductive ExpansionMode where
  | shallowExpansion
  | recursiveExpansion
deriving DecidableEq, Repr

/-- `ExpandRequest`. -/
structure ExpandRequest where
  start : ObjectAndRelation
  atRevision : Revision
  depthRemaining : UInt16
  expansionMode : ExpansionMode
deriving DecidableEq, Repr

/-- The errors an expansion reports. -/
inductive ExpandError where
  /-- `NewExpansionFailureErr(err)`: a datastore or namespace manager error. -/
  | expansionFailure (cause : String)
  | requestCanceled
  /-- The dispatcher's depth guard. -/
  | maxDepthExceeded
  /-- `errAlwaysFailExpand`. -/
  | alwaysFail
deriving DecidableEq, Repr

/-- `ExpandResult`: a tree, or an error. -/
structure ExpandResult where
  tree : Option RelationTupleTreeNode
  err : Option ExpandError
deriving Repr

/-- Exactly one of the two fields is set. -/
def ExpandResult.Valid (r : ExpandResult) : Prop := r.tree.isSome ≠ r.err.isSome

/-- How a closure or a call ends. -/
inductive Outcome where
  /-- It sends, or returns, `r`. -/
  | result (r : ExpandResult)
  /-- It panics, and the process dies. -/
  | panic (msg : String)
  /-- The model's fuel ran out. -/
  | outOfFuel
deriving Repr

/-- The text of Go's nil pointer panic. -/
def nilDereference : String := "runtime error: invalid memory address or nil pointer dereference"

/-- `startInclusion`: whether a direct read labels its leaf with the request's start. -/
inductive StartInclusion where
  | includeStart
  | excludeStart
deriving DecidableEq, Repr

/-- `ReduceableExpandFunc`, one constructor per closure literal. -/
inductive ExpandFunc where
  /-- Returned by `expandDirect(ctx, req, startBehavior)`. -/
  | direct (req : ExpandRequest) (startBehavior : StartInclusion)
  /-- Returned by `expandSetOperation(ctx, req, so, reducer)`. -/
  | setOperation (req : ExpandRequest) (reducer : Operation) (requests : List ExpandFunc)
  /-- Returned by `dispatch(req)`. -/
  | dispatch (req : ExpandRequest)
  /-- Returned by `expandTupleToUserset(ctx, req, ttu)`. -/
  | tupleToUserset (req : ExpandRequest) (ttu : TupleToUserset)
  /-- `alwaysFailExpand`. -/
  | alwaysFail
deriving Repr

/-! ## Collaborators -/

/-- `QueryTuples(namespace, revision).WithObjectID(objectId).WithRelation(relation)`. -/
structure TupleQuery where
  namespace_ : String
  revision : Revision
  objectId : String
  relation : String
deriving DecidableEq, Repr

/-- `datastore.GraphDatastore`: what an executed query's iterator yields, or the error it
reports. -/
structure GraphDatastore where
  queryTuples : TupleQuery → Except String (List RelationTuple)

/-- The `Expand` method of `Dispatcher`. -/
structure Dispatcher where
  expand : ExpandRequest → Outcome

/-- `concurrentExpander`. -/
structure ConcurrentExpander where
  d : Dispatcher
  ds : GraphDatastore

/-! ## Building closures -/

namespace ConcurrentExpander

/-- The object `expandComputedUserset` takes the relation on, or the text of the panic. -/
def computedUsersetStart (req : ExpandRequest) (cu : ComputedUserset) (tpl : Option RelationTuple) :
    Except String ObjectAndRelation :=
  match cu.object, tpl with
  | .tupleUsersetObject, none => .error "computed userset for tupleset without tuple"
  | .tupleUsersetObject, some tpl => .ok tpl.user.userset
  | .tupleObject, some tpl => .ok tpl.objectAndRelation
  | .tupleObject, none => .ok req.start
  | .unrecognized _, _ => .error nilDereference

/-- The request the closure of `expandComputedUserset` dispatches. -/
def computedUsersetRequest (req : ExpandRequest) (cu : ComputedUserset)
    (tpl : Option RelationTuple) : Except String ExpandRequest := do
  let start ← computedUsersetStart req cu tpl
  pure { start := { namespace_ := start.namespace_, objectId := start.objectId,
                    relation := cu.relation }
         atRevision := req.atRevision
         depthRemaining := req.depthRemaining - 1
         expansionMode := req.expansionMode }

/-- `expandComputedUserset`. -/
def expandComputedUserset (req : ExpandRequest) (cu : ComputedUserset)
    (tpl : Option RelationTuple) : Except String ExpandFunc :=
  .dispatch <$> computedUsersetRequest req cu tpl

mutual

/-- `expandUsersetRewrite`. -/
def expandUsersetRewrite (req : ExpandRequest) : UsersetRewrite → Except String ExpandFunc
  | .union child => .setOperation req .union <$> expandChildren req child
  | .intersection child => .setOperation req .intersection <$> expandChildren req child
  | .exclusion child => .setOperation req .exclusion <$> expandChildren req child
  | .unset => pure .alwaysFail

/-- The loop of `expandSetOperation`: a closure per child it recognises, in order. -/
def expandChildren (req : ExpandRequest) : List SetOperationChild → Except String (List ExpandFunc)
  | [] => pure []
  | .this :: rest => (.direct req .excludeStart :: ·) <$> expandChildren req rest
  | .computedUserset cu :: rest => do
    let f ← expandComputedUserset req cu none
    (f :: ·) <$> expandChildren req rest
  | .usersetRewrite rw :: rest => do
    let f ← expandUsersetRewrite req rw
    (f :: ·) <$> expandChildren req rest
  | .tupleToUserset ttu :: rest => (.tupleToUserset req ttu :: ·) <$> expandChildren req rest
  | .unset :: rest => expandChildren req rest

end

/-- `expandSetOperation`. -/
def expandSetOperation (req : ExpandRequest) (so : List SetOperationChild) (reducer : Operation) :
    Except String ExpandFunc :=
  .setOperation req reducer <$> expandChildren req so

/-- `expand`: a direct read when the relation has no rewrite. -/
def expand (req : ExpandRequest) (relation : Relation) : Except String ExpandFunc :=
  match relation.usersetRewrite with
  | none => pure (.direct req .includeStart)
  | some usr => expandUsersetRewrite req usr

theorem expandUsersetRewrite_union (req : ExpandRequest) (so : List SetOperationChild) :
    expandUsersetRewrite req (.union so) = expandSetOperation req so .union := by
  simp [expandUsersetRewrite, expandSetOperation]

end ConcurrentExpander

/-! ## Reducers -/

/-- `setResult`. -/
def setResult (op : Operation) (start : ObjectAndRelation)
    (children : List (Option RelationTupleTreeNode)) : ExpandResult :=
  ⟨some (.intermediateNode (some start) op children), none⟩

/-- The receive loop of `expandSetOperation`, one child at a time, from `children`. -/
def collectChildren (op : Operation) (start : ObjectAndRelation) :
    List (Option RelationTupleTreeNode) → List Outcome → Outcome
  | children, [] => .result (setResult op start children)
  | children, .result r :: rest =>
    match r.err with
    | some e => .result ⟨none, some e⟩
    | none => collectChildren op start (children ++ [r.tree]) rest
  | _, o :: _ => o

/-- `expandSetOperation` read sequentially: the children's outcomes in list order. -/
def expandSetOperation (start : ObjectAndRelation) (requests : List Outcome) (op : Operation) :
    Outcome :=
  collectChildren op start [] requests

/-- `ExpandAll`. -/
def expandAll (start : ObjectAndRelation) (requests : List Outcome) : Outcome :=
  expandSetOperation start requests .intersection

/-- `ExpandAny`. -/
def expandAny (start : ObjectAndRelation) (requests : List Outcome) : Outcome :=
  expandSetOperation start requests .union

/-- `ExpandDifference`. -/
def expandDifference (start : ObjectAndRelation) (requests : List Outcome) : Outcome :=
  expandSetOperation start requests .exclusion

/-- `ExpandOne`: an error drops the tree. -/
def expandOne : Outcome → Outcome
  | .result r => if r.err.isSome then .result ⟨none, r.err⟩ else .result r
  | o => o

/-- `alwaysFailExpand`. -/
def alwaysFailExpand : Outcome := .result ⟨none, some .alwaysFail⟩

/-! ## Running closures -/

namespace ConcurrentExpander

variable (ce : ConcurrentExpander)

/-- The query `expandDirect` issues. -/
def directQuery (req : ExpandRequest) : TupleQuery :=
  ⟨req.start.namespace_, req.atRevision, req.start.objectId, req.start.relation⟩

/-- `foundTerminalUsersets`: users whose relation is the ellipsis. -/
def terminalUsers (tuples : List RelationTuple) : List User :=
  (tuples.filter (·.user.userset.relation == Ellipsis)).map (·.user)

/-- `foundNonTerminalUsersets`. -/
def nonTerminalUsers (tuples : List RelationTuple) : List User :=
  (tuples.filter (·.user.userset.relation != Ellipsis)).map (·.user)

/-- The sub-request `expandDirect` dispatches for a non-terminal subject. -/
def nonTerminalRequest (req : ExpandRequest) (user : User) : ExpandRequest :=
  { start := user.userset
    atRevision := req.atRevision
    depthRemaining := req.depthRemaining - 1
    expansionMode := req.expansionMode }

/-- The leaf of a direct read: terminals first, labelled only when the start is included. -/
def directLeaf (req : ExpandRequest) (startBehavior : StartInclusion)
    (tuples : List RelationTuple) : RelationTupleTreeNode :=
  .leafNode (if startBehavior = .includeStart then some req.start else none)
    (terminalUsers tuples ++ nonTerminalUsers tuples)

/-- The tail of `expandDirect`'s recursive case: the leaf joins the union's children. -/
def appendLeaf (leaf : RelationTupleTreeNode) : Outcome → Outcome
  | .result r =>
    match r.err, r.tree with
    | some _, _ => .result r
    | none, some (.intermediateNode expanded op children) =>
      .result ⟨some (.intermediateNode expanded op (children ++ [some leaf])), none⟩
    | none, _ => .panic nilDereference
  | o => o

/-- The closure of `expandDirect`, run. -/
def expandDirect (req : ExpandRequest) (startBehavior : StartInclusion) : Outcome :=
  match ce.ds.queryTuples (directQuery req) with
  | .error err => .result ⟨none, some (.expansionFailure err)⟩
  | .ok tuples =>
    if req.expansionMode != .recursiveExpansion || (nonTerminalUsers tuples).isEmpty then
      .result ⟨some (directLeaf req startBehavior tuples), none⟩
    else
      appendLeaf (directLeaf req startBehavior tuples)
        (expandAny req.start
          ((nonTerminalUsers tuples).map fun user => ce.d.expand (nonTerminalRequest req user)))

/-- The query `expandTupleToUserset` issues. -/
def tuplesetQuery (req : ExpandRequest) (ttu : TupleToUserset) : TupleQuery :=
  ⟨req.start.namespace_, req.atRevision, req.start.objectId, ttu.tupleset.relation⟩

/-- The closure of `expandTupleToUserset`, run: one computed userset per tuple. -/
def expandTupleToUserset (req : ExpandRequest) (ttu : TupleToUserset) : Outcome :=
  match ce.ds.queryTuples (tuplesetQuery req ttu) with
  | .error err => .result ⟨none, some (.expansionFailure err)⟩
  | .ok tuples =>
    match tuples.mapM (computedUsersetRequest req ttu.computedUserset ∘ some) with
    | .error msg => .panic msg
    | .ok requests => expandAny req.start (requests.map ce.d.expand)

/-- Run a closure to the result it sends on its channel. -/
def run : ExpandFunc → Outcome
  | .direct req startBehavior => ce.expandDirect req startBehavior
  | .setOperation req reducer requests => Graph.expandSetOperation req.start (runAll requests) reducer
  | .dispatch req => ce.d.expand req
  | .tupleToUserset req ttu => ce.expandTupleToUserset req ttu
  | .alwaysFail => alwaysFailExpand
where
  /-- Every closure of a list, in order. -/
  runAll : List ExpandFunc → List Outcome
    | [] => []
    | f :: fs => run f :: runAll fs

@[simp] theorem runAll_eq_map (fs : List ExpandFunc) : run.runAll ce fs = fs.map ce.run := by
  induction fs with
  | nil => rfl
  | cons f fs ih => simp [run.runAll, ih]

end ConcurrentExpander

/-! ## The dispatcher -/

/-- `namespace.Manager`'s `ReadNamespaceAndRelation`. -/
structure NamespaceManager where
  readNamespaceAndRelation : String → String → Revision → Except String Relation

/--
Modelled from the spec: the local dispatcher, absent from the snapshot. It fails at
depth zero, resolves the relation, builds the expander's closure and awaits it with
`ExpandOne`.
-/
structure LocalDispatcher where
  nsm : NamespaceManager
  ds : GraphDatastore

namespace LocalDispatcher

variable (ld : LocalDispatcher)

/-- `Expand`, with `fuel` bounding the chain of dispatcher hops. -/
def expandAux : Nat → ExpandRequest → Outcome
  | 0, _ => .outOfFuel
  | fuel + 1, req =>
    if req.depthRemaining = 0 then .result ⟨none, some .maxDepthExceeded⟩
    else
      match ld.nsm.readNamespaceAndRelation req.start.namespace_ req.start.relation
          req.atRevision with
      | .error err => .result ⟨none, some (.expansionFailure err)⟩
      | .ok relation =>
        match ConcurrentExpander.expand req relation with
        | .error msg => .panic msg
        | .ok f => expandOne (ConcurrentExpander.run ⟨⟨expandAux fuel⟩, ld.ds⟩ f)

/-- The expander a dispatch with `fuel` left runs its closure against. -/
def expanderAt (fuel : Nat) : ConcurrentExpander := ⟨⟨ld.expandAux fuel⟩, ld.ds⟩

/-- `Expand`: the fuel of a hop for every value `DepthRemaining` can hold. -/
def expand (req : ExpandRequest) : Outcome := ld.expandAux UInt16.size req

end LocalDispatcher

end SpiceDB.Graph
