import SpiceDB.Graph.Schedules

/-!
# Building closures from a rewrite

`expandUsersetRewrite` and `expandSetOperation` build the closures of a relation's rewrite
before any of them runs. A computed userset on the tupleset's user
(`TUPLE_USERSET_OBJECT`) met there has no tuple and panics; one with an unknown `Object`
leaves `start` nil and panics on `start.Namespace`. Either panic kills the process. A
child whose oneof is unset matches no case of the `switch` and is left out.

So a rewrite is built exactly when its computed usersets are all on the tuple's object
(`expandUsersetRewrite_toBool`), and the node a built set operation returns has one child per
child of the operation that is set (`setOperation_node_children`).
-/

namespace SpiceDB

/-- The `ChildType` oneof is set. -/
def SetOperationChild.isSet : SetOperationChild → Bool
  | .unset => false
  | _ => true

mutual

/-- Every computed userset of the rewrite, at any depth, is taken on the tuple's object. -/
def UsersetRewrite.buildable : UsersetRewrite → Bool
  | .union child => SetOperationChild.allBuildable child
  | .intersection child => SetOperationChild.allBuildable child
  | .exclusion child => SetOperationChild.allBuildable child
  | .unset => true

/-- `UsersetRewrite.buildable` of every child. -/
def SetOperationChild.allBuildable : List SetOperationChild → Bool
  | [] => true
  | .computedUserset cu :: rest =>
    decide (cu.object = .tupleObject) && SetOperationChild.allBuildable rest
  | .usersetRewrite rw :: rest => rw.buildable && SetOperationChild.allBuildable rest
  | .this :: rest => SetOperationChild.allBuildable rest
  | .tupleToUserset _ :: rest => SetOperationChild.allBuildable rest
  | .unset :: rest => SetOperationChild.allBuildable rest

end

end SpiceDB

namespace SpiceDB.Graph

open ConcurrentExpander

/-- Without a tuple, a computed userset has a start only on the tuple's object. -/
theorem computedUsersetRequest_none_toBool (req : ExpandRequest) (cu : ComputedUserset) :
    (computedUsersetRequest req cu none).toBool = decide (cu.object = .tupleObject) := by
  unfold computedUsersetRequest computedUsersetStart
  cases cu.object <;> rfl

mutual

/-- **When a rewrite is built.** Building the closures of a rewrite succeeds exactly when all its
computed usersets are on the tuple's object; otherwise the dispatcher panics. -/
theorem expandUsersetRewrite_toBool (req : ExpandRequest) :
    ∀ rw : UsersetRewrite, (expandUsersetRewrite req rw).toBool = rw.buildable
  | .union child | .intersection child | .exclusion child => by
    simp only [expandUsersetRewrite, UsersetRewrite.buildable, ← expandChildren_toBool req child]
    cases expandChildren req child <;> rfl
  | .unset => rfl

theorem expandChildren_toBool (req : ExpandRequest) :
    ∀ cs : List SetOperationChild, (expandChildren req cs).toBool = SetOperationChild.allBuildable cs
  | [] => rfl
  | .this :: rest | .tupleToUserset _ :: rest => by
    simp only [expandChildren, SetOperationChild.allBuildable, ← expandChildren_toBool req rest]
    cases expandChildren req rest <;> rfl
  | .unset :: rest => expandChildren_toBool req rest
  | .computedUserset cu :: rest => by
    simp only [expandChildren, SetOperationChild.allBuildable, ← expandChildren_toBool req rest,
      ← computedUsersetRequest_none_toBool req cu, expandComputedUserset]
    cases computedUsersetRequest req cu none <;> cases expandChildren req rest <;> rfl
  | .usersetRewrite rw :: rest => by
    rw [expandChildren, SetOperationChild.allBuildable, ← expandChildren_toBool req rest,
      ← expandUsersetRewrite_toBool req rw]
    cases expandUsersetRewrite req rw <;> cases expandChildren req rest <;> rfl

end

/-- One closure per child that is set, in order. -/
theorem expandChildren_length (req : ExpandRequest) :
    ∀ {cs : List SetOperationChild} {fs : List ExpandFunc}, expandChildren req cs = .ok fs →
      fs.length = cs.countP SetOperationChild.isSet
  | [], fs, h => by cases h; rfl
  | .this :: rest, fs, h | .tupleToUserset _ :: rest, fs, h => by
    simp only [expandChildren] at h
    cases hr : expandChildren req rest with
    | error e => rw [hr] at h; cases h
    | ok fs' =>
      rw [hr] at h
      cases h
      simp [expandChildren_length req hr, SetOperationChild.isSet]
  | .unset :: rest, fs, h => by
    simp [@expandChildren_length req rest fs h, SetOperationChild.isSet]
  | .computedUserset cu :: rest, fs, h => by
    simp only [expandChildren, expandComputedUserset] at h
    cases hc : computedUsersetRequest req cu none with
    | error e => rw [hc] at h; cases h
    | ok r =>
      cases hr : expandChildren req rest with
      | error e => rw [hc, hr] at h; cases h
      | ok fs' =>
        rw [hc, hr] at h
        cases h
        simp [expandChildren_length req hr, SetOperationChild.isSet]
  | .usersetRewrite rw :: rest, fs, h => by
    simp only [expandChildren] at h
    cases hw : expandUsersetRewrite req rw with
    | error e => rw [hw] at h; cases h
    | ok f =>
      cases hr : expandChildren req rest with
      | error e => rw [hw, hr] at h; cases h
      | ok fs' =>
        rw [hw, hr] at h
        cases h
        simp [expandChildren_length req hr, SetOperationChild.isSet]

/-- A reducer that returns a tree returns its node, with one child per outcome it collected. -/
theorem collectChildren_tree {op : Operation} {start : ObjectAndRelation} {t : RelationTupleTreeNode} :
    ∀ {acc : List (Option RelationTupleTreeNode)} {outs : List Outcome},
      collectChildren op start acc outs = .result ⟨some t, none⟩ →
        ∃ children, t = .intermediateNode (some start) op children ∧
          children.length = acc.length + outs.length
  | acc, [], h => by
    cases h
    exact ⟨acc, rfl, rfl⟩
  | acc, .result r :: rest, h => by
    simp only [collectChildren] at h
    split at h
    · cases h
    · obtain ⟨children, ht, hlen⟩ := collectChildren_tree h
      exact ⟨children, ht, by simp [hlen]; omega⟩
  | _, .panic _ :: _, h => by cases h
  | _, .outOfFuel :: _, h => by cases h

/-- **Children of a set operation.** When the closure of a set operation is built and returns a
tree, the tree is the operation's node on the request's start, with exactly one child per child
of the operation that is set. -/
theorem setOperation_node_children {ce : ConcurrentExpander} {req : ExpandRequest}
    {cs : List SetOperationChild} {op : Operation} {f : ExpandFunc} {t : RelationTupleTreeNode}
    (hf : ConcurrentExpander.expandSetOperation req cs op = .ok f)
    (ht : ce.run f = .result ⟨some t, none⟩) :
    ∃ children, t = .intermediateNode (some req.start) op children ∧
      children.length = cs.countP SetOperationChild.isSet := by
  simp only [ConcurrentExpander.expandSetOperation] at hf
  cases hc : expandChildren req cs with
  | error e => rw [hc] at hf; cases hf
  | ok fs =>
    rw [hc] at hf
    cases hf
    simp only [run, runAll_eq_map, Graph.expandSetOperation] at ht
    obtain ⟨children, rfl, hlen⟩ := collectChildren_tree ht
    exact ⟨children, rfl, by simp [hlen, expandChildren_length req hc]⟩

/-! ## The faults -/

/-- `viewer = owner` taken on the tupleset's user, where no tuple is at hand. -/
def tuplesetOwner : UsersetRewrite := .union [.computedUserset ⟨.tupleUsersetObject, "owner"⟩]

/-- `viewer = owner` taken on an object the enum does not declare. -/
def unknownOwner : UsersetRewrite := .union [.computedUserset ⟨.unrecognized 7, "owner"⟩]

/-- `viewer = _this ∪ ?`, the second child's oneof unset. -/
def thisOrUnset : UsersetRewrite := .union [.this, .unset]

theorem expand_panics_or_drops_child :
    (docDispatcher tuplesetOwner).expand (docViewer 2) =
        .panic "computed userset for tupleset without tuple" ∧
      (docDispatcher unknownOwner).expand (docViewer 2) = .panic nilDereference ∧
      (docDispatcher thisOrUnset).expand (docViewer 2) =
        .result ⟨some (.intermediateNode (some ⟨"doc", "1", "viewer"⟩) .union
          [some (.leafNode none [⟨⟨"user", "a", Ellipsis⟩⟩])]), none⟩ :=
  ⟨rfl, rfl, rfl⟩

end SpiceDB.Graph
