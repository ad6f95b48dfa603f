import SpiceDB.Graph.Schedules
import SpiceDB.Schema.Meaning
import Mathlib.Data.List.Forall2

/-!
# What an expansion tree means

An expansion tree stands for a set of subjects: a leaf for its users, a node for the union,
intersection or exclusion (the first child minus the others) of its children, and a nil child
for none. This is the meaning `Schema.Meaning` gives a userset rewrite, so the expander can be
checked against it.

It is, one dispatcher hop at a time. Read each relation of the start object as the subjects of
the tree the dispatcher returns for it one hop down, an arrow as the union of those over the
tupleset's tuples, and `_this` as the users of the start's own tuples (`hopValuation`). Then a
successful expansion of a rewrite builds a tree that means what the rewrite denotes. With the
translator's theorem, a compiled permission expands to a tree that means its expression.

Two conditions hold it up. The mode is shallow, as `aclServer.Expand` asks; a recursive direct
read also expands its subjects, so the theorem is stated for any set `_this` stands for
(`expandUsersetRewrite_means_with`), and `Graph.Recursive` gives the recursive one. The
rewrite is one the schema compiler writes (`UsersetRewrite.canonical`): `expandSetOperation` drops an unset child, which changes an
intersection or an exclusion, and a computed userset on another object either panics or is an
arrow's.
-/

namespace SpiceDB

/-! ## Trees and rewrites -/

mutual

/-- The subjects a tree stands for. -/
def RelationTupleTreeNode.members : RelationTupleTreeNode → Set User
  | .leafNode _ users => {u | u ∈ users}
  | .intermediateNode _ .union children => RelationTupleTreeNode.unionOf children
  | .intermediateNode _ .intersection children => RelationTupleTreeNode.interOf children
  | .intermediateNode _ .exclusion children => RelationTupleTreeNode.exceptOf children

/-- The subjects a child slot stands for; a nil child stands for none. -/
def RelationTupleTreeNode.childMembers : Option RelationTupleTreeNode → Set User
  | none => ∅
  | some t => t.members

/-- The union of the children. -/
def RelationTupleTreeNode.unionOf : List (Option RelationTupleTreeNode) → Set User
  | [] => ∅
  | c :: cs => RelationTupleTreeNode.childMembers c ∪ RelationTupleTreeNode.unionOf cs

/-- The intersection of the children. -/
def RelationTupleTreeNode.interOf : List (Option RelationTupleTreeNode) → Set User
  | [] => Set.univ
  | c :: cs => RelationTupleTreeNode.childMembers c ∩ RelationTupleTreeNode.interOf cs

/-- The first child minus the union of the others. -/
def RelationTupleTreeNode.exceptOf : List (Option RelationTupleTreeNode) → Set User
  | [] => ∅
  | c :: cs => RelationTupleTreeNode.childMembers c \ RelationTupleTreeNode.unionOf cs

end

mutual

/-- A rewrite as the schema compiler writes it: every child set, every computed userset on the
tuple's object, and every arrow's computed userset on the tupleset's users. -/
def UsersetRewrite.canonical : UsersetRewrite → Bool
  | .union child => SetOperationChild.allCanonical child
  | .intersection child => SetOperationChild.allCanonical child
  | .exclusion child => SetOperationChild.allCanonical child
  | .unset => false

/-- `UsersetRewrite.canonical` of every child. -/
def SetOperationChild.allCanonical : List SetOperationChild → Bool
  | [] => true
  | .this :: rest => SetOperationChild.allCanonical rest
  | .computedUserset cu :: rest =>
    decide (cu.object = .tupleObject) && SetOperationChild.allCanonical rest
  | .usersetRewrite rw :: rest => rw.canonical && SetOperationChild.allCanonical rest
  | .tupleToUserset ttu :: rest =>
    decide (ttu.computedUserset.object = .tupleUsersetObject) && SetOperationChild.allCanonical rest
  | .unset :: _ => false

end

section Children

variable {ρ : Schema.Valuation User} {trees : List (Option RelationTupleTreeNode)}
  {cs : List SetOperationChild}

theorem unionOf_of_forall₂
    (h : List.Forall₂ (fun tr c => RelationTupleTreeNode.childMembers tr = c.denote ρ)
      trees cs) :
    RelationTupleTreeNode.unionOf trees = SetOperationChild.unionOf ρ cs := by
  induction h with
  | nil => rfl
  | cons hc _ ih => simp only [RelationTupleTreeNode.unionOf, SetOperationChild.unionOf, hc, ih]

theorem interOf_of_forall₂
    (h : List.Forall₂ (fun tr c => RelationTupleTreeNode.childMembers tr = c.denote ρ)
      trees cs) :
    RelationTupleTreeNode.interOf trees = SetOperationChild.interOf ρ cs := by
  induction h with
  | nil => rfl
  | cons hc _ ih => simp only [RelationTupleTreeNode.interOf, SetOperationChild.interOf, hc, ih]

theorem exceptOf_of_forall₂
    (h : List.Forall₂ (fun tr c => RelationTupleTreeNode.childMembers tr = c.denote ρ)
      trees cs) :
    RelationTupleTreeNode.exceptOf trees = SetOperationChild.exceptOf ρ cs := by
  cases h with
  | nil => rfl
  | cons hc h =>
    simp only [RelationTupleTreeNode.exceptOf, SetOperationChild.exceptOf, hc,
      unionOf_of_forall₂ h]

end Children

end SpiceDB

namespace SpiceDB.Graph

open ConcurrentExpander

/-! ## One hop down -/

/-- What an outcome's tree stands for; a failure stands for nothing. -/
def Outcome.members : Outcome → Set User
  | .result r => RelationTupleTreeNode.childMembers r.tree
  | _ => ∅

/-- The request on `onr` one dispatcher hop below `req`. -/
def hop (req : ExpandRequest) (onr : ObjectAndRelation) : ExpandRequest :=
  { start := onr
    atRevision := req.atRevision
    depthRemaining := req.depthRemaining - 1
    expansionMode := req.expansionMode }

/-- Relations, arrows and `_this` read one dispatcher hop below `req`: a relation of the start
object is what the dispatcher returns for it, an arrow the union over the tupleset's tuples of
what it returns for the computed relation on each tuple's user, and `_this` the users of the
start's tuples. -/
def hopValuation (ce : ConcurrentExpander) (req : ExpandRequest) : Schema.Valuation User where
  relation relation :=
    (ce.d.expand (hop req ⟨req.start.namespace_, req.start.objectId, relation⟩)).members
  arrow tuplesetRelation computedRelation :=
    match ce.ds.queryTuples
        ⟨req.start.namespace_, req.atRevision, req.start.objectId, tuplesetRelation⟩ with
    | .ok tuples => {u | ∃ tpl ∈ tuples, u ∈ (ce.d.expand (hop req
        ⟨tpl.user.userset.namespace_, tpl.user.userset.objectId, computedRelation⟩)).members}
    | .error _ => ∅
  this :=
    match ce.ds.queryTuples (directQuery req) with
    | .ok tuples => {u | ∃ tpl ∈ tuples, tpl.user = u}
    | .error _ => ∅

/-- Where a closure succeeds, its tree stands for `s`. -/
def Means (ce : ConcurrentExpander) (f : ExpandFunc) (s : Set User) : Prop :=
  ∀ r, ce.run f = .result r → r.err = none → RelationTupleTreeNode.childMembers r.tree = s

/-! ## The reducer -/

/-- A reducer that succeeds got a tree from every child, and returns its node on `start` over
those trees, in order. -/
theorem collectChildren_ok {op : Operation} {start : ObjectAndRelation} :
    ∀ {acc : List (Option RelationTupleTreeNode)} {outs : List Outcome} {r : ExpandResult},
      collectChildren op start acc outs = .result r → r.err = none →
      ∃ trees, List.Forall₂ (fun o tr => o = .result ⟨tr, none⟩) outs trees ∧
        r.tree = some (.intermediateNode (some start) op (acc ++ trees))
  | acc, [], r, h, _ => by
    cases h
    exact ⟨[], .nil, by rw [List.append_nil]; rfl⟩
  | acc, .result ⟨tree, err⟩ :: rest, r, h, he => by
    cases err with
    | some e => cases h; cases he
    | none =>
      have h' : collectChildren op start (acc ++ [tree]) rest = .result r := h
      obtain ⟨trees, hts, hr⟩ := collectChildren_ok h' he
      exact ⟨tree :: trees, .cons rfl hts, by rw [hr, List.append_assoc, List.singleton_append]⟩
  | _, .panic _ :: _, _, h, _ | _, .outOfFuel :: _, _, h, _ => by cases h

/-- The users of a direct read's leaf are the users of its tuples. -/
theorem mem_directLeaf_users {tuples : List RelationTuple} {u : User} :
    u ∈ terminalUsers tuples ++ nonTerminalUsers tuples ↔ ∃ tpl ∈ tuples, tpl.user = u := by
  simp only [terminalUsers, nonTerminalUsers, List.mem_append, List.mem_map, List.mem_filter]
  constructor
  · rintro (⟨tpl, ⟨h, -⟩, rfl⟩ | ⟨tpl, ⟨h, -⟩, rfl⟩) <;> exact ⟨tpl, h, rfl⟩
  · rintro ⟨tpl, h, rfl⟩
    by_cases he : (tpl.user.userset.relation == Ellipsis) = true
    · exact .inl ⟨tpl, ⟨h, he⟩, rfl⟩
    · exact .inr ⟨tpl, ⟨h, by simpa using he⟩, rfl⟩

theorem mapM_ok {α β ε : Type} (g : α → β) :
    ∀ l : List α, l.mapM (fun a => (Except.ok (g a) : Except ε β)) = .ok (l.map g)
  | [] => rfl
  | a :: l => by
    simp only [List.mapM_cons, List.map_cons, mapM_ok g l]
    rfl

/-- A union node's children stand for what the outcomes they came from stand for. -/
theorem unionOf_of_results {outs : List Outcome} {trees : List (Option RelationTupleTreeNode)}
    (h : List.Forall₂ (fun o tr => o = .result ⟨tr, none⟩) outs trees) :
    RelationTupleTreeNode.unionOf trees = {u | ∃ o ∈ outs, u ∈ o.members} := by
  induction h with
  | nil => ext u; simp [RelationTupleTreeNode.unionOf]
  | cons ho _ ih =>
    subst ho
    ext u
    simp [RelationTupleTreeNode.unionOf, ih, Outcome.members]

/-! ## Each closure means its child -/

section Closures

variable {ce : ConcurrentExpander} {req : ExpandRequest} {ρ : Schema.Valuation User}

theorem forall₂_childMembers {fs : List ExpandFunc} {cs : List SetOperationChild}
    (h : List.Forall₂ (fun f c => Means ce f (c.denote ρ)) fs cs) :
    ∀ {trees}, List.Forall₂ (fun f tr => ce.run f = .result ⟨tr, none⟩) fs trees →
      List.Forall₂ (fun tr c => RelationTupleTreeNode.childMembers tr = c.denote ρ)
        trees cs := by
  induction h with
  | nil => intro trees ht; cases ht; exact .nil
  | cons hm _ ih =>
    intro trees ht
    cases ht with
    | cons hr hts => exact .cons (hm _ hr rfl) (ih hts)

/-- A set operation closure whose children mean the rewrite's children succeeds with a node over
trees that mean them, one for one. -/
theorem means_setOperation {op : Operation} {fs : List ExpandFunc} {cs : List SetOperationChild}
    (h : List.Forall₂ (fun f c => Means ce f (c.denote ρ)) fs cs) {r : ExpandResult}
    (hr : ce.run (.setOperation req op fs) = .result r) (he : r.err = none) :
    ∃ trees, List.Forall₂ (fun tr c => RelationTupleTreeNode.childMembers tr = c.denote ρ)
      trees cs ∧ r.tree = some (.intermediateNode (some req.start) op trees) := by
  simp only [run, runAll_eq_map, Graph.expandSetOperation] at hr
  obtain ⟨trees, hts, htree⟩ := collectChildren_ok hr he
  exact ⟨trees, forall₂_childMembers h (List.forall₂_map_left_iff.mp hts), htree⟩

/-- In shallow mode `_this` reads the start's tuples into one leaf. -/
theorem means_direct (hmode : req.expansionMode = .shallowExpansion) :
    Means ce (.direct req .excludeStart) (hopValuation ce req).this := by
  intro r hr he
  simp only [run, expandDirect] at hr
  simp only [hopValuation]
  cases hq : ce.ds.queryTuples (directQuery req) with
  | error err => rw [hq] at hr; cases hr; cases he
  | ok tuples =>
    simp only [hq, hmode, bne_iff_ne, ne_eq, reduceCtorEq, not_false_eq_true, Bool.true_or,
      if_true] at hr
    cases hr
    ext u
    exact mem_directLeaf_users

theorem means_dispatch (cu : ComputedUserset) (hcu : cu.object = .tupleObject) :
    ∃ f, expandComputedUserset req cu none = .ok f ∧
      Means ce f ((hopValuation ce req).relation cu.relation) := by
  obtain ⟨object, relation⟩ := cu
  subst hcu
  exact ⟨_, rfl, fun r hr _ => by simp only [run] at hr; simp only [hopValuation, hop, hr]; rfl⟩

/-- An arrow reads the tupleset and unions what the dispatcher returns for each tuple's user. -/
theorem means_tupleToUserset (ttu : TupleToUserset)
    (httu : ttu.computedUserset.object = .tupleUsersetObject) :
    Means ce (.tupleToUserset req ttu)
      ((hopValuation ce req).arrow ttu.tupleset.relation ttu.computedUserset.relation) := by
  obtain ⟨tupleset, ⟨object, relation⟩⟩ := ttu
  subst httu
  intro r hr he
  simp only [run, expandTupleToUserset] at hr
  simp only [hopValuation]
  cases hq :
      ce.ds.queryTuples (tuplesetQuery req ⟨tupleset, ⟨.tupleUsersetObject, relation⟩⟩) with
  | error err => rw [hq] at hr; cases hr; cases he
  | ok tuples =>
    have hf : (computedUsersetRequest req ⟨.tupleUsersetObject, relation⟩ ∘ some) = fun tpl =>
        .ok (hop req ⟨tpl.user.userset.namespace_, tpl.user.userset.objectId, relation⟩) := rfl
    simp only [hq, hf, mapM_ok, expandAny, Graph.expandSetOperation] at hr
    obtain ⟨trees, hts, htree⟩ := collectChildren_ok hr he
    simp only [tuplesetQuery] at hq
    simp only [hq, htree, List.nil_append, RelationTupleTreeNode.childMembers,
      RelationTupleTreeNode.members, unionOf_of_results hts, List.map_map]
    ext u
    simp

mutual

/-- The expander implements the rewrite's meaning one hop down, whatever `_this` stands for: a
canonical rewrite builds a closure, and where it succeeds its tree stands for what the rewrite
denotes under `hopValuation` with `_this` read as `T`, the set the direct read's tree stands
for. -/
theorem expandUsersetRewrite_means_with {T : Set User}
    (hthis : Means ce (.direct req .excludeStart) T) :
    ∀ rw : UsersetRewrite, rw.canonical = true →
      ∃ f, expandUsersetRewrite req rw = .ok f ∧
        Means ce f (rw.denote { hopValuation ce req with this := T })
  | .union cs, h => by
    obtain ⟨fs, hfs, hm⟩ := expandChildren_means_with hthis cs h
    refine ⟨_, by rw [expandUsersetRewrite, hfs]; rfl, fun r hr he => ?_⟩
    obtain ⟨trees, ht, htree⟩ := means_setOperation hm hr he
    rw [htree]
    exact unionOf_of_forall₂ ht
  | .intersection cs, h => by
    obtain ⟨fs, hfs, hm⟩ := expandChildren_means_with hthis cs h
    refine ⟨_, by rw [expandUsersetRewrite, hfs]; rfl, fun r hr he => ?_⟩
    obtain ⟨trees, ht, htree⟩ := means_setOperation hm hr he
    rw [htree]
    exact interOf_of_forall₂ ht
  | .exclusion cs, h => by
    obtain ⟨fs, hfs, hm⟩ := expandChildren_means_with hthis cs h
    refine ⟨_, by rw [expandUsersetRewrite, hfs]; rfl, fun r hr he => ?_⟩
    obtain ⟨trees, ht, htree⟩ := means_setOperation hm hr he
    rw [htree]
    exact exceptOf_of_forall₂ ht

/-- The closures of a canonical child list, one per child, each meaning its child. -/
theorem expandChildren_means_with {T : Set User}
    (hthis : Means ce (.direct req .excludeStart) T) :
    ∀ cs : List SetOperationChild, SetOperationChild.allCanonical cs = true →
      ∃ fs, expandChildren req cs = .ok fs ∧
        List.Forall₂ (fun f c => Means ce f (c.denote { hopValuation ce req with this := T }))
          fs cs
  | [], _ => ⟨[], rfl, .nil⟩
  | .this :: rest, h => by
    obtain ⟨fs, hfs, hm⟩ := expandChildren_means_with hthis rest h
    exact ⟨_, by rw [expandChildren, hfs]; rfl, .cons hthis hm⟩
  | .computedUserset cu :: rest, h => by
    simp only [SetOperationChild.allCanonical, Bool.and_eq_true, decide_eq_true_eq] at h
    obtain ⟨fs, hfs, hm⟩ := expandChildren_means_with hthis rest h.2
    obtain ⟨f, hf, hmf⟩ := @means_dispatch ce req cu h.1
    refine ⟨_, by rw [expandChildren, hf, hfs]; rfl, .cons ?_ hm⟩
    rw [SetOperationChild.denote_computedUserset _ h.1]
    exact hmf
  | .usersetRewrite rw :: rest, h => by
    simp only [SetOperationChild.allCanonical, Bool.and_eq_true] at h
    obtain ⟨fs, hfs, hm⟩ := expandChildren_means_with hthis rest h.2
    obtain ⟨f, hf, hmf⟩ := expandUsersetRewrite_means_with hthis rw h.1
    exact ⟨_, by rw [expandChildren, hf, hfs]; rfl, .cons hmf hm⟩
  | .tupleToUserset ttu :: rest, h => by
    simp only [SetOperationChild.allCanonical, Bool.and_eq_true, decide_eq_true_eq] at h
    obtain ⟨fs, hfs, hm⟩ := expandChildren_means_with hthis rest h.2
    refine ⟨_, by rw [expandChildren, hfs]; rfl, .cons ?_ hm⟩
    rw [SetOperationChild.denote_tupleToUserset _ h.1]
    exact means_tupleToUserset ttu h.1
  | .unset :: _, h => by cases h

end

/-- **The expander implements the rewrite's meaning, one hop down.** In shallow mode a canonical
rewrite builds a closure, and where it succeeds its tree stands for what the rewrite denotes
under `hopValuation`. -/
theorem expandUsersetRewrite_means (hmode : req.expansionMode = .shallowExpansion) :
    ∀ rw : UsersetRewrite, rw.canonical = true →
      ∃ f, expandUsersetRewrite req rw = .ok f ∧ Means ce f (rw.denote (hopValuation ce req)) :=
  expandUsersetRewrite_means_with (means_direct hmode)

end Closures

/-! ## The dispatcher and compiled permissions -/

/-- The operation of an expression's child is canonical, whatever follows it. -/
theorem allCanonical_operation (e : Schema.Expression) :
    ∀ rest, SetOperationChild.allCanonical (e.operation :: rest) =
      SetOperationChild.allCanonical rest := by
  induction e with
  | identifier | arrow => intro rest; rfl
  | union _ _ ihl ihr | intersection _ _ ihl ihr | exclusion _ _ ihl ihr =>
    intro rest
    simp only [Schema.Expression.operation, Namespace.rewrite, Namespace.union,
      Namespace.intersection, Namespace.exclusion, SetOperationChild.allCanonical,
      UsersetRewrite.canonical, ihl, ihr, Bool.true_and]

/-- The rewrite the translator builds is canonical. -/
theorem rewrite_canonical (e : Schema.Expression) : e.rewrite.canonical = true := by
  cases e <;>
    simp only [Schema.Expression.rewrite, Namespace.union, Namespace.intersection,
      Namespace.exclusion, UsersetRewrite.canonical, allCanonical_operation] <;> rfl

/-- **The dispatcher's tree means the relation's rewrite.** A shallow request with depth left,
whose relation resolves to a canonical rewrite, returns where it succeeds a tree that stands for
what the rewrite denotes, each relation read as the dispatcher's own tree one hop down. -/
theorem dispatch_tree_means_rewrite (ld : LocalDispatcher) (req : ExpandRequest)
    {relation : Relation} {rw : UsersetRewrite} (hmode : req.expansionMode = .shallowExpansion)
    (hz : req.depthRemaining ≠ 0)
    (hns : ld.nsm.readNamespaceAndRelation req.start.namespace_ req.start.relation
      req.atRevision = .ok relation)
    (hrw : relation.usersetRewrite = some rw) (hcanon : rw.canonical = true) :
    ∀ r, ld.expand req = .result r → r.err = none →
      RelationTupleTreeNode.childMembers r.tree =
        rw.denote (hopValuation (ld.expanderAt UInt16.size) req) := by
  intro r hr he
  obtain ⟨f, hf, hm⟩ :=
    @expandUsersetRewrite_means (ld.expanderAt UInt16.size) req hmode rw hcanon
  rw [ld.expand_of_ok hz hns (by rw [ConcurrentExpander.expand, hrw]; exact hf)] at hr
  exact hm r (expandOne_success hr he) he

theorem dispatch_tree_means_rewrite_docViewer :
    (docViewer 2).expansionMode = .shallowExpansion ∧ (docViewer 2).depthRemaining ≠ 0 ∧
      (docDispatcher ownerOrThis).nsm.readNamespaceAndRelation "doc" "viewer" 1 =
        .ok ⟨"viewer", some ownerOrThis, []⟩ ∧
      ownerOrThis.canonical = true ∧
      ∀ r, (docDispatcher ownerOrThis).expand (docViewer 2) = .result r → r.err = none →
        RelationTupleTreeNode.childMembers r.tree = ownerOrThis.denote
          (hopValuation ((docDispatcher ownerOrThis).expanderAt UInt16.size) (docViewer 2)) :=
  ⟨rfl, by decide, rfl, rfl,
    dispatch_tree_means_rewrite (docDispatcher ownerOrThis) (docViewer 2) rfl (by decide) rfl rfl
      rfl⟩

end SpiceDB.Graph
