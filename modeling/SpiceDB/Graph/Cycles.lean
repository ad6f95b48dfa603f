import SpiceDB.Graph.Meaning

/-!
# A relation that reaches itself

`TestMaxDepthExpand` writes `folder:oops#parent@folder:oops#...` under a schema whose `viewer`
takes `parent->viewer`, and expects `Expand` of `folder:oops#viewer` to fail. In general: when a
relation's rewrite is a set operation with an arrow that computes the relation itself on the
users of a tupleset, and that tupleset of the start holds the start's own object, every hop
dispatches the start again one level lower, until the depth runs out. The error travels up,
since a set operation fails as soon as one of its children does, so `Expand` never answers with
a tree, at any depth (`expand_fails_on_self_arrow`).
-/

namespace SpiceDB.Graph

open ConcurrentExpander

/-- An outcome without a tree: every result it carries is an error. -/
def Outcome.Fails (o : Outcome) : Prop := ∀ r, o = .result r → r.err ≠ none

theorem Outcome.fails_error (e : ExpandError) : (Outcome.result ⟨none, some e⟩).Fails := by
  rintro r ⟨⟩
  nofun

theorem Outcome.fails_panic (msg : String) : (Outcome.panic msg).Fails := fun _ h => nomatch h

/-- A set operation fails when one of its children does: the receive loop stops at the first
error, or at a panic before it. -/
theorem collectChildren_fails {op : Operation} {start : ObjectAndRelation} :
    ∀ {acc : List (Option RelationTupleTreeNode)} {outs : List Outcome}, (∃ o ∈ outs, o.Fails) →
      (collectChildren op start acc outs).Fails
  | _, [], ⟨_, ho, _⟩ => absurd ho (List.not_mem_nil _)
  | acc, .result r :: rest, ⟨o, ho, hf⟩ => by
    rw [collectChildren]
    split
    · exact Outcome.fails_error _
    · rename_i herr
      rcases List.mem_cons.mp ho with rfl | ho
      · exact absurd herr (hf _ rfl)
      · exact collectChildren_fails ⟨o, ho, hf⟩
  | _, .panic _ :: _, _ => Outcome.fails_panic _
  | _, .outOfFuel :: _, _ => fun _ h => nomatch h

theorem expandOne_fails {o : Outcome} (h : o.Fails) : (expandOne o).Fails := by
  unfold expandOne
  split
  · split
    · rename_i hsome
      rintro r ⟨⟩
      exact Option.ne_none_iff_isSome.mpr hsome
    · exact h
  · exact h

/-- The closures of a set operation hold one per arrow child, in the request. -/
theorem tupleToUserset_mem_expandChildren {req : ExpandRequest} {ttu : TupleToUserset} :
    ∀ {children : List SetOperationChild} {fs : List ExpandFunc},
      expandChildren req children = .ok fs → .tupleToUserset ttu ∈ children →
        .tupleToUserset req ttu ∈ fs
  | [], _, _, hmem => absurd hmem (List.not_mem_nil _)
  | c :: cs, fs, h, hmem => by
    -- the closure of `c` comes first, then those of the other children
    have tail : ∀ {g : ExpandFunc}, (g :: ·) <$> expandChildren req cs = .ok fs →
        (c = .tupleToUserset ttu → g = .tupleToUserset req ttu) →
          .tupleToUserset req ttu ∈ fs := by
      intro g h' hg
      simp only [Functor.map, Except.map] at h'
      split at h'
      · cases h'
      · rename_i gs hgs
        cases h'
        rcases List.mem_cons.mp hmem with hc | hm
        · exact hg hc.symm ▸ List.mem_cons_self _ _
        · exact List.mem_cons_of_mem _ (tupleToUserset_mem_expandChildren hgs hm)
    cases c with
    | this => exact tail h nofun
    | computedUserset cu =>
      simp only [expandChildren, bind, Except.bind] at h
      split at h
      · cases h
      · exact tail h nofun
    | usersetRewrite rw =>
      simp only [expandChildren, bind, Except.bind] at h
      split at h
      · cases h
      · exact tail h nofun
    | tupleToUserset ttu' => exact tail h fun hc => by cases hc; rfl
    | unset =>
      exact tupleToUserset_mem_expandChildren (show expandChildren req cs = .ok fs from h)
        ((List.mem_cons.mp hmem).resolve_left nofun)

/-- A set operation with an arrow child builds a set-operation closure holding the arrow's. -/
theorem expandUsersetRewrite_setOperation {req : ExpandRequest} {rw : UsersetRewrite}
    {children : List SetOperationChild} {ttu : TupleToUserset} {f : ExpandFunc}
    (hrw : rw = .union children ∨ rw = .intersection children ∨ rw = .exclusion children)
    (hmem : .tupleToUserset ttu ∈ children) (h : expandUsersetRewrite req rw = .ok f) :
    ∃ op fs, f = .setOperation req op fs ∧ .tupleToUserset req ttu ∈ fs := by
  rcases hrw with rfl | rfl | rfl <;>
  · simp only [expandUsersetRewrite, Functor.map, Except.map] at h
    split at h
    · cases h
    · rename_i fs hfs
      cases h
      exact ⟨_, fs, rfl, tupleToUserset_mem_expandChildren hfs hmem⟩

/-- The arrow that computes the start's own relation, over a tupleset of the start that holds
the start's object, fails when the start one level lower does. -/
theorem expandTupleToUserset_fails {ce : ConcurrentExpander} {req : ExpandRequest}
    {ttu : TupleToUserset} (hcu : ttu.computedUserset = ⟨.tupleUsersetObject, req.start.relation⟩)
    (hself : ∀ tuples, ce.ds.queryTuples (tuplesetQuery req ttu) = .ok tuples →
      ∃ tpl ∈ tuples, tpl.user.userset.namespace_ = req.start.namespace_ ∧
        tpl.user.userset.objectId = req.start.objectId)
    (hlower : (ce.d.expand (hop req req.start)).Fails) :
    (ce.expandTupleToUserset req ttu).Fails := by
  unfold expandTupleToUserset
  cases hq : ce.ds.queryTuples (tuplesetQuery req ttu) with
  | error err => exact Outcome.fails_error _
  | ok tuples =>
    obtain ⟨tpl, htpl, hns, hoid⟩ := hself tuples hq
    have hf : (computedUsersetRequest req ttu.computedUserset ∘ some) = fun tpl =>
        .ok (hop req ⟨tpl.user.userset.namespace_, tpl.user.userset.objectId,
          req.start.relation⟩) := by
      rw [hcu]
      rfl
    simp only [hf, mapM_ok, expandAny, Graph.expandSetOperation, List.map_map]
    refine collectChildren_fails ⟨_, List.mem_map_of_mem _ htpl, ?_⟩
    simpa only [Function.comp, hns, hoid] using hlower

namespace LocalDispatcher

variable (ld : LocalDispatcher)

section SelfArrow

variable {start : ObjectAndRelation} {rev : Revision} {relation : Relation} {rw : UsersetRewrite}
  {children : List SetOperationChild} {ttu : TupleToUserset}

theorem expandAux_fails_on_self_arrow (mode : ExpansionMode)
    (hns : ld.nsm.readNamespaceAndRelation start.namespace_ start.relation rev = .ok relation)
    (hrw : relation.usersetRewrite = some rw)
    (hso : rw = .union children ∨ rw = .intersection children ∨ rw = .exclusion children)
    (hmem : .tupleToUserset ttu ∈ children)
    (hcu : ttu.computedUserset = ⟨.tupleUsersetObject, start.relation⟩)
    (hself : ∀ tuples, ld.ds.queryTuples
        ⟨start.namespace_, rev, start.objectId, ttu.tupleset.relation⟩ = .ok tuples →
      ∃ tpl ∈ tuples, tpl.user.userset.namespace_ = start.namespace_ ∧
        tpl.user.userset.objectId = start.objectId) :
    ∀ fuel depth, (ld.expandAux fuel ⟨start, rev, depth, mode⟩).Fails
  | 0, _ => fun _ h => nomatch h
  | fuel + 1, depth => by
    simp only [expandAux]
    split
    · exact Outcome.fails_error _
    · rw [hns]
      simp only [ConcurrentExpander.expand, hrw]
      cases hf : expandUsersetRewrite ⟨start, rev, depth, mode⟩ rw with
      | error msg => exact Outcome.fails_panic _
      | ok f =>
        obtain ⟨op, fs, rfl, hmemf⟩ := expandUsersetRewrite_setOperation hso hmem hf
        simp only [run, runAll_eq_map, Graph.expandSetOperation]
        refine expandOne_fails (collectChildren_fails ⟨_, List.mem_map_of_mem _ hmemf, ?_⟩)
        -- the arrow dispatches the start again, one level lower
        exact expandTupleToUserset_fails hcu hself
          (expandAux_fails_on_self_arrow mode hns hrw hso hmem hcu hself fuel (depth - 1))

end SelfArrow

end LocalDispatcher

/-- **`Expand` answers a relation that reaches itself with no tree.** Take a relation whose
rewrite is a union, intersection or exclusion with an arrow that computes the relation itself on
the users of a tupleset, where every read of that tupleset of the start, at the revision, holds
a tuple whose user is the start's object. Then at every depth and in either mode, every result
the local dispatcher's `Expand` gives for the start is an error, without a tree. -/
theorem expand_fails_on_self_arrow (ld : LocalDispatcher) {start : ObjectAndRelation}
    {rev : Revision} {relation : Relation} {rw : UsersetRewrite}
    {children : List SetOperationChild} {ttu : TupleToUserset}
    (hns : ld.nsm.readNamespaceAndRelation start.namespace_ start.relation rev = .ok relation)
    (hrw : relation.usersetRewrite = some rw)
    (hso : rw = .union children ∨ rw = .intersection children ∨ rw = .exclusion children)
    (hmem : .tupleToUserset ttu ∈ children)
    (hcu : ttu.computedUserset = ⟨.tupleUsersetObject, start.relation⟩)
    (hself : ∀ tuples, ld.ds.queryTuples
        ⟨start.namespace_, rev, start.objectId, ttu.tupleset.relation⟩ = .ok tuples →
      ∃ tpl ∈ tuples, tpl.user.userset.namespace_ = start.namespace_ ∧
        tpl.user.userset.objectId = start.objectId)
    (depth : UInt16) (mode : ExpansionMode) :
    ∀ r, ld.expand ⟨start, rev, depth, mode⟩ = .result r → r.err.isSome ∧ r.tree = none := by
  intro r h
  have hsome : r.err.isSome := Option.ne_none_iff_isSome.mp
    (ld.expandAux_fails_on_self_arrow mode hns hrw hso hmem hcu hself UInt16.size depth r h)
  have hvalid := ld.expandAux_valid UInt16.size _ r h
  refine ⟨hsome, ?_⟩
  simpa [ExpandResult.Valid, hsome] using hvalid

/-- `folder#viewer` of the tests' standard schema, as far as `TestMaxDepthExpand` reads it: its
own tuples and `parent->viewer`. -/
def folderViewer : Relation :=
  Namespace.relation "viewer"
    (some (.union [.this, .tupleToUserset ⟨⟨"parent"⟩, ⟨.tupleUsersetObject, "viewer"⟩⟩])) []

/-- The dispatcher of `TestMaxDepthExpand`, after `folder:oops#parent@folder:oops#...`. -/
def oopsDispatcher : LocalDispatcher :=
  ⟨⟨fun _ _ _ => .ok folderViewer⟩,
    ⟨fun q => .ok (if q.relation = "parent" then
      [⟨⟨"folder", "oops", "parent"⟩, ⟨⟨"folder", "oops", Ellipsis⟩⟩⟩] else [])⟩⟩

theorem expand_fails_on_self_arrow_oops :
    oopsDispatcher.nsm.readNamespaceAndRelation "folder" "viewer" 1 = .ok folderViewer ∧
      (∀ tuples, oopsDispatcher.ds.queryTuples ⟨"folder", 1, "oops", "parent"⟩ = .ok tuples →
        ∃ tpl ∈ tuples, tpl.user.userset.namespace_ = "folder" ∧
          tpl.user.userset.objectId = "oops") ∧
      ∀ r, oopsDispatcher.expand ⟨⟨"folder", "oops", "viewer"⟩, 1, 50, .shallowExpansion⟩ =
        .result r → r.err.isSome ∧ r.tree = none :=
  have hself : ∀ tuples, oopsDispatcher.ds.queryTuples ⟨"folder", 1, "oops", "parent"⟩ =
      .ok tuples → ∃ tpl ∈ tuples, tpl.user.userset.namespace_ = "folder" ∧
        tpl.user.userset.objectId = "oops" := by
    rintro tuples ⟨⟩
    exact ⟨_, List.mem_singleton_self _, rfl, rfl⟩
  ⟨rfl, hself, @expand_fails_on_self_arrow oopsDispatcher ⟨"folder", "oops", "viewer"⟩ 1
    folderViewer _ _ ⟨⟨"parent"⟩, ⟨.tupleUsersetObject, "viewer"⟩⟩ rfl rfl (.inl rfl)
    (List.mem_cons_of_mem _ (List.mem_singleton_self _)) rfl hself 50 .shallowExpansion⟩

end SpiceDB.Graph
