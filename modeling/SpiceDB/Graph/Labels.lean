import SpiceDB.Graph.Revision

/-!
# How an expansion tree is labelled

A node's `Expanded` is the start of the request that built it. Set operations, arrows and
recursive direct reads build intermediate nodes on their request's start; a direct read of
the relation itself (`includeStart`) gives a leaf labelled with the start, and the `_this`
child of a set operation (`excludeStart`) an unlabelled leaf, which only ever sits under its
operation's node. A leaf lists the users of the tuples the store returns for its label, or
for its parent's label, at the root's revision: terminal users first, in the store's order,
then the others.
-/

namespace SpiceDB

/-- `GetExpanded`. -/
def RelationTupleTreeNode.expanded : RelationTupleTreeNode → Option ObjectAndRelation
  | .intermediateNode expanded _ _ => expanded
  | .leafNode expanded _ => expanded

end SpiceDB

namespace SpiceDB.Graph

open ConcurrentExpander

/-- `users` are the users of the tuples the store returns for `L` at `rev`: those whose
relation is `...` first, then the others, each in the store's order. -/
def LeafOf (ds : GraphDatastore) (rev : Revision) (L : ObjectAndRelation) (users : List User) :
    Prop :=
  ∃ tuples, ds.queryTuples ⟨L.namespace_, rev, L.objectId, L.relation⟩ = .ok tuples ∧
    users = (tuples.map (·.user)).filter (fun u => u.userset.relation = Ellipsis) ++
      (tuples.map (·.user)).filter fun u => u.userset.relation ≠ Ellipsis

/-- The leaf of a direct read lists the users of its tuples, those of relation `...` first. -/
theorem terminalUsers_append_nonTerminalUsers (tuples : List RelationTuple) :
    terminalUsers tuples ++ nonTerminalUsers tuples =
      (tuples.map (·.user)).filter (fun u => u.userset.relation = Ellipsis) ++
        (tuples.map (·.user)).filter fun u => u.userset.relation ≠ Ellipsis := by
  simp only [terminalUsers, nonTerminalUsers, List.filter_map]
  congr 3
  funext t
  simp [bne, Bool.beq_eq_decide_eq]

section Labelled

variable (ds : GraphDatastore) (rev : Revision)

mutual

/-- Every node is labelled, every labelled leaf lists the users of its label, and every
unlabelled leaf is the child of a node and lists the users of that node's label. -/
def Labelled : RelationTupleTreeNode → Prop
  | .intermediateNode (some L) _ children => ChildrenLabelled L children
  | .intermediateNode none _ _ => False
  | .leafNode (some L) users => LeafOf ds rev L users
  | .leafNode none _ => False

/-- `ChildLabelled` of every child. -/
def ChildrenLabelled (L : ObjectAndRelation) : List (Option RelationTupleTreeNode) → Prop
  | [] => True
  | c :: rest => ChildLabelled L c ∧ ChildrenLabelled L rest

/-- A child of a node labelled `L`: an unlabelled leaf of `L`'s users, or a labelled tree. -/
def ChildLabelled (L : ObjectAndRelation) : Option RelationTupleTreeNode → Prop
  | some (.leafNode none users) => LeafOf ds rev L users
  | some (.intermediateNode expanded op children) =>
    Labelled (.intermediateNode expanded op children)
  | some (.leafNode (some L') users) => Labelled (.leafNode (some L') users)
  | none => False

end

/-- Where an outcome succeeds, its tree is labelled `L` and labelled throughout: what a
dispatch to a request on `L` must deliver. -/
def HopOk (L : ObjectAndRelation) (o : Outcome) : Prop :=
  ∀ res, o = .result res → res.err = none →
    ∃ t, res.tree = some t ∧ t.expanded = some L ∧ Labelled ds rev t

/-- Where an outcome succeeds, its tree may sit under a node labelled `L`. -/
def ChildOk (L : ObjectAndRelation) (o : Outcome) : Prop :=
  ∀ res, o = .result res → res.err = none → ChildLabelled ds rev L res.tree

variable {ds rev}

theorem childrenLabelled_iff {L : ObjectAndRelation} :
    ∀ {cs : List (Option RelationTupleTreeNode)},
      ChildrenLabelled ds rev L cs ↔ ∀ c ∈ cs, ChildLabelled ds rev L c
  | [] => by simp [ChildrenLabelled]
  | c :: cs => by simp [ChildrenLabelled, childrenLabelled_iff]

theorem childrenLabelled_nil {L : ObjectAndRelation} : ChildrenLabelled ds rev L [] := trivial

theorem ChildrenLabelled.append {L : ObjectAndRelation} {cs : List (Option RelationTupleTreeNode)}
    {c : Option RelationTupleTreeNode} (hcs : ChildrenLabelled ds rev L cs)
    (hc : ChildLabelled ds rev L c) : ChildrenLabelled ds rev L (cs ++ [c]) := by
  rw [childrenLabelled_iff] at hcs ⊢
  intro c' hc'
  rcases List.mem_append.mp hc' with hc' | hc'
  · exact hcs c' hc'
  · rw [List.mem_singleton.mp hc']
    exact hc

/-- A labelled tree sits under any node. -/
theorem childLabelled_of_labelled {L L' : ObjectAndRelation} {t : RelationTupleTreeNode}
    (he : t.expanded = some L') (ht : Labelled ds rev t) : ChildLabelled ds rev L (some t) := by
  cases t with
  | intermediateNode => exact ht
  | leafNode expanded users =>
    cases he
    exact ht

theorem HopOk.childOk {L L' : ObjectAndRelation} {o : Outcome} (h : HopOk ds rev L' o) :
    ChildOk ds rev L o := fun res ho he => by
  obtain ⟨t, ht, hexp, hl⟩ := h res ho he
  rw [ht]
  exact childLabelled_of_labelled hexp hl

end Labelled

/-! ## The reducers and the closures -/

section Closures

variable {ds : GraphDatastore} {rev : Revision}

/-- A reducer that succeeds returns its node on `start`, whose children sit under it. -/
theorem collectChildren_labelled {op : Operation} {start : ObjectAndRelation} :
    ∀ {acc : List (Option RelationTupleTreeNode)} {outs : List Outcome},
      ChildrenLabelled ds rev start acc → (∀ o ∈ outs, ChildOk ds rev start o) →
      ∀ res, collectChildren op start acc outs = .result res → res.err = none →
        ∃ ch, res.tree = some (.intermediateNode (some start) op ch) ∧
          ChildrenLabelled ds rev start ch
  | acc, [], hacc, _, res, h, _ => by
    cases h
    exact ⟨acc, rfl, hacc⟩
  | acc, o :: outs, hacc, hout, res, h, he => by
    cases o with
    | result r =>
      simp only [collectChildren] at h
      split at h
      · cases h
        cases he
      · rename_i hr
        exact collectChildren_labelled (hacc.append (hout _ (List.mem_cons_self _ _) r rfl hr))
          (fun o ho => hout o (List.mem_cons_of_mem _ ho)) res h he
    | panic _ => cases h
    | outOfFuel => cases h

/-- `expandDirect`: its tree sits under a node on the request's start, and with `includeStart`
it is labelled with that start. -/
theorem expandDirect_labelled {d : Dispatcher} {req : ExpandRequest} {sb : StartInclusion}
    (hrev : req.atRevision = rev)
    (hd : ∀ user, req.expansionMode = .recursiveExpansion →
      HopOk ds rev (nonTerminalRequest req user).start (d.expand (nonTerminalRequest req user)))
    {res : ExpandResult} (h : (ConcurrentExpander.expandDirect ⟨d, ds⟩ req sb) = .result res)
    (he : res.err = none) :
    ∃ t, res.tree = some t ∧ ChildLabelled ds rev req.start (some t) ∧
      (sb = .includeStart → t.expanded = some req.start ∧ Labelled ds rev t) := by
  have hleaf : ∀ tuples, ds.queryTuples (directQuery req) = .ok tuples →
      ChildLabelled ds rev req.start (some (directLeaf req sb tuples)) ∧
        (sb = .includeStart → (directLeaf req sb tuples).expanded = some req.start ∧
          Labelled ds rev (directLeaf req sb tuples)) := by
    intro tuples hq
    have hof : LeafOf ds rev req.start (terminalUsers tuples ++ nonTerminalUsers tuples) :=
      ⟨tuples, by rw [← hrev]; exact hq, terminalUsers_append_nonTerminalUsers tuples⟩
    cases sb
    · exact ⟨hof, fun _ => ⟨rfl, hof⟩⟩
    · exact ⟨hof, nofun⟩
  simp only [expandDirect] at h
  split at h
  · cases h
    cases he
  · rename_i tuples hq
    split at h
    · cases h
      exact ⟨_, rfl, hleaf tuples hq⟩
    · rename_i hrec
      have hm : req.expansionMode = .recursiveExpansion := by
        by_contra hne; simp [hne] at hrec
      obtain ⟨hcl, -⟩ := hleaf tuples hq
      obtain ⟨r₀, expanded, op, ch, hr₀, he₀, ht₀, rfl⟩ := appendLeaf_success h he
      obtain ⟨ch', hch, hlab⟩ := @collectChildren_labelled ds rev .union req.start [] _ childrenLabelled_nil
        (fun o ho => by
          obtain ⟨u, -, rfl⟩ := List.mem_map.mp ho
          exact (hd u hm).childOk) r₀ hr₀ he₀
      rw [ht₀] at hch
      cases hch
      exact ⟨_, rfl, hlab.append hcl, fun _ => ⟨rfl, hlab.append hcl⟩⟩

mutual

/-- The tree of a closure built for `req` sits under a node on `req.start`, when every dispatch
it makes delivers a tree labelled with its request's start. -/
theorem run_childOk {d : Dispatcher} {req : ExpandRequest} (hrev : req.atRevision = rev) :
    ∀ f : ExpandFunc, BuiltFor req f →
      (∀ r, f.Dispatches r → HopOk ds rev r.start (d.expand r)) →
      ChildOk ds rev req.start (run ⟨d, ds⟩ f)
  | .direct _ sb, hb, hd => fun res h he => by
    cases hb
    obtain ⟨t, ht, hcl, -⟩ := expandDirect_labelled hrev (fun u hm => hd _ (.direct u hm)) h he
    rw [ht]
    exact hcl
  | .setOperation _ op fs, hb, hd => fun res h he => by
    cases hb with
    | setOperation _ hfs =>
      simp only [run, runAll_eq_map, Graph.expandSetOperation] at h
      obtain ⟨ch, ht, hlab⟩ := collectChildren_labelled childrenLabelled_nil
        (runAll_childOk hrev fs hfs fun f hf r hr => hd r (.setOperation hf hr)) res h he
      rw [ht]
      exact hlab
  | .dispatch r, _, hd => (hd r (.dispatch r)).childOk
  | .tupleToUserset _ ttu, hb, hd => fun res h he => by
    cases hb
    simp only [run, expandTupleToUserset] at h
    split at h
    · cases h
      cases he
    · split at h
      · cases h
      · rename_i hreqs
        obtain ⟨ch, ht, hlab⟩ := collectChildren_labelled childrenLabelled_nil (fun o ho => by
            obtain ⟨r, hr, rfl⟩ := List.mem_map.mp ho
            obtain ⟨tpl, -, htpl⟩ := exists_of_mapM_ok hreqs hr
            exact (hd r (.tupleToUserset tpl htpl)).childOk) res h he
        rw [ht]
        exact hlab
  | .alwaysFail, _, _ => fun res h he => by
    cases h
    cases he

/-- `run_childOk` over a list of closures. -/
theorem runAll_childOk {d : Dispatcher} {req : ExpandRequest} (hrev : req.atRevision = rev) :
    ∀ fs : List ExpandFunc, (∀ f ∈ fs, BuiltFor req f) →
      (∀ f ∈ fs, ∀ r, f.Dispatches r → HopOk ds rev r.start (d.expand r)) →
      ∀ o ∈ fs.map (run ⟨d, ds⟩), ChildOk ds rev req.start o
  | [], _, _ => by simp
  | f :: fs, hb, hd => by
    intro o ho
    rcases List.mem_cons.mp ho with rfl | ho
    · exact run_childOk hrev f (hb f (List.mem_cons_self _ _)) (hd f (List.mem_cons_self _ _))
    · exact runAll_childOk hrev fs (fun g hg => hb g (List.mem_cons_of_mem _ hg))
        (fun g hg => hd g (List.mem_cons_of_mem _ hg)) o ho

end

/-- The closure the dispatcher builds for `req` returns a tree labelled `req.start`. -/
theorem run_hopOk {d : Dispatcher} {req : ExpandRequest} {relation : Relation} {f : ExpandFunc}
    (hrev : req.atRevision = rev) (hf : ConcurrentExpander.expand req relation = .ok f)
    (hd : ∀ r, f.Dispatches r → HopOk ds rev r.start (d.expand r)) :
    HopOk ds rev req.start (run ⟨d, ds⟩ f) := fun res h he => by
  simp only [ConcurrentExpander.expand] at hf
  split at hf
  · cases hf
    obtain ⟨t, ht, -, hinc⟩ := expandDirect_labelled hrev (fun u hm => hd _ (.direct u hm)) h he
    exact ⟨t, ht, (hinc rfl).1, (hinc rfl).2⟩
  · rename_i usr _
    cases usr with
    | unset =>
      cases hf
      cases h
      cases he
    | _ child =>
      simp only [expandUsersetRewrite, Functor.map, Except.map] at hf
      split at hf
      · cases hf
      · rename_i fs hfs
        cases hf
        simp only [run, runAll_eq_map, Graph.expandSetOperation] at h
        obtain ⟨ch, ht, hlab⟩ := collectChildren_labelled childrenLabelled_nil
          (runAll_childOk hrev fs (expandChildren_builtFor req _ hfs)
            fun f hf r hr => hd r (.setOperation hf hr)) res h he
        exact ⟨_, ht, rfl, hlab⟩

end Closures

/-- Every tree the dispatcher returns for a request at `rev` is labelled with its start and
labelled throughout. -/
theorem LocalDispatcher.expandAux_hopOk (ld : LocalDispatcher) {rev : Revision} :
    ∀ (n : Nat) (r : ExpandRequest), r.atRevision = rev → HopOk ld.ds rev r.start (ld.expandAux n r)
  | 0, _, _ => fun _ h => by cases h
  | n + 1, r, hrev => fun res h he => by
    simp only [LocalDispatcher.expandAux] at h
    split at h
    · cases h
      cases he
    · split at h
      · cases h
        cases he
      · split at h
        · cases h
        · rename_i f hf
          exact run_hopOk hrev hf (fun r' hr' => ld.expandAux_hopOk n r'
              (((expand_builtFor hf).dispatches hr').atRevision.trans hrev)) res
            (expandOne_success h he) he

/--
**How an expansion tree is labelled.** For every request `r` an expansion of `req` dispatches,
the root request included, a tree the dispatcher returns for `r` is labelled `r.start`; its
intermediate nodes are all labelled; a leaf labelled `L` lists the users of the tuples the store
returns for `L` at the root's revision, terminal users first; and an unlabelled leaf is the child
of a node labelled `L'` and lists the users of the tuples for `L'`.
-/
theorem expand_tree_labelled (ld : LocalDispatcher) (req r : ExpandRequest) (T : RelationTupleTreeNode)
    (hr : ld.Reaches req r) (h : ld.expand r = .result ⟨some T, none⟩) :
    T.expanded = some r.start ∧ Labelled ld.ds req.atRevision T := by
  obtain ⟨t, ht, hexp, hlab⟩ := ld.expandAux_hopOk _ r hr.revision_mode.1 _ h rfl
  cases ht
  exact ⟨hexp, hlab⟩

/-- `doc:1#owner@user:a`, `doc:1#owner@doc:2#owner` and `doc:2#owner@user:c`, at every
revision: `doc:1`'s owners include `doc:2`'s. -/
def nestedOwners : GraphDatastore :=
  ⟨fun q => .ok ([⟨⟨"doc", "1", "owner"⟩, ⟨⟨"user", "a", Ellipsis⟩⟩⟩,
      ⟨⟨"doc", "1", "owner"⟩, ⟨⟨"doc", "2", "owner"⟩⟩⟩,
      ⟨⟨"doc", "2", "owner"⟩, ⟨⟨"user", "c", Ellipsis⟩⟩⟩].filter fun t =>
    t.objectAndRelation = ⟨q.namespace_, q.objectId, q.relation⟩)⟩

def docOwners : ExpandRequest := ⟨⟨"doc", "1", "owner"⟩, 1, 3, .recursiveExpansion⟩

/-- The recursive expansion of `doc:1#owner`: the dispatched `doc:2#owner` first, then the leaf
of `doc:1#owner`, whose non-terminal user `doc:2#owner` follows the terminal `user:a`. -/
def docOwnersNode : RelationTupleTreeNode :=
  .intermediateNode (some ⟨"doc", "1", "owner"⟩) .union
    [some (.leafNode (some ⟨"doc", "2", "owner"⟩) [⟨⟨"user", "c", Ellipsis⟩⟩]),
      some (.leafNode (some ⟨"doc", "1", "owner"⟩)
        [⟨⟨"user", "a", Ellipsis⟩⟩, ⟨⟨"doc", "2", "owner"⟩⟩])]

theorem expand_tree_labelled_docOwners :
    (⟨docSchema ownerOrThis, nestedOwners⟩ : LocalDispatcher).Reaches docOwners docOwners ∧
      (⟨docSchema ownerOrThis, nestedOwners⟩ : LocalDispatcher).expand docOwners =
        .result ⟨some docOwnersNode, none⟩ ∧
      docOwnersNode.expanded = some docOwners.start ∧
      Labelled nestedOwners docOwners.atRevision docOwnersNode :=
  ⟨.root, rfl, expand_tree_labelled ⟨docSchema ownerOrThis, nestedOwners⟩ _ _ _ .root rfl⟩

end SpiceDB.Graph
