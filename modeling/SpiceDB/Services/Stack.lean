import SpiceDB.Services.Meaning
import SpiceDB.Services.Snapshot

/-!
# `Expand` through the whole stack

The API's `Expand` in front of the local dispatcher, whose expander reads memdb, after a history
of `Write` requests. `Services.Meaning` says what the tree of a successful `Expand` stands for,
one dispatcher hop down, in terms of the tuples the expander's queries return;
`Services.Snapshot` says which tuples memdb lists at a committed revision. Put together, the tree
stands for what the relation's rewrite denotes over the set semantics of the accepted writes, at
the revision the reply's zookie names (`expand_reads_set_semantics`).

The execution of memdb's tuple query is not in the repository snapshot; as in
`Services.Snapshot` it is modelled from the spec, as the tuples live at the query's revision on
the object and relation it asks for.
-/

namespace SpiceDB.Services

open Memdb Graph

/-- Modelled from the spec: memdb as the expander's datastore.
`QueryTuples(namespace, revision).WithObjectID(objectId).WithRelation(relation)` yields the
tuples live at the revision on that object and relation. -/
def memdbGraphDatastore (db : DB) : GraphDatastore where
  queryTuples q := .ok ((db.tuples.visibleAt q.revision).filter
    fun t => t.objectAndRelation == ⟨q.namespace_, q.objectId, q.relation⟩)

/-- The valuation over a set of tuples `S`: `_this` is the users of the start's tuples, an arrow
the union, over the tuples of the start's tupleset relation, of `members` of the computed
relation on each tuple's user, and a relation `members` of it on the start's object. -/
def setValuation (S : Finset RelationTuple) (members : ObjectAndRelation → Set User)
    (start : ObjectAndRelation) : Schema.Valuation User where
  relation relation := members ⟨start.namespace_, start.objectId, relation⟩
  arrow tuplesetRelation computedRelation := {u | ∃ t ∈ S,
    t.objectAndRelation = ⟨start.namespace_, start.objectId, tuplesetRelation⟩ ∧
      u ∈ members ⟨t.user.userset.namespace_, t.user.userset.objectId, computedRelation⟩}
  this := {u | ∃ t ∈ S, t.objectAndRelation = start ∧ t.user = u}

/-- The valuation the expander's queries give depends only on what each query at the request's
revision lists: where that is the tuples of `S` on the query's object and relation, it is the
valuation over `S`. -/
theorem hopValuation_of_answers {ds : GraphDatastore} {S : Finset RelationTuple} (d : Dispatcher)
    (req : Graph.ExpandRequest)
    (hds : ∀ q : TupleQuery, q.revision = req.atRevision → ∃ tuples, ds.queryTuples q = .ok tuples ∧
      ∀ t, t ∈ tuples ↔ t ∈ S ∧ t.objectAndRelation = ⟨q.namespace_, q.objectId, q.relation⟩) :
    hopValuation ⟨d, ds⟩ req =
      setValuation S (fun onr => (d.expand (hop req onr)).members) req.start := by
  obtain ⟨direct, hdirect, hmem⟩ := hds (ConcurrentExpander.directQuery req) rfl
  simp only [hopValuation, setValuation, hdirect, hmem, and_assoc, Schema.Valuation.mk.injEq,
    true_and]
  refine ⟨funext fun tuplesetRelation => funext fun computedRelation => ?_, rfl⟩
  obtain ⟨tuples, htuples, hmem⟩ :=
    hds ⟨req.start.namespace_, req.atRevision, req.start.objectId, tuplesetRelation⟩ rfl
  simp only [htuples, hmem, and_assoc]

/-- **The expander over memdb reads the set semantics.** On a database that refines a log, at a
revision of the log, the valuation the expander's queries give is the one over the set the log
denotes there. -/
theorem hopValuation_memdb {db : DB} {h : List (List RelationTupleUpdate)} (hr : Refines db h)
    (d : Dispatcher) (req : Graph.ExpandRequest) (hle : req.atRevision ≤ h.length) :
    hopValuation ⟨d, memdbGraphDatastore db⟩ req =
      setValuation (Spec.setAt h req.atRevision) (fun onr => (d.expand (hop req onr)).members)
        req.start :=
  hopValuation_of_answers d req fun _ hq => ⟨_, rfl, fun t => by
    rw [List.mem_filter, hq, ← List.mem_toFinset, (visibleAt_toFinset_of_refines hr hle).2,
      beq_iff_eq]⟩

/-- The revision a handler picks on memdb after a history, whose clock never goes back, is
committed, when the zookie's revision, if any, is. -/
theorem WriteService.pickBestRevision_runTimed_le (ws : WriteService) {cfg : Clocks}
    {hist : List (Int × WriteRequest)} {t : Int} {pick : Nat} {zk : ZookieCodec}
    {requested : Option Zookie} {r : Revision} {h : List (List RelationTupleUpdate)}
    (hclock : ClockBetween 0 hist t) (ht : t < 2 ^ 63) (hcalls : hist.length < 2 ^ 64)
    (hfuzz : 0 ≤ cfg.revisionFuzzingTimedelta)
    (href : Refines (ws.runTimed TimedDB.empty hist).1.db h)
    (hz : ∀ z w, requested = some z → zk.decodeRevision z = .ok w → w ≤ h.length)
    (hp : pickBestRevision (memdbDatastore cfg (ws.runTimed TimedDB.empty hist).1 t pick) zk
      requested = .ok r) :
    r ≤ h.length := by
  obtain ⟨-, rfl | ⟨z, hzr, hw⟩⟩ := pickBestRevision_memdb hp
  · -- the revision `Revision` drew
    obtain ⟨hle, -⟩ := ws.revision_runTimed_bounds cfg hist pick hclock ht hcalls hfuzz
    rwa [href.changelog.syncRevision_eq] at hle
  · exact hz z _ hzr hw

/-- **`Expand` over memdb answers with the set semantics.** Take an ACL server over memdb, after a
history of `Write` requests from the empty datastore whose clock never goes back, within `int64`
nanoseconds after the epoch, in which every accepted request creates no tuple an earlier request
left live and fewer than `2^64 - 1` are accepted; its dispatcher is the local one, reading the same
memdb, its default depth is not `0`, the fuzzing delta is nonnegative, and the client's zookie, if
any, names a committed revision. For a userset whose relation resolves to a canonical rewrite, a
successful `Expand` answers at a committed revision, named by its zookie, with a tree that stands
for what the rewrite denotes over the set semantics of the accepted writes at that revision, each
relation read as the dispatcher's own tree one hop down. -/
theorem expand_reads_set_semantics (ws : WriteService) (as : AclServer) (ld : LocalDispatcher)
    (cfg : Clocks) (hist : List (Int × WriteRequest)) {t : Int} (pick : Nat)
    (metadata : Option Metadata) (req : ExpandRequest) {relation : Relation} {rw : UsersetRewrite}
    (hclock : ClockBetween 0 hist t) (ht : t < 2 ^ 63) (hcalls : hist.length < 2 ^ 64)
    (hfuzz : 0 ≤ cfg.revisionFuzzingTimedelta)
    (hn : (accepted (hist.map Prod.snd) (ws.runTimed TimedDB.empty hist).2).length < 2 ^ 64 - 1)
    (hfresh : Spec.freshLog ∅ (accepted (hist.map Prod.snd) (ws.runTimed TimedDB.empty hist).2))
    (hds : as.ds = memdbDatastore cfg (ws.runTimed TimedDB.empty hist).1 t pick)
    (hld : ld.ds = memdbGraphDatastore (ws.runTimed TimedDB.empty hist).1.db)
    (hd : as.dispatch = ⟨ld.expand⟩) (hdef : as.defaultDepth ≠ 0)
    (hns : ∀ rev, ld.nsm.readNamespaceAndRelation req.userset.namespace_ req.userset.relation
      rev = .ok relation)
    (hrw : relation.usersetRewrite = some rw) (hcanon : rw.canonical = true)
    (hz : ∀ z w, req.atRevision = some z → as.zookies.decodeRevision z = .ok w →
      w ≤ (accepted (hist.map Prod.snd) (ws.runTimed TimedDB.empty hist).2).length) :
    ∀ resp, expand as metadata req = .ok resp →
      ∃ atRevision depth, resp.revision = as.zookies.newFromRevision atRevision ∧
        atRevision ≤ (accepted (hist.map Prod.snd) (ws.runTimed TimedDB.empty hist).2).length ∧
        RelationTupleTreeNode.childMembers resp.treeNode = rw.denote (setValuation
          (Spec.setAt (accepted (hist.map Prod.snd) (ws.runTimed TimedDB.empty hist).2) atRevision)
          (fun onr =>
            (ld.expand (hop ⟨req.userset, atRevision, depth, .shallowExpansion⟩ onr)).members)
          req.userset) := by
  intro resp h
  obtain ⟨atRevision, depth, hp, hrev, htree⟩ := expand_local_eq_ok hd hdef hns hrw hcanon h
  have href := ws.runTimed_refines hist hn hfresh
  have hcommitted := ws.pickBestRevision_runTimed_le hclock ht hcalls hfuzz href hz (hds ▸ hp)
  refine ⟨atRevision, depth, hrev, hcommitted, ?_⟩
  rw [htree, LocalDispatcher.expanderAt, hld, hopValuation_memdb href _ _ hcommitted]
  rfl

/-- The local dispatcher over memdb after `timedDocHistory`, serving
`view = viewer + parent->view - banned` and every other relation from its tuples alone. -/
def docStack : LocalDispatcher :=
  ⟨⟨fun _ relation _ => .ok (if relation = "view"
      then Namespace.relation "view" (some Schema.viewerOrParentNotBanned.rewrite) []
      else Namespace.relation relation none [])⟩,
    memdbGraphDatastore (docWrites.runTimed TimedDB.empty timedDocHistory).1.db⟩

/-- The ACL service over memdb at `20` ns after `timedDocHistory`, in front of `docStack`. -/
def docStackServer : AclServer where
  ds := memdbDatastore shortWindows (docWrites.runTimed TimedDB.empty timedDocHistory).1 20 0
  nsm := ⟨fun _ _ _ => .ok ()⟩
  dispatch := ⟨docStack.expand⟩
  defaultDepth := 2
  zookies := unaryZookies
  validateRead _ := .ok ()
  validateExpand _ := .ok ()
  expandError := dispatchError

theorem expand_reads_set_semantics_docHistory :
    ClockBetween 0 timedDocHistory 20 ∧ (20 : Int) < 2 ^ 63 ∧ timedDocHistory.length < 2 ^ 64 ∧
      0 ≤ shortWindows.revisionFuzzingTimedelta ∧
      (accepted (timedDocHistory.map Prod.snd)
        (docWrites.runTimed TimedDB.empty timedDocHistory).2).length < 2 ^ 64 - 1 ∧
      Spec.freshLog ∅ (accepted (timedDocHistory.map Prod.snd)
        (docWrites.runTimed TimedDB.empty timedDocHistory).2) ∧
      docStackServer.defaultDepth ≠ 0 ∧
      ∀ resp, expand docStackServer none viewExpand = .ok resp →
        ∃ atRevision depth, resp.revision = docStackServer.zookies.newFromRevision atRevision ∧
          atRevision ≤ (accepted (timedDocHistory.map Prod.snd)
            (docWrites.runTimed TimedDB.empty timedDocHistory).2).length ∧
          RelationTupleTreeNode.childMembers resp.treeNode =
            Schema.viewerOrParentNotBanned.rewrite.denote (setValuation
              (Spec.setAt (accepted (timedDocHistory.map Prod.snd)
                (docWrites.runTimed TimedDB.empty timedDocHistory).2) atRevision)
              (fun onr => (docStack.expand
                (hop ⟨viewExpand.userset, atRevision, depth, .shallowExpansion⟩ onr)).members)
              viewExpand.userset) :=
  ⟨by decide, by decide, by decide, by decide, by decide, by decide, by decide,
    expand_reads_set_semantics docWrites docStackServer docStack shortWindows timedDocHistory 0
      none viewExpand (by decide) (by decide) (by decide) (by decide) (by decide) (by decide) rfl
      rfl rfl (by decide) (fun _ => rfl) rfl (rewrite_canonical _) fun _ _ h => nomatch h⟩

end SpiceDB.Services
