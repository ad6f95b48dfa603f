import SpiceDB.Services.Snapshot

/-!
# `Check`, `ContentChangeCheck` and `Lookup`

The three handlers of `internal/services/acl.go` that call the dispatcher's `Check` and
`Lookup`. Those two methods are not in the repository snapshot, so they are parameters of the
server (`CheckServer`), with the datastore's `SyncRevision` and each request's `Validate()`.

`Check` and `ContentChangeCheck` differ in one step only, the revision: `Check` picks one no older
than the datastore's `Revision` nor the client's zookie, `ContentChangeCheck` takes the
datastore's `SyncRevision`. Both then go through `commonCheck`, which checks the start relation
(no ellipsis) and the goal relation (ellipsis allowed), picks a depth and reports the dispatcher's
answer at that revision. Over memdb, `SyncRevision` is the revision of the last accepted `Write`,
so a `ContentChangeCheck` is asked over every write accepted before it
(`contentChangeCheck_reads_last_write`), while a `Check` is asked at the fuzzed `Revision` or the
client's zookie, whichever is newer, and only the former is sure to be committed
(`check_reads_committed_or_zookie`).

`Lookup` clamps the limit to `lookupMaximumLimit`, `lookupDefaultLimit` standing for none, and
answers with the ids of the objects the dispatcher resolves, refusing the whole answer at the
first object outside the requested namespace (`lookup_answers_resolved`,
`lookupRequest_first_outside`).
-/

namespace SpiceDB

namespace Graph

/-- `graph.CheckRequest`. -/
structure CheckRequest where
  start : ObjectAndRelation
  goal : ObjectAndRelation
  atRevision : Revision
  depthRemaining : UInt16

/-- `graph.CheckResult`: the membership, or the error the dispatcher met. -/
structure CheckResult where
  isMember : Bool
  err : Option Services.AclError

/-- `graph.LookupRequest` as `Lookup` fills it; its stacks start empty and its tracer prints
nothing. -/
structure LookupRequest where
  targetONR : ObjectAndRelation
  startRelation : RelationReference
  limit : Nat
  atRevision : Revision
  depthRemaining : UInt16

/-- `graph.LookupResult`. -/
structure LookupResult where
  resolvedObjects : List ObjectAndRelation
  err : Option Services.AclError

end Graph

namespace Services

/-- `CheckRequest` of the API. -/
structure CheckRequest where
  testUserset : ObjectAndRelation
  user : User
  atRevision : Option Zookie

/-- `ContentChangeCheckRequest`. -/
structure ContentChangeCheckRequest where
  testUserset : ObjectAndRelation
  user : User

/-- `CheckResponse_Membership`. -/
inductive Membership where
  | unknown
  | member
  | notMember
deriving DecidableEq, Repr

/-- `CheckResponse`. -/
structure CheckResponse where
  isMember : Bool
  revision : Zookie
  membership : Membership

/-- `LookupRequest`. -/
structure LookupRequest where
  objectRelation : RelationReference
  user : ObjectAndRelation
  limit : UInt32
  atRevision : Option Zookie

/-- `LookupResponse`. -/
structure LookupResponse where
  revision : Zookie
  resolvedObjectIds : List String

/-- `aclServer`, with what `Check`, `ContentChangeCheck` and `Lookup` call besides what `Read` and
`Expand` call. -/
structure CheckServer extends AclServer where
  /-- The datastore's `SyncRevision`. -/
  syncRevision : Except AclError Revision
  /-- The dispatcher's `Check` and `Lookup`. -/
  check : Graph.CheckRequest → Graph.CheckResult
  lookup : Graph.LookupRequest → Graph.LookupResult
  validateCheck : CheckRequest → Except String Unit
  validateContentChangeCheck : ContentChangeCheckRequest → Except String Unit
  validateLookup : LookupRequest → Except String Unit
  /-- The text of `fmt.Errorf("got invalid resolved object %v (expected %v)", found, ...)`. -/
  invalidResolvedObject : ObjectAndRelation → RelationReference → String

/-- `lookupDefaultLimit`. -/
def lookupDefaultLimit : Nat := 25

/-- `lookupMaximumLimit`. -/
def lookupMaximumLimit : Nat := 100

namespace CheckServer

variable (cs : CheckServer)

/-- `aclServer.commonCheck` at `atRevision`. -/
def commonCheck (metadata : Option Metadata) (atRevision : Revision)
    (start goal : ObjectAndRelation) : Except RpcError CheckResponse :=
  match cs.nsm.checkNamespaceAndRelation start.namespace_ start.relation false with
  | .error err => .error (rewriteACLError err)
  | .ok () =>
  match cs.nsm.checkNamespaceAndRelation goal.namespace_ goal.relation true with
  | .error err => .error (rewriteACLError err)
  | .ok () =>
  match calculateRequestDepth metadata cs.defaultDepth with
  | .error msg => .error (.status .invalidArgument msg)
  | .ok depth =>
  let cr := cs.check ⟨start, goal, atRevision, depth⟩
  match cr.err with
  | some err => .error (rewriteACLError err)
  | none =>
    .ok ⟨cr.isMember, cs.zookies.newFromRevision atRevision,
      if cr.isMember then .member else .notMember⟩

/-- `aclServer.Check`. -/
def checkRequest (metadata : Option Metadata) (req : CheckRequest) :
    Except RpcError CheckResponse :=
  match cs.validateCheck req with
  | .error msg => .error (invalidArgument msg)
  | .ok () =>
  match pickBestRevision cs.ds cs.zookies req.atRevision with
  | .error err => .error (rewriteACLError err)
  | .ok atRevision => cs.commonCheck metadata atRevision req.testUserset req.user.userset

/-- `aclServer.ContentChangeCheck`. -/
def contentChangeCheck (metadata : Option Metadata) (req : ContentChangeCheckRequest) :
    Except RpcError CheckResponse :=
  match cs.validateContentChangeCheck req with
  | .error msg => .error (invalidArgument msg)
  | .ok () =>
  match cs.syncRevision with
  | .error err => .error (rewriteACLError err)
  | .ok atRevision => cs.commonCheck metadata atRevision req.testUserset req.user.userset

/-- The limit `Lookup` asks the dispatcher for: the request's, `lookupDefaultLimit` when it is
`0`, and at most `lookupMaximumLimit` (Go's `min`). -/
def lookupLimit (requested : UInt32) : Nat :=
  let limit := if requested.toNat = 0 then lookupDefaultLimit else requested.toNat
  min limit lookupMaximumLimit

/-- One pass of the loop over `resp.ResolvedObjects`: the object's id, or the error for an
object outside the requested namespace. -/
def resolvedObjectId (expected : RelationReference) (found : ObjectAndRelation) :
    Except RpcError String :=
  if found.namespace_ ≠ expected.namespace_ then
    .error (rewriteACLError (.other (cs.invalidResolvedObject found expected)))
  else .ok found.objectId

/-- `aclServer.Lookup`. -/
def lookupRequest (metadata : Option Metadata) (req : LookupRequest) :
    Except RpcError LookupResponse :=
  match cs.validateLookup req with
  | .error msg => .error (invalidArgument msg)
  | .ok () =>
  match cs.nsm.checkNamespaceAndRelation req.user.namespace_ req.user.relation true with
  | .error err => .error (rewriteACLError err)
  | .ok () =>
  match cs.nsm.checkNamespaceAndRelation req.objectRelation.namespace_ req.objectRelation.relation
      false with
  | .error err => .error (rewriteACLError err)
  | .ok () =>
  match pickBestRevision cs.ds cs.zookies req.atRevision with
  | .error err => .error (rewriteACLError err)
  | .ok atRevision =>
  match calculateRequestDepth metadata cs.defaultDepth with
  | .error msg => .error (.status .invalidArgument msg)
  | .ok depth =>
  let resp := cs.lookup ⟨req.user, req.objectRelation, lookupLimit req.limit, atRevision, depth⟩
  match resp.err with
  | some err => .error (rewriteACLError err)
  | none =>
    match resp.resolvedObjects.mapM (cs.resolvedObjectId req.objectRelation) with
    | .error err => .error err
    | .ok resolvedObjectIds => .ok ⟨cs.zookies.newFromRevision atRevision, resolvedObjectIds⟩

/-! ## What the handlers answer -/

/-- **What a successful `commonCheck` did.** It checked the start relation without ellipsis and
the goal relation with it, picked a depth, and got an answer without error from the dispatcher's
`Check` at `atRevision`; it reports that membership, `MEMBER` exactly when it is one, with the
zookie of `atRevision`. -/
theorem commonCheck_eq_ok {metadata : Option Metadata} {atRevision : Revision}
    {start goal : ObjectAndRelation} {resp : CheckResponse} :
    cs.commonCheck metadata atRevision start goal = .ok resp ↔
      cs.nsm.checkNamespaceAndRelation start.namespace_ start.relation false = .ok () ∧
      cs.nsm.checkNamespaceAndRelation goal.namespace_ goal.relation true = .ok () ∧
      ∃ depth isMember, calculateRequestDepth metadata cs.defaultDepth = .ok depth ∧
        cs.check ⟨start, goal, atRevision, depth⟩ = ⟨isMember, none⟩ ∧
        resp = ⟨isMember, cs.zookies.newFromRevision atRevision,
          if isMember then .member else .notMember⟩ := by
  unfold commonCheck
  rcases cs.nsm.checkNamespaceAndRelation start.namespace_ start.relation false with e | ⟨⟩ <;>
    simp only [reduceCtorEq, false_and, true_and]
  rcases cs.nsm.checkNamespaceAndRelation goal.namespace_ goal.relation true with e | ⟨⟩ <;>
    simp only [reduceCtorEq, false_and, true_and]
  rcases calculateRequestDepth metadata cs.defaultDepth with msg | depth <;>
    simp only [reduceCtorEq, false_and, exists_false, Except.ok.injEq, exists_eq_left']
  rcases hc : cs.check ⟨start, goal, atRevision, depth⟩ with ⟨isMember, _ | err⟩ <;>
    cases isMember <;> simp [hc, eq_comm]

theorem checkRequest_eq_ok {metadata : Option Metadata} {req : CheckRequest}
    {resp : CheckResponse} :
    cs.checkRequest metadata req = .ok resp ↔
      cs.validateCheck req = .ok () ∧ ∃ atRevision,
        pickBestRevision cs.ds cs.zookies req.atRevision = .ok atRevision ∧
        cs.commonCheck metadata atRevision req.testUserset req.user.userset = .ok resp := by
  unfold checkRequest
  rcases cs.validateCheck req with msg | ⟨⟩ <;> simp only [reduceCtorEq, false_and, true_and]
  rcases pickBestRevision cs.ds cs.zookies req.atRevision with err | atRevision <;> simp

theorem contentChangeCheck_eq_ok {metadata : Option Metadata} {req : ContentChangeCheckRequest}
    {resp : CheckResponse} :
    cs.contentChangeCheck metadata req = .ok resp ↔
      cs.validateContentChangeCheck req = .ok () ∧ ∃ atRevision,
        cs.syncRevision = .ok atRevision ∧
        cs.commonCheck metadata atRevision req.testUserset req.user.userset = .ok resp := by
  unfold contentChangeCheck
  rcases cs.validateContentChangeCheck req with msg | ⟨⟩ <;>
    simp only [reduceCtorEq, false_and, true_and]
  rcases cs.syncRevision with err | atRevision <;> simp

theorem lookupLimit_le (requested : UInt32) : lookupLimit requested ≤ lookupMaximumLimit :=
  Nat.min_le_right _ _

theorem lookupLimit_zero : lookupLimit 0 = lookupDefaultLimit := rfl

theorem lookupLimit_pos (requested : UInt32) : 0 < lookupLimit requested := by
  dsimp only [lookupLimit, lookupDefaultLimit, lookupMaximumLimit]
  split <;> omega

/-- The loop over the resolved objects succeeds exactly when every object lies in the requested
namespace, with their ids in order. -/
theorem mapM_resolvedObjectId_eq_ok {expected : RelationReference}
    {objects : List ObjectAndRelation} {ids : List String} :
    objects.mapM (cs.resolvedObjectId expected) = .ok ids ↔
      (∀ o ∈ objects, o.namespace_ = expected.namespace_) ∧ ids = objects.map (·.objectId) := by
  rw [mapM_eq_ok_iff]
  induction objects generalizing ids with
  | nil => cases ids <;> simp
  | cons o os ih =>
    rw [List.forall₂_cons_left_iff, List.forall_mem_cons]
    by_cases ho : o.namespace_ = expected.namespace_
    · have hro : cs.resolvedObjectId expected o = .ok o.objectId := if_neg (not_not.mpr ho)
      simp [hro, ho, ih, and_assoc]
    · have hro : cs.resolvedObjectId expected o =
          .error (rewriteACLError (.other (cs.invalidResolvedObject o expected))) := if_pos ho
      simp [hro, ho]

/-- **What a successful `Lookup` did.** It passed validation and both relation checks, picked a
revision and a depth, and got an answer without error from the dispatcher's `Lookup` for
`lookupLimit` objects at that revision, every resolved object in the requested namespace; it
answers with their ids in order and the zookie of the revision. -/
theorem lookupRequest_eq_ok {metadata : Option Metadata} {req : LookupRequest}
    {resp : LookupResponse} :
    cs.lookupRequest metadata req = .ok resp ↔
      cs.validateLookup req = .ok () ∧
      cs.nsm.checkNamespaceAndRelation req.user.namespace_ req.user.relation true = .ok () ∧
      cs.nsm.checkNamespaceAndRelation req.objectRelation.namespace_ req.objectRelation.relation
        false = .ok () ∧
      ∃ atRevision depth resolved, pickBestRevision cs.ds cs.zookies req.atRevision =
          .ok atRevision ∧ calculateRequestDepth metadata cs.defaultDepth = .ok depth ∧
        cs.lookup ⟨req.user, req.objectRelation, lookupLimit req.limit, atRevision, depth⟩ =
          ⟨resolved, none⟩ ∧
        (∀ o ∈ resolved, o.namespace_ = req.objectRelation.namespace_) ∧
        resp = ⟨cs.zookies.newFromRevision atRevision, resolved.map (·.objectId)⟩ := by
  unfold lookupRequest
  rcases cs.validateLookup req with msg | ⟨⟩ <;> simp only [reduceCtorEq, false_and, true_and]
  rcases cs.nsm.checkNamespaceAndRelation req.user.namespace_ req.user.relation true with e | ⟨⟩ <;>
    simp only [reduceCtorEq, false_and, true_and]
  rcases cs.nsm.checkNamespaceAndRelation req.objectRelation.namespace_ req.objectRelation.relation
    false with e | ⟨⟩ <;> simp only [reduceCtorEq, false_and, true_and]
  rcases pickBestRevision cs.ds cs.zookies req.atRevision with err | atRevision <;>
    simp only [reduceCtorEq, false_and, exists_false, Except.ok.injEq, exists_and_left,
      exists_eq_left']
  rcases calculateRequestDepth metadata cs.defaultDepth with msg | depth <;>
    simp only [reduceCtorEq, false_and, exists_false, Except.ok.injEq, exists_eq_left']
  rcases hl : cs.lookup ⟨req.user, req.objectRelation, lookupLimit req.limit, atRevision, depth⟩
    with ⟨resolved, _ | err⟩ <;> simp only [Graph.LookupResult.mk.injEq, reduceCtorEq, and_false,
      false_and, exists_false, and_true, exists_eq_left']
  rcases hm : resolved.mapM (cs.resolvedObjectId req.objectRelation) with err | ids
  · have : ¬∀ o ∈ resolved, o.namespace_ = req.objectRelation.namespace_ := fun hall => by
      rw [(cs.mapM_resolvedObjectId_eq_ok.mpr ⟨hall, rfl⟩)] at hm
      cases hm
    simp [this]
  · obtain ⟨hall, rfl⟩ := cs.mapM_resolvedObjectId_eq_ok.mp hm
    simp only [Except.ok.injEq]
    exact ⟨fun h => ⟨hall, h.symm⟩, fun h => h.2.symm⟩

end CheckServer

/-! ## The handlers over memdb -/

open Memdb

/-- **A `ContentChangeCheck` sees every accepted write.** For every history of `Write` requests
from the empty memdb datastore in which fewer than `2^64` are accepted, on a server whose
`SyncRevision` is memdb's after the history: a successful `ContentChangeCheck` reports the
dispatcher's answer at the revision of the last accepted write, with its zookie, `MEMBER` exactly
when the dispatcher found a member; every accepted write was answered with the zookie of a
revision from `1` up to that one. -/
theorem contentChangeCheck_reads_last_write (ws : WriteService) (cs : CheckServer)
    (reqs : List WriteRequest) (metadata : Option Metadata) (req : ContentChangeCheckRequest)
    (hn : (accepted reqs (ws.run DB.write DB.empty reqs).2).length < 2 ^ 64)
    (hsync : cs.syncRevision = .ok (syncRevision (ws.run DB.write DB.empty reqs).1)) :
    ∀ resp, cs.contentChangeCheck metadata req = .ok resp →
      ∃ depth, cs.check ⟨req.testUserset, req.user.userset,
          (accepted reqs (ws.run DB.write DB.empty reqs).2).length, depth⟩ =
            ⟨resp.isMember, none⟩ ∧
        resp.revision =
          cs.zookies.newFromRevision (accepted reqs (ws.run DB.write DB.empty reqs).2).length ∧
        resp.membership = (if resp.isMember then .member else .notMember) ∧
        ∀ wr, .ok wr ∈ (ws.run DB.write DB.empty reqs).2 → ∃ r, 0 < r ∧
          r ≤ (accepted reqs (ws.run DB.write DB.empty reqs).2).length ∧
          wr = ⟨ws.zookies.newFromRevision r⟩ := by
  intro resp h
  obtain ⟨hlog, hzk⟩ := ws.run_zookies reqs ChangelogTo.empty (by rw [Nat.zero_add]; exact hn)
  rw [Nat.zero_add] at hlog hzk
  obtain ⟨-, atRevision, hs, hc⟩ := cs.contentChangeCheck_eq_ok.mp h
  -- memdb's `SyncRevision` counts the accepted writes
  obtain rfl : atRevision = (accepted reqs (ws.run DB.write DB.empty reqs).2).length := by
    rw [hsync, hlog.syncRevision_eq] at hs
    exact (Except.ok.inj hs).symm
  obtain ⟨-, -, depth, isMember, -, hcheck, rfl⟩ := cs.commonCheck_eq_ok.mp hc
  refine ⟨depth, hcheck, rfl, rfl, fun wr hwr => ?_⟩
  -- the zookies handed out are those of revisions `1` to the last
  have hmem : wr ∈ (ws.run DB.write DB.empty reqs).2.filterMap Except.toOption :=
    List.mem_filterMap.mpr ⟨_, hwr, rfl⟩
  rw [hzk] at hmem
  obtain ⟨r, hr, rfl⟩ := List.mem_map.mp hmem
  rw [List.mem_range'_1] at hr
  exact ⟨r, by omega, by omega, rfl⟩

/-- A server for the `doc` namespace whose requests all validate, whose dispatcher finds the
users named `a` members and resolves `doc:1` for every lookup. -/
def docChecks : CheckServer where
  toAclServer := docReader
  syncRevision := .ok 0
  check req := ⟨req.goal.objectId == "a", none⟩
  lookup _ := ⟨[⟨"doc", "1", "viewer"⟩], none⟩
  validateCheck _ := .ok ()
  validateContentChangeCheck _ := .ok ()
  validateLookup _ := .ok ()
  invalidResolvedObject _ _ := "got invalid resolved object"

/-- Is `user:a` a viewer of `doc:1`. -/
def viewerCheck : ContentChangeCheckRequest := ⟨⟨"doc", "1", "viewer"⟩, ⟨⟨"user", "a", Ellipsis⟩⟩⟩

theorem contentChangeCheck_reads_last_write_docHistory :
    (accepted docHistory (docWrites.run DB.write DB.empty docHistory).2).length < 2 ^ 64 ∧
      ∀ resp, { docChecks with
          syncRevision := .ok (syncRevision (docWrites.run DB.write DB.empty docHistory).1) :
            CheckServer }.contentChangeCheck none viewerCheck = .ok resp →
        ∃ depth, docChecks.check ⟨viewerCheck.testUserset, viewerCheck.user.userset,
            (accepted docHistory (docWrites.run DB.write DB.empty docHistory).2).length, depth⟩ =
              ⟨resp.isMember, none⟩ ∧
          resp.revision = docChecks.zookies.newFromRevision
            (accepted docHistory (docWrites.run DB.write DB.empty docHistory).2).length ∧
          resp.membership = (if resp.isMember then .member else .notMember) ∧
          ∀ wr, .ok wr ∈ (docWrites.run DB.write DB.empty docHistory).2 → ∃ r, 0 < r ∧
            r ≤ (accepted docHistory (docWrites.run DB.write DB.empty docHistory).2).length ∧
            wr = ⟨docWrites.zookies.newFromRevision r⟩ :=
  ⟨by decide, contentChangeCheck_reads_last_write docWrites _ docHistory none viewerCheck
    (by decide) rfl⟩

/-- **`Check` over memdb reads a committed revision, unless the client's zookie names a later
one.** For every history of `Write` requests from the empty memdb datastore whose clock never
goes back, within `int64` nanoseconds after the epoch, and a nonnegative fuzzing delta: a
successful `Check` at time `t` reports the dispatcher's answer, with its zookie, at a revision no
older than any commit stamped before `t - revisionFuzzingTimedelta` nor the client's zookie. That
revision is committed, or it is the zookie's own: `Check` makes no `CheckRevision`, so a zookie
past the last commit reaches the dispatcher as it is. -/
theorem check_reads_committed_or_zookie (ws : WriteService) (cs : CheckServer) (cfg : Clocks)
    (hist : List (Int × WriteRequest)) {t : Int} (pick : Nat) (metadata : Option Metadata)
    (req : CheckRequest) (hclock : ClockBetween 0 hist t) (ht : t < 2 ^ 63)
    (hcalls : hist.length < 2 ^ 64) (hfuzz : 0 ≤ cfg.revisionFuzzingTimedelta)
    (hds : cs.ds = memdbDatastore cfg (ws.runTimed TimedDB.empty hist).1 t pick) :
    ∀ resp, cs.checkRequest metadata req = .ok resp →
      ∃ atRevision depth,
        cs.check ⟨req.testUserset, req.user.userset, atRevision, depth⟩ = ⟨resp.isMember, none⟩ ∧
        resp.revision = cs.zookies.newFromRevision atRevision ∧
        (∀ s ∈ (ws.runTimed TimedDB.empty hist).1.stamps,
          (s.timestamp.toNat : Int) < t - cfg.revisionFuzzingTimedelta → s.id.toNat ≤ atRevision) ∧
        (∀ z w, req.atRevision = some z → cs.zookies.decodeRevision z = .ok w → w ≤ atRevision) ∧
        (atRevision ≤ syncRevision (ws.runTimed TimedDB.empty hist).1.db ∨
          ∃ z, req.atRevision = some z ∧ cs.zookies.decodeRevision z = .ok atRevision) := by
  intro resp h
  obtain ⟨hle, hcover⟩ := ws.revision_runTimed_bounds cfg hist pick hclock ht hcalls hfuzz
  obtain ⟨-, atRevision, hp, hc⟩ := cs.checkRequest_eq_ok.mp h
  obtain ⟨-, -, depth, isMember, -, hcheck, rfl⟩ := cs.commonCheck_eq_ok.mp hc
  have hzk := (pickBestRevision_ge hp).2
  rw [hds] at hp
  -- the datastore's revision is committed; the zookie's is taken only when it is newer
  obtain ⟨hrev, rfl | hown⟩ := pickBestRevision_memdb hp
  · exact ⟨_, depth, hcheck, rfl, hcover, hzk, .inl hle⟩
  · exact ⟨atRevision, depth, hcheck, rfl, fun s hs hts => (hcover s hs hts).trans hrev, hzk,
      .inr hown⟩

/-- Is `user:a` a viewer of `doc:1`, at the zookie of revision `5`. -/
def viewerCheckAt5 : CheckRequest := ⟨⟨"doc", "1", "viewer"⟩, ⟨⟨"user", "a", Ellipsis⟩⟩,
  some ⟨"xxxxx"⟩⟩

theorem check_reads_committed_or_zookie_docHistory :
    ClockBetween 0 timedDocHistory 20 ∧ (20 : Int) < 2 ^ 63 ∧ timedDocHistory.length < 2 ^ 64 ∧
      0 ≤ shortWindows.revisionFuzzingTimedelta ∧
      ∀ resp, { docChecks with ds := (memdbDatastore shortWindows
          (docWrites.runTimed TimedDB.empty timedDocHistory).1 20 0) : CheckServer }.checkRequest
          none viewerCheckAt5 = .ok resp →
        ∃ atRevision depth,
          docChecks.check ⟨viewerCheckAt5.testUserset, viewerCheckAt5.user.userset, atRevision,
            depth⟩ = ⟨resp.isMember, none⟩ ∧
          resp.revision = docChecks.zookies.newFromRevision atRevision ∧
          (∀ s ∈ (docWrites.runTimed TimedDB.empty timedDocHistory).1.stamps,
            (s.timestamp.toNat : Int) < 20 - shortWindows.revisionFuzzingTimedelta →
              s.id.toNat ≤ atRevision) ∧
          (∀ z w, viewerCheckAt5.atRevision = some z → docChecks.zookies.decodeRevision z = .ok w →
            w ≤ atRevision) ∧
          (atRevision ≤ syncRevision (docWrites.runTimed TimedDB.empty timedDocHistory).1.db ∨
            ∃ z, viewerCheckAt5.atRevision = some z ∧
              docChecks.zookies.decodeRevision z = .ok atRevision) :=
  ⟨by decide, by decide, by decide, by decide,
    check_reads_committed_or_zookie docWrites _ shortWindows timedDocHistory 0 none viewerCheckAt5
      (by decide) (by decide) (by decide) (by decide) rfl⟩

/-! ## What `Lookup` answers -/

/-- **`Lookup` answers with the objects the dispatcher resolves.** With a zookie codec that
round-trips, a successful `Lookup` asked the dispatcher for between `1` and `lookupMaximumLimit`
objects at a revision no older than the datastore's nor the client's zookie; it answers with the
ids of the objects resolved, in order, all of them in the requested namespace, and a zookie that
decodes to that revision. -/
theorem lookup_answers_resolved (cs : CheckServer) (metadata : Option Metadata)
    (req : LookupRequest) (hrt : cs.zookies.RoundTrips) :
    ∀ resp, cs.lookupRequest metadata req = .ok resp →
      ∃ atRevision depth resolved,
        cs.lookup ⟨req.user, req.objectRelation, CheckServer.lookupLimit req.limit, atRevision,
          depth⟩ = ⟨resolved, none⟩ ∧
        (∀ o ∈ resolved, o.namespace_ = req.objectRelation.namespace_) ∧
        resp.resolvedObjectIds = resolved.map (·.objectId) ∧
        cs.zookies.decodeRevision resp.revision = .ok atRevision ∧
        (∀ databaseRev, cs.ds.revision = .ok databaseRev → databaseRev ≤ atRevision) ∧
        (∀ z requestedRev, req.atRevision = some z →
          cs.zookies.decodeRevision z = .ok requestedRev → requestedRev ≤ atRevision) ∧
        0 < CheckServer.lookupLimit req.limit ∧
        CheckServer.lookupLimit req.limit ≤ lookupMaximumLimit := by
  intro resp h
  obtain ⟨-, -, -, atRevision, depth, resolved, hp, -, hl, hall, rfl⟩ :=
    cs.lookupRequest_eq_ok.mp h
  exact ⟨atRevision, depth, resolved, hl, hall, rfl, hrt atRevision, (pickBestRevision_ge hp).1,
    (pickBestRevision_ge hp).2, CheckServer.lookupLimit_pos _, CheckServer.lookupLimit_le _⟩

/-- The viewers of `doc` that `user:a` is, with no limit and no zookie. -/
def viewerLookup : LookupRequest := ⟨⟨"doc", "viewer"⟩, ⟨"user", "a", Ellipsis⟩, 0, none⟩

theorem lookup_answers_resolved_viewer :
    docChecks.zookies.RoundTrips ∧
      docChecks.lookupRequest none viewerLookup = .ok ⟨⟨"xxx"⟩, ["1"]⟩ ∧
      ∀ resp, docChecks.lookupRequest none viewerLookup = .ok resp →
        ∃ atRevision depth resolved,
          docChecks.lookup ⟨viewerLookup.user, viewerLookup.objectRelation,
            CheckServer.lookupLimit viewerLookup.limit, atRevision, depth⟩ = ⟨resolved, none⟩ ∧
          (∀ o ∈ resolved, o.namespace_ = viewerLookup.objectRelation.namespace_) ∧
          resp.resolvedObjectIds = resolved.map (·.objectId) ∧
          docChecks.zookies.decodeRevision resp.revision = .ok atRevision ∧
          (∀ databaseRev, docChecks.ds.revision = .ok databaseRev → databaseRev ≤ atRevision) ∧
          (∀ z requestedRev, viewerLookup.atRevision = some z →
            docChecks.zookies.decodeRevision z = .ok requestedRev → requestedRev ≤ atRevision) ∧
          0 < CheckServer.lookupLimit viewerLookup.limit ∧
          CheckServer.lookupLimit viewerLookup.limit ≤ lookupMaximumLimit :=
  ⟨unaryZookies_roundTrips, rfl,
    lookup_answers_resolved docChecks none viewerLookup unaryZookies_roundTrips⟩

/-- **One stray object refuses the whole `Lookup`.** When the request passes its checks and the
dispatcher resolves objects of which `found` is the first outside the requested namespace, the
`Lookup` fails with the error that names `found`, whatever the other objects are. -/
theorem lookupRequest_first_outside (cs : CheckServer) {metadata : Option Metadata}
    {req : LookupRequest} {atRevision : Revision} {depth : UInt16}
    {pre post : List ObjectAndRelation} {found : ObjectAndRelation} (hv : cs.validateLookup req = .ok ())
    (hu : cs.nsm.checkNamespaceAndRelation req.user.namespace_ req.user.relation true = .ok ())
    (ho : cs.nsm.checkNamespaceAndRelation req.objectRelation.namespace_
      req.objectRelation.relation false = .ok ())
    (hp : pickBestRevision cs.ds cs.zookies req.atRevision = .ok atRevision)
    (hd : calculateRequestDepth metadata cs.defaultDepth = .ok depth)
    (hl : cs.lookup
      ⟨req.user, req.objectRelation, CheckServer.lookupLimit req.limit, atRevision, depth⟩ =
      ⟨pre ++ found :: post, none⟩)
    (hpre : ∀ o ∈ pre, o.namespace_ = req.objectRelation.namespace_)
    (hfound : found.namespace_ ≠ req.objectRelation.namespace_) :
    cs.lookupRequest metadata req =
      .error (.raw (.other (cs.invalidResolvedObject found req.objectRelation))) := by
  have hm : (pre ++ found :: post).mapM (cs.resolvedObjectId req.objectRelation) =
      .error (.raw (.other (cs.invalidResolvedObject found req.objectRelation))) :=
    mapM_append_cons_error
      (fun o h => ⟨o.objectId, by simp [CheckServer.resolvedObjectId, hpre o h]⟩)
      (by simp [CheckServer.resolvedObjectId, hfound, rewriteACLError])
  simp only [CheckServer.lookupRequest, hv, hu, ho, hp, hd, hl, hm]

/-- A dispatcher that resolves `doc:1`, `folder:1` and `doc:2`. -/
def strayLookups : CheckServer :=
  { docChecks with
    lookup := fun _ => ⟨[⟨"doc", "1", "viewer"⟩, ⟨"folder", "1", "viewer"⟩, ⟨"doc", "2", "viewer"⟩],
      none⟩ }

theorem lookupRequest_first_outside_stray :
    strayLookups.validateLookup viewerLookup = .ok () ∧
      strayLookups.nsm.checkNamespaceAndRelation viewerLookup.user.namespace_
        viewerLookup.user.relation true = .ok () ∧
      strayLookups.nsm.checkNamespaceAndRelation viewerLookup.objectRelation.namespace_
        viewerLookup.objectRelation.relation false = .ok () ∧
      pickBestRevision strayLookups.ds strayLookups.zookies viewerLookup.atRevision = .ok 3 ∧
      calculateRequestDepth none strayLookups.defaultDepth = .ok 50 ∧
      strayLookups.lookup ⟨viewerLookup.user, viewerLookup.objectRelation,
        CheckServer.lookupLimit viewerLookup.limit, 3, 50⟩ =
          ⟨[⟨"doc", "1", "viewer"⟩] ++ ⟨"folder", "1", "viewer"⟩ :: [⟨"doc", "2", "viewer"⟩],
            none⟩ ∧
      (∀ o ∈ [(⟨"doc", "1", "viewer"⟩ : ObjectAndRelation)],
        o.namespace_ = viewerLookup.objectRelation.namespace_) ∧
      (⟨"folder", "1", "viewer"⟩ : ObjectAndRelation).namespace_ ≠
        viewerLookup.objectRelation.namespace_ ∧
      strayLookups.lookupRequest none viewerLookup =
        .error (.raw (.other (strayLookups.invalidResolvedObject ⟨"folder", "1", "viewer"⟩
          viewerLookup.objectRelation))) :=
  ⟨rfl, rfl, rfl, rfl, rfl, rfl, by decide, by decide,
    @lookupRequest_first_outside strayLookups none viewerLookup 3 50 [⟨"doc", "1", "viewer"⟩]
      [⟨"doc", "2", "viewer"⟩] ⟨"folder", "1", "viewer"⟩ rfl rfl rfl rfl rfl rfl (by decide)
      (by decide)⟩

end Services

end SpiceDB
