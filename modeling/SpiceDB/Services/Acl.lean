import SpiceDB.Graph.Expand
import Mathlib.Data.List.Forall2

/-!
# The ACL service

`internal/services/acl.go` is what clients call. `Read` checks every tupleset filter against
its field and the namespace manager, settles on one revision and reads each tupleset at it.
`Expand` checks the userset's relation, picks a revision no older than the client's zookie and a
depth from the request's metadata, and asks the dispatcher for a shallow expansion. An error on
its way out goes through `rewriteACLError`, which picks its gRPC code.

What the file calls and the snapshot does not hold is a parameter of the model, fixed for one
call: request validation, the namespace manager's `CheckNamespaceAndRelation`, the datastore's
`Revision` (some revision of its fuzzing window), `CheckRevision` and tuple queries, the zookie
codec, the incoming metadata, and the error values the dispatcher's errors are. Errors are told
apart as far as `rewriteACLError` tells them apart: a status that prints an error whose text the
snapshot does not hold keeps the error itself.
-/

namespace SpiceDB.Services

/-! ## Errors -/

/-- The gRPC codes the handlers return. -/
inductive Code where
  | invalidArgument
  | failedPrecondition
  | canceled
  | outOfRange
  | internal
deriving DecidableEq, Repr

/-- The errors that reach `rewriteACLError`, as far as it tells them apart. -/
inductive AclError where
  /-- `errInvalidZookie`. -/
  | invalidZookie
  /-- `sharederrors.UnknownNamespaceError`. -/
  | unknownNamespace
  /-- `sharederrors.UnknownRelationError`. -/
  | unknownRelation
  /-- `datastore.ErrPreconditionFailed`. -/
  | preconditionFailed
  /-- `graph.ErrRequestCanceled`. -/
  | requestCanceled
  /-- `graph.ErrAlwaysFail`. -/
  | alwaysFail
  /-- `datastore.ErrInvalidRevision`. -/
  | invalidRevision
  /-- `invalidRelationError`. -/
  | invalidRelation
  /-- Any other error, by its text. -/
  | other (text : String)
deriving DecidableEq, Repr

/-- The text of `errInvalidZookie`. -/
def errInvalidZookie : String := "invalid revision requested"

/-- An error a handler returns. -/
inductive RpcError where
  /-- `status.Errorf(code, message)`, its whole text known. -/
  | status (code : Code) (message : String)
  /-- `status.Errorf(code, leading ++ "%s", err)`: the text of `err` follows `leading`. -/
  | statusOf (code : Code) (leading : String) (err : AclError)
  /-- An error returned as it is, which gRPC reports as `Unknown`. -/
  | raw (err : AclError)
deriving DecidableEq, Repr

/-- `rewriteACLError`: the status an error leaves a handler with. -/
def rewriteACLError : AclError → RpcError
  | .invalidZookie => .statusOf .invalidArgument "invalid argument: " .invalidZookie
  | e@.unknownNamespace | e@.unknownRelation | e@.preconditionFailed =>
    .statusOf .failedPrecondition "failed precondition: " e
  | e@.requestCanceled => .statusOf .canceled "request canceled: " e
  | e@.alwaysFail | e@.invalidRevision => .statusOf .outOfRange "invalid zookie: " e
  | e@.invalidRelation => .statusOf .invalidArgument "" e
  | e@(.other _) => .raw e

/-! ## Depth and revision -/

/-- `depthRemainingHeader`. -/
def depthRemainingHeader : String := "authzed-depth-remaining"

/-- The text of `errInvalidDepthRemaining`. -/
def errInvalidDepthRemaining : String := "invalid " ++ depthRemainingHeader ++ " header"

/-- `maxUInt16`. -/
def maxUInt16 : Int := 65535

/-- Incoming gRPC metadata: the values of each key. -/
structure Metadata where
  get : String → List String

/-- The value of a nonempty string of decimal digits. -/
def decimalValue (digits : List Char) : Option Nat :=
  if digits ≠ [] ∧ digits.all Char.isDigit = true then
    some (digits.foldl (fun n c => 10 * n + (c.toNat - '0'.toNat)) 0)
  else none

/-- `strconv.Atoi`: an optional sign, then decimal digits, within `int64`. -/
def atoi (s : String) : Option Int :=
  let signed : Option Int :=
    match s.toList with
    | '-' :: digits => (decimalValue digits).map fun n => -(n : Int)
    | '+' :: digits => (decimalValue digits).map fun n => (n : Int)
    | digits => (decimalValue digits).map fun n => (n : Int)
  signed.filter fun v => decide (-9223372036854775808 ≤ v ∧ v ≤ 9223372036854775807)

/-- `calculateRequestDepth`: the one value of the depth header, between `1` and `maxUInt16`, or
the server's default when the header is absent. The error is `errInvalidDepthRemaining`'s text. -/
def calculateRequestDepth (metadata : Option Metadata) (defaultDepth : UInt16) :
    Except String UInt16 :=
  match metadata with
  | some md =>
    match md.get depthRemainingHeader with
    | [] => .ok defaultDepth
    | [value] =>
      match atoi value with
      | none => .error errInvalidDepthRemaining
      | some decoded =>
        if decoded < 1 ∨ decoded > maxUInt16 then .error errInvalidDepthRemaining
        else .ok (UInt16.ofNat decoded.toNat)
    | _ :: _ :: _ => .error errInvalidDepthRemaining
  | none => .ok defaultDepth

/-- **The depth of a request.** `calculateRequestDepth` gives the default when the header is
absent, and otherwise succeeds exactly when the header has one value, a decimal between `1` and
`65535`, which is the depth. -/
theorem calculateRequestDepth_eq_ok {metadata : Option Metadata} {defaultDepth depth : UInt16} :
    calculateRequestDepth metadata defaultDepth = .ok depth ↔
      (depth = defaultDepth ∧ ∀ md, metadata = some md → md.get depthRemainingHeader = []) ∨
      ∃ md value n, metadata = some md ∧ md.get depthRemainingHeader = [value] ∧
        atoi value = some n ∧ 1 ≤ n ∧ n ≤ 65535 ∧ depth = UInt16.ofNat n.toNat := by
  rcases metadata with _ | md
  · simpa [calculateRequestDepth] using eq_comm
  · simp only [calculateRequestDepth, Option.some.injEq, forall_eq', exists_and_left,
      exists_eq_left']
    rcases hv : md.get depthRemainingHeader with _ | ⟨value, _ | ⟨_, _⟩⟩
    · simpa [hv] using eq_comm
    · rcases ha : atoi value with _ | n
      · simp [ha]
      · by_cases hn : n < 1 ∨ n > 65535
        · simp [maxUInt16, ha, hn]
          omega
        · simp [maxUInt16, ha, hn]
          exact ⟨fun h => ⟨by omega, by omega, h.symm⟩, fun h => h.2.2.symm⟩
    · simp [hv]

/-- A zookie: an opaque token for a revision. -/
structure Zookie where
  token : String
deriving DecidableEq, Repr

/-- `zookie.NewFromRevision` and `zookie.DecodeRevision`. -/
structure ZookieCodec where
  newFromRevision : Revision → Zookie
  decodeRevision : Zookie → Except String Revision

/-- Decoding a zookie gives back the revision it was made from. -/
def ZookieCodec.RoundTrips (zk : ZookieCodec) : Prop :=
  ∀ r, zk.decodeRevision (zk.newFromRevision r) = .ok r

/-! ## The server -/

/-- `RelationTupleFilter_Filter`. -/
inductive Filter where
  | objectId
  | relation
  | userset
  /-- A value the enum does not declare. -/
  | unknown (value : Int)
deriving DecidableEq, Repr

/-- The `%s` of a filter: its name, or its number when undeclared. -/
def Filter.string : Filter → String
  | .objectId => "OBJECT_ID"
  | .relation => "RELATION"
  | .userset => "USERSET"
  | .unknown 0 => "UNKNOWN"
  | .unknown v => toString v

/-- `RelationTupleFilter`: a tupleset to read, and which of its fields filter it. -/
structure RelationTupleFilter where
  namespace_ : String
  objectId : String
  relation : String
  userset : Option ObjectAndRelation
  filters : List Filter

/-- `QueryTuples(namespace, revision)`, with what `WithObjectID`, `WithRelation` and
`WithUserset` added. -/
structure TupleFilterQuery where
  namespace_ : String
  revision : Revision
  objectId : Option String
  relation : Option String
  userset : Option ObjectAndRelation
deriving DecidableEq, Repr

/-- What the datastore answers during one call. -/
structure Datastore where
  /-- `Revision`: some revision of its fuzzing window. -/
  revision : Except AclError Revision
  checkRevision : Revision → Except AclError Unit
  /-- `Execute`: the tuples the iterator yields and its `Err()`, or the error of `Execute`. -/
  execute : TupleFilterQuery → Except AclError (List RelationTuple × Option AclError)

/-- `namespace.Manager`'s `CheckNamespaceAndRelation(namespace, relation, allowEllipsis)`. -/
structure NamespaceChecker where
  checkNamespaceAndRelation : String → String → Bool → Except AclError Unit

/-- `ReadRequest`. -/
structure ReadRequest where
  tuplesets : List RelationTupleFilter
  atRevision : Option Zookie

/-- `ReadResponse`: the tuples of each tupleset, and the revision they were read at. -/
structure ReadResponse where
  tuplesets : List (List RelationTuple)
  revision : Zookie

/-- `ExpandRequest` of the API. -/
structure ExpandRequest where
  userset : ObjectAndRelation
  atRevision : Option Zookie

/-- `ExpandResponse`. -/
structure ExpandResponse where
  treeNode : Option RelationTupleTreeNode
  revision : Zookie

/-- `aclServer`, with what it calls. -/
structure AclServer where
  ds : Datastore
  nsm : NamespaceChecker
  dispatch : Graph.Dispatcher
  defaultDepth : UInt16
  zookies : ZookieCodec
  /-- `Validate()` of each request, generated code. -/
  validateRead : ReadRequest → Except String Unit
  validateExpand : ExpandRequest → Except String Unit
  /-- The error values the dispatcher's errors are. -/
  expandError : Graph.ExpandError → AclError

/-- What `Validate()` failing makes of a request. -/
def invalidArgument (msg : String) : RpcError :=
  .statusOf .invalidArgument "invalid argument: " (.other msg)

/-- The error values of the local dispatcher's errors. `errAlwaysFailExpand` is
`errors.New("always fail")`, a plain error and not a `graph.ErrAlwaysFail`; a canceled expansion
is a `graph.ErrRequestCanceled`. The types of the expansion-failure wrapper and of the depth
guard's error are not in this snapshot: they are taken as plain errors carrying their text. -/
def dispatchError : Graph.ExpandError → AclError
  | .expansionFailure cause => .other cause
  | .requestCanceled => .requestCanceled
  | .maxDepthExceeded => .other "max depth exceeded"
  | .alwaysFail => .other "always fail"

/-- `errAlwaysFailExpand` leaves `rewriteACLError` as it came, so gRPC reports it as `Unknown`. -/
example : rewriteACLError (dispatchError .alwaysFail) = .raw (.other "always fail") := rfl

/-! ## `Read` -/

/-- A filter names a field the tupleset must set; `message` when it does not. -/
def requireField (isSet : Bool) (message : String) : Except RpcError Unit :=
  if isSet then .ok () else .error (.status .invalidArgument message)

/-- A filter `Read`'s `switch` does not know. -/
def unknownFilter (filter : Filter) : RpcError :=
  .status .invalidArgument ("unknown tupleset filter type: " ++ filter.string)

/-- One pass of the inner loop of `Read`'s checks: what a filter asks of its tupleset. `true`
when it checked the relation. -/
def checkFilter (nsm : NamespaceChecker) (tf : RelationTupleFilter) :
    Filter → Except RpcError Bool
  | .objectId => do
    requireField (tf.objectId != "") "object ID filter specified but not object ID provided."
    pure false
  | .relation => do
    requireField (tf.relation != "") "relation filter specified but not relation provided."
    (nsm.checkNamespaceAndRelation tf.namespace_ tf.relation false).mapError rewriteACLError
    pure true
  | .userset => do
    requireField tf.userset.isSome "userset filter specified but not userset provided."
    pure false
  | filter@(.unknown _) => .error (unknownFilter filter)

/-- One pass of the outer loop of `Read`'s checks: every filter of a tupleset, then, when none
checked the relation, its namespace. -/
def checkTupleset (nsm : NamespaceChecker) (tf : RelationTupleFilter) : Except RpcError Unit := do
  let checkedRelation ← tf.filters.foldlM
    (fun checked filter => (checked || ·) <$> checkFilter nsm tf filter) false
  if !checkedRelation then
    (nsm.checkNamespaceAndRelation tf.namespace_ Ellipsis true).mapError rewriteACLError

/-- The query of a tupleset after one of its filters. -/
def withFilter (tf : RelationTupleFilter) (query : TupleFilterQuery) :
    Filter → Except RpcError TupleFilterQuery
  | .objectId => .ok { query with objectId := some tf.objectId }
  | .relation => .ok { query with relation := some tf.relation }
  | .userset => .ok { query with userset := tf.userset }
  | filter@(.unknown _) => .error (unknownFilter filter)

/-- The query of a tupleset at a revision. -/
def tuplesetQuery (tf : RelationTupleFilter) (atRevision : Revision) :
    Except RpcError TupleFilterQuery :=
  tf.filters.foldlM (withFilter tf) ⟨tf.namespace_, atRevision, none, none, none⟩

/-- One pass of `Read`'s reading loop. When the iterator fails, the status prints `err`, the
error of `Execute`, which is nil there: the iterator's error is not reported. -/
def readTupleset (ds : Datastore) (atRevision : Revision) (tf : RelationTupleFilter) :
    Except RpcError (List RelationTuple) := do
  let query ← tuplesetQuery tf atRevision
  match ds.execute query with
  | .error err => .error (rewriteACLError err)
  | .ok (tuples, none) => .ok tuples
  | .ok (_, some _) => .error (.status .internal "error when reading tuples: %!s(<nil>)")

/-- The revision `Read` reads at: the zookie's, or the datastore's `Revision`. -/
def readRevision (ds : Datastore) (zk : ZookieCodec) :
    Option Zookie → Except RpcError Revision
  | some zookie => (zk.decodeRevision zookie).mapError fun msg =>
      .statusOf .invalidArgument "bad request revision: " (.other msg)
  | none => ds.revision.mapError (.statusOf .internal "unable to pick request revision: ")

/-- `aclServer.Read`. -/
def read (as : AclServer) (req : ReadRequest) : Except RpcError ReadResponse := do
  (as.validateRead req).mapError invalidArgument
  req.tuplesets.forM (checkTupleset as.nsm)
  let atRevision ← readRevision as.ds as.zookies req.atRevision
  (as.ds.checkRevision atRevision).mapError rewriteACLError
  let tuplesets ← req.tuplesets.mapM (readTupleset as.ds atRevision)
  pure ⟨tuplesets, as.zookies.newFromRevision atRevision⟩

/-! ## `Expand` -/

/-- `pickBestRevision`: the zookie's revision when it is newer than the datastore's. -/
def pickBestRevision (ds : Datastore) (zk : ZookieCodec) (requested : Option Zookie) :
    Except AclError Revision := do
  let databaseRev ← ds.revision
  match requested with
  | some requested =>
    match zk.decodeRevision requested with
    | .error _ => .error .invalidZookie
    | .ok requestedRev => if requestedRev > databaseRev then pure requestedRev else pure databaseRev
  | none => pure databaseRev

/-- What a handler that calls the dispatcher gives back: nothing when the dispatcher panics (the
process dies) or the model's fuel runs out. -/
inductive Reply (α : Type) where
  | ok (response : α)
  | error (err : RpcError)
  | noReply

/-- `aclServer.Expand`. -/
def expand (as : AclServer) (metadata : Option Metadata) (req : ExpandRequest) :
    Reply ExpandResponse :=
  match as.validateExpand req with
  | .error msg => .error (invalidArgument msg)
  | .ok () =>
  match as.nsm.checkNamespaceAndRelation req.userset.namespace_ req.userset.relation false with
  | .error err => .error (rewriteACLError err)
  | .ok () =>
  match pickBestRevision as.ds as.zookies req.atRevision with
  | .error err => .error (rewriteACLError err)
  | .ok atRevision =>
  match calculateRequestDepth metadata as.defaultDepth with
  | .error msg => .error (.status .invalidArgument msg)
  | .ok depth =>
  match as.dispatch.expand ⟨req.userset, atRevision, depth, .shallowExpansion⟩ with
  | .result resp =>
    match resp.err with
    | some err => .error (rewriteACLError (as.expandError err))
    | none => .ok ⟨resp.tree, as.zookies.newFromRevision atRevision⟩
  | _ => .noReply

/-! ## A server to run the handlers on -/

/-- Zookies that write a revision in unary. -/
def unaryZookies : ZookieCodec :=
  ⟨fun r => ⟨String.mk (List.replicate r 'x')⟩, fun z => .ok z.token.length⟩

theorem unaryZookies_roundTrips : unaryZookies.RoundTrips := fun r =>
  congrArg Except.ok (List.length_replicate r 'x')

def readmeViewer : RelationTuple :=
  ⟨⟨"document", "readme", "viewer"⟩, ⟨⟨"user", "alice", Ellipsis⟩⟩⟩

/-- A datastore at revision `3` that accepts revisions up to `5` and holds one tuple; its
iterators over `folder` fail. -/
def docStore : Datastore where
  revision := .ok 3
  checkRevision r := if r ≤ 5 then .ok () else .error .invalidRevision
  execute q :=
    if q.namespace_ = "folder" then .ok ([], some .alwaysFail)
    else .ok (if q.namespace_ = "document" then [readmeViewer] else [], none)

def docServer : AclServer where
  ds := docStore
  nsm := ⟨fun ns _ _ =>
    if ns = "document" ∨ ns = "folder" then .ok () else .error .unknownNamespace⟩
  dispatch := ⟨fun r => .result ⟨some (.leafNode (some r.start) []), none⟩⟩
  defaultDepth := 50
  zookies := unaryZookies
  validateRead _ := .ok ()
  validateExpand _ := .ok ()
  expandError := dispatchError

/-! ## What `Expand` reads -/

/-- **The revision `Expand` picks.** The datastore's revision, or the zookie's when that is newer;
an undecodable zookie is `errInvalidZookie`. -/
theorem pickBestRevision_eq_ok {ds : Datastore} {zk : ZookieCodec} {requested : Option Zookie}
    {r : Revision} :
    pickBestRevision ds zk requested = .ok r ↔ ∃ databaseRev, ds.revision = .ok databaseRev ∧
      (requested = none ∧ r = databaseRev ∨
        ∃ z requestedRev, requested = some z ∧ zk.decodeRevision z = .ok requestedRev ∧
          r = max requestedRev databaseRev) := by
  rcases hds : ds.revision with err | databaseRev
  · simp [pickBestRevision, hds, bind, Except.bind]
  · rcases requested with _ | z
    · simp [pickBestRevision, hds, bind, Except.bind, pure, Except.pure, eq_comm]
    · rcases hz : zk.decodeRevision z with msg | requestedRev
      · simp [pickBestRevision, hds, hz, bind, Except.bind]
      · have hmax : max requestedRev databaseRev =
            if requestedRev > databaseRev then requestedRev else databaseRev := by
          unfold Revision at *; split <;> omega
        simp only [pickBestRevision, hds, hz, bind, Except.bind, pure, Except.pure]
        rw [← apply_ite Except.ok, ← hmax]
        simp [hz, eq_comm]

/-- **What a successful `Expand` did.** It passed validation and the relation check, picked a
revision and a depth, and the dispatcher returned a tree for the shallow request on the userset at
them; the response holds that tree and the zookie of the revision. -/
theorem expand_eq_ok {as : AclServer} {metadata : Option Metadata} {req : ExpandRequest}
    {resp : ExpandResponse} :
    expand as metadata req = .ok resp ↔
      as.validateExpand req = .ok () ∧
      as.nsm.checkNamespaceAndRelation req.userset.namespace_ req.userset.relation false = .ok () ∧
      ∃ atRevision depth tree, pickBestRevision as.ds as.zookies req.atRevision = .ok atRevision ∧
        calculateRequestDepth metadata as.defaultDepth = .ok depth ∧
        as.dispatch.expand ⟨req.userset, atRevision, depth, .shallowExpansion⟩ =
          .result ⟨tree, none⟩ ∧
        resp = ⟨tree, as.zookies.newFromRevision atRevision⟩ := by
  unfold expand
  rcases hv : as.validateExpand req with msg | ⟨⟩ <;> simp only [reduceCtorEq, false_and]
  rcases hc : as.nsm.checkNamespaceAndRelation req.userset.namespace_ req.userset.relation false
    with err | ⟨⟩ <;> simp only [reduceCtorEq, false_and, true_and]
  rcases hp : pickBestRevision as.ds as.zookies req.atRevision with err | atRevision <;>
    simp only [reduceCtorEq, false_and, exists_false, Except.ok.injEq, exists_and_left,
      exists_eq_left', iff_false]
  rcases hd : calculateRequestDepth metadata as.defaultDepth with msg | depth <;>
    simp only [reduceCtorEq, false_and, exists_false, Except.ok.injEq, exists_eq_left']
  rcases ho : as.dispatch.expand ⟨req.userset, atRevision, depth, .shallowExpansion⟩ with
    ⟨tree, _ | err⟩ | msg | _ <;> simp [eq_comm]

/-- A depth from the header is at least `1`. -/
theorem calculateRequestDepth_pos {metadata : Option Metadata} {defaultDepth depth : UInt16}
    (h : calculateRequestDepth metadata defaultDepth = .ok depth) :
    depth = defaultDepth ∨ 1 ≤ depth.toNat := by
  rcases calculateRequestDepth_eq_ok.mp h with ⟨hd, -⟩ | ⟨_, _, n, -, -, -, h1, h2, rfl⟩
  · exact .inl hd
  · right
    rw [UInt16.toNat_ofNat_of_lt (by simp only [UInt16.size]; omega)]
    omega

/-- The revision `Expand` picks is no older than the datastore's nor the zookie's. -/
theorem pickBestRevision_ge {ds : Datastore} {zk : ZookieCodec} {requested : Option Zookie}
    {r : Revision} (h : pickBestRevision ds zk requested = .ok r) :
    (∀ databaseRev, ds.revision = .ok databaseRev → databaseRev ≤ r) ∧
      ∀ z requestedRev, requested = some z → zk.decodeRevision z = .ok requestedRev →
        requestedRev ≤ r := by
  obtain ⟨databaseRev, hds, ⟨rfl, rfl⟩ | ⟨z, requestedRev, rfl, hz, rfl⟩⟩ :=
    pickBestRevision_eq_ok.mp h
  · refine ⟨fun d hd => ?_, fun _ _ h => nomatch h⟩
    cases hds.symm.trans hd
    exact le_refl _
  · refine ⟨fun d hd => ?_, fun z' q hz' hq => ?_⟩
    · cases hds.symm.trans hd
      exact le_max_right _ _
    · cases hz'
      cases hz.symm.trans hq
      exact le_max_left _ _

/-- **`Expand` reads no older than the client's zookie.** With a zookie codec that round-trips,
a successful `Expand` returns the tree the dispatcher built for the userset at a revision no
older than the datastore's `Revision` nor the zookie the client sent, and the zookie it returns
decodes to that revision. The depth is the server's default when no depth header is sent, and
otherwise the value of the one header sent, between `1` and `65535`. -/
theorem expand_reads_at_least_zookie (as : AclServer) (metadata : Option Metadata)
    (req : ExpandRequest) (hrt : as.zookies.RoundTrips) :
    ∀ resp, expand as metadata req = .ok resp →
      ∃ atRevision depth,
        as.dispatch.expand ⟨req.userset, atRevision, depth, .shallowExpansion⟩ =
          .result ⟨resp.treeNode, none⟩ ∧
        as.zookies.decodeRevision resp.revision = .ok atRevision ∧
        (∀ databaseRev, as.ds.revision = .ok databaseRev → databaseRev ≤ atRevision) ∧
        (∀ z requestedRev, req.atRevision = some z →
          as.zookies.decodeRevision z = .ok requestedRev → requestedRev ≤ atRevision) ∧
        ((depth = as.defaultDepth ∧ ∀ md, metadata = some md → md.get depthRemainingHeader = []) ∨
          ∃ md value n, metadata = some md ∧ md.get depthRemainingHeader = [value] ∧
            atoi value = some n ∧ 1 ≤ n ∧ n ≤ 65535 ∧ depth = UInt16.ofNat n.toNat) := by
  intro resp h
  obtain ⟨-, -, atRevision, depth, tree, hp, hd, ho, rfl⟩ := expand_eq_ok.mp h
  exact ⟨atRevision, depth, ho, hrt atRevision, (pickBestRevision_ge hp).1,
    (pickBestRevision_ge hp).2, calculateRequestDepth_eq_ok.mp hd⟩

def readmeExpand : ExpandRequest := ⟨⟨"document", "readme", "viewer"⟩, some ⟨"xxxxx"⟩⟩

theorem expand_reads_at_least_zookie_readme :
    docServer.zookies.RoundTrips ∧
      expand docServer none readmeExpand =
        .ok ⟨some (.leafNode (some readmeExpand.userset) []), ⟨"xxxxx"⟩⟩ ∧
      ∀ resp, expand docServer none readmeExpand = .ok resp →
        ∃ atRevision depth,
          docServer.dispatch.expand ⟨readmeExpand.userset, atRevision, depth, .shallowExpansion⟩ =
            .result ⟨resp.treeNode, none⟩ ∧
          docServer.zookies.decodeRevision resp.revision = .ok atRevision ∧
          (∀ databaseRev, docServer.ds.revision = .ok databaseRev → databaseRev ≤ atRevision) ∧
          (∀ z requestedRev, readmeExpand.atRevision = some z →
            docServer.zookies.decodeRevision z = .ok requestedRev → requestedRev ≤ atRevision) ∧
          ((depth = docServer.defaultDepth ∧
              ∀ md, (none : Option Metadata) = some md → md.get depthRemainingHeader = []) ∨
            ∃ md value n, (none : Option Metadata) = some md ∧
              md.get depthRemainingHeader = [value] ∧ atoi value = some n ∧ 1 ≤ n ∧ n ≤ 65535 ∧
              depth = UInt16.ofNat n.toNat) :=
  ⟨unaryZookies_roundTrips, rfl,
    expand_reads_at_least_zookie docServer none readmeExpand unaryZookies_roundTrips⟩

/-! ## What `Read` reads -/

section Lists

variable {α β ε : Type} {f : α → Except ε β}

theorem mapM_eq_ok_iff :
    ∀ {l : List α} {ys : List β}, l.mapM f = .ok ys ↔ List.Forall₂ (fun x y => f x = .ok y) l ys
  | [], ys => by rw [List.mapM_nil]; cases ys <;> simp [pure, Except.pure]
  | x :: l, ys => by
    have ih : ∀ zs, l.mapM f = .ok zs ↔ List.Forall₂ (fun x y => f x = .ok y) l zs :=
      fun _ => mapM_eq_ok_iff
    rw [List.mapM_cons, List.forall₂_cons_left_iff]
    simp only [← ih]
    rcases f x with e | y <;> rcases l.mapM f with e' | zs <;>
      simp [bind, Except.bind, pure, Except.pure, eq_comm]

theorem forM_eq_ok_iff {g : α → Except ε Unit} :
    ∀ {l : List α}, l.forM g = .ok () ↔ ∀ x ∈ l, g x = .ok ()
  | [] => ⟨fun _ _ h => (nomatch h), fun _ => rfl⟩
  | x :: l => by
    show (do g x; l.forM g) = _ ↔ _
    rw [List.forall_mem_cons, ← forM_eq_ok_iff]
    rcases g x with e | ⟨⟩ <;> simp [bind, Except.bind]

theorem mapM_append_cons_error {pre post : List α} {x : α} {e : ε}
    (hpre : ∀ y ∈ pre, ∃ z, f y = .ok z) (hx : f x = .error e) :
    (pre ++ x :: post).mapM f = .error e := by
  induction pre with
  | nil =>
    rw [List.nil_append, List.mapM_cons, hx]
    rfl
  | cons y pre ih =>
    obtain ⟨z, hz⟩ := hpre y (List.mem_cons_self _ _)
    rw [List.cons_append, List.mapM_cons, hz, ih fun y hy => hpre y (List.mem_cons_of_mem _ hy)]
    rfl

end Lists

/-- What a filter asks of its tupleset: its field set, and for `RELATION` a relation the
namespace manager knows; an undeclared filter cannot be met. -/
def FilterOk (nsm : NamespaceChecker) (tf : RelationTupleFilter) : Filter → Prop
  | .objectId => tf.objectId ≠ ""
  | .relation =>
    tf.relation ≠ "" ∧ nsm.checkNamespaceAndRelation tf.namespace_ tf.relation false = .ok ()
  | .userset => tf.userset.isSome
  | .unknown _ => False

theorem checkFilter_eq_ok {nsm : NamespaceChecker} {tf : RelationTupleFilter} {f : Filter}
    {b : Bool} : checkFilter nsm tf f = .ok b ↔ FilterOk nsm tf f ∧ decide (f = .relation) = b := by
  cases f with
  | objectId | userset =>
    simp only [checkFilter, requireField, FilterOk]
    split <;> simp_all [bind, Except.bind, pure, Except.pure]
  | relation =>
    simp only [checkFilter, requireField, FilterOk]
    split
    · rcases nsm.checkNamespaceAndRelation tf.namespace_ tf.relation false with e | ⟨⟩ <;>
        simp_all [bind, Except.bind, pure, Except.pure, Except.mapError]
    · simp_all [bind, Except.bind]
  | unknown => simp [checkFilter, FilterOk]

/-- The filter loop meets every filter, and remembers whether one was `RELATION`. -/
theorem foldlM_checkFilter_eq_ok {nsm : NamespaceChecker} {tf : RelationTupleFilter} :
    ∀ {fs : List Filter} {acc b : Bool},
      fs.foldlM (fun checked filter => (checked || ·) <$> checkFilter nsm tf filter) acc = .ok b ↔
        (∀ f ∈ fs, FilterOk nsm tf f) ∧ (acc || decide (Filter.relation ∈ fs)) = b
  | [], acc, b => by simp [pure, Except.pure]
  | f :: fs, acc, b => by
    rw [List.foldlM_cons]
    rcases hf : checkFilter nsm tf f with e | c
    · have : ¬FilterOk nsm tf f := fun h => by
        rw [(checkFilter_eq_ok.mpr ⟨h, rfl⟩)] at hf; cases hf
      simp [hf, bind, Except.bind, Functor.map, Except.map, this]
    · obtain ⟨hok, rfl⟩ := checkFilter_eq_ok.mp hf
      refine foldlM_checkFilter_eq_ok.trans ?_
      rw [List.forall_mem_cons]
      simp only [hok, true_and, List.mem_cons, Bool.or_assoc, Bool.decide_or,
        @eq_comm _ Filter.relation f]

/-- **The checks of a tupleset.** `Read` accepts a tupleset exactly when each of its filters
finds its field set (and, for `RELATION`, a relation the namespace manager knows), and, when
no filter is `RELATION`, the namespace manager knows its namespace. -/
theorem checkTupleset_eq_ok {nsm : NamespaceChecker} {tf : RelationTupleFilter} :
    checkTupleset nsm tf = .ok () ↔ (∀ f ∈ tf.filters, FilterOk nsm tf f) ∧
      (Filter.relation ∉ tf.filters →
        nsm.checkNamespaceAndRelation tf.namespace_ Ellipsis true = .ok ()) := by
  unfold checkTupleset
  rcases hfs : tf.filters.foldlM
      (fun checked filter => (checked || ·) <$> checkFilter nsm tf filter) false with e | checked
  · have : ¬∀ f ∈ tf.filters, FilterOk nsm tf f := fun h => by
      rw [foldlM_checkFilter_eq_ok.mpr ⟨h, rfl⟩] at hfs; cases hfs
    simp [bind, Except.bind, this]
  · obtain ⟨hok, rfl⟩ := foldlM_checkFilter_eq_ok.mp hfs
    by_cases hr : Filter.relation ∈ tf.filters
    · simpa [bind, Except.bind, hr, pure, Except.pure] using hok
    · rcases hc : nsm.checkNamespaceAndRelation tf.namespace_ Ellipsis true with e | ⟨⟩
      · simp [bind, Except.bind, hr, hc, Except.mapError]
      · simpa [bind, Except.bind, hr, hc, Except.mapError] using hok

/-- The query a tupleset asks at a revision: its namespace, narrowed to each field that one of
its filters names. -/
def filteredQuery (tf : RelationTupleFilter) (atRevision : Revision) : TupleFilterQuery where
  namespace_ := tf.namespace_
  revision := atRevision
  objectId := if .objectId ∈ tf.filters then some tf.objectId else none
  relation := if .relation ∈ tf.filters then some tf.relation else none
  userset := if .userset ∈ tf.filters then tf.userset else none

theorem foldlM_withFilter {tf : RelationTupleFilter} :
    ∀ {fs : List Filter} {q : TupleFilterQuery}, (∀ v, Filter.unknown v ∉ fs) →
      fs.foldlM (withFilter tf) q = .ok { q with
        objectId := if .objectId ∈ fs then some tf.objectId else q.objectId
        relation := if .relation ∈ fs then some tf.relation else q.relation
        userset := if .userset ∈ fs then tf.userset else q.userset }
  | [], q, _ => by simp [pure, Except.pure]
  | f :: fs, q, h => by
    have hfs : ∀ v, Filter.unknown v ∉ fs := fun v hv => h v (List.mem_cons_of_mem _ hv)
    rw [List.foldlM_cons]
    cases f with
    | unknown v => exact absurd (List.mem_cons_self _ _) (h v)
    | objectId | relation | userset => simp [withFilter, bind, Except.bind, foldlM_withFilter hfs]

/-- With declared filters only, the query builder asks `filteredQuery`. -/
theorem tuplesetQuery_eq {tf : RelationTupleFilter} {atRevision : Revision}
    (h : ∀ v, Filter.unknown v ∉ tf.filters) :
    tuplesetQuery tf atRevision = .ok (filteredQuery tf atRevision) := by
  rw [tuplesetQuery, foldlM_withFilter h]
  rfl

/-- The revision `Read` reads at is the zookie's when the client sent one, else the datastore's. -/
theorem readRevision_eq_ok {ds : Datastore} {zk : ZookieCodec} {requested : Option Zookie}
    {r : Revision} :
    readRevision ds zk requested = .ok r ↔
      (∀ z, requested = some z → zk.decodeRevision z = .ok r) ∧
      (requested = none → ds.revision = .ok r) := by
  rcases requested with _ | z
  · rcases h : ds.revision with e | r' <;> simp [readRevision, Except.mapError, h]
  · rcases h : zk.decodeRevision z with e | r' <;> simp [readRevision, Except.mapError, h]

/-- A tupleset with declared filters reads the tuples its `filteredQuery` yields, when the
iterator does not fail. -/
theorem readTupleset_eq_ok {ds : Datastore} {atRevision : Revision} {tf : RelationTupleFilter}
    {tuples : List RelationTuple} (h : ∀ v, Filter.unknown v ∉ tf.filters) :
    readTupleset ds atRevision tf = .ok tuples ↔
      ds.execute (filteredQuery tf atRevision) = .ok (tuples, none) := by
  simp only [readTupleset, tuplesetQuery_eq h, bind, Except.bind]
  rcases ds.execute (filteredQuery tf atRevision) with e | ⟨ts, _ | err⟩ <;> simp

/-- **What a successful `Read` did.** It passed validation and the checks of every tupleset,
picked a revision the datastore accepts, and read each tupleset there; the response holds the
tuples and the zookie of the revision. -/
theorem read_eq_ok {as : AclServer} {req : ReadRequest} {resp : ReadResponse} :
    read as req = .ok resp ↔
      as.validateRead req = .ok () ∧ (∀ tf ∈ req.tuplesets, checkTupleset as.nsm tf = .ok ()) ∧
      ∃ atRevision, readRevision as.ds as.zookies req.atRevision = .ok atRevision ∧
        as.ds.checkRevision atRevision = .ok () ∧
        ∃ tuplesets, List.Forall₂ (fun tf tuples => readTupleset as.ds atRevision tf = .ok tuples)
          req.tuplesets tuplesets ∧ resp = ⟨tuplesets, as.zookies.newFromRevision atRevision⟩ := by
  simp only [← forM_eq_ok_iff, ← mapM_eq_ok_iff]
  unfold read
  rcases as.validateRead req with msg | ⟨⟩ <;> simp only [Except.mapError, bind, Except.bind,
    reduceCtorEq, false_and, true_and]
  rcases req.tuplesets.forM (checkTupleset as.nsm) with e | ⟨⟩ <;> simp only [reduceCtorEq,
    false_and, true_and]
  rcases readRevision as.ds as.zookies req.atRevision with e | atRevision <;> simp only [
    reduceCtorEq, false_and, exists_false, Except.ok.injEq, exists_eq_left']
  rcases as.ds.checkRevision atRevision with e | ⟨⟩ <;> simp only [reduceCtorEq, false_and,
    true_and]
  rcases req.tuplesets.mapM (readTupleset as.ds atRevision) with e | ts <;>
    simp [pure, Except.pure, eq_comm]

/-- A tupleset `Read` accepted has declared filters only. -/
theorem filters_declared {nsm : NamespaceChecker} {tf : RelationTupleFilter}
    (h : checkTupleset nsm tf = .ok ()) : ∀ v, Filter.unknown v ∉ tf.filters :=
  fun _ hv => (checkTupleset_eq_ok.mp h).1 _ hv

/-- **`Read` answers every tupleset at one revision.** A successful `Read` checked the filters of
each tupleset, and answers each tupleset with exactly the tuples its `filteredQuery` yields at
one revision: the zookie's when the client sent one, else the datastore's. The datastore accepts
that revision, and with a codec that round-trips the zookie of the response decodes to it. -/
theorem read_reads_one_revision (as : AclServer) (req : ReadRequest)
    (hrt : as.zookies.RoundTrips) :
    ∀ resp, read as req = .ok resp →
      ∃ atRevision,
        (∀ z, req.atRevision = some z → as.zookies.decodeRevision z = .ok atRevision) ∧
        (req.atRevision = none → as.ds.revision = .ok atRevision) ∧
        as.ds.checkRevision atRevision = .ok () ∧
        (∀ tf ∈ req.tuplesets, ∀ f ∈ tf.filters, FilterOk as.nsm tf f) ∧
        List.Forall₂
          (fun tf tuples => as.ds.execute (filteredQuery tf atRevision) = .ok (tuples, none))
          req.tuplesets resp.tuplesets ∧
        as.zookies.decodeRevision resp.revision = .ok atRevision := by
  intro resp h
  obtain ⟨-, hc, atRevision, hr, hcr, tuplesets, hts, rfl⟩ := read_eq_ok.mp h
  have hdecl := (List.forall₂_and_left _ _).mpr ⟨fun tf htf => filters_declared (hc tf htf), hts⟩
  exact ⟨atRevision, (readRevision_eq_ok.mp hr).1, (readRevision_eq_ok.mp hr).2, hcr,
    fun tf htf => (checkTupleset_eq_ok.mp (hc tf htf)).1,
    hdecl.imp fun _ _ h => (readTupleset_eq_ok h.1).mp h.2, hrt atRevision⟩

def readmeRead : ReadRequest :=
  ⟨[⟨"document", "readme", "viewer", none, [.objectId, .relation]⟩], some ⟨"xxxx"⟩⟩

theorem read_reads_one_revision_readme :
    docServer.zookies.RoundTrips ∧ read docServer readmeRead = .ok ⟨[[readmeViewer]], ⟨"xxxx"⟩⟩ ∧
      ∀ resp, read docServer readmeRead = .ok resp →
        ∃ atRevision,
          (∀ z, readmeRead.atRevision = some z →
            docServer.zookies.decodeRevision z = .ok atRevision) ∧
          (readmeRead.atRevision = none → docServer.ds.revision = .ok atRevision) ∧
          docServer.ds.checkRevision atRevision = .ok () ∧
          (∀ tf ∈ readmeRead.tuplesets, ∀ f ∈ tf.filters, FilterOk docServer.nsm tf f) ∧
          List.Forall₂ (fun tf tuples =>
              docServer.ds.execute (filteredQuery tf atRevision) = .ok (tuples, none))
            readmeRead.tuplesets resp.tuplesets ∧
          docServer.zookies.decodeRevision resp.revision = .ok atRevision :=
  ⟨unaryZookies_roundTrips, rfl,
    read_reads_one_revision docServer readmeRead unaryZookies_roundTrips⟩

/-- The status of a tupleset whose iterator failed. -/
theorem readTupleset_of_iterator_error {ds : Datastore} {atRevision : Revision}
    {tf : RelationTupleFilter} {tuples : List RelationTuple} {err : AclError}
    (h : ∀ v, Filter.unknown v ∉ tf.filters)
    (he : ds.execute (filteredQuery tf atRevision) = .ok (tuples, some err)) :
    readTupleset ds atRevision tf =
      .error (.status .internal "error when reading tuples: %!s(<nil>)") := by
  simp only [readTupleset, tuplesetQuery_eq h, bind, Except.bind, he]

/-- **`Read` hides the iterator's error.** When every check passes and the iterator of a
tupleset fails after the tuplesets before it were read, `Read` fails with one status whatever
the iterator's error was: `Internal`, with the text of the nil error of `Execute`. -/
theorem read_hides_iterator_error (as : AclServer) (req : ReadRequest) (atRevision : Revision)
    (pre post : List RelationTupleFilter) (tf : RelationTupleFilter)
    (tuples : List RelationTuple) (err : AclError) (hv : as.validateRead req = .ok ())
    (hc : ∀ tf ∈ req.tuplesets, checkTupleset as.nsm tf = .ok ())
    (hr : readRevision as.ds as.zookies req.atRevision = .ok atRevision)
    (hcr : as.ds.checkRevision atRevision = .ok ()) (hsplit : req.tuplesets = pre ++ tf :: post)
    (hpre : ∀ t ∈ pre, ∃ ts, as.ds.execute (filteredQuery t atRevision) = .ok (ts, none))
    (he : as.ds.execute (filteredQuery tf atRevision) = .ok (tuples, some err)) :
    read as req = .error (.status .internal "error when reading tuples: %!s(<nil>)") := by
  have hdecl : ∀ t ∈ pre ++ tf :: post, ∀ v, Filter.unknown v ∉ t.filters :=
    fun t ht => filters_declared (hc t (hsplit ▸ ht))
  have hread : req.tuplesets.mapM (readTupleset as.ds atRevision) =
      .error (.status .internal "error when reading tuples: %!s(<nil>)") := by
    rw [hsplit]
    refine mapM_append_cons_error (fun t ht => ?_) (readTupleset_of_iterator_error
      (hdecl tf (List.mem_append_right _ (List.mem_cons_self _ _))) he)
    obtain ⟨ts, hts⟩ := hpre t ht
    exact ⟨ts, (readTupleset_eq_ok (hdecl t (List.mem_append_left _ ht))).mpr hts⟩
  simp only [read, hv, forM_eq_ok_iff.mpr hc, hr, hcr, hread, Except.mapError, bind, Except.bind]


def readmeTupleset : RelationTupleFilter := ⟨"document", "readme", "", none, [.objectId]⟩

def folderTupleset : RelationTupleFilter := ⟨"folder", "", "", none, []⟩

theorem read_hides_iterator_error_folder :
    read docServer ⟨[readmeTupleset, folderTupleset], none⟩ =
      .error (.status .internal "error when reading tuples: %!s(<nil>)") :=
  read_hides_iterator_error docServer _ 3 [readmeTupleset] [] folderTupleset [] .alwaysFail rfl
    (forM_eq_ok_iff.mp rfl) rfl rfl rfl (List.forall_mem_singleton.mpr ⟨_, rfl⟩) rfl

end SpiceDB.Services
