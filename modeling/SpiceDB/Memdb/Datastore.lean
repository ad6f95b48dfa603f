import SpiceDB.Api
import Mathlib.Algebra.Group.Nat.Basic
import Mathlib.Data.List.MinMax
import Mathlib.Data.List.Nodup

/-!
# The memdb datastore

`internal/datastore/memdb` keeps tuples in a go-memdb table of versions. A version
(`tupleEntry`) is one tuple with the id of the transaction that created it and of the one
that deleted it; a version not deleted carries `deletedTransactionID`, the largest `uint64`.
`WriteTuples` checks its preconditions against the live versions, takes the next changelog
id, records the mutations in the changelog, and turns each mutation into inserts of
versions, all in one write transaction committed only at its end.

The table schema is not in the repository snapshot. Following the spec, the primary key of
`tableTuple` is the six tuple fields and `createdTxn`, and `indexLive` is the six fields and
`deletedTxn`; go-memdb orders a non-unique index by its value and then by primary key, so
`findTuple` returns the live version with the least `createdTxn`. A table is kept as a list
with distinct primary keys (`TupleTable`) whose order nothing reads.

A transaction is a value here: an error returns before the commit, so a failing call leaves
the database as it was, which is what the deferred `txn.Abort()` does.
-/

namespace SpiceDB

/-- The operations the mutation loop's `switch` has a case for. -/
def UpdateOperation.isKnown : UpdateOperation → Bool
  | .unknown _ => false
  | _ => true

/-- The `%s` of a `RelationTupleUpdate_Operation`: its name, or its number when undeclared. -/
def UpdateOperation.string : UpdateOperation → String
  | .create => "CREATE"
  | .touch => "TOUCH"
  | .delete => "DELETE"
  | .unknown 0 => "UNKNOWN"
  | .unknown v => toString v

end SpiceDB

namespace SpiceDB.Memdb

/-- `deletedTransactionID` (`^uint64(0)`): the `deletedTxn` of a version not deleted. -/
def deletedTransactionID : UInt64 := ~~~0

theorem deletedTransactionID_toNat : deletedTransactionID.toNat = 2 ^ 64 - 1 := rfl

/-- `tupleEntry`: one version of a tuple, created by transaction `createdTxn` and deleted by
`deletedTxn`. -/
structure TupleEntry where
  namespace_ : String
  objectID : String
  relation : String
  usersetNamespace : String
  usersetObjectID : String
  usersetRelation : String
  createdTxn : UInt64
  deletedTxn : UInt64
deriving DecidableEq, Repr

namespace TupleEntry

/-- The tuple this is a version of. -/
def tuple (e : TupleEntry) : RelationTuple :=
  ⟨⟨e.namespace_, e.objectID, e.relation⟩, ⟨⟨e.usersetNamespace, e.usersetObjectID, e.usersetRelation⟩⟩⟩

/-- Modelled from the spec: the primary key of `tableTuple`. -/
def primaryKey (e : TupleEntry) : RelationTuple × UInt64 := (e.tuple, e.createdTxn)

/-- Not deleted: what `indexLive` asks of `deletedTxn`. -/
def isLive (e : TupleEntry) : Bool := e.deletedTxn == deletedTransactionID

/-- Modelled from the spec: a version is visible at `r` when `createdTxn ≤ r < deletedTxn`. -/
def visibleAt (r : Nat) (e : TupleEntry) : Bool :=
  decide (e.createdTxn.toNat ≤ r) && decide (r < e.deletedTxn.toNat)

@[simp] theorem primaryKey_fst (e : TupleEntry) : e.primaryKey.1 = e.tuple := rfl

@[simp] theorem tuple_deletedTxn (e : TupleEntry) (id : UInt64) :
    { e with deletedTxn := id }.tuple = e.tuple := rfl

@[simp] theorem primaryKey_deletedTxn (e : TupleEntry) (id : UInt64) :
    { e with deletedTxn := id }.primaryKey = e.primaryKey := rfl

end TupleEntry

/-- The `newVersion` `WriteTuples` builds for a mutation's tuple in transaction `id`. -/
def newVersion (t : RelationTuple) (id : UInt64) : TupleEntry where
  namespace_ := t.objectAndRelation.namespace_
  objectID := t.objectAndRelation.objectId
  relation := t.objectAndRelation.relation
  usersetNamespace := t.user.userset.namespace_
  usersetObjectID := t.user.userset.objectId
  usersetRelation := t.user.userset.relation
  createdTxn := id
  deletedTxn := deletedTransactionID

@[simp] theorem newVersion_tuple (t : RelationTuple) (id : UInt64) : (newVersion t id).tuple = t := rfl

@[simp] theorem newVersion_createdTxn (t : RelationTuple) (id : UInt64) :
    (newVersion t id).createdTxn = id := rfl

@[simp] theorem newVersion_deletedTxn (t : RelationTuple) (id : UInt64) :
    (newVersion t id).deletedTxn = deletedTransactionID := rfl

/-! ## The tables -/

/-- `tableTuple`: versions with distinct primary keys. -/
structure TupleTable where
  entries : List TupleEntry
  nodup : (entries.map TupleEntry.primaryKey).Nodup

namespace TupleTable

/-- The table of a new database. -/
def empty : TupleTable := ⟨[], List.nodup_nil⟩

/-- `txn.Insert(tableTuple, e)`: `e` replaces the version with its primary key, if any. -/
def insert (tbl : TupleTable) (e : TupleEntry) : TupleTable where
  entries := e :: tbl.entries.filter (·.primaryKey != e.primaryKey)
  nodup := List.nodup_cons.mpr ⟨by simp, tbl.nodup.sublist ((List.filter_sublist _).map _)⟩

theorem mem_insert {tbl : TupleTable} {e x : TupleEntry} :
    x ∈ (tbl.insert e).entries ↔ x = e ∨ x ∈ tbl.entries ∧ x.primaryKey ≠ e.primaryKey := by
  simp [insert]

/-- The versions of one table with one primary key are one version. -/
theorem eq_of_primaryKey_eq {tbl : TupleTable} {x y : TupleEntry} (hx : x ∈ tbl.entries)
    (hy : y ∈ tbl.entries) (h : x.primaryKey = y.primaryKey) : x = y :=
  List.inj_on_of_nodup_map tbl.nodup hx hy h

/-- Modelled from the spec: the tuples visible at `r`, one per visible version. -/
def visibleAt (tbl : TupleTable) (r : Nat) : List RelationTuple :=
  (tbl.entries.filter (·.visibleAt r)).map TupleEntry.tuple

end TupleTable

/-- `findTuple`: the first live version of `toFind` in `indexLive`, which orders the versions
of one tuple by `createdTxn`. -/
def findTuple (tbl : TupleTable) (toFind : RelationTuple) : Option TupleEntry :=
  (tbl.entries.filter fun e => e.tuple == toFind && e.isLive).argmin (·.createdTxn.toNat)

/-- `tupleChangelog`. Its `timestamp`, read only by `Revision` and `CheckRevision`, is kept
beside it (`Memdb.Revisions`). -/
structure TupleChangelog where
  id : UInt64
  changes : List RelationTupleUpdate
deriving DecidableEq, Repr

/-- `txn.Insert(tableChangelog, c)`: `indexID` is unique, so `c` replaces the entry of its id. -/
def insertChangelog (changelog : List TupleChangelog) (c : TupleChangelog) : List TupleChangelog :=
  c :: changelog.filter (·.id != c.id)

/-- `txn.Last(tableChangelog, indexID)`: the entry of the greatest id. The schema of
`tableChangelog` is not in the snapshot; assumed: `indexID` is go-memdb's index on the `uint64`
id, whose big-endian keys iterate in numeric order, so its last entry has the greatest id. -/
def lastChangelog (changelog : List TupleChangelog) : Option TupleChangelog :=
  changelog.argmax (·.id.toNat)

/-- `nextTupleChangelogID`: one past the last id, in `uint64` arithmetic. -/
def nextTupleChangelogID (changelog : List TupleChangelog) : UInt64 :=
  match lastChangelog changelog with
  | none => 1
  | some lastChange => lastChange.id + 1

/-- `revisionFromVersion`, not in the snapshot, whose spec asks only for a totally ordered
revision. Assumed: the revision is the changelog id as a natural number. A conversion through
`int64` (as `decimal.NewFromInt(int64(version))` would be) agrees below `2^63` and gives negative
revisions from there on; the results over histories bound the commits by `2^64`, so past `2^63`
they rest on this reading. -/
def revisionFromVersion (version : UInt64) : Revision := version.toNat

/-- The tables of `memdbDatastore.db`. -/
structure DB where
  tuples : TupleTable
  changelog : List TupleChangelog

/-- A database nothing was written to. -/
def DB.empty : DB := ⟨.empty, []⟩

/-! ## Writing -/

/-- The errors `WriteTuples` returns. -/
inductive WriteError where
  /-- `datastore.NewPreconditionFailedErr(expectedTuple)`. -/
  | preconditionFailed (tuple : RelationTuple)
  /-- `fmt.Errorf(errUnableToWriteTuples, err)`: `"unable to write tuples: "` and `err`. -/
  | unableToWriteTuples (err : String)
deriving DecidableEq, Repr

/-- The `default` case of the mutation loop's `switch`. -/
def unknownOperation (op : UpdateOperation) : WriteError :=
  .unableToWriteTuples ("unknown tuple mutation operation type: " ++ op.string)

/-- `deletedExisting` inserted when there is an `existing` version: it is deleted in
transaction `id`. -/
def deleteExisting (tbl : TupleTable) (existing : Option TupleEntry) (id : UInt64) : TupleTable :=
  match existing with
  | some e => tbl.insert { e with deletedTxn := id }
  | none => tbl

/-- One pass of `WriteTuples`' mutation loop, in transaction `newChangelogID`. -/
def applyMutation (newChangelogID : UInt64) (tbl : TupleTable) (mutation : RelationTupleUpdate) :
    Except WriteError TupleTable :=
  let existing := findTuple tbl mutation.tuple
  match mutation.operation with
  | .create => .ok (tbl.insert (newVersion mutation.tuple newChangelogID))
  | .delete => .ok (deleteExisting tbl existing newChangelogID)
  | .touch =>
    .ok ((deleteExisting tbl existing newChangelogID).insert (newVersion mutation.tuple newChangelogID))
  | .unknown _ => .error (unknownOperation mutation.operation)

/-- `memdbDatastore.WriteTuples`: the revision of the committed transaction and the database
after it. -/
def writeTuples (db : DB) (preconditions : List RelationTuple)
    (mutations : List RelationTupleUpdate) : Except WriteError (Revision × DB) :=
  match preconditions.find? fun expectedTuple => (findTuple db.tuples expectedTuple).isNone with
  | some expectedTuple => .error (.preconditionFailed expectedTuple)
  | none =>
    let newChangelogID := nextTupleChangelogID db.changelog
    match mutations.foldlM (applyMutation newChangelogID) db.tuples with
    | .error err => .error err
    | .ok tuples =>
      .ok (revisionFromVersion newChangelogID,
        ⟨tuples, insertChangelog db.changelog ⟨newChangelogID, mutations⟩⟩)

/-- `memdbDatastore.SyncRevision`: the revision of the last changelog entry, `NoRevision`
(zero) when there is none. -/
def syncRevision (db : DB) : Revision :=
  match lastChangelog db.changelog with
  | some lastRaw => revisionFromVersion lastRaw.id
  | none => 0

/-! ## What a call does -/

theorem findTuple_eq_none {tbl : TupleTable} {t : RelationTuple} :
    findTuple tbl t = none ↔ ∀ e ∈ tbl.entries, e.tuple = t → e.isLive = false := by
  simp [findTuple, List.argmin_eq_none, List.filter_eq_nil_iff]

theorem findTuple_spec {tbl : TupleTable} {t : RelationTuple} {e : TupleEntry}
    (h : findTuple tbl t = some e) : e ∈ tbl.entries ∧ e.tuple = t ∧ e.isLive = true := by
  simpa using List.mem_filter.mp (List.argmin_mem h)

/-- `findTuple` finds a version exactly when the tuple has a live one. -/
theorem findTuple_isSome {tbl : TupleTable} {t : RelationTuple} :
    (findTuple tbl t).isSome ↔ ∃ e ∈ tbl.entries, e.tuple = t ∧ e.isLive = true := by
  rw [← Bool.not_eq_false, Option.not_isSome, Option.isNone_iff_eq_none, findTuple_eq_none]
  simp

/-- The mutation loop stops at the first operation it has no case for. -/
theorem foldlM_applyMutation_error {id : UInt64} {m : RelationTupleUpdate} :
    ∀ {ms : List RelationTupleUpdate} (tbl : TupleTable), ms.find? (!·.operation.isKnown) = some m →
      ms.foldlM (applyMutation id) tbl = .error (unknownOperation m.operation)
  | m' :: ms, tbl, h => by
    rw [List.find?_cons] at h
    cases hop : m'.operation <;>
      simp only [hop, UpdateOperation.isKnown, Bool.not_true, Bool.not_false] at h <;>
      simp only [List.foldlM_cons, applyMutation, hop]
    case unknown => cases h; rw [hop]; rfl
    all_goals exact foldlM_applyMutation_error _ h

/-- Without an unknown operation the mutation loop runs to its end. -/
theorem foldlM_applyMutation_ok {id : UInt64} :
    ∀ {ms : List RelationTupleUpdate} (tbl : TupleTable), (∀ m ∈ ms, m.operation.isKnown) →
      ∃ tbl', ms.foldlM (applyMutation id) tbl = .ok tbl'
  | [], tbl, _ => ⟨tbl, rfl⟩
  | m :: ms, tbl, h => by
    have hk := h m (List.mem_cons_self _ _)
    have hms : ∀ m' ∈ ms, m'.operation.isKnown := fun m' hm => h m' (List.mem_cons_of_mem _ hm)
    cases hop : m.operation
    case unknown => simp [hop, UpdateOperation.isKnown] at hk
    all_goals simp only [List.foldlM_cons, applyMutation, hop]; exact foldlM_applyMutation_ok _ hms

theorem foldlM_applyMutation_isKnown {id : UInt64} {ms : List RelationTupleUpdate}
    {tbl tbl' : TupleTable} (h : ms.foldlM (applyMutation id) tbl = .ok tbl') :
    ∀ m ∈ ms, m.operation.isKnown := by
  cases hf : ms.find? (!·.operation.isKnown) with
  | none => simpa using List.find?_eq_none.mp hf
  | some m => rw [foldlM_applyMutation_error tbl hf] at h; cases h

/-- A call commits exactly when every precondition has a live version and the mutation loop
runs to its end; it then returns the next changelog id and records the mutations under it. -/
theorem writeTuples_eq_ok {db : DB} {pre : List RelationTuple} {ms : List RelationTupleUpdate}
    {rev : Revision} {db' : DB} :
    writeTuples db pre ms = .ok (rev, db') ↔
      (∀ t ∈ pre, (findTuple db.tuples t).isSome) ∧
      ∃ tuples, ms.foldlM (applyMutation (nextTupleChangelogID db.changelog)) db.tuples = .ok tuples ∧
        rev = revisionFromVersion (nextTupleChangelogID db.changelog) ∧
        db' = ⟨tuples, insertChangelog db.changelog ⟨nextTupleChangelogID db.changelog, ms⟩⟩ := by
  unfold writeTuples
  split
  · rename_i t ht
    simp only [reduceCtorEq, false_iff, not_and, not_forall]
    exact fun hpre => absurd (hpre t (List.mem_of_find?_eq_some ht))
      (by simpa using List.find?_some ht)
  · rename_i hnone
    have hpre : ∀ t ∈ pre, (findTuple db.tuples t).isSome := fun t ht =>
      Option.isSome_iff_ne_none.mpr (by simpa using List.find?_eq_none.mp hnone t ht)
    dsimp only
    split
    · rename_i hf
      simp only [reduceCtorEq, false_iff, not_and, not_exists]
      intro _ tuples h
      rw [hf] at h
      cases h
    · rename_i tuples hf
      simp only [Except.ok.injEq, Prod.mk.injEq]
      constructor
      · rintro ⟨rfl, rfl⟩
        exact ⟨hpre, tuples, hf, rfl, rfl⟩
      · rintro ⟨-, tuples', hf', rfl, rfl⟩
        rw [hf] at hf'
        cases hf'
        exact ⟨rfl, rfl⟩

/-- **When a call commits.** A call commits exactly when every precondition tuple has a live
version and every operation is known. -/
theorem writeTuples_ok_iff (db : DB) (pre : List RelationTuple) (ms : List RelationTupleUpdate) :
    (∃ rev db', writeTuples db pre ms = .ok (rev, db')) ↔
      (∀ t ∈ pre, ∃ e ∈ db.tuples.entries, e.tuple = t ∧ e.isLive = true) ∧
        ∀ m ∈ ms, m.operation.isKnown := by
  simp only [writeTuples_eq_ok, ← findTuple_isSome]
  constructor
  · rintro ⟨_, _, hpre, _, hf, -⟩
    exact ⟨hpre, foldlM_applyMutation_isKnown hf⟩
  · rintro ⟨hpre, hk⟩
    obtain ⟨tuples, hf⟩ := @foldlM_applyMutation_ok (nextTupleChangelogID db.changelog) _ db.tuples hk
    exact ⟨_, _, hpre, tuples, hf, rfl, rfl⟩

/-! ## Histories -/

/-- A call of `WriteTuples`. -/
structure WriteCall where
  preconditions : List RelationTuple
  mutations : List RelationTupleUpdate

/-- What a call returns, and the database after it: the committed one, or the same one. -/
def DB.write (db : DB) (c : WriteCall) : Except WriteError Revision × DB :=
  match writeTuples db c.preconditions c.mutations with
  | .ok (rev, db') => (.ok rev, db')
  | .error err => (.error err, db)

/-- A call that fails leaves the database as it was: the mutations go to a write transaction that
only the call's last step commits, and the deferred `Abort` drops it on every other return. -/
theorem DB.write_of_error {db : DB} {c : WriteCall} {err : WriteError}
    (h : (db.write c).1 = .error err) : (db.write c).2 = db := by
  unfold DB.write at h ⊢
  split at h
  · cases h
  · rfl

/-- A history of calls from `db`: the database after it and what each call returned. -/
def DB.run (db : DB) : List WriteCall → DB × List (Except WriteError Revision)
  | [] => (db, [])
  | c :: cs => (((db.write c).2.run cs).1, (db.write c).1 :: ((db.write c).2.run cs).2)

/-- The successful calls of a history, each with the revision it returned. -/
def committed : List WriteCall → List (Except WriteError Revision) →
    List (Revision × List RelationTupleUpdate)
  | c :: cs, .ok rev :: rs => (rev, c.mutations) :: committed cs rs
  | _ :: cs, .error _ :: rs => committed cs rs
  | _, _ => []

end SpiceDB.Memdb
