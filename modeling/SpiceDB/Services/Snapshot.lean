import SpiceDB.Services.Write
import SpiceDB.Memdb.Revisions

/-!
# Reading memdb through the ACL service

The ACL service over the memdb datastore, with the time of every call: `Write` requests run
through `WriteService.write` on the timed database of `Memdb.Revisions`, and a `Read` calls the
datastore as it stands at its time (`memdbDatastore`): `Revision` draws among the commits of the
fuzzing window, `CheckRevision` rejects a revision the GC window has left, and a query lists the
tuples live at its revision. The query's execution is not in the repository snapshot; it is
modelled from the spec, as the tuples live at the revision that the query asks for.

Two properties a client relies on follow, over every history of writes whose accepted requests
create no tuple an earlier request left live.

**Snapshot reads.** A `Read` that sends the zookie of a committed revision `w` answers every
tupleset with exactly the tuples of the set semantics at `w` that it asks for, each once,
whatever was written since (`read_at_zookie_reads_snapshot`). The zookie a `Write` answers with
is the one of its own revision (`write_refines_sets`), so a read at it sees the write.

**Bounded staleness.** A `Read` without a zookie, on a history whose clock never goes back,
answers at a snapshot that holds every commit made before its time less the fuzzing delta, and no
commit that was not made (`read_without_zookie_bounded_staleness`).

**Revision `0`.** `CheckRevision` never accepts revision `0`: with nothing committed it cannot
determine a revision, and after a commit every changelog id is newer. Yet while nothing is
committed `Revision` draws `0`, so `Expand` answers with the zookie of revision `0`, which every
later `Read` refuses with `OUT_OF_RANGE` (`revision_zero_unreadable`).
-/

namespace SpiceDB.Services

open Memdb

/-- Whether `t` is a tuple `q` asks for: of its namespace, and of its object id, relation and
userset where `q` sets them. -/
def TupleFilterQuery.matches (q : TupleFilterQuery) (t : RelationTuple) : Bool :=
  t.objectAndRelation.namespace_ == q.namespace_ &&
    q.objectId.all (· == t.objectAndRelation.objectId) &&
    q.relation.all (· == t.objectAndRelation.relation) &&
    q.userset.all (· == t.user.userset)

/-- Modelled from the spec: `Execute` of memdb's tuple query yields the tuples live at the
query's revision that it asks for. -/
def memdbQuery (db : DB) (q : TupleFilterQuery) : List RelationTuple :=
  (db.tuples.visibleAt q.revision).filter q.matches

/-- The memdb datastore as a request at time `now` calls it: `Revision` draws `pick`,
`CheckRevision` runs at `now`, and its errors are `ErrInvalidRevision`s. -/
def memdbDatastore (cfg : Clocks) (tdb : TimedDB) (now : Int) (pick : Nat) : Datastore where
  revision := .ok (revision cfg tdb now pick)
  checkRevision rev := (checkRevision cfg tdb now rev).mapError fun _ => .invalidRevision
  execute q := .ok (memdbQuery tdb.db q, none)

namespace WriteService

variable (ws : WriteService)

/-- A history of `Write` requests, each at its time, on the timed memdb database. -/
def runTimed (tdb : TimedDB) : List (Int × WriteRequest) →
    TimedDB × List (Except RpcError WriteResponse)
  | [] => (tdb, [])
  | (now, req) :: reqs =>
    ((runTimed (ws.write (fun tdb c => tdb.write now c) tdb req).2 reqs).1,
      (ws.write (fun tdb c => tdb.write now c) tdb req).1 ::
        (runTimed (ws.write (fun tdb c => tdb.write now c) tdb req).2 reqs).2)

/-- The times change no reply and no table: the timed history runs as the untimed one. -/
theorem runTimed_db : ∀ (tdb : TimedDB) (hist : List (Int × WriteRequest)),
    ((ws.runTimed tdb hist).1.db, (ws.runTimed tdb hist).2) =
      ws.run DB.write tdb.db (hist.map Prod.snd)
  | _, [] => rfl
  | tdb, (now, req) :: reqs => by
    obtain ⟨hres, hdb⟩ := @write_sim _ ws _ (fun tdb c => tdb.write now c) DB.write
      (fun tdb db => tdb.db = db) tdb tdb.db req rfl fun _ => by
        simpa only [Prod.ext_iff] using tdb.write_db now ⟨req.writeConditions, req.updates⟩
    have ih := runTimed_db (ws.write (fun tdb c => tdb.write now c) tdb req).2 reqs
    simp only [Prod.ext_iff] at ih
    simp only [runTimed, run, List.map_cons, Prod.ext_iff, ih.1, ih.2, hres, hdb, and_self]

/-- A timed history whose clock never goes back keeps the timestamps in order. -/
theorem stamped_runTimed : ∀ (hist : List (Int × WriteRequest)) {tdb : TimedDB} {n : Nat}
    {clock stop : Int}, Stamped tdb n clock → 0 ≤ clock → ClockBetween clock hist stop →
    stop < 2 ^ 64 → n + hist.length < 2 ^ 64 →
      ∃ n', Stamped (ws.runTimed tdb hist).1 n' stop
  | [], _, n, _, _, h, _, hclock, _, _ => ⟨n, h.mono hclock⟩
  | (now, req) :: reqs, tdb, n, clock, stop, h, h0, ⟨hnow, hclock⟩, hstop, hn => by
    rw [List.length_cons] at hn
    have hle := hclock.le
    -- the request reaches memdb, or leaves it as it was
    obtain ⟨n₁, hn₁, h₁⟩ : ∃ n₁, n₁ ≤ n + 1 ∧
        Stamped (ws.write (fun tdb c => tdb.write now c) tdb req).2 n₁ now := by
      cases hc : ws.check req with
      | error err => exact ⟨n, by omega, by rw [ws.write_of_check_error hc]; exact h.mono hnow⟩
      | ok u =>
        obtain ⟨n₁, -, hn₁, h₁, -⟩ := h.write (by omega) hnow (by omega) (by omega)
          ⟨req.writeConditions, req.updates⟩
        exact ⟨n₁, hn₁, by rw [ws.write_of_check_ok hc]; exact h₁⟩
    exact stamped_runTimed reqs h₁ (by omega) hclock hstop (by omega)

/-- From the empty datastore, a timed history in which every accepted request creates no tuple an
earlier request left live, fewer than `2^64 - 1` of them, ends on a database that refines the log of
its accepted updates. -/
theorem runTimed_refines (hist : List (Int × WriteRequest))
    (hn : (accepted (hist.map Prod.snd) (ws.runTimed TimedDB.empty hist).2).length < 2 ^ 64 - 1)
    (hfresh : Spec.freshLog ∅ (accepted (hist.map Prod.snd) (ws.runTimed TimedDB.empty hist).2)) :
    Refines (ws.runTimed TimedDB.empty hist).1.db
      (accepted (hist.map Prod.snd) (ws.runTimed TimedDB.empty hist).2) := by
  have hdb := ws.runTimed_db TimedDB.empty hist
  simp only [Prod.ext_iff, TimedDB.empty_db] at hdb
  rw [hdb.2] at hn hfresh ⊢
  rw [hdb.1]
  exact (ws.run_refines_accepted _ hn hfresh).2.2

/-- After a timed history from the empty datastore whose clock never goes back, within `int64`
nanoseconds after the epoch, `Revision` at its end draws a committed revision, not below any
commit stamped before `t - revisionFuzzingTimedelta`. -/
theorem revision_runTimed_bounds (cfg : Clocks) (hist : List (Int × WriteRequest)) {t : Int}
    (pick : Nat) (hclock : ClockBetween 0 hist t) (ht : t < 2 ^ 63)
    (hcalls : hist.length < 2 ^ 64) (hfuzz : 0 ≤ cfg.revisionFuzzingTimedelta) :
    revision cfg (ws.runTimed TimedDB.empty hist).1 t pick ≤
        syncRevision (ws.runTimed TimedDB.empty hist).1.db ∧
      ∀ s ∈ (ws.runTimed TimedDB.empty hist).1.stamps,
        (s.timestamp.toNat : Int) < t - cfg.revisionFuzzingTimedelta →
          s.id.toNat ≤ revision cfg (ws.runTimed TimedDB.empty hist).1 t pick := by
  obtain ⟨n, hst⟩ := ws.stamped_runTimed hist Stamped.empty le_rfl hclock (by omega) (by omega)
  rw [hst.syncRevision_eq]
  exact hst.revision_bounds cfg pick (show t < 2 ^ 64 by omega) hfuzz

end WriteService

/-- The revision a handler picks over memdb: the one `Revision` draws, or the client's zookie's
when that is newer. -/
theorem pickBestRevision_memdb {cfg : Clocks} {tdb : TimedDB} {now : Int} {pick : Nat}
    {zk : ZookieCodec} {requested : Option Zookie} {r : Revision}
    (h : pickBestRevision (memdbDatastore cfg tdb now pick) zk requested = .ok r) :
    revision cfg tdb now pick ≤ r ∧
      (r = revision cfg tdb now pick ∨ ∃ z, requested = some z ∧ zk.decodeRevision z = .ok r) := by
  obtain ⟨databaseRev, hds, ⟨-, rfl⟩ | ⟨z, w, hz, hw, rfl⟩⟩ := pickBestRevision_eq_ok.mp h <;>
    cases hds
  · exact ⟨le_rfl, .inl rfl⟩
  · refine ⟨le_max_right _ _, ?_⟩
    rcases le_total w (revision cfg tdb now pick) with hwd | hwd
    · exact .inl (max_eq_right hwd)
    · exact .inr ⟨z, hz, by rw [max_eq_left hwd]; exact hw⟩

/-- The tuples memdb lists at a revision of a database that refines a log are the set the log
denotes there, each once. -/
theorem visibleAt_toFinset_of_refines {db : DB} {h : List (List RelationTupleUpdate)} {r : Nat}
    (hr : Refines db h) (hle : r ≤ h.length) :
    (db.tuples.visibleAt r).Nodup ∧ (db.tuples.visibleAt r).toFinset = Spec.setAt h r :=
  nodup_toFinset_of_count fun u => by rw [TupleTable.count_visibleAt, hr.visible r hle u]

/-- A successful `Read` on a datastore whose queries never fail read at a revision its
`CheckRevision` accepted, and answers each tupleset with the answer to the tupleset's query
there. -/
theorem read_execute_eq_ok {as : AclServer} {ds : Datastore}
    {answer : TupleFilterQuery → List RelationTuple} (hds : ∀ q, ds.execute q = .ok (answer q, none))
    {req : ReadRequest} {resp : ReadResponse} (h : read { as with ds := ds } req = .ok resp) :
    ∃ atRevision, readRevision ds as.zookies req.atRevision = .ok atRevision ∧
      ds.checkRevision atRevision = .ok () ∧ resp.revision = as.zookies.newFromRevision atRevision ∧
      List.Forall₂ (fun tf tuples => tuples = answer (filteredQuery tf atRevision))
        req.tuplesets resp.tuplesets := by
  obtain ⟨-, hchecks, atRevision, hrev, hcheck, tuplesets, hts, rfl⟩ := read_eq_ok.mp h
  refine ⟨atRevision, hrev, hcheck, rfl, ((List.forall₂_and_left _ _).mpr ⟨hchecks, hts⟩).imp ?_⟩
  rintro tf tuples ⟨hcheck, hread⟩
  have hq := (readTupleset_eq_ok (filters_declared hcheck)).mp hread
  rw [hds] at hq
  exact (Prod.mk.inj (Except.ok.inj hq)).1.symm

/-- A successful `Read` on memdb answers each tupleset with the tuples its query asks for among
those live at the revision it read at. -/
theorem read_memdb_eq_ok {as : AclServer} {cfg : Clocks} {tdb : TimedDB} {now : Int} {pick : Nat}
    {req : ReadRequest} {resp : ReadResponse}
    (h : read { as with ds := memdbDatastore cfg tdb now pick } req = .ok resp) :
    ∃ atRevision, readRevision (memdbDatastore cfg tdb now pick) as.zookies req.atRevision =
        .ok atRevision ∧
      List.Forall₂ (fun tf tuples => tuples = memdbQuery tdb.db (filteredQuery tf atRevision))
        req.tuplesets resp.tuplesets := by
  obtain ⟨atRevision, hrev, -, -, hts⟩ := read_execute_eq_ok (fun _ => rfl) h
  exact ⟨atRevision, hrev, hts⟩

/-- A query's answer on a database that refines a log, at a revision of the log: the set the log
denotes there, filtered by the query, each tuple once. -/
theorem memdbQuery_toFinset {db : DB} {h : List (List RelationTupleUpdate)}
    (hr : Refines db h) {q : TupleFilterQuery} (hle : q.revision ≤ h.length) :
    (memdbQuery db q).Nodup ∧
      (memdbQuery db q).toFinset = (Spec.setAt h q.revision).filter fun t => q.matches t := by
  obtain ⟨hnodup, hset⟩ := visibleAt_toFinset_of_refines hr hle
  exact ⟨hnodup.filter _, by rw [memdbQuery, List.toFinset_filter, hset]⟩

/-- A successful `Read` on memdb at the zookie of a revision `w` of a log that the database
refines answers every tupleset with the tuples of the log's set at `w` that its query asks for,
each once. -/
theorem read_memdb_at_zookie {as : AclServer} {cfg : Clocks} {tdb : TimedDB} {now : Int}
    {pick : Nat} {req : ReadRequest} {resp : ReadResponse} {h : List (List RelationTupleUpdate)}
    {z : Zookie} {w : Revision} (href : Refines tdb.db h) (hz : req.atRevision = some z)
    (hw : as.zookies.decodeRevision z = .ok w) (hwle : w ≤ h.length)
    (hread : read { as with ds := memdbDatastore cfg tdb now pick } req = .ok resp) :
    List.Forall₂ (fun tf tuples => tuples.Nodup ∧
        tuples.toFinset = (Spec.setAt h w).filter fun t => (filteredQuery tf w).matches t)
      req.tuplesets resp.tuplesets := by
  obtain ⟨atRevision, hrev, hts⟩ := read_memdb_eq_ok hread
  -- the zookie fixes the revision
  obtain rfl : atRevision = w := by
    rw [hz] at hrev
    simp only [readRevision, Except.mapError, hw] at hrev
    exact (Except.ok.inj hrev).symm
  exact hts.imp fun {tf tuples} htuples => htuples ▸ memdbQuery_toFinset href hwle

/-- **Reads at a zookie are snapshot reads.** For every history of `Write` requests, each at its
time, from the empty memdb datastore, in which every accepted request creates no tuple an earlier
request left live and fewer than `2^64 - 1` are accepted: a `Read` at any later time whose zookie
decodes to a committed revision `w`, where it succeeds, answers every tupleset with exactly the
tuples of the set semantics at `w` that its query asks for, each once. -/
theorem read_at_zookie_reads_snapshot (ws : WriteService) (as : AclServer) (cfg : Clocks)
    (hist : List (Int × WriteRequest)) (now : Int) (pick : Nat) (req : ReadRequest)
    {z : Zookie} {w : Revision}
    (hn : (accepted (hist.map Prod.snd) (ws.runTimed TimedDB.empty hist).2).length < 2 ^ 64 - 1)
    (hfresh : Spec.freshLog ∅ (accepted (hist.map Prod.snd) (ws.runTimed TimedDB.empty hist).2))
    (hz : req.atRevision = some z) (hw : as.zookies.decodeRevision z = .ok w)
    (hwle : w ≤ (accepted (hist.map Prod.snd) (ws.runTimed TimedDB.empty hist).2).length) :
    ∀ resp, read { as with ds := memdbDatastore cfg (ws.runTimed TimedDB.empty hist).1 now pick }
        req = .ok resp →
      List.Forall₂ (fun tf tuples => tuples.Nodup ∧
          tuples.toFinset =
            (Spec.setAt (accepted (hist.map Prod.snd) (ws.runTimed TimedDB.empty hist).2) w).filter
              fun t => (filteredQuery tf w).matches t)
        req.tuplesets resp.tuplesets :=
  fun _ hread => read_memdb_at_zookie (ws.runTimed_refines hist hn hfresh) hz hw hwle hread

/-- The requests of `docHistory`, at `10`, `12`, `14` and `16` ns, and reads of `doc:1#viewer`
at the zookie of revision `2` and without a zookie. -/
def timedDocHistory : List (Int × WriteRequest) := [(10 : Int), 12, 14, 16].zip docHistory

def viewerRead (atRevision : Option Zookie) : ReadRequest :=
  ⟨[⟨"doc", "1", "viewer", none, [.objectId, .relation]⟩], atRevision⟩

/-- The server of the `doc` examples, with a namespace manager that knows `doc` and `user`. -/
def docReader : AclServer :=
  { docServer with
    nsm := ⟨fun ns _ _ => if ns = "doc" ∨ ns = "user" then .ok () else .error .unknownNamespace⟩ }

theorem read_at_zookie_reads_snapshot_docHistory :
    (accepted (timedDocHistory.map Prod.snd)
        (docWrites.runTimed TimedDB.empty timedDocHistory).2).length < 2 ^ 64 - 1 ∧
      Spec.freshLog ∅ (accepted (timedDocHistory.map Prod.snd)
        (docWrites.runTimed TimedDB.empty timedDocHistory).2) ∧
      (viewerRead (some ⟨"xx"⟩)).atRevision = some ⟨"xx"⟩ ∧
      docReader.zookies.decodeRevision ⟨"xx"⟩ = .ok 2 ∧
      2 ≤ (accepted (timedDocHistory.map Prod.snd)
        (docWrites.runTimed TimedDB.empty timedDocHistory).2).length ∧
      ∀ resp, read { docReader with ds := (memdbDatastore shortWindows
          (docWrites.runTimed TimedDB.empty timedDocHistory).1 20 0) } (viewerRead (some ⟨"xx"⟩)) =
          .ok resp →
        List.Forall₂ (fun tf tuples => tuples.Nodup ∧
            tuples.toFinset = (Spec.setAt (accepted (timedDocHistory.map Prod.snd)
              (docWrites.runTimed TimedDB.empty timedDocHistory).2) 2).filter
                fun t => (filteredQuery tf 2).matches t)
          (viewerRead (some ⟨"xx"⟩)).tuplesets resp.tuplesets :=
  ⟨by decide, by decide, rfl, rfl, by decide,
    read_at_zookie_reads_snapshot docWrites docReader shortWindows timedDocHistory 20 0
      (viewerRead (some ⟨"xx"⟩)) (by decide) (by decide) rfl rfl (by decide)⟩

/-- **Read your writes.** For every history of `Write` requests, each at its time, from the empty
memdb datastore, in which every accepted request creates no tuple an earlier request left live and
fewer than `2^64 - 1` are accepted, with one zookie codec for both handlers that round-trips: a
`Read` that sends the zookie the service answered the `i`-th request with, where it succeeds,
answers every tupleset with exactly the tuples, each once, that its query asks for in the set the
writes accepted before that request denote with the request's updates applied. -/
theorem read_your_writes (ws : WriteService) (as : AclServer) (cfg : Clocks)
    (hist : List (Int × WriteRequest)) (now : Int) (pick : Nat) (req : ReadRequest) {i : Nat}
    {t : Int} {wreq : WriteRequest} {wr : WriteResponse} (hzk : as.zookies = ws.zookies)
    (hrt : ws.zookies.RoundTrips)
    (hn : (accepted (hist.map Prod.snd) (ws.runTimed TimedDB.empty hist).2).length < 2 ^ 64 - 1)
    (hfresh : Spec.freshLog ∅ (accepted (hist.map Prod.snd) (ws.runTimed TimedDB.empty hist).2))
    (hi : hist[i]? = some (t, wreq))
    (hreply : (ws.runTimed TimedDB.empty hist).2[i]? = some (.ok wr))
    (hz : req.atRevision = some wr.revision) :
    ∀ resp, read { as with ds := memdbDatastore cfg (ws.runTimed TimedDB.empty hist).1 now pick }
        req = .ok resp →
      ∃ r, 0 < r ∧ wr.revision = ws.zookies.newFromRevision r ∧
        List.Forall₂ (fun tf tuples => tuples.Nodup ∧
            tuples.toFinset = (Spec.applyMutations (Spec.setAt
              (accepted (hist.map Prod.snd) (ws.runTimed TimedDB.empty hist).2) (r - 1))
                wreq.updates).filter fun u => (filteredQuery tf r).matches u)
          req.tuplesets resp.tuplesets := by
  intro resp hread
  have href := ws.runTimed_refines hist hn hfresh
  have hdb := ws.runTimed_db TimedDB.empty hist
  simp only [Prod.ext_iff, TimedDB.empty_db] at hdb
  rw [hdb.2] at hn hfresh hreply
  obtain ⟨hres, hlog, -⟩ := ws.run_refines_accepted _ hn hfresh
  rw [hres] at hreply
  -- the reply names the revision that committed the request
  obtain ⟨r, hr, hrle, rfl, hset⟩ :=
    ws.run_spec_reply_at [] (hist.map Prod.snd) (by rw [List.getElem?_map, hi]; rfl) hreply
  rw [hlog, ← hdb.2] at hrle hset
  refine ⟨r, hr, rfl, ?_⟩
  rw [← hset]
  exact read_memdb_at_zookie href hz (by rw [hzk]; exact hrt r) hrle hread

theorem read_your_writes_docHistory :
    docReader.zookies = docWrites.zookies ∧ docWrites.zookies.RoundTrips ∧
      (accepted (timedDocHistory.map Prod.snd)
        (docWrites.runTimed TimedDB.empty timedDocHistory).2).length < 2 ^ 64 - 1 ∧
      Spec.freshLog ∅ (accepted (timedDocHistory.map Prod.snd)
        (docWrites.runTimed TimedDB.empty timedDocHistory).2) ∧
      timedDocHistory[2]? = some (14, ⟨[viewerA], [⟨.touch, viewerA⟩, ⟨.create, viewerB⟩]⟩) ∧
      (docWrites.runTimed TimedDB.empty timedDocHistory).2[2]? = some (.ok ⟨⟨"xx"⟩⟩) ∧
      (viewerRead (some ⟨"xx"⟩)).atRevision = some (⟨⟨"xx"⟩⟩ : WriteResponse).revision ∧
      ∀ resp, read { docReader with ds := (memdbDatastore shortWindows
          (docWrites.runTimed TimedDB.empty timedDocHistory).1 20 0) } (viewerRead (some ⟨"xx"⟩)) =
          .ok resp →
        ∃ r, 0 < r ∧ (⟨⟨"xx"⟩⟩ : WriteResponse).revision = docWrites.zookies.newFromRevision r ∧
          List.Forall₂ (fun tf tuples => tuples.Nodup ∧
              tuples.toFinset = (Spec.applyMutations (Spec.setAt
                (accepted (timedDocHistory.map Prod.snd)
                  (docWrites.runTimed TimedDB.empty timedDocHistory).2) (r - 1))
                  [⟨.touch, viewerA⟩, ⟨.create, viewerB⟩]).filter
                fun u => (filteredQuery tf r).matches u)
            (viewerRead (some ⟨"xx"⟩)).tuplesets resp.tuplesets :=
  ⟨rfl, unaryZookies_roundTrips, by decide, by decide, rfl, rfl, rfl,
    @read_your_writes docWrites docReader shortWindows timedDocHistory 20 0
      (viewerRead (some ⟨"xx"⟩)) 2 14 ⟨[viewerA], [⟨.touch, viewerA⟩, ⟨.create, viewerB⟩]⟩
      ⟨⟨"xx"⟩⟩ rfl unaryZookies_roundTrips (by decide) (by decide) rfl rfl rfl⟩

/-- **Reads without a zookie are at most one fuzzing window stale.** For every history of `Write`
requests from the empty memdb datastore whose clock never goes back, within `int64` nanoseconds
after the epoch, in which every accepted request creates no tuple an earlier request left live and
fewer than `2^64 - 1` are accepted: a `Read` at time `t` without a zookie, with a nonnegative
fuzzing delta, where it succeeds, answers every tupleset at a committed revision `r`, not below any
commit stamped before `t - revisionFuzzingTimedelta`, with exactly the tuples of the set semantics
at `r` that its query asks for, each once. -/
theorem read_without_zookie_bounded_staleness (ws : WriteService) (as : AclServer) (cfg : Clocks)
    (hist : List (Int × WriteRequest)) {t : Int} (pick : Nat) (req : ReadRequest)
    (hclock : ClockBetween 0 hist t) (ht : t < 2 ^ 63) (hcalls : hist.length < 2 ^ 64)
    (hfuzz : 0 ≤ cfg.revisionFuzzingTimedelta)
    (hn : (accepted (hist.map Prod.snd) (ws.runTimed TimedDB.empty hist).2).length < 2 ^ 64 - 1)
    (hfresh : Spec.freshLog ∅ (accepted (hist.map Prod.snd) (ws.runTimed TimedDB.empty hist).2))
    (hnone : req.atRevision = none) :
    ∀ resp, read { as with ds := memdbDatastore cfg (ws.runTimed TimedDB.empty hist).1 t pick }
        req = .ok resp →
      ∃ r, r ≤ (accepted (hist.map Prod.snd) (ws.runTimed TimedDB.empty hist).2).length ∧
        (∀ s ∈ (ws.runTimed TimedDB.empty hist).1.stamps,
          (s.timestamp.toNat : Int) < t - cfg.revisionFuzzingTimedelta → s.id.toNat ≤ r) ∧
        List.Forall₂ (fun tf tuples => tuples.Nodup ∧
            tuples.toFinset =
              (Spec.setAt (accepted (hist.map Prod.snd) (ws.runTimed TimedDB.empty hist).2)
                r).filter fun u => (filteredQuery tf r).matches u)
          req.tuplesets resp.tuplesets := by
  intro resp hread
  obtain ⟨hle, hcover⟩ := ws.revision_runTimed_bounds cfg hist pick hclock ht hcalls hfuzz
  have href := ws.runTimed_refines hist hn hfresh
  rw [href.changelog.syncRevision_eq] at hle
  obtain ⟨atRevision, hrev, hts⟩ := read_memdb_eq_ok hread
  -- without a zookie the revision is the one `Revision` draws
  obtain rfl : atRevision = revision cfg (ws.runTimed TimedDB.empty hist).1 t pick := by
    rw [hnone] at hrev
    simp only [readRevision, memdbDatastore, Except.mapError] at hrev
    exact (Except.ok.inj hrev).symm
  exact ⟨_, hle, hcover, hts.imp fun {tf tuples} htuples => htuples ▸ memdbQuery_toFinset href hle⟩

theorem read_without_zookie_bounded_staleness_docHistory :
    ClockBetween 0 timedDocHistory 20 ∧ (20 : Int) < 2 ^ 63 ∧ timedDocHistory.length < 2 ^ 64 ∧
      0 ≤ shortWindows.revisionFuzzingTimedelta ∧
      (accepted (timedDocHistory.map Prod.snd)
        (docWrites.runTimed TimedDB.empty timedDocHistory).2).length < 2 ^ 64 - 1 ∧
      Spec.freshLog ∅ (accepted (timedDocHistory.map Prod.snd)
        (docWrites.runTimed TimedDB.empty timedDocHistory).2) ∧
      (viewerRead none).atRevision = none ∧
      ∀ resp, read { docReader with ds := (memdbDatastore shortWindows
          (docWrites.runTimed TimedDB.empty timedDocHistory).1 20 0) } (viewerRead none) =
          .ok resp →
        ∃ r, r ≤ (accepted (timedDocHistory.map Prod.snd)
            (docWrites.runTimed TimedDB.empty timedDocHistory).2).length ∧
          (∀ s ∈ (docWrites.runTimed TimedDB.empty timedDocHistory).1.stamps,
            (s.timestamp.toNat : Int) < 20 - shortWindows.revisionFuzzingTimedelta →
              s.id.toNat ≤ r) ∧
          List.Forall₂ (fun tf tuples => tuples.Nodup ∧
              tuples.toFinset = (Spec.setAt (accepted (timedDocHistory.map Prod.snd)
                (docWrites.runTimed TimedDB.empty timedDocHistory).2) r).filter
                  fun u => (filteredQuery tf r).matches u)
            (viewerRead none).tuplesets resp.tuplesets :=
  ⟨by decide, by decide, by decide, by decide, by decide, by decide, rfl,
    read_without_zookie_bounded_staleness docWrites docReader shortWindows timedDocHistory 0
      (viewerRead none) (by decide) (by decide) (by decide) (by decide) (by decide) (by decide)
      rfl⟩

/-! ## Revision `0` -/

/-- `CheckRevision` accepts no revision `0`: with nothing committed it cannot determine one, and
after a commit every stamped commit, from id `1` on, is newer. -/
theorem checkRevision_zero_eq_error {tdb : TimedDB} {n : Nat} {clock : Int}
    (h : Stamped tdb n clock) (cfg : Clocks) (now : Int) :
    ∃ e, checkRevision cfg tdb now 0 = .error e := by
  rw [checkRevision_eq_spec h cfg now 0, checkRevisionSpec]
  by_cases hn : n = 0
  · exact ⟨_, if_pos hn⟩
  · have hstale : ¬(0 = n ∨ ∃ s ∈ tdb.stamps,
        toUint64 (now + cfg.gcWindowInverted) ≤ s.timestamp ∧ s.id.toNat ≤ 0) := by
      rintro (h0 | ⟨s, hs, -, hid⟩)
      · exact hn h0.symm
      · have := (h.id_mem hs).1
        omega
    exact ⟨_, by rw [if_neg hn, if_neg (Nat.not_lt_zero n), if_neg hstale]⟩

/-- With nothing committed, `Revision` draws revision `0`. -/
theorem revision_eq_zero_of_stamped {tdb : TimedDB} {clock : Int} (h : Stamped tdb 0 clock)
    (cfg : Clocks) (now : Int) (pick : Nat) : revision cfg tdb now pick = 0 := by
  rcases revision_cases h cfg now pick with ⟨-, hrev⟩ | ⟨s, hs, -, -⟩
  · exact hrev
  · have := h.id_mem hs
    omega

/-- A `Read` whose checks pass fails with the status of the error `CheckRevision` gives at the
revision it picked. -/
theorem read_of_checkRevision_error {as : AclServer} {req : ReadRequest} {atRevision : Revision}
    {err : AclError} (hv : as.validateRead req = .ok ())
    (hc : ∀ tf ∈ req.tuplesets, checkTupleset as.nsm tf = .ok ())
    (hr : readRevision as.ds as.zookies req.atRevision = .ok atRevision)
    (hcr : as.ds.checkRevision atRevision = .error err) :
    read as req = .error (rewriteACLError err) := by
  simp only [read, hv, forM_eq_ok_iff.mpr hc, hr, hcr, Except.mapError, bind, Except.bind]

/-- **Revision `0` is never readable, and the service hands out its zookie.** After every history
of `Write` requests from the empty memdb datastore whose clock never goes back, within `int64`
nanoseconds after the epoch: while nothing is committed, a successful `Expand` without a zookie
answers with the zookie of revision `0`; and a `Read` whose checks pass and that sends a zookie
of revision `0`, or no zookie while nothing is committed, fails with `OUT_OF_RANGE`,
"invalid zookie: " and `ErrInvalidRevision`, at any time. -/
theorem revision_zero_unreadable (ws : WriteService) (as : AclServer) (cfg : Clocks)
    (hist : List (Int × WriteRequest)) {t : Int} (now : Int) (pick : Nat)
    (hclock : ClockBetween 0 hist t) (ht : t < 2 ^ 63) (hcalls : hist.length < 2 ^ 64) :
    (syncRevision (ws.runTimed TimedDB.empty hist).1.db = 0 →
      ∀ metadata (ereq : ExpandRequest) resp, ereq.atRevision = none →
        expand { as with ds := memdbDatastore cfg (ws.runTimed TimedDB.empty hist).1 now pick }
          metadata ereq = .ok resp →
        resp.revision = as.zookies.newFromRevision 0) ∧
      ∀ req : ReadRequest, as.validateRead req = .ok () →
        (∀ tf ∈ req.tuplesets, checkTupleset as.nsm tf = .ok ()) →
        (∀ z, req.atRevision = some z → as.zookies.decodeRevision z = .ok 0) →
        (req.atRevision = none → syncRevision (ws.runTimed TimedDB.empty hist).1.db = 0) →
        read { as with ds := memdbDatastore cfg (ws.runTimed TimedDB.empty hist).1 now pick } req =
          .error (.statusOf .outOfRange "invalid zookie: " .invalidRevision) := by
  obtain ⟨n, hst⟩ := ws.stamped_runTimed hist Stamped.empty le_rfl hclock (by omega) (by omega)
  rw [hst.syncRevision_eq]
  refine ⟨fun hsync metadata ereq resp hnone h => ?_, fun req hv hc hz hnone => ?_⟩
  · -- nothing committed: `Revision` draws `0`, and there is no zookie to prefer
    subst hsync
    obtain ⟨-, -, atRevision, -, -, hp, -, -, rfl⟩ := expand_eq_ok.mp h
    obtain ⟨-, rfl | ⟨z, hz, -⟩⟩ := pickBestRevision_memdb hp
    · rw [revision_eq_zero_of_stamped hst]
    · rw [hnone] at hz
      cases hz
  · obtain ⟨e, he⟩ := checkRevision_zero_eq_error hst cfg now
    refine @read_of_checkRevision_error _ req 0 .invalidRevision hv hc
      (readRevision_eq_ok.mpr ⟨hz, fun h => ?_⟩)
      (by simp only [memdbDatastore, he, Except.mapError])
    obtain rfl := hnone h
    simp only [memdbDatastore, revision_eq_zero_of_stamped hst]

/-- Before the first write, an `Expand` of `doc:1#viewer` succeeds with the zookie of revision
`0`, which no `Read` can use. -/
theorem revision_zero_unreadable_empty :
    ClockBetween 0 ([] : List (Int × WriteRequest)) 20 ∧ (20 : Int) < 2 ^ 63 ∧
      ([] : List (Int × WriteRequest)).length < 2 ^ 64 ∧
      syncRevision (docWrites.runTimed TimedDB.empty []).1.db = 0 ∧
      (∃ resp, expand { docReader with ds := (memdbDatastore shortWindows
        (docWrites.runTimed TimedDB.empty []).1 20 0) } none ⟨⟨"doc", "1", "viewer"⟩, none⟩ =
          .ok resp) ∧
      (syncRevision (docWrites.runTimed TimedDB.empty []).1.db = 0 →
        ∀ metadata (ereq : ExpandRequest) resp, ereq.atRevision = none →
          expand { docReader with ds := (memdbDatastore shortWindows
            (docWrites.runTimed TimedDB.empty []).1 20 0) } metadata ereq = .ok resp →
          resp.revision = docReader.zookies.newFromRevision 0) ∧
      ∀ req : ReadRequest, docReader.validateRead req = .ok () →
        (∀ tf ∈ req.tuplesets, checkTupleset docReader.nsm tf = .ok ()) →
        (∀ z, req.atRevision = some z → docReader.zookies.decodeRevision z = .ok 0) →
        (req.atRevision = none → syncRevision (docWrites.runTimed TimedDB.empty []).1.db = 0) →
        read { docReader with ds := (memdbDatastore shortWindows
            (docWrites.runTimed TimedDB.empty []).1 20 0) } req =
          .error (.statusOf .outOfRange "invalid zookie: " .invalidRevision) :=
  ⟨by decide, by decide, by decide, rfl, ⟨_, rfl⟩,
    @revision_zero_unreadable docWrites docReader shortWindows [] 20 20 0 (by decide)
      (by decide) (by decide)⟩

end SpiceDB.Services
