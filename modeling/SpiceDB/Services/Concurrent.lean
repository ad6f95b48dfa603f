import SpiceDB.Services.Stack

/-!
# Reads while writes commit

`Read` makes several calls to the datastore, and each memdb call opens its own transaction:
`Revision`, then `CheckRevision`, then one query per tupleset. Writes can commit between any two
of them, so each call may see a later database than the one before. `memdbDatastoreDuring`
lets every call see its own: `Revision` the database after `hist₀`, `CheckRevision` the one after
`hist₀ ++ hist₁`, and the query `q` the one after `hist₀ ++ hist₁ ++ more q`, for any further
writes `more q`.

Such a `Read` is still a snapshot read (`read_during_writes_reads_snapshot`): it answers every
tupleset with the tuples of one set, the one the writes accepted before `CheckRevision` denote at
the revision it read at. Two facts of the code carry this. `CheckRevision` accepts no revision
past its database's last commit, so the revision is one whose set is already fixed. And a later
commit only appends to the log of accepted updates (`acceptedLog_append`), which leaves the set
at every revision it already held unchanged (`setAt_append_of_le_length`); memdb lists a
revision's tuples from the versions visible there, which later commits leave as they were.

`Expand` has no `CheckRevision`: its revision is the one `Revision` drew when it began, or the
zookie's. The expander's queries run afterwards, each on the database it finds
(`memdbGraphDatastoreDuring`). Where the zookie names a committed revision, the same two facts
make the expansion a snapshot read too (`expand_during_writes_reads_snapshot`), the revision being
committed when `Expand` began.
-/

namespace SpiceDB.Services

open Memdb

/-- The memdb datastore as a `Read` calls it while writes commit between its calls: `Revision`
draws `pick` at `t₀` on `tdb₀`, `CheckRevision` runs at `t₁` on `tdb₁`, and each query on the
database `during q` it finds when it runs. -/
def memdbDatastoreDuring (cfg : Clocks) (tdb₀ : TimedDB) (t₀ : Int) (pick : Nat) (tdb₁ : TimedDB)
    (t₁ : Int) (during : TupleFilterQuery → TimedDB) : Datastore where
  revision := .ok (revision cfg tdb₀ t₀ pick)
  checkRevision rev := (checkRevision cfg tdb₁ t₁ rev).mapError fun _ => .invalidRevision
  execute q := .ok (memdbQuery (during q).db q, none)

/-- With no write between its calls, the datastore is the one of a single time. -/
theorem memdbDatastoreDuring_self (cfg : Clocks) (tdb : TimedDB) (now : Int) (pick : Nat) :
    memdbDatastoreDuring cfg tdb now pick tdb now (fun _ => tdb) =
      memdbDatastore cfg tdb now pick :=
  rfl

/-- `CheckRevision` accepts no revision past the last commit. -/
theorem checkRevision_le_of_ok {cfg : Clocks} {tdb : TimedDB} {now : Int} {rev : Revision}
    {n : Nat} (h : ChangelogTo tdb.db.changelog n) (hc : checkRevision cfg tdb now rev = .ok ()) :
    rev ≤ n := by
  by_contra hgt
  have hl := h.lastChangelog_id
  cases hlast : lastChangelog tdb.db.changelog with
  | none => simp [checkRevision, hlast] at hc
  | some lastRaw =>
    -- the last entry is the `n`-th commit, and `rev` is past it
    rw [hlast] at hl
    have hid : lastRaw.id.toNat = n := by split at hl <;> simp_all
    simp [checkRevision, hlast, revisionFromVersion, hid, lt_of_not_le hgt] at hc

/-! ## Histories that go on -/

/-- Accepting more requests only appends to the log. -/
theorem accepted_append : ∀ {reqs₁ : List WriteRequest} {rs₁ : List (Except RpcError WriteResponse)}
    (reqs₂ : List WriteRequest) (rs₂ : List (Except RpcError WriteResponse)),
    reqs₁.length = rs₁.length →
      accepted (reqs₁ ++ reqs₂) (rs₁ ++ rs₂) = accepted reqs₁ rs₁ ++ accepted reqs₂ rs₂
  | [], [], _, _, _ => rfl
  | _ :: reqs₁, .ok _ :: rs₁, reqs₂, rs₂, h =>
    congrArg _ (@accepted_append reqs₁ rs₁ reqs₂ rs₂ (Nat.succ.inj h))
  | _ :: reqs₁, .error _ :: rs₁, reqs₂, rs₂, h =>
    @accepted_append reqs₁ rs₁ reqs₂ rs₂ (Nat.succ.inj h)

theorem Spec.freshLog_of_append : ∀ {S : Finset RelationTuple}
    {a b : List (List RelationTupleUpdate)}, Spec.freshLog S (a ++ b) = true →
      Spec.freshLog S a = true
  | _, [], _, _ => rfl
  | _, _ :: _, _, h => by
    simp only [List.cons_append, Spec.freshLog, Bool.and_eq_true] at h ⊢
    exact ⟨h.1, Spec.freshLog_of_append h.2⟩

namespace WriteService

variable (ws : WriteService)

/-- The updates a timed history from the empty datastore accepted, in order. -/
def acceptedLog (hist : List (Int × WriteRequest)) : List (List RelationTupleUpdate) :=
  accepted (hist.map Prod.snd) (ws.runTimed TimedDB.empty hist).2

theorem runTimed_length : ∀ (tdb : TimedDB) (hist : List (Int × WriteRequest)),
    (ws.runTimed tdb hist).2.length = hist.length
  | _, [] => rfl
  | _, _ :: hist => congrArg Nat.succ (runTimed_length _ hist)

/-- A history that goes on runs its first part, then the rest from where that left. -/
theorem runTimed_append : ∀ (tdb : TimedDB) (hist more : List (Int × WriteRequest)),
    ws.runTimed tdb (hist ++ more) =
      ((ws.runTimed (ws.runTimed tdb hist).1 more).1,
        (ws.runTimed tdb hist).2 ++ (ws.runTimed (ws.runTimed tdb hist).1 more).2)
  | _, [], _ => rfl
  | tdb, (now, req) :: hist, more => by
    rw [List.cons_append]
    simp only [runTimed, runTimed_append _ hist more, List.cons_append]

theorem acceptedLog_append (hist more : List (Int × WriteRequest)) :
    ∃ rest, ws.acceptedLog (hist ++ more) = ws.acceptedLog hist ++ rest := by
  refine ⟨accepted (more.map Prod.snd) (ws.runTimed (ws.runTimed TimedDB.empty hist).1 more).2, ?_⟩
  rw [acceptedLog, runTimed_append, List.map_append, accepted_append _ _ (by
    rw [List.length_map, runTimed_length])]
  rfl

/-- The database after a history that goes on refines the log its first part accepted, extended
by what the rest accepted. -/
theorem refines_append (hist more : List (Int × WriteRequest))
    (hn : (ws.acceptedLog (hist ++ more)).length < 2 ^ 64 - 1)
    (hfresh : Spec.freshLog ∅ (ws.acceptedLog (hist ++ more))) :
    ∃ rest,
      Refines (ws.runTimed TimedDB.empty (hist ++ more)).1.db (ws.acceptedLog hist ++ rest) := by
  obtain ⟨rest, hrest⟩ := ws.acceptedLog_append hist more
  exact ⟨rest, hrest ▸ ws.runTimed_refines _ hn hfresh⟩

/-- The database after the first part of a history refines the log that part accepted. -/
theorem refines_of_append (hist more : List (Int × WriteRequest))
    (hn : (ws.acceptedLog (hist ++ more)).length < 2 ^ 64 - 1)
    (hfresh : Spec.freshLog ∅ (ws.acceptedLog (hist ++ more))) :
    Refines (ws.runTimed TimedDB.empty hist).1.db (ws.acceptedLog hist) := by
  obtain ⟨rest, hrest⟩ := ws.acceptedLog_append hist more
  rw [hrest, List.length_append] at hn
  rw [hrest] at hfresh
  exact ws.runTimed_refines _ (by unfold acceptedLog at hn; omega) (Spec.freshLog_of_append hfresh)

end WriteService

/-! ## Snapshot reads under concurrent writes -/

/-- **Reads are snapshot reads while writes commit.** For every history of `Write` requests, each at
its time, from the empty memdb datastore, and every `Read` during which more writes commit:
`Revision` on the database after `hist₀`, `CheckRevision` on the one after `hist₀ ++ hist₁`, and
each tupleset's query `q` on the one after `hist₀ ++ hist₁ ++ more q`, where every accepted request
creates no tuple an earlier request left live and fewer than `2^64 - 1` are accepted. Where the
`Read` succeeds, it read at the zookie's revision `r`, or the one `Revision` drew, no later than the
last commit `CheckRevision` saw; the response carries the zookie of `r`; and every tupleset is
answered with exactly the tuples, each once, that its query asks for in the set the writes accepted
before `CheckRevision` denote at `r`, whatever committed after. -/
theorem read_during_writes_reads_snapshot (ws : WriteService) (as : AclServer) (cfg : Clocks)
    (hist₀ hist₁ : List (Int × WriteRequest)) (more : TupleFilterQuery → List (Int × WriteRequest))
    (t₀ t₁ : Int) (pick : Nat) (req : ReadRequest)
    (hn : ∀ q, (ws.acceptedLog (hist₀ ++ hist₁ ++ more q)).length < 2 ^ 64 - 1)
    (hfresh : ∀ q, Spec.freshLog ∅ (ws.acceptedLog (hist₀ ++ hist₁ ++ more q))) :
    ∀ resp, read { as with ds := (memdbDatastoreDuring cfg (ws.runTimed TimedDB.empty hist₀).1 t₀
        pick (ws.runTimed TimedDB.empty (hist₀ ++ hist₁)).1 t₁
        fun q => (ws.runTimed TimedDB.empty (hist₀ ++ hist₁ ++ more q)).1) } req = .ok resp →
      ∃ r, (∀ z, req.atRevision = some z → as.zookies.decodeRevision z = .ok r) ∧
        (req.atRevision = none → r = revision cfg (ws.runTimed TimedDB.empty hist₀).1 t₀ pick) ∧
        resp.revision = as.zookies.newFromRevision r ∧
        r ≤ (ws.acceptedLog (hist₀ ++ hist₁)).length ∧
        List.Forall₂ (fun tf tuples => tuples.Nodup ∧
            tuples.toFinset = (Spec.setAt (ws.acceptedLog (hist₀ ++ hist₁)) r).filter
              fun t => (filteredQuery tf r).matches t)
          req.tuplesets resp.tuplesets := by
  intro resp hread
  -- the database `CheckRevision` sees refines the log accepted before it
  have href₁ := ws.refines_of_append (hist₀ ++ hist₁) _ (hn ⟨"", 0, none, none, none⟩)
    (hfresh ⟨"", 0, none, none, none⟩)
  obtain ⟨r, hrev, hcheck, hresp, hts⟩ := read_execute_eq_ok (fun _ => rfl) hread
  have hle : r ≤ (ws.acceptedLog (hist₀ ++ hist₁)).length := by
    rcases hc : checkRevision cfg (ws.runTimed TimedDB.empty (hist₀ ++ hist₁)).1 t₁ r with _ | ⟨⟩
    · simp [memdbDatastoreDuring, Except.mapError, hc] at hcheck
    · exact checkRevision_le_of_ok href₁.changelog hc
  obtain ⟨hz, hnone⟩ := readRevision_eq_ok.mp hrev
  refine ⟨r, hz, fun h => (Except.ok.inj (hnone h)).symm, hresp, hle, hts.imp ?_⟩
  -- each query reads a later database, whose log extends the one `CheckRevision` saw
  rintro tf _ rfl
  obtain ⟨rest, href⟩ :=
    ws.refines_append _ _ (hn (filteredQuery tf r)) (hfresh (filteredQuery tf r))
  rw [← @setAt_append_of_le_length _ rest _ hle]
  exact memdbQuery_toFinset href (by rw [List.length_append]; exact Nat.le_add_right_of_le hle)

/-- `timedDocHistory` with a `Read` at the zookie of revision `2` running through it: `Revision`
after the first two requests, `CheckRevision` after the third, and the query after the delete
of `a`. -/
theorem read_during_writes_reads_snapshot_docHistory :
    (∀ _ : TupleFilterQuery, (docWrites.acceptedLog (timedDocHistory.take 2 ++
        (timedDocHistory.drop 2).take 1 ++ timedDocHistory.drop 3)).length < 2 ^ 64 - 1) ∧
      (∀ _ : TupleFilterQuery, Spec.freshLog ∅ (docWrites.acceptedLog
        (timedDocHistory.take 2 ++ (timedDocHistory.drop 2).take 1 ++ timedDocHistory.drop 3))) ∧
      ∀ resp, read { docReader with ds := (memdbDatastoreDuring shortWindows
          (docWrites.runTimed TimedDB.empty (timedDocHistory.take 2)).1 13 0
          (docWrites.runTimed TimedDB.empty
            (timedDocHistory.take 2 ++ (timedDocHistory.drop 2).take 1)).1 15
          fun _ => (docWrites.runTimed TimedDB.empty (timedDocHistory.take 2 ++
            (timedDocHistory.drop 2).take 1 ++ timedDocHistory.drop 3)).1) }
          (viewerRead (some ⟨"xx"⟩)) = .ok resp →
        ∃ r, (∀ z, (viewerRead (some ⟨"xx"⟩)).atRevision = some z →
            docReader.zookies.decodeRevision z = .ok r) ∧
          ((viewerRead (some ⟨"xx"⟩)).atRevision = none → r = revision shortWindows
            (docWrites.runTimed TimedDB.empty (timedDocHistory.take 2)).1 13 0) ∧
          resp.revision = docReader.zookies.newFromRevision r ∧
          r ≤ (docWrites.acceptedLog (timedDocHistory.take 2 ++
            (timedDocHistory.drop 2).take 1)).length ∧
          List.Forall₂ (fun tf tuples => tuples.Nodup ∧
              tuples.toFinset = (Spec.setAt (docWrites.acceptedLog (timedDocHistory.take 2 ++
                (timedDocHistory.drop 2).take 1)) r).filter fun t => (filteredQuery tf r).matches t)
            (viewerRead (some ⟨"xx"⟩)).tuplesets resp.tuplesets := by
  have hn : (docWrites.acceptedLog (timedDocHistory.take 2 ++ (timedDocHistory.drop 2).take 1 ++
      timedDocHistory.drop 3)).length < 2 ^ 64 - 1 := by decide
  have hfresh : Spec.freshLog ∅ (docWrites.acceptedLog (timedDocHistory.take 2 ++
      (timedDocHistory.drop 2).take 1 ++ timedDocHistory.drop 3)) := by decide
  exact ⟨fun _ => hn, fun _ => hfresh,
    read_during_writes_reads_snapshot docWrites docReader shortWindows (timedDocHistory.take 2)
      ((timedDocHistory.drop 2).take 1) (fun _ => timedDocHistory.drop 3) 13 15 0
      (viewerRead (some ⟨"xx"⟩)) (fun _ => hn) (fun _ => hfresh)⟩

/-! ## Expansions while writes commit -/

/-- Modelled from the spec, as `memdbGraphDatastore`: memdb as the expander's datastore while
writes commit, each query running on the database `during q` it finds when it runs. -/
def memdbGraphDatastoreDuring (during : Graph.TupleQuery → DB) : Graph.GraphDatastore where
  queryTuples q := (memdbGraphDatastore (during q)).queryTuples q

/-- **Expansions are snapshot reads while writes commit.** Take an ACL server over memdb after a
history of `Write` requests from the empty datastore whose clock never goes back, within `int64`
nanoseconds after the epoch; its dispatcher is the local one, whose every query `q` runs on the
database after that history and more writes `more q`, where every accepted request creates no tuple
an earlier request left live and fewer than `2^64 - 1` are accepted; its default depth is not `0`,
the fuzzing delta is nonnegative, and the client's zookie, if any, names a revision committed before
`Expand` began. For a userset whose relation resolves to a canonical rewrite, a successful `Expand`
answers at a revision committed when it began, named by its zookie, with a tree that stands for what
the rewrite denotes over the set the writes accepted before it began denote at that revision, each
relation read as the dispatcher's own tree one hop down, whatever committed while its queries ran.
-/
theorem expand_during_writes_reads_snapshot (ws : WriteService) (as : AclServer)
    (ld : Graph.LocalDispatcher) (cfg : Clocks) (hist : List (Int × WriteRequest))
    (more : Graph.TupleQuery → List (Int × WriteRequest)) {t : Int} (pick : Nat)
    (metadata : Option Metadata) (req : ExpandRequest) {relation : Relation} {rw : UsersetRewrite}
    (hclock : ClockBetween 0 hist t) (ht : t < 2 ^ 63) (hcalls : hist.length < 2 ^ 64)
    (hfuzz : 0 ≤ cfg.revisionFuzzingTimedelta)
    (hn : ∀ q, (ws.acceptedLog (hist ++ more q)).length < 2 ^ 64 - 1)
    (hfresh : ∀ q, Spec.freshLog ∅ (ws.acceptedLog (hist ++ more q)))
    (hds : as.ds = memdbDatastore cfg (ws.runTimed TimedDB.empty hist).1 t pick)
    (hld : ld.ds =
      memdbGraphDatastoreDuring fun q => (ws.runTimed TimedDB.empty (hist ++ more q)).1.db)
    (hd : as.dispatch = ⟨ld.expand⟩) (hdef : as.defaultDepth ≠ 0)
    (hns : ∀ rev, ld.nsm.readNamespaceAndRelation req.userset.namespace_ req.userset.relation
      rev = .ok relation)
    (hrw : relation.usersetRewrite = some rw) (hcanon : rw.canonical = true)
    (hz : ∀ z w, req.atRevision = some z → as.zookies.decodeRevision z = .ok w →
      w ≤ (ws.acceptedLog hist).length) :
    ∀ resp, expand as metadata req = .ok resp →
      ∃ atRevision depth, resp.revision = as.zookies.newFromRevision atRevision ∧
        atRevision ≤ (ws.acceptedLog hist).length ∧
        RelationTupleTreeNode.childMembers resp.treeNode = rw.denote (setValuation
          (Spec.setAt (ws.acceptedLog hist) atRevision)
          (fun onr =>
            (ld.expand (Graph.hop ⟨req.userset, atRevision, depth, .shallowExpansion⟩ onr)).members)
          req.userset) := by
  intro resp h
  obtain ⟨atRevision, depth, hp, hrev, htree⟩ := expand_local_eq_ok hd hdef hns hrw hcanon h
  have href := ws.refines_of_append hist _ (hn ⟨"", 0, "", ""⟩) (hfresh ⟨"", 0, "", ""⟩)
  have hcommitted := ws.pickBestRevision_runTimed_le hclock ht hcalls hfuzz href hz (hds ▸ hp)
  refine ⟨atRevision, depth, hrev, hcommitted, ?_⟩
  rw [htree, Graph.LocalDispatcher.expanderAt, hld]
  refine congrArg (rw.denote ·) (hopValuation_of_answers _ _ fun q hq => ⟨_, rfl, fun t => ?_⟩)
  -- each query runs on a later database, whose log extends the one `Revision` saw
  obtain ⟨rest, hrest⟩ := ws.refines_append hist (more q) (hn q) (hfresh q)
  have hle : atRevision ≤ (ws.acceptedLog hist ++ rest).length := by
    rw [List.length_append]
    exact Nat.le_add_right_of_le hcommitted
  rw [List.mem_filter, hq, ← List.mem_toFinset, (visibleAt_toFinset_of_refines hrest hle).2,
    setAt_append_of_le_length hcommitted, beq_iff_eq]

/-- The local dispatcher of `docStack`, whose queries run once the last two requests of
`timedDocHistory` have committed. -/
def docStackDuring : Graph.LocalDispatcher :=
  ⟨docStack.nsm, memdbGraphDatastoreDuring fun _ =>
    (docWrites.runTimed TimedDB.empty (timedDocHistory.take 2 ++ timedDocHistory.drop 2)).1.db⟩

/-- `docStackServer` at `13` ns, after the first two requests of `timedDocHistory`, in front of
`docStackDuring`. -/
def docStackServerDuring : AclServer :=
  { docStackServer with
    ds := memdbDatastore shortWindows
      (docWrites.runTimed TimedDB.empty (timedDocHistory.take 2)).1 13 0
    dispatch := ⟨docStackDuring.expand⟩ }

theorem expand_during_writes_reads_snapshot_docHistory :
    ClockBetween 0 (timedDocHistory.take 2) 13 ∧ (13 : Int) < 2 ^ 63 ∧
      (timedDocHistory.take 2).length < 2 ^ 64 ∧ 0 ≤ shortWindows.revisionFuzzingTimedelta ∧
      (∀ _ : Graph.TupleQuery, (docWrites.acceptedLog
        (timedDocHistory.take 2 ++ timedDocHistory.drop 2)).length < 2 ^ 64 - 1) ∧
      (∀ _ : Graph.TupleQuery, Spec.freshLog ∅
        (docWrites.acceptedLog (timedDocHistory.take 2 ++ timedDocHistory.drop 2))) ∧
      docStackServerDuring.defaultDepth ≠ 0 ∧
      ∀ resp, expand docStackServerDuring none viewExpand = .ok resp →
        ∃ atRevision depth,
          resp.revision = docStackServerDuring.zookies.newFromRevision atRevision ∧
          atRevision ≤ (docWrites.acceptedLog (timedDocHistory.take 2)).length ∧
          RelationTupleTreeNode.childMembers resp.treeNode =
            Schema.viewerOrParentNotBanned.rewrite.denote (setValuation
              (Spec.setAt (docWrites.acceptedLog (timedDocHistory.take 2)) atRevision)
              (fun onr => (docStackDuring.expand
                (Graph.hop ⟨viewExpand.userset, atRevision, depth, .shallowExpansion⟩ onr)).members)
              viewExpand.userset) := by
  have hn : (docWrites.acceptedLog
      (timedDocHistory.take 2 ++ timedDocHistory.drop 2)).length < 2 ^ 64 - 1 := by decide
  have hfresh : Spec.freshLog ∅
      (docWrites.acceptedLog (timedDocHistory.take 2 ++ timedDocHistory.drop 2)) := by decide
  exact ⟨by decide, by decide, by decide, by decide, fun _ => hn, fun _ => hfresh, by decide,
    expand_during_writes_reads_snapshot docWrites docStackServerDuring docStackDuring shortWindows
      (timedDocHistory.take 2) (fun _ => timedDocHistory.drop 2) 0 none viewExpand (by decide)
      (by decide) (by decide) (by decide) (fun _ => hn) (fun _ => hfresh) rfl rfl rfl (by decide)
      (fun _ => rfl) rfl (Graph.rewrite_canonical _) fun _ _ h => nomatch h⟩

end SpiceDB.Services
