import SpiceDB.Services.Acl
import SpiceDB.Memdb.Refinement

/-!
# Writing through the ACL service

`aclServer.Write` validates the request and the tuple of every update, hands the write
conditions and the updates to the datastore's `WriteTuples`, and answers with the zookie of the
revision it committed. The datastore is a Go interface; here it is the function its
`WriteTuples` is, returning the datastore after the call (`WriteService.write`). A request the
checks turn away never reaches the datastore.

One simulation lemma (`WriteService.write_sim`) carries any agreement of two datastores through the
handler. Between memdb and the set semantics of `Memdb.Refinement` it makes the service over memdb
refine the service over sets, over every history of requests whose commits create no tuple an
earlier request left live (`write_refines_sets`): the two answer every request alike, and at every
committed revision memdb's table lists the set the accepted updates denote there.

Every commit takes the changelog id after the last one, so the zookies the service answers with
over memdb name revisions `1`, `2`, ... in order, one per accepted request, for as long as the
ids do not wrap (`write_zookies_count_commits`).
-/

namespace SpiceDB.Services

open Memdb

/-- `api.WriteRequest`. -/
structure WriteRequest where
  writeConditions : List RelationTuple
  updates : List RelationTupleUpdate

/-- `api.WriteResponse`. -/
structure WriteResponse where
  revision : Zookie
deriving DecidableEq

/-- What `aclServer.Write` calls besides the datastore, which the snapshot does not hold. -/
structure WriteService where
  /-- `Validate()` of the request, generated code. -/
  validateWrite : WriteRequest → Except String Unit
  /-- `validateTupleWrite(ctx, tuple, as.nsm)`. -/
  validateTupleWrite : RelationTuple → Except AclError Unit
  zookies : ZookieCodec

/-- The errors of `WriteTuples` as `rewriteACLError` tells them apart: a failed precondition is
a `datastore.ErrPreconditionFailed`, the other errors wrap their text. -/
def writeTuplesError : WriteError → AclError
  | .preconditionFailed _ => .preconditionFailed
  | .unableToWriteTuples err => .other ("unable to write tuples: " ++ err)

/-- The reply to a request the datastore answered. -/
def writeReply (zk : ZookieCodec) : Except WriteError Revision → Except RpcError WriteResponse
  | .error err => .error (rewriteACLError (writeTuplesError err))
  | .ok revision => .ok ⟨zk.newFromRevision revision⟩

/-- The updates of the requests a history accepted, in order. -/
def accepted : List WriteRequest → List (Except RpcError WriteResponse) →
    List (List RelationTupleUpdate)
  | req :: reqs, .ok _ :: rs => req.updates :: accepted reqs rs
  | _ :: reqs, .error _ :: rs => accepted reqs rs
  | _, _ => []

/-- The set of a log at a revision it holds does not depend on what follows. -/
theorem setAt_append_of_le_length {h rest : List (List RelationTupleUpdate)} {r : Nat}
    (hr : r ≤ h.length) : Spec.setAt (h ++ rest) r = Spec.setAt h r := by
  rw [Spec.setAt, List.take_append_of_le_length hr, Spec.setAt]

namespace WriteService

variable {σ : Type} (ws : WriteService)

/-- The checks `Write` makes before the datastore: the request's `Validate()`, then
`validateTupleWrite` on each update in order. -/
def check (req : WriteRequest) : Except RpcError Unit :=
  match ws.validateWrite req with
  | .error msg => .error (invalidArgument msg)
  | .ok () =>
    (req.updates.forM fun mutation => ws.validateTupleWrite mutation.tuple).mapError
      rewriteACLError

/-- `aclServer.Write` on a datastore whose `WriteTuples` is `writeTuples`: the reply, and the
datastore after it. -/
def write (writeTuples : σ → WriteCall → Except WriteError Revision × σ) (ds : σ)
    (req : WriteRequest) : Except RpcError WriteResponse × σ :=
  match ws.check req with
  | .error err => (.error err, ds)
  | .ok () =>
    let result := writeTuples ds ⟨req.writeConditions, req.updates⟩
    (writeReply ws.zookies result.1, result.2)

/-- A history of requests: the datastore after it and the reply to each. -/
def run (writeTuples : σ → WriteCall → Except WriteError Revision × σ) (ds : σ) :
    List WriteRequest → σ × List (Except RpcError WriteResponse)
  | [] => (ds, [])
  | req :: reqs =>
    ((run writeTuples (ws.write writeTuples ds req).2 reqs).1,
      (ws.write writeTuples ds req).1 :: (run writeTuples (ws.write writeTuples ds req).2 reqs).2)

theorem write_of_check_error {f : σ → WriteCall → Except WriteError Revision × σ} {ds : σ}
    {req : WriteRequest} {err : RpcError} (hc : ws.check req = .error err) :
    ws.write f ds req = (.error err, ds) := by
  rw [write, hc]

theorem write_of_check_ok {f : σ → WriteCall → Except WriteError Revision × σ} {ds : σ}
    {req : WriteRequest} (hc : ws.check req = .ok ()) :
    ws.write f ds req = (writeReply ws.zookies (f ds ⟨req.writeConditions, req.updates⟩).1,
      (f ds ⟨req.writeConditions, req.updates⟩).2) := by
  rw [write, hc]

/-- **The handler simulates its datastore.** Two datastores related by `R` that, past the
checks, answer a request alike and stay related, give the same reply and stay related. -/
theorem write_sim {τ : Type} {f : σ → WriteCall → Except WriteError Revision × σ}
    {g : τ → WriteCall → Except WriteError Revision × τ} {R : σ → τ → Prop} {s : σ} {t : τ}
    (req : WriteRequest) (hR : R s t)
    (hstore : ws.check req = .ok () →
      (f s ⟨req.writeConditions, req.updates⟩).1 = (g t ⟨req.writeConditions, req.updates⟩).1 ∧
        R (f s ⟨req.writeConditions, req.updates⟩).2 (g t ⟨req.writeConditions, req.updates⟩).2) :
    (ws.write f s req).1 = (ws.write g t req).1 ∧ R (ws.write f s req).2 (ws.write g t req).2 := by
  cases hc : ws.check req with
  | error err => rw [ws.write_of_check_error hc, ws.write_of_check_error hc]; exact ⟨rfl, hR⟩
  | ok u =>
    obtain ⟨hres, hR'⟩ := hstore hc
    rw [ws.write_of_check_ok hc, ws.write_of_check_ok hc]
    exact ⟨congrArg (writeReply ws.zookies) hres, hR'⟩

/-- A request the service refuses, before or at the datastore, leaves memdb as it was. -/
theorem write_error_unchanged (db : DB) (req : WriteRequest) {err : RpcError}
    (h : (ws.write DB.write db req).1 = .error err) : (ws.write DB.write db req).2 = db := by
  cases hc : ws.check req with
  | error => rw [ws.write_of_check_error hc]
  | ok u =>
    rw [ws.write_of_check_ok hc] at h ⊢
    cases hw : (db.write ⟨req.writeConditions, req.updates⟩).1 with
    | error => exact DB.write_of_error hw
    | ok => rw [hw] at h; cases h

/-- Over the set semantics a request is refused with the log unchanged, or accepted at the next
revision with its updates appended. -/
theorem write_spec_cases (h : List (List RelationTupleUpdate)) (req : WriteRequest) :
    (∃ err, ws.write Spec.write h req = (.error err, h)) ∨
      ws.write Spec.write h req =
        (.ok ⟨ws.zookies.newFromRevision (h.length + 1)⟩, h ++ [req.updates]) := by
  cases hc : ws.check req with
  | error err => exact .inl ⟨err, ws.write_of_check_error hc⟩
  | ok u =>
    rw [ws.write_of_check_ok hc]
    rcases Spec.write_cases h ⟨req.writeConditions, req.updates⟩ with ⟨err, hw⟩ | hw <;> rw [hw]
    · exact .inl ⟨_, rfl⟩
    · exact .inr rfl

/-- The log a history over the set semantics ends with: the accepted updates appended. -/
theorem run_spec_fst : ∀ (h : List (List RelationTupleUpdate)) (reqs : List WriteRequest),
    (ws.run Spec.write h reqs).1 = h ++ accepted reqs (ws.run Spec.write h reqs).2
  | h, [] => by simp [run, accepted]
  | h, req :: reqs => by
    rcases ws.write_spec_cases h req with ⟨err, hw⟩ | hw <;>
      simp only [run, hw, accepted, run_spec_fst _ reqs, List.append_assoc, List.singleton_append]

/-- The request a history over the set semantics accepts at position `i` is answered with the
zookie of a revision `r` past the log it started from and within the log it ends with; the set
of that log at `r` is its set at `r - 1` with the request's updates applied. -/
theorem run_spec_reply_at : ∀ (h : List (List RelationTupleUpdate)) (reqs : List WriteRequest)
    {i : Nat} {req : WriteRequest} {resp : WriteResponse}, reqs[i]? = some req →
      (ws.run Spec.write h reqs).2[i]? = some (.ok resp) →
      ∃ r, h.length < r ∧ r ≤ (ws.run Spec.write h reqs).1.length ∧
        resp = ⟨ws.zookies.newFromRevision r⟩ ∧
        Spec.setAt (ws.run Spec.write h reqs).1 r =
          Spec.applyMutations (Spec.setAt (ws.run Spec.write h reqs).1 (r - 1)) req.updates
  | _, [], _, _, _, hreq, _ => nomatch hreq
  | h, req' :: reqs, i, req, resp, hreq, hresp => by
    rcases ws.write_spec_cases h req' with ⟨err, hw⟩ | hw <;> simp only [run, hw] at hresp ⊢ <;>
      rcases i with _ | i <;>
      simp only [List.getElem?_cons_zero, List.getElem?_cons_succ, Option.some.injEq] at hreq hresp
    · cases hresp
    · exact run_spec_reply_at h reqs hreq hresp
    · -- the request itself: committed at `h.length + 1`, before the rest of the history
      subst hreq
      cases hresp
      have hlog := run_spec_fst ws (h ++ [req'.updates]) reqs
      refine ⟨h.length + 1, Nat.lt_succ_self _, by rw [hlog]; simp, rfl, ?_⟩
      rw [hlog, Nat.add_sub_cancel,
        setAt_append_of_le_length (show h.length + 1 ≤ (h ++ [req'.updates]).length by simp),
        setAt_append_of_le_length (show h.length ≤ (h ++ [req'.updates]).length by simp),
        Spec.setAt_append_of_le le_rfl]
      simpa using Spec.setAt_append_length h req'.updates
    · obtain ⟨r, hlt, hle, hr, hset⟩ := run_spec_reply_at (h ++ [req'.updates]) reqs hreq hresp
      exact ⟨r, by simp at hlt; omega, hle, hr, hset⟩

/-- **A history.** From a memdb database that refines the log `h`, a history of requests gets
the replies it gets over the set semantics and ends on a database that refines the log it ends
with there, provided that fewer than `2^64 - 1` requests commit in all and every accepted request
creates no tuple an earlier request left live. -/
theorem run_refines : ∀ (reqs : List WriteRequest) {db : DB} {h : List (List RelationTupleUpdate)},
    Refines db h → h.length + (accepted reqs (ws.run DB.write db reqs).2).length < 2 ^ 64 - 1 →
    Spec.freshLog (Spec.setAt h h.length) (accepted reqs (ws.run DB.write db reqs).2) →
      (ws.run DB.write db reqs).2 = (ws.run Spec.write h reqs).2 ∧
        Refines (ws.run DB.write db reqs).1 (ws.run Spec.write h reqs).1
  | [], _, _, hr, _, _ => ⟨rfl, hr⟩
  | req :: reqs, db, h, hr, hn, hfresh => by
    -- memdb commits only past the checks, so a commit is an accepted request
    have hstep := ws.write_sim req hr fun hc => hr.write (by simp only [run] at hn; omega) _
      fun rev db' hw => by
        have hok : (ws.write DB.write db req).1 = .ok ⟨ws.zookies.newFromRevision rev⟩ := by
          rw [ws.write_of_check_ok hc, DB.write, hw]
          rfl
        simp only [run, hok, accepted, List.length_cons, Spec.freshLog, Bool.and_eq_true]
          at hn hfresh
        exact ⟨by omega, hfresh.1⟩
    obtain ⟨hres, hr'⟩ := hstep
    simp only [run] at hn hfresh ⊢
    rw [hres] at hn hfresh ⊢
    rcases ws.write_spec_cases h req with ⟨err, hw⟩ | hw <;> rw [hw] at hn hfresh hr' ⊢ <;>
      simp only [accepted, List.length_cons, Spec.freshLog, Bool.and_eq_true] at hn hfresh
    · obtain ⟨hrun, hr''⟩ := run_refines reqs hr' hn hfresh
      exact ⟨by rw [hrun], hr''⟩
    · rw [← Spec.setAt_append_length] at hfresh
      obtain ⟨hrun, hr''⟩ :=
        run_refines reqs hr' (by simp only [List.length_append, List.length_singleton]; omega)
          hfresh.2
      exact ⟨by rw [hrun], hr''⟩

/-- From the empty memdb datastore, a history in which every accepted request creates no tuple an
earlier request left live, fewer than `2^64 - 1` of them, gets the replies it gets over the set
semantics, and the log it ends with there is the accepted updates, which the database it ends on
refines. -/
theorem run_refines_accepted (reqs : List WriteRequest)
    (hn : (accepted reqs (ws.run DB.write DB.empty reqs).2).length < 2 ^ 64 - 1)
    (hfresh : Spec.freshLog ∅ (accepted reqs (ws.run DB.write DB.empty reqs).2)) :
    (ws.run DB.write DB.empty reqs).2 = (ws.run Spec.write [] reqs).2 ∧
      (ws.run Spec.write [] reqs).1 = accepted reqs (ws.run DB.write DB.empty reqs).2 ∧
      Refines (ws.run DB.write DB.empty reqs).1 (accepted reqs (ws.run DB.write DB.empty reqs).2) := by
  obtain ⟨hres, href⟩ := ws.run_refines reqs Refines.empty (by simpa using hn)
    (by simpa [Spec.setAt] using hfresh)
  have hlog := ws.run_spec_fst [] reqs
  rw [List.nil_append, ← hres] at hlog
  exact ⟨hres, hlog, hlog ▸ href⟩

/-- Over memdb, from a database after `n` commits, the replies that carry a zookie are those of
revisions `n + 1`, `n + 2`, and so on, one per accepted request, and the database the history
ends on has committed once per accepted request more. -/
theorem run_zookies : ∀ (reqs : List WriteRequest) {db : DB} {n : Nat},
    ChangelogTo db.changelog n → n + (accepted reqs (ws.run DB.write db reqs).2).length < 2 ^ 64 →
      ChangelogTo (ws.run DB.write db reqs).1.changelog
          (n + (accepted reqs (ws.run DB.write db reqs).2).length) ∧
        (ws.run DB.write db reqs).2.filterMap Except.toOption =
          (List.range' (n + 1) (accepted reqs (ws.run DB.write db reqs).2).length).map
            fun r => ⟨ws.zookies.newFromRevision r⟩
  | [], _, _, h, _ => ⟨h, rfl⟩
  | req :: reqs, db, n, h, hn => by
    cases hc : ws.check req with
    | error err =>
      simp only [run, ws.write_of_check_error hc, accepted, List.filterMap_cons,
        Except.toOption] at hn ⊢
      exact run_zookies reqs h hn
    | ok u =>
      cases hw : writeTuples db req.writeConditions req.updates with
      | error err =>
        simp only [run, ws.write_of_check_ok hc, DB.write, hw, writeReply, accepted,
          List.filterMap_cons, Except.toOption] at hn ⊢
        exact run_zookies reqs h hn
      | ok p =>
        -- the commit takes revision `n + 1`, and the database after it has `n + 1` commits
        obtain ⟨rev, db'⟩ := p
        simp only [run, ws.write_of_check_ok hc, DB.write, hw, writeReply, accepted,
          List.filterMap_cons, Except.toOption, List.length_cons] at hn ⊢
        obtain ⟨rfl, h'⟩ := writeTuples_changelog h (by omega) hw
        obtain ⟨hlog, hzk⟩ := run_zookies reqs h' (by omega)
        rw [← Nat.add_assoc, Nat.add_right_comm]
        exact ⟨hlog, by rw [hzk, List.range'_succ, List.map_cons]⟩

end WriteService

/-- **The ACL service over memdb refines the ACL service over sets.** For every history of `Write`
requests from the empty memdb datastore in which every accepted request creates no tuple an earlier
request left live and fewer than `2^64 - 1` are accepted: a refused request leaves the datastore as
it was (`write_error_unchanged`, by construction: memdb commits its transaction only on success);
every request gets the reply it gets over the set semantics (the refusal of its checks, a failed
precondition when a condition tuple is not in the current set, the error of an unknown operation, or
the zookie of the next revision); and at every accepted revision `r` the tuples memdb lists are
duplicate-free and are the set the first `r` accepted update lists denote. -/
theorem write_refines_sets (ws : WriteService) (reqs : List WriteRequest)
    (hn : (accepted reqs (ws.run DB.write DB.empty reqs).2).length < 2 ^ 64 - 1)
    (hfresh : Spec.freshLog ∅ (accepted reqs (ws.run DB.write DB.empty reqs).2)) :
    (∀ db req err, (ws.write DB.write db req).1 = .error err → (ws.write DB.write db req).2 = db) ∧
      (ws.run DB.write DB.empty reqs).2 = (ws.run Spec.write [] reqs).2 ∧
      ∀ r ≤ (accepted reqs (ws.run DB.write DB.empty reqs).2).length,
        ((ws.run DB.write DB.empty reqs).1.tuples.visibleAt r).Nodup ∧
          ((ws.run DB.write DB.empty reqs).1.tuples.visibleAt r).toFinset =
            Spec.setAt (accepted reqs (ws.run DB.write DB.empty reqs).2) r := by
  obtain ⟨hres, -, href⟩ := ws.run_refines_accepted reqs hn hfresh
  exact ⟨fun db req _ h => ws.write_error_unchanged db req h, hres, fun r hr =>
    nodup_toFinset_of_count fun u => by rw [TupleTable.count_visibleAt, href.visible r hr u]⟩

/-- A service that writes tuples of the `doc` namespace only, with unary zookies. -/
def docWrites : WriteService where
  validateWrite _ := .ok ()
  validateTupleWrite t :=
    if t.objectAndRelation.namespace_ = "doc" then .ok () else .error .unknownNamespace
  zookies := unaryZookies

/-- Create `a`; a tuple of another namespace, refused; touch `a` and create `b` on the condition
that `a` exists; delete `a`. -/
def docHistory : List WriteRequest :=
  [⟨[], [⟨.create, viewerA⟩]⟩,
    ⟨[], [⟨.create, ⟨⟨"folder", "1", "viewer"⟩, ⟨⟨"user", "a", Ellipsis⟩⟩⟩⟩]⟩,
    ⟨[viewerA], [⟨.touch, viewerA⟩, ⟨.create, viewerB⟩]⟩, ⟨[], [⟨.delete, viewerA⟩]⟩]

theorem write_refines_sets_docHistory :
    (accepted docHistory (docWrites.run DB.write DB.empty docHistory).2).length < 2 ^ 64 - 1 ∧
      Spec.freshLog ∅ (accepted docHistory (docWrites.run DB.write DB.empty docHistory).2) ∧
      (∀ db req err, (docWrites.write DB.write db req).1 = .error err →
        (docWrites.write DB.write db req).2 = db) ∧
      (docWrites.run DB.write DB.empty docHistory).2 = (docWrites.run Spec.write [] docHistory).2 ∧
      ∀ r ≤ (accepted docHistory (docWrites.run DB.write DB.empty docHistory).2).length,
        ((docWrites.run DB.write DB.empty docHistory).1.tuples.visibleAt r).Nodup ∧
          ((docWrites.run DB.write DB.empty docHistory).1.tuples.visibleAt r).toFinset =
            Spec.setAt (accepted docHistory (docWrites.run DB.write DB.empty docHistory).2) r :=
  ⟨by decide, by decide, write_refines_sets docWrites docHistory (by decide) (by decide)⟩

/-- **Zookies count the commits.** For every history of `Write` requests from the empty memdb
datastore in which fewer than `2^64` requests are accepted, whatever the service's validation
and zookie codec: the replies that carry a zookie are, in order, the zookies of revisions `1`,
`2`, ..., `n`, `n` the number of accepted requests. No committed revision is skipped or named
twice, and each accepted request's zookie names a later revision than every earlier one's. -/
theorem write_zookies_count_commits (ws : WriteService) (reqs : List WriteRequest)
    (hn : (accepted reqs (ws.run DB.write DB.empty reqs).2).length < 2 ^ 64) :
    (ws.run DB.write DB.empty reqs).2.filterMap Except.toOption =
      (List.range' 1 (accepted reqs (ws.run DB.write DB.empty reqs).2).length).map
        fun r => ⟨ws.zookies.newFromRevision r⟩ :=
  (ws.run_zookies reqs ChangelogTo.empty (by rw [Nat.zero_add]; exact hn)).2

theorem write_zookies_count_commits_docHistory :
    (accepted docHistory (docWrites.run DB.write DB.empty docHistory).2).length < 2 ^ 64 ∧
      (docWrites.run DB.write DB.empty docHistory).2.filterMap Except.toOption =
        (List.range' 1
          (accepted docHistory (docWrites.run DB.write DB.empty docHistory).2).length).map
          fun r => ⟨docWrites.zookies.newFromRevision r⟩ :=
  ⟨by decide, write_zookies_count_commits docWrites docHistory (by decide)⟩

end SpiceDB.Services
