import SpiceDB.Memdb.Datastore
import Mathlib.Data.List.Sort

/-!
# Changelog ids

`nextTupleChangelogID` is the last changelog id plus one, in `uint64` arithmetic. From an
empty database the `n`-th commit gets id `n` (`ChangelogTo`): the ids a history commits run
`1, 2, …` (`committed_revisions`), the next one is above every id of the changelog, and
`SyncRevision` just after a commit returns its revision.

Not forever. After `2^64 - 2` commits the next id is `deletedTransactionID` itself, the value
`indexLive` reads as "not deleted", and the commit after that one gets id `0`
(`nextTupleChangelogID_wraps`).
-/

namespace SpiceDB.Memdb

/-- `(x + 1).toNat` wraps at `2^64`. -/
theorem UInt64.toNat_add_one (x : UInt64) : (x + 1).toNat = (x.toNat + 1) % 2 ^ 64 :=
  BitVec.toNat_add _ _

/-- The changelog after `n` commits, none past the last `uint64`: ids from `1` to `n`, and `n`
among them. -/
structure ChangelogTo (changelog : List TupleChangelog) (n : Nat) : Prop where
  pos : ∀ c ∈ changelog, 0 < c.id.toNat
  le : ∀ c ∈ changelog, c.id.toNat ≤ n
  last : n ≠ 0 → ∃ c ∈ changelog, c.id.toNat = n

namespace ChangelogTo

variable {changelog : List TupleChangelog} {n : Nat}

theorem empty : ChangelogTo [] 0 := ⟨by simp, by simp, fun h => absurd rfl h⟩

/-- The last entry is the one of id `n`. -/
theorem lastChangelog_id (h : ChangelogTo changelog n) :
    (lastChangelog changelog).map (·.id.toNat) = if n = 0 then none else some n := by
  cases hl : lastChangelog changelog with
  | none =>
    have hnil : changelog = [] := List.argmax_eq_none.mp hl
    subst hnil
    by_cases hn : n = 0
    · simp [hn]
    · obtain ⟨c, hc, -⟩ := h.last hn
      cases hc
  | some m =>
    have hm := List.argmax_mem hl
    have hle := h.le m hm
    have hpos := h.pos m hm
    have hn : n ≠ 0 := by omega
    obtain ⟨c, hc, hcn⟩ := h.last hn
    have := List.le_of_mem_argmax hc hl
    simp only [Option.map_some', hn, if_false, Option.some.injEq]
    omega

/-- `nextTupleChangelogID` is `n + 1`, wrapped at `2^64`. -/
theorem next_toNat_mod (h : ChangelogTo changelog n) :
    (nextTupleChangelogID changelog).toNat = (n + 1) % 2 ^ 64 := by
  have hl := h.lastChangelog_id
  unfold nextTupleChangelogID
  split <;> rename_i hc <;> rw [hc] at hl <;> split at hl <;> cases hl
  · subst n; rfl
  · exact UInt64.toNat_add_one _

theorem next_toNat (h : ChangelogTo changelog n) (hn : n + 1 < 2 ^ 64) :
    (nextTupleChangelogID changelog).toNat = n + 1 := by
  rw [h.next_toNat_mod, Nat.mod_eq_of_lt hn]

/-- A commit records its id: the changelog then runs to `n + 1`. -/
theorem insert (h : ChangelogTo changelog n) (hn : n + 1 < 2 ^ 64)
    (changes : List RelationTupleUpdate) :
    ChangelogTo (insertChangelog changelog ⟨nextTupleChangelogID changelog, changes⟩) (n + 1) := by
  have hnext := h.next_toNat hn
  refine ⟨?_, ?_, fun _ => ⟨_, List.mem_cons_self _ _, hnext⟩⟩ <;>
    intro c hc <;> rcases List.mem_cons.mp hc with rfl | hc
  · simp [hnext]
  · exact h.pos c (List.mem_filter.mp hc).1
  · simp [hnext]
  · exact Nat.le_succ_of_le (h.le c (List.mem_filter.mp hc).1)

/-- `SyncRevision` returns the last commit's revision. -/
theorem syncRevision_eq {db : DB} (h : ChangelogTo db.changelog n) : syncRevision db = n := by
  have hl := h.lastChangelog_id
  unfold syncRevision
  cases hc : lastChangelog db.changelog <;> rw [hc] at hl <;> by_cases hn : n = 0 <;>
    simp_all [revisionFromVersion]

end ChangelogTo

/-- A commit after `n` commits gets revision `n + 1`, and the changelog then runs to `n + 1`. -/
theorem writeTuples_changelog {db db' : DB} {pre : List RelationTuple}
    {ms : List RelationTupleUpdate} {rev : Revision} {n : Nat} (h : ChangelogTo db.changelog n)
    (hn : n + 1 < 2 ^ 64) (hw : writeTuples db pre ms = .ok (rev, db')) :
    rev = n + 1 ∧ ChangelogTo db'.changelog (n + 1) := by
  obtain ⟨-, _, -, rfl, rfl⟩ := writeTuples_eq_ok.mp hw
  exact ⟨h.next_toNat hn, h.insert hn ms⟩

/-- The revisions a history commits after `n` commits: `n + 1`, `n + 2`, and so on. -/
theorem committed_revisions : ∀ (cs : List WriteCall) {db : DB} {n : Nat},
    ChangelogTo db.changelog n → n + (committed cs (db.run cs).2).length < 2 ^ 64 →
      (committed cs (db.run cs).2).map Prod.fst =
          List.range' (n + 1) (committed cs (db.run cs).2).length ∧
        ChangelogTo (db.run cs).1.changelog (n + (committed cs (db.run cs).2).length)
  | [], _, _, h, _ => ⟨rfl, h⟩
  | c :: cs, db, n, h, hn => by
    cases hw : writeTuples db c.preconditions c.mutations with
    | ok p =>
      obtain ⟨rev, db'⟩ := p
      simp only [DB.run, DB.write, hw, committed, List.length_cons, List.map_cons] at hn ⊢
      obtain ⟨rfl, h'⟩ := writeTuples_changelog h (by omega) hw
      obtain ⟨hrevs, hcl⟩ := committed_revisions cs h' (by omega)
      refine ⟨by rw [hrevs, List.range'_succ], by rwa [Nat.add_right_comm, Nat.add_assoc] at hcl⟩
    | error err =>
      simp only [DB.run, DB.write, hw, committed] at hn ⊢
      exact committed_revisions cs h hn

/--
**Changelog ids below the sentinel.** After a history of fewer than `2^64 - 2` commits, the id
the next commit takes is above every changelog id and is not `deletedTransactionID`; the
revisions committed so far increase; `SyncRevision` just after the next commit returns its
revision, which is above all of them; and `findTuple` never returns a version deleted by the
next commit.
-/
theorem nextTupleChangelogID_fresh (cs : List WriteCall)
    (hn : (committed cs (DB.empty.run cs).2).length < 2 ^ 64 - 2) :
    (∀ c ∈ (DB.empty.run cs).1.changelog,
        c.id.toNat < (nextTupleChangelogID (DB.empty.run cs).1.changelog).toNat) ∧
      nextTupleChangelogID (DB.empty.run cs).1.changelog ≠ deletedTransactionID ∧
      ((committed cs (DB.empty.run cs).2).map Prod.fst).Sorted (· < ·) ∧
      (∀ pre ms rev db', writeTuples (DB.empty.run cs).1 pre ms = .ok (rev, db') →
        syncRevision db' = rev ∧ ∀ r ∈ (committed cs (DB.empty.run cs).2).map Prod.fst, r < rev) ∧
      ∀ tbl t e, findTuple tbl t = some e →
        e.deletedTxn ≠ nextTupleChangelogID (DB.empty.run cs).1.changelog := by
  obtain ⟨hrevs, h⟩ := @committed_revisions cs DB.empty 0 ChangelogTo.empty (by omega)
  rw [Nat.zero_add] at h hrevs
  have hnext := h.next_toNat (by omega)
  have hsentinel : nextTupleChangelogID (DB.empty.run cs).1.changelog ≠ deletedTransactionID :=
    fun heq => by rw [heq, deletedTransactionID_toNat] at hnext; omega
  refine ⟨fun c hc => by rw [hnext]; exact Nat.lt_succ_of_le (h.le c hc), hsentinel, ?_, ?_, ?_⟩
  · rw [hrevs]
    exact List.pairwise_lt_range' _ _
  · intro pre ms rev db' hw
    obtain ⟨rfl, h'⟩ := writeTuples_changelog h (by omega) hw
    refine ⟨h'.syncRevision_eq, fun r hr => ?_⟩
    rw [hrevs, List.mem_range'_1, Nat.add_comm 1] at hr
    exact hr.2
  · intro tbl t e he heq
    have hlive : e.deletedTxn = deletedTransactionID := by
      simpa [TupleEntry.isLive] using (findTuple_spec he).2.2
    exact hsentinel (heq.symm.trans hlive)

/-- Fixtures: `doc:1#viewer@user:a#...` and `doc:1#viewer@user:b#...`. -/
def viewerA : RelationTuple := ⟨⟨"doc", "1", "viewer"⟩, ⟨⟨"user", "a", Ellipsis⟩⟩⟩

def viewerB : RelationTuple := ⟨⟨"doc", "1", "viewer"⟩, ⟨⟨"user", "b", Ellipsis⟩⟩⟩

/-- Create `a`; fail on the missing `b`; touch `a` under the precondition that it exists. -/
def createFailTouch : List WriteCall :=
  [⟨[], [⟨.create, viewerA⟩]⟩, ⟨[viewerB], [⟨.create, viewerB⟩]⟩, ⟨[viewerA], [⟨.touch, viewerA⟩]⟩]

theorem nextTupleChangelogID_fresh_createFailTouch :
    (committed createFailTouch (DB.empty.run createFailTouch).2).length < 2 ^ 64 - 2 ∧
      (∀ c ∈ (DB.empty.run createFailTouch).1.changelog,
        c.id.toNat < (nextTupleChangelogID (DB.empty.run createFailTouch).1.changelog).toNat) ∧
      nextTupleChangelogID (DB.empty.run createFailTouch).1.changelog ≠ deletedTransactionID ∧
      ((committed createFailTouch (DB.empty.run createFailTouch).2).map Prod.fst).Sorted (· < ·) ∧
      (∀ pre ms rev db', writeTuples (DB.empty.run createFailTouch).1 pre ms = .ok (rev, db') →
        syncRevision db' = rev ∧
          ∀ r ∈ (committed createFailTouch (DB.empty.run createFailTouch).2).map Prod.fst, r < rev) ∧
      ∀ tbl t e, findTuple tbl t = some e →
        e.deletedTxn ≠ nextTupleChangelogID (DB.empty.run createFailTouch).1.changelog :=
  ⟨by decide, nextTupleChangelogID_fresh createFailTouch (by decide)⟩

/-! ## The sentinel -/

/-- A call with no precondition and no mutation commits, and changes only the changelog. -/
theorem writeTuples_nil (db : DB) :
    writeTuples db [] [] = .ok (revisionFromVersion (nextTupleChangelogID db.changelog),
      ⟨db.tuples, insertChangelog db.changelog ⟨nextTupleChangelogID db.changelog, []⟩⟩) := rfl

/-- `k` calls that write nothing after `n` commits leave `n + k` commits. -/
theorem run_replicate_nil : ∀ (k : Nat) {db : DB} {n : Nat}, ChangelogTo db.changelog n →
    n + k < 2 ^ 64 → ChangelogTo (db.run (List.replicate k ⟨[], []⟩)).1.changelog (n + k)
  | 0, _, _, h, _ => h
  | k + 1, db, n, h, hn => by
    have h' := @run_replicate_nil k ⟨db.tuples, _⟩ _ (h.insert (by omega) []) (by omega)
    rwa [Nat.add_right_comm] at h'

/-- `SyncRevision` returns the greatest changelog id. -/
theorem syncRevision_of_max {db : DB} {c : TupleChangelog} (hc : c ∈ db.changelog)
    (hmax : ∀ c' ∈ db.changelog, c'.id.toNat ≤ c.id.toNat) : syncRevision db = c.id.toNat := by
  unfold syncRevision
  cases hl : lastChangelog db.changelog with
  | none => rw [lastChangelog, List.argmax_eq_none] at hl; simp [hl] at hc
  | some m =>
    have := List.le_of_mem_argmax hc hl
    have := hmax m (List.argmax_mem hl)
    exact Nat.le_antisymm ‹_› ‹_›

/-- After `2^64 - 2` commits the next id is the sentinel; the next commit gets revision
`2^64 - 1`, the one after it revision `0`, and `SyncRevision` then returns `2^64 - 1`. -/
theorem wraps_of_changelogTo {db : DB} (h : ChangelogTo db.changelog (2 ^ 64 - 2)) :
    nextTupleChangelogID db.changelog = deletedTransactionID ∧
      ∃ db₁ db₂, writeTuples db [] [] = .ok (2 ^ 64 - 1, db₁) ∧
        writeTuples db₁ [] [] = .ok (0, db₂) ∧ syncRevision db₂ = 2 ^ 64 - 1 := by
  have hnext : nextTupleChangelogID db.changelog = deletedTransactionID :=
    UInt64.toNat.inj (by rw [h.next_toNat (by decide), deletedTransactionID_toNat]; omega)
  have h₁ := h.insert (by decide) []
  rw [hnext] at h₁
  obtain ⟨c, hc, hcid⟩ := h₁.last (by decide)
  have hnext₁ : nextTupleChangelogID (insertChangelog db.changelog ⟨deletedTransactionID, []⟩) = 0 :=
    UInt64.toNat.inj (by rw [h₁.next_toNat_mod]; rfl)
  refine ⟨hnext, _, ⟨db.tuples, insertChangelog (insertChangelog db.changelog
    ⟨deletedTransactionID, []⟩) ⟨0, []⟩⟩, by rw [writeTuples_nil, hnext]; rfl,
    by rw [writeTuples_nil, hnext₁]; rfl, ?_⟩
  have hc₂ : c ∈ insertChangelog (insertChangelog db.changelog ⟨deletedTransactionID, []⟩) ⟨0, []⟩ :=
    List.mem_cons_of_mem _ (List.mem_filter.mpr ⟨hc, by
      simp only [bne_iff_ne, ne_eq]
      intro h0
      rw [h0] at hcid
      cases hcid⟩)
  rw [syncRevision_of_max hc₂ fun c' _ => hcid ▸ Nat.le_pred_of_lt (UInt64.toNat_lt_size c'.id), hcid]
  unfold Revision
  omega

/-- The database after `2^64 - 2` calls that commit nothing. -/
theorem nextTupleChangelogID_wraps :
    nextTupleChangelogID (DB.empty.run (List.replicate (2 ^ 64 - 2) ⟨[], []⟩)).1.changelog =
        deletedTransactionID ∧
      ∃ db₁ db₂, writeTuples (DB.empty.run (List.replicate (2 ^ 64 - 2) ⟨[], []⟩)).1 [] [] =
          .ok (2 ^ 64 - 1, db₁) ∧
        writeTuples db₁ [] [] = .ok (0, db₂) ∧ syncRevision db₂ = 2 ^ 64 - 1 := by
  have h := @run_replicate_nil (2 ^ 64 - 2) DB.empty 0 ChangelogTo.empty (by decide)
  rw [Nat.zero_add] at h
  exact wraps_of_changelogTo h

end SpiceDB.Memdb
