import SpiceDB.Memdb.Changelog
import Mathlib.Data.List.Sort
import Mathlib.Algebra.Group.Int

/-!
# Revisions in time

Each changelog entry of memdb carries the time of its commit, `uint64(time.Now().UnixNano())`,
and two calls read it. `Revision` returns the revision of an entry committed within the last
`revisionFuzzingTimedelta`, drawn at random, or `SyncRevision` when there is none.
`CheckRevision` rejects a revision above the last entry, one below the first entry committed
within the GC window (`gcWindowInverted` is the window, negated), and, when no entry was
committed within it, every revision but the last.

The timestamps are kept beside the changelog of `Memdb.Datastore`, in `TimedDB.stamps`, inserted
with their entries (`TimedDB.write`); the timed database projects onto the untimed one call by
call (`TimedDB.run_db`). The table schema is not in the repository snapshot: `indexTimestamp`
is taken to order the entries by timestamp and then by id, go-memdb's order for a non-unique
index.

On a history whose clock never goes back, timestamps follow ids (`Stamped`, carried over runs by
`Stamped.run`). On such states `CheckRevision` accepts exactly the revisions from the first
commit of the GC window to the last (`checkRevision_eq_spec`); `Revision` is never in the future
nor older than a commit made before its fuzzing window; and a revision it draws from that window
passes every later `CheckRevision` whose GC window reaches back as far. The revision it falls
back to does not: one commit later it is stale once the GC window has left the earlier commits
behind. A GC window reaching back before the epoch wraps the `uint64` lower bound past every
timestamp, and then only the last revision passes.
-/

namespace SpiceDB.Memdb

/-! ## Timestamps -/

/-- The `id` and `timestamp` of a `tupleChangelog` entry: its key in `indexTimestamp`. -/
structure ChangelogStamp where
  id : UInt64
  timestamp : UInt64
deriving DecidableEq, Repr

/-- `uint64(t.UnixNano())` for the time `nanos` nanoseconds after the epoch: two's complement,
so a time before the epoch wraps to a large value. -/
def toUint64 (nanos : Int) : UInt64 := UInt64.ofNat (nanos % UInt64.size).toNat

theorem toUint64_toNat {nanos : Int} (h0 : 0 ≤ nanos) (h : nanos < 2 ^ 64) :
    ((toUint64 nanos).toNat : Int) = nanos := by
  have hmod : nanos % UInt64.size = nanos := Int.emod_eq_of_lt h0 h
  rw [toUint64, hmod, UInt64.toNat_ofNat_of_lt (show nanos.toNat < 2 ^ 64 by omega)]
  omega

/-- Before the epoch, by at most `2^63` nanoseconds, the `uint64` lies `2^64` above. -/
theorem toUint64_toNat_of_neg {nanos : Int} (hlo : -2 ^ 63 ≤ nanos) (h : nanos < 0) :
    ((toUint64 nanos).toNat : Int) = nanos + UInt64.size := by
  have hsize : (UInt64.size : Int) = 2 ^ 64 := rfl
  have hmod : nanos % UInt64.size = nanos + UInt64.size := by
    rw [← Int.add_emod_self, Int.emod_eq_of_lt (by omega) (by omega)]
  rw [toUint64, hmod, UInt64.toNat_ofNat_of_lt (by omega)]
  omega

theorem UInt64.lt_iff_toNat_lt {a b : UInt64} : a < b ↔ a.toNat < b.toNat :=
  UInt64.lt_def.trans BitVec.lt_def

theorem UInt64.le_iff_toNat_le {a b : UInt64} : a ≤ b ↔ a.toNat ≤ b.toNat :=
  UInt64.le_def.trans BitVec.le_def

theorem toUint64_le_iff {nanos : Int} {x : UInt64} (h0 : 0 ≤ nanos) (h : nanos < 2 ^ 64) :
    toUint64 nanos ≤ x ↔ nanos ≤ x.toNat := by
  have := toUint64_toNat h0 h
  rw [UInt64.le_iff_toNat_le]
  omega

/-- A memdb database with the timestamps of its changelog entries. -/
structure TimedDB where
  db : DB
  stamps : List ChangelogStamp

/-- A database nothing was written to. -/
def TimedDB.empty : TimedDB := ⟨DB.empty, []⟩

@[simp] theorem TimedDB.empty_db : TimedDB.empty.db = DB.empty := rfl

/-- The timestamp half of `txn.Insert(tableChangelog, c)`: it replaces the entry of its id. -/
def insertStamp (stamps : List ChangelogStamp) (s : ChangelogStamp) : List ChangelogStamp :=
  s :: stamps.filter (·.id != s.id)

/-- `WriteTuples` called at time `now`: what it returns, and the database after it, the new
changelog entry stamped `uint64(now)`. -/
def TimedDB.write (tdb : TimedDB) (now : Int) (c : WriteCall) :
    Except WriteError Revision × TimedDB :=
  match writeTuples tdb.db c.preconditions c.mutations with
  | .ok (rev, db') =>
    (.ok rev, ⟨db', insertStamp tdb.stamps ⟨nextTupleChangelogID tdb.db.changelog, toUint64 now⟩⟩)
  | .error err => (.error err, tdb)

/-- A history of calls, each at its time: the database after it and what each call returned. -/
def TimedDB.run (tdb : TimedDB) :
    List (Int × WriteCall) → TimedDB × List (Except WriteError Revision)
  | [] => (tdb, [])
  | (now, c) :: cs =>
    (((tdb.write now c).2.run cs).1, (tdb.write now c).1 :: ((tdb.write now c).2.run cs).2)

theorem TimedDB.write_db (tdb : TimedDB) (now : Int) (c : WriteCall) :
    ((tdb.write now c).1, (tdb.write now c).2.db) = tdb.db.write c := by
  unfold TimedDB.write DB.write
  cases writeTuples tdb.db c.preconditions c.mutations <;> rfl

/-- The timed database runs as the untimed one: the times change no result and no table. -/
theorem TimedDB.run_db : ∀ (tdb : TimedDB) (hist : List (Int × WriteCall)),
    ((tdb.run hist).1.db, (tdb.run hist).2) = tdb.db.run (hist.map Prod.snd)
  | _, [] => rfl
  | tdb, (now, c) :: cs => by
    have hw := tdb.write_db now c
    have ih := TimedDB.run_db (tdb.write now c).2 cs
    simp only [Prod.ext_iff] at hw ih
    simp only [TimedDB.run, List.map_cons, DB.run, ← hw.1, ← hw.2, ih.1, ih.2]

/-! ## The timestamp index -/

/-- The order of `indexTimestamp`: by timestamp, then by id. The schema is not in the snapshot;
assumed: `indexTimestamp` is go-memdb's index on the `uint64` timestamp, whose big-endian keys
iterate in numeric order, entries of one timestamp in the order of the primary key, the id. -/
def stampLE (a b : ChangelogStamp) : Bool :=
  a.timestamp < b.timestamp || a.timestamp == b.timestamp && a.id ≤ b.id

theorem stampLE_iff {a b : ChangelogStamp} :
    stampLE a b = true ↔ a.timestamp.toNat < b.timestamp.toNat ∨
      a.timestamp.toNat = b.timestamp.toNat ∧ a.id.toNat ≤ b.id.toNat := by
  simp only [stampLE, Bool.or_eq_true, Bool.and_eq_true, decide_eq_true_eq, beq_iff_eq,
    UInt64.lt_iff_toNat_lt, UInt64.le_iff_toNat_le]
  exact or_congr_right (and_congr_left fun _ => ⟨congrArg _, UInt64.toNat.inj⟩)

/-- `txn.LowerBound(tableChangelog, indexTimestamp, lowerBound)`, iterated to its end: the
entries stamped at or after `lowerBound`, in index order. -/
def lowerBoundIter (stamps : List ChangelogStamp) (lowerBound : UInt64) : List ChangelogStamp :=
  (stamps.filter (lowerBound ≤ ·.timestamp)).mergeSort stampLE

@[simp] theorem mem_lowerBoundIter {stamps : List ChangelogStamp} {lowerBound : UInt64}
    {s : ChangelogStamp} : s ∈ lowerBoundIter stamps lowerBound ↔
      s ∈ stamps ∧ lowerBound ≤ s.timestamp := by
  simp [lowerBoundIter]

theorem lowerBoundIter_sorted (stamps : List ChangelogStamp) (lowerBound : UInt64) :
    (lowerBoundIter stamps lowerBound).Pairwise fun a b => stampLE a b = true :=
  List.sorted_mergeSort
    (fun _ _ _ hab hbc => by rw [stampLE_iff] at *; omega)
    (fun a b => by
      rw [Bool.or_eq_true, stampLE_iff, stampLE_iff]
      have := @UInt64.toNat.inj a.timestamp b.timestamp
      omega) _

/-- Timestamps follow ids: no entry of a smaller id was stamped later. -/
def StampsFollowIds (stamps : List ChangelogStamp) : Prop :=
  ∀ a ∈ stamps, ∀ b ∈ stamps, a.id.toNat < b.id.toNat → a.timestamp.toNat ≤ b.timestamp.toNat

/-- When timestamps follow ids, the first entry of the iteration has the least id of the
entries stamped at or after the lower bound. -/
theorem lowerBoundIter_head?_eq_some {stamps : List ChangelogStamp} {lowerBound : UInt64}
    {f : ChangelogStamp} (hfollow : StampsFollowIds stamps)
    (h : (lowerBoundIter stamps lowerBound).head? = some f) :
    f ∈ stamps ∧ lowerBound ≤ f.timestamp ∧
      ∀ s ∈ stamps, lowerBound ≤ s.timestamp → f.id.toNat ≤ s.id.toNat := by
  obtain ⟨rest, hcons⟩ := List.head?_eq_some_iff.mp h
  have hsorted := lowerBoundIter_sorted stamps lowerBound
  rw [hcons, List.pairwise_cons] at hsorted
  have hf : f ∈ lowerBoundIter stamps lowerBound := hcons ▸ List.mem_cons_self _ _
  rw [mem_lowerBoundIter] at hf
  refine ⟨hf.1, hf.2, fun s hs hlb => ?_⟩
  have hmem : s ∈ f :: rest := hcons ▸ mem_lowerBoundIter.mpr ⟨hs, hlb⟩
  rcases List.mem_cons.mp hmem with rfl | hrest
  · exact le_rfl
  · -- `f` comes first: stamped no later, so by the ids' order no larger
    have hle := stampLE_iff.mp (hsorted.1 s hrest)
    have := hfollow s hs f hf.1
    omega

theorem lowerBoundIter_head?_eq_none {stamps : List ChangelogStamp} {lowerBound : UInt64} :
    (lowerBoundIter stamps lowerBound).head? = none ↔
      ∀ s ∈ stamps, ¬lowerBound ≤ s.timestamp := by
  rw [List.head?_eq_none_iff, List.eq_nil_iff_forall_not_mem]
  simp

/-! ## `Revision` and `CheckRevision` -/

/-- `revisionFuzzingTimedelta` and `gcWindowInverted` of a `memdbDatastore`, in nanoseconds. -/
structure Clocks where
  revisionFuzzingTimedelta : Int
  gcWindowInverted : Int

/-- The `candidates` of `Revision` at time `now`: the revisions of the entries stamped at or
after `now - revisionFuzzingTimedelta`, in index order. -/
def candidates (cfg : Clocks) (tdb : TimedDB) (now : Int) : List Revision :=
  (lowerBoundIter tdb.stamps (toUint64 (now - cfg.revisionFuzzingTimedelta))).map
    fun oneChange => revisionFromVersion oneChange.id

/-- `memdbDatastore.Revision` at time `now`. `rand.Intn(len(candidates))` is
`pick % len(candidates)`: every draw is the one of some `pick`. -/
def revision (cfg : Clocks) (tdb : TimedDB) (now : Int) (pick : Nat) : Revision :=
  if h : 0 < (candidates cfg tdb now).length then
    (candidates cfg tdb now).get ⟨pick % (candidates cfg tdb now).length, Nat.mod_lt _ h⟩
  else syncRevision tdb.db

/-- The reasons of `datastore.NewInvalidRevisionErr`. -/
inductive InvalidRevisionReason where
  | revisionStale
  | revisionInFuture
  | couldNotDetermineRevision
deriving DecidableEq, Repr

/-- `datastore.NewInvalidRevisionErr(revision, reason)`. -/
structure ErrInvalidRevision where
  revision : Revision
  reason : InvalidRevisionReason
deriving DecidableEq, Repr

/-- `memdbDatastore.CheckRevision` at time `now`. -/
def checkRevision (cfg : Clocks) (tdb : TimedDB) (now : Int) (revision : Revision) :
    Except ErrInvalidRevision Unit :=
  match lastChangelog tdb.db.changelog with
  | none => .error ⟨revision, .couldNotDetermineRevision⟩
  | some lastRaw =>
    let highest := revisionFromVersion lastRaw.id
    if highest < revision then .error ⟨revision, .revisionInFuture⟩
    else
      match (lowerBoundIter tdb.stamps (toUint64 (now + cfg.gcWindowInverted))).head? with
      | none => if revision ≠ highest then .error ⟨revision, .revisionStale⟩ else .ok ()
      | some firstValid =>
        if revision < revisionFromVersion firstValid.id then .error ⟨revision, .revisionStale⟩
        else .ok ()

/-- What `CheckRevision` is for, said of the commits after `n` of them: no revision when there
is none, none above the last, and below the last only a revision at least as new as a commit
stamped at or after the lower bound. -/
def checkRevisionSpec (stamps : List ChangelogStamp) (n : Nat) (lowerBound : UInt64)
    (revision : Revision) : Except ErrInvalidRevision Unit :=
  if n = 0 then .error ⟨revision, .couldNotDetermineRevision⟩
  else if n < revision then .error ⟨revision, .revisionInFuture⟩
  else if revision = n ∨ ∃ s ∈ stamps, lowerBound ≤ s.timestamp ∧ s.id.toNat ≤ revision then .ok ()
  else .error ⟨revision, .revisionStale⟩

/-! ## Timestamps follow ids -/

/-- A timed database after `n` commits, none stamped after `clock`: every changelog entry has
its timestamp, and timestamps follow ids. -/
structure Stamped (tdb : TimedDB) (n : Nat) (clock : Int) : Prop where
  changelog : ChangelogTo tdb.db.changelog n
  ids : tdb.stamps.map (·.id) = tdb.db.changelog.map (·.id)
  follow : StampsFollowIds tdb.stamps
  le_clock : ∀ s ∈ tdb.stamps, (s.timestamp.toNat : Int) ≤ clock

/-- `tdb'` keeps the entries of `tdb` and adds only entries of ids above `n` stamped at `t` or
later. -/
structure Extends (tdb tdb' : TimedDB) (n : Nat) (t : Int) : Prop where
  keeps : ∀ s ∈ tdb.stamps, s ∈ tdb'.stamps
  fresh : ∀ s ∈ tdb'.stamps, s ∈ tdb.stamps ∨ n < s.id.toNat ∧ t ≤ s.timestamp.toNat

theorem Extends.refl (tdb : TimedDB) (n : Nat) (t : Int) : Extends tdb tdb n t :=
  ⟨fun _ hs => hs, fun _ hs => .inl hs⟩

theorem Extends.trans {tdb tdb' tdb'' : TimedDB} {n n' : Nat} {t t' : Int}
    (h : Extends tdb tdb' n t) (h' : Extends tdb' tdb'' n' t') (hn : n ≤ n') (ht : t ≤ t') :
    Extends tdb tdb'' n t where
  keeps s hs := h'.keeps s (h.keeps s hs)
  fresh s hs := by
    rcases h'.fresh s hs with hs' | ⟨hid, hts⟩
    · exact h.fresh s hs'
    · exact .inr ⟨by omega, by omega⟩

/-- The clock over a history: the calls of `hist` happen at times that never go back, from
`start` on, and no later than `stop`. -/
def ClockBetween {α : Type} (start : Int) : List (Int × α) → Int → Prop
  | [], stop => start ≤ stop
  | (now, _) :: hist, stop => start ≤ now ∧ ClockBetween now hist stop

theorem ClockBetween.le {α : Type} : ∀ {start stop : Int} {hist : List (Int × α)},
    ClockBetween start hist stop → start ≤ stop
  | _, _, [], h => h
  | _, _, _ :: _, h => le_trans h.1 (ClockBetween.le h.2)

instance ClockBetween.decidable {α : Type} :
    ∀ (start : Int) (hist : List (Int × α)) (stop : Int),
    Decidable (ClockBetween start hist stop)
  | start, [], stop => inferInstanceAs (Decidable (start ≤ stop))
  | start, (now, _) :: hist, stop =>
    have := ClockBetween.decidable now hist stop
    inferInstanceAs (Decidable (start ≤ now ∧ ClockBetween now hist stop))

/-- Filtering out an id above every id of a list keeps the whole list. -/
theorem filter_id_ne_self {α : Type} {id : α → UInt64} {l : List α} {n : Nat} {next : UInt64}
    (hnext : next.toNat = n + 1) (hl : ∀ x ∈ l, (id x).toNat ≤ n) : l.filter (id · != next) = l :=
  List.filter_eq_self.mpr fun x hx => bne_iff_ne.mpr fun heq => by
    have := hl x hx
    rw [heq] at this
    omega

namespace Stamped

variable {tdb : TimedDB} {n : Nat} {clock : Int}

theorem empty : Stamped TimedDB.empty 0 0 :=
  ⟨ChangelogTo.empty, rfl, by simp [StampsFollowIds, TimedDB.empty], by simp [TimedDB.empty]⟩

theorem id_mem (h : Stamped tdb n clock) {s : ChangelogStamp} (hs : s ∈ tdb.stamps) :
    0 < s.id.toNat ∧ s.id.toNat ≤ n := by
  have hid : s.id ∈ tdb.db.changelog.map (·.id) := h.ids ▸ List.mem_map_of_mem _ hs
  obtain ⟨c, hc, hcs⟩ := List.mem_map.mp hid
  exact hcs ▸ ⟨h.changelog.pos c hc, h.changelog.le c hc⟩

theorem syncRevision_eq (h : Stamped tdb n clock) : syncRevision tdb.db = n :=
  h.changelog.syncRevision_eq

theorem mono (h : Stamped tdb n clock) {clock' : Int} (hc : clock ≤ clock') :
    Stamped tdb n clock' :=
  ⟨h.changelog, h.ids, h.follow, fun s hs => le_trans (h.le_clock s hs) hc⟩

/-- A commit at `now`, no earlier than `clock`, keeps the invariant: its entry has the next id,
above all others, and the latest timestamp. -/
theorem commit (h : Stamped tdb n clock) (hn : n + 1 < 2 ^ 64) {now : Int} (hclock : clock ≤ now)
    (h0 : 0 ≤ now) (hnow : now < 2 ^ 64) {db' : DB} {ms : List RelationTupleUpdate}
    (hdb' : db'.changelog =
      insertChangelog tdb.db.changelog ⟨nextTupleChangelogID tdb.db.changelog, ms⟩) :
    let tdb' : TimedDB :=
      ⟨db', insertStamp tdb.stamps ⟨nextTupleChangelogID tdb.db.changelog, toUint64 now⟩⟩
    Stamped tdb' (n + 1) now ∧ Extends tdb tdb' n clock := by
  have hnext := h.changelog.next_toNat hn
  -- the new entry replaces none: its id is above every other
  have hfilter := filter_id_ne_self hnext fun s hs => (h.id_mem hs).2
  have hfilterCl := filter_id_ne_self hnext h.changelog.le
  have hmem : ∀ s ∈ insertStamp tdb.stamps ⟨nextTupleChangelogID tdb.db.changelog, toUint64 now⟩,
      (s.id.toNat = n + 1 ∧ (s.timestamp.toNat : Int) = now) ∨ s ∈ tdb.stamps := by
    intro s hs
    rw [insertStamp, hfilter, List.mem_cons] at hs
    rcases hs with rfl | hs
    · exact .inl ⟨hnext, toUint64_toNat h0 hnow⟩
    · exact .inr hs
  refine ⟨⟨hdb' ▸ h.changelog.insert hn ms, ?_, ?_, ?_⟩, ⟨?_, ?_⟩⟩
  · simp only [hdb', insertStamp, insertChangelog, List.map_cons, hfilter, hfilterCl, h.ids]
  · intro a ha b hb hab
    rcases hmem a ha with ⟨ha₁, ha₂⟩ | ha <;> rcases hmem b hb with ⟨hb₁, hb₂⟩ | hb
    · omega
    · have := h.id_mem hb
      omega
    · have := h.le_clock a ha
      omega
    · exact h.follow a ha b hb hab
  · intro s hs
    rcases hmem s hs with ⟨-, hts⟩ | hs
    · exact hts.le
    · exact le_trans (h.le_clock s hs) hclock
  · intro s hs
    rw [insertStamp, hfilter]
    exact List.mem_cons_of_mem _ hs
  · intro s hs
    rcases hmem s hs with ⟨hid, hts⟩ | hs
    · exact .inr ⟨by omega, by omega⟩
    · exact .inl hs

/-- One call at `now` keeps the invariant; it commits at most one entry. -/
theorem write (h : Stamped tdb n clock) (hn : n + 1 < 2 ^ 64) {now : Int} (hclock : clock ≤ now)
    (h0 : 0 ≤ now) (hnow : now < 2 ^ 64) (c : WriteCall) :
    ∃ n', n ≤ n' ∧ n' ≤ n + 1 ∧ Stamped (tdb.write now c).2 n' now ∧
      Extends tdb (tdb.write now c).2 n clock := by
  unfold TimedDB.write
  split
  · rename_i rev db' hw
    obtain ⟨-, tuples, -, -, rfl⟩ := writeTuples_eq_ok.mp hw
    exact ⟨n + 1, by omega, le_rfl, h.commit hn hclock h0 hnow rfl⟩
  · exact ⟨n, le_rfl, by omega, h.mono hclock, Extends.refl _ _ _⟩

/-- A history whose clock never goes back keeps the invariant; each call commits at most one
entry. -/
theorem run : ∀ (hist : List (Int × WriteCall)) {tdb : TimedDB} {n : Nat} {clock stop : Int},
    Stamped tdb n clock → 0 ≤ clock → ClockBetween clock hist stop → stop < 2 ^ 64 →
      n + hist.length < 2 ^ 64 →
      ∃ n', n ≤ n' ∧ n' ≤ n + hist.length ∧ Stamped (tdb.run hist).1 n' stop ∧
        Extends tdb (tdb.run hist).1 n clock
  | [], _, n, _, _, h, _, hclock, _, _ => ⟨n, le_rfl, le_rfl, h.mono hclock, Extends.refl _ _ _⟩
  | (now, c) :: hist, tdb, n, clock, stop, h, h0, ⟨hnow, hclock⟩, hstop, hn => by
    rw [List.length_cons] at hn ⊢
    have hle := hclock.le
    obtain ⟨n₁, hn₁, hn₁', h₁, hext₁⟩ := h.write (by omega) hnow (by omega) (by omega) c
    obtain ⟨n₂, hn₂, hn₂', h₂, hext₂⟩ := run hist h₁ (by omega) hclock hstop (by omega)
    exact ⟨n₂, by omega, by omega, h₂, hext₁.trans hext₂ hn₁ hnow⟩

/-- Every history from the empty database whose clock never goes back, within `int64`
nanoseconds after the epoch, keeps the invariant. -/
theorem of_run {hist : List (Int × WriteCall)} {t : Int} (hclock : ClockBetween 0 hist t)
    (ht : t < 2 ^ 63) (hcalls : hist.length < 2 ^ 64) :
    ∃ n, n ≤ hist.length ∧ Stamped (TimedDB.empty.run hist).1 n t := by
  obtain ⟨n, -, hn, h, -⟩ := empty.run hist le_rfl hclock (by omega) (by omega)
  exact ⟨n, by omega, h⟩

end Stamped

/-! ## What the two calls do -/

section Calls

variable {tdb : TimedDB} {n : Nat} {clock : Int}

/-- With no commit stamped at or after the lower bound, the spec accepts only the last
revision. -/
theorem accepts_iff_of_head?_none {stamps : List ChangelogStamp} {lowerBound : UInt64}
    (hnone : (lowerBoundIter stamps lowerBound).head? = none) (rev n : Nat) :
    (rev = n ∨ ∃ s ∈ stamps, lowerBound ≤ s.timestamp ∧ s.id.toNat ≤ rev) ↔ rev = n :=
  or_iff_left fun ⟨s, hs, hlb, _⟩ => lowerBoundIter_head?_eq_none.mp hnone s hs hlb

/-- With `f` the first commit stamped at or after the lower bound, the spec accepts, up to the
last revision, exactly the revisions from `f`'s on. -/
theorem accepts_iff_of_head?_some (h : Stamped tdb n clock) {lowerBound : UInt64}
    {f : ChangelogStamp} (hsome : (lowerBoundIter tdb.stamps lowerBound).head? = some f)
    {rev : Nat} (hrev : rev ≤ n) :
    (rev = n ∨ ∃ s ∈ tdb.stamps, lowerBound ≤ s.timestamp ∧ s.id.toNat ≤ rev) ↔
      f.id.toNat ≤ rev := by
  obtain ⟨hf, hflb, hmin⟩ := lowerBoundIter_head?_eq_some h.follow hsome
  have hfn := (h.id_mem hf).2
  constructor
  · rintro (rfl | ⟨s, hs, hlb, hsrev⟩)
    · exact hfn
    · exact (hmin s hs hlb).trans hsrev
  · exact fun hfrev => .inr ⟨f, hf, hflb, hfrev⟩

/-- On a state whose timestamps follow ids, `CheckRevision` is its specification. -/
theorem checkRevision_eq_spec (h : Stamped tdb n clock) (cfg : Clocks) (now : Int)
    (rev : Revision) :
    checkRevision cfg tdb now rev =
      checkRevisionSpec tdb.stamps n (toUint64 (now + cfg.gcWindowInverted)) rev := by
  have hl := h.changelog.lastChangelog_id
  unfold checkRevision checkRevisionSpec
  cases hlast : lastChangelog tdb.db.changelog with
  | none =>
    rw [hlast] at hl
    split at hl
    · rw [if_pos ‹_›]
    · cases hl
  | some lastRaw =>
    rw [hlast] at hl
    split at hl
    · cases hl
    · rename_i hn
      simp only [Option.map_some', Option.some.injEq] at hl
      simp only [revisionFromVersion, hl, if_neg hn]
      split
      · rfl
      · rename_i hrev
        -- the GC window: no commit in it, or `f` the first
        split <;> rename_i hhead
        · simp only [accepts_iff_of_head?_none hhead, ne_eq, ite_not]
        · simp only [accepts_iff_of_head?_some h hhead (not_lt.mp hrev)]
          simp only [← not_lt, ite_not]

/-- `Revision` returns the revision of an entry stamped within its fuzzing window, or, when
there is none, the last revision. -/
theorem revision_cases (h : Stamped tdb n clock) (cfg : Clocks) (now : Int) (pick : Nat) :
    (candidates cfg tdb now = [] ∧ revision cfg tdb now pick = n) ∨
      ∃ s ∈ tdb.stamps, toUint64 (now - cfg.revisionFuzzingTimedelta) ≤ s.timestamp ∧
        revision cfg tdb now pick = s.id.toNat := by
  unfold revision
  split
  · rename_i hpos
    obtain ⟨s, hs, hrev⟩ := List.mem_map.mp (List.get_mem (candidates cfg tdb now)
      (pick % (candidates cfg tdb now).length) (Nat.mod_lt _ hpos))
    exact .inr ⟨s, (mem_lowerBoundIter.mp hs).1, (mem_lowerBoundIter.mp hs).2, hrev.symm⟩
  · rename_i hzero
    exact .inl ⟨List.eq_nil_of_length_eq_zero (by omega), h.syncRevision_eq⟩

/-- On a state whose timestamps follow ids, the revision `Revision` returns is not above the last
one and not below a commit stamped before the fuzzing window. -/
theorem Stamped.revision_bounds (h : Stamped tdb n clock) (cfg : Clocks) {now : Int} (pick : Nat)
    (hnow : now < 2 ^ 64) (hfuzz : 0 ≤ cfg.revisionFuzzingTimedelta) :
    revision cfg tdb now pick ≤ n ∧ ∀ s ∈ tdb.stamps,
      (s.timestamp.toNat : Int) < now - cfg.revisionFuzzingTimedelta →
        s.id.toNat ≤ revision cfg tdb now pick := by
  rcases revision_cases h cfg now pick with ⟨-, hrev⟩ | ⟨c, hc, hlb, hrev⟩
  · exact ⟨hrev.le, fun s hs _ => hrev ▸ (h.id_mem hs).2⟩
  · refine ⟨hrev ▸ (h.id_mem hc).2, fun s hs hts => ?_⟩
    -- `s` was stamped before the window's candidate `c`, so its id is not above `c`'s
    have hlb' := (toUint64_le_iff (by omega) (by omega)).mp hlb
    have := h.follow c hc s hs
    rw [hrev]
    omega

theorem candidates_eq_nil_iff {cfg : Clocks} {tdb : TimedDB} {now : Int} :
    candidates cfg tdb now = [] ↔
      ∀ s ∈ tdb.stamps, ¬toUint64 (now - cfg.revisionFuzzingTimedelta) ≤ s.timestamp := by
  rw [candidates, List.map_eq_nil_iff, ← List.head?_eq_none_iff, lowerBoundIter_head?_eq_none]

theorem revision_of_candidates_eq_nil {cfg : Clocks} {tdb : TimedDB} {now : Int} (pick : Nat)
    (h : candidates cfg tdb now = []) : revision cfg tdb now pick = syncRevision tdb.db := by
  rw [revision, dif_neg (by simp [h])]

end Calls

/-! ## Over histories -/

section Histories

variable (cfg : Clocks)

/-- Fixtures: revisions fuzzed over `5` ns and a GC window of `10` ns; a GC window of `100` ns;
calls creating `viewerA` and `viewerB`. -/
def shortWindows : Clocks := ⟨5, -10⟩

def longGcWindow : Clocks := ⟨0, -100⟩

def createA : WriteCall := ⟨[], [⟨.create, viewerA⟩]⟩

def createB : WriteCall := ⟨[], [⟨.create, viewerB⟩]⟩

/-- **`CheckRevision` means what it is for.** After every history from the empty database whose
clock never goes back, `CheckRevision` at any time rejects every revision when nothing was
committed, a revision above the last commit as in the future, and, below the last commit, a
revision as stale unless it is at least as new as a commit stamped at or after the GC window's
lower bound. -/
theorem checkRevision_meaning (hist : List (Int × WriteCall)) {t : Int} (now : Int)
    (rev : Revision) (hclock : ClockBetween 0 hist t) (ht : t < 2 ^ 63)
    (hcalls : hist.length < 2 ^ 64) :
    checkRevision cfg (TimedDB.empty.run hist).1 now rev =
      checkRevisionSpec (TimedDB.empty.run hist).1.stamps
        (syncRevision (TimedDB.empty.run hist).1.db)
        (toUint64 (now + cfg.gcWindowInverted)) rev := by
  obtain ⟨n, -, h⟩ := Stamped.of_run hclock ht hcalls
  rw [checkRevision_eq_spec h, h.syncRevision_eq]

theorem checkRevision_meaning_createA :
    ClockBetween 0 [(10, createA)] 10 ∧ (10 : Int) < 2 ^ 63 ∧ [(10, createA)].length < 2 ^ 64 ∧
      checkRevision shortWindows (TimedDB.empty.run [(10, createA)]).1 20 1 =
        checkRevisionSpec (TimedDB.empty.run [(10, createA)]).1.stamps
          (syncRevision (TimedDB.empty.run [(10, createA)]).1.db)
          (toUint64 (20 + shortWindows.gcWindowInverted)) 1 :=
  ⟨by decide, by decide, by decide,
    @checkRevision_meaning shortWindows [(10, createA)] 10 20 1 (by decide) (by decide) (by decide)⟩

/-- **Revision fuzzing is bounded.** After every history from the empty database whose clock
never goes back, the revision `Revision` returns at time `t`, whatever it draws, is not above
`SyncRevision`'s, and is at least the revision of every commit stamped before
`t - revisionFuzzingTimedelta`. -/
theorem revision_bounded_staleness (hist : List (Int × WriteCall)) {t : Int} (pick : Nat)
    (hclock : ClockBetween 0 hist t) (ht : t < 2 ^ 63) (hcalls : hist.length < 2 ^ 64)
    (hfuzz : 0 ≤ cfg.revisionFuzzingTimedelta) :
    revision cfg (TimedDB.empty.run hist).1 t pick ≤ syncRevision (TimedDB.empty.run hist).1.db ∧
      ∀ s ∈ (TimedDB.empty.run hist).1.stamps,
        (s.timestamp.toNat : Int) < t - cfg.revisionFuzzingTimedelta →
          s.id.toNat ≤ revision cfg (TimedDB.empty.run hist).1 t pick := by
  obtain ⟨n, -, h⟩ := Stamped.of_run hclock ht hcalls
  rw [h.syncRevision_eq]
  exact h.revision_bounds cfg pick (by omega) hfuzz

theorem revision_bounded_staleness_createAB :
    ClockBetween 0 [(10, createA), (18, createB)] 20 ∧ (20 : Int) < 2 ^ 63 ∧
      [(10, createA), (18, createB)].length < 2 ^ 64 ∧
      0 ≤ shortWindows.revisionFuzzingTimedelta ∧
      revision shortWindows (TimedDB.empty.run [(10, createA), (18, createB)]).1 20 1 ≤
        syncRevision (TimedDB.empty.run [(10, createA), (18, createB)]).1.db ∧
      ∀ s ∈ (TimedDB.empty.run [(10, createA), (18, createB)]).1.stamps,
        (s.timestamp.toNat : Int) < 20 - shortWindows.revisionFuzzingTimedelta →
          s.id.toNat ≤
            revision shortWindows (TimedDB.empty.run [(10, createA), (18, createB)]).1 20 1 :=
  ⟨by decide, by decide, by decide, by decide,
    revision_bounded_staleness shortWindows _ 1 (by decide) (by decide) (by decide) (by decide)⟩

/-- **A revision drawn from the fuzzing window passes later checks.** Take a history from the
empty database, `Revision` at `t₁`, more calls, and `CheckRevision` at `t₂`, with a clock that
never goes back and a GC window that reaches back from `t₂` at least as far as the fuzzing
window from `t₁`, and not before the epoch. `CheckRevision` accepts the revision `Revision`
returned when it drew it from the entries of its window, and when it fell back to a last
revision that is still the last. -/
theorem revision_passes_checkRevision (h₁ h₂ : List (Int × WriteCall)) {t₁ t₂ : Int} (pick : Nat)
    (hclock₁ : ClockBetween 0 h₁ t₁) (hclock₂ : ClockBetween t₁ h₂ t₂) (ht₂ : t₂ < 2 ^ 63)
    (hcalls : h₁.length + h₂.length < 2 ^ 64) (hfuzz : 0 ≤ cfg.revisionFuzzingTimedelta)
    (hgc : 0 ≤ t₂ + cfg.gcWindowInverted)
    (hwindow : t₂ + cfg.gcWindowInverted ≤ t₁ - cfg.revisionFuzzingTimedelta)
    (hdrawn : candidates cfg (TimedDB.empty.run h₁).1 t₁ ≠ [] ∨
      0 < syncRevision (TimedDB.empty.run h₁).1.db ∧
        syncRevision ((TimedDB.empty.run h₁).1.run h₂).1.db =
          syncRevision (TimedDB.empty.run h₁).1.db) :
    checkRevision cfg ((TimedDB.empty.run h₁).1.run h₂).1 t₂
      (revision cfg (TimedDB.empty.run h₁).1 t₁ pick) = .ok () := by
  have ht₁ := hclock₂.le
  have h0 := hclock₁.le
  obtain ⟨n₁, hn₁, hst₁⟩ := Stamped.of_run hclock₁ (by omega) (by omega)
  obtain ⟨n₂, -, -, hst₂, hext⟩ := hst₁.run h₂ h0 hclock₂ (by omega) (by omega)
  rw [checkRevision_eq_spec hst₂, checkRevisionSpec]
  rcases revision_cases hst₁ cfg t₁ pick with ⟨hnil, hrev⟩ | ⟨s, hs, hlb, hrev⟩
  · -- the fallback: the last revision, still the last
    obtain ⟨hpos, hsame⟩ := hdrawn.resolve_left (not_not_intro hnil)
    rw [hst₁.syncRevision_eq, hst₂.syncRevision_eq] at hsame
    rw [hst₁.syncRevision_eq] at hpos
    rw [hrev, hsame]
    simp [hpos.ne']
  · -- drawn from the window: the entry is still there, and within the GC window
    have hs₂ := hext.keeps s hs
    have hid := hst₂.id_mem hs₂
    have hlb₁ := (toUint64_le_iff (by omega) (by omega)).mp hlb
    have hlb₂ : toUint64 (t₂ + cfg.gcWindowInverted) ≤ s.timestamp :=
      (toUint64_le_iff hgc (by omega)).mpr (by omega)
    rw [hrev, if_neg (show n₂ ≠ 0 by omega), if_neg (show ¬n₂ < s.id.toNat by omega),
      if_pos (.inr ⟨s, hs₂, hlb₂, le_rfl⟩)]

theorem revision_passes_checkRevision_createAB :
    ClockBetween 0 [(18, createA)] 20 ∧ ClockBetween 20 [(22, createB)] 25 ∧ (25 : Int) < 2 ^ 63 ∧
      [(18, createA)].length + [(22, createB)].length < 2 ^ 64 ∧
      0 ≤ shortWindows.revisionFuzzingTimedelta ∧ 0 ≤ 25 + shortWindows.gcWindowInverted ∧
      25 + shortWindows.gcWindowInverted ≤ 20 - shortWindows.revisionFuzzingTimedelta ∧
      candidates shortWindows (TimedDB.empty.run [(18, createA)]).1 20 ≠ [] ∧
      checkRevision shortWindows ((TimedDB.empty.run [(18, createA)]).1.run [(22, createB)]).1 25
        (revision shortWindows (TimedDB.empty.run [(18, createA)]).1 20 0) = .ok () :=
  have hdrawn : candidates shortWindows (TimedDB.empty.run [(18, createA)]).1 20 ≠ [] := by
    rw [Ne, candidates_eq_nil_iff]
    decide
  ⟨by decide, by decide, by decide, by decide, by decide, by decide, by decide, hdrawn,
    revision_passes_checkRevision shortWindows _ _ 0 (by decide) (by decide) (by decide) (by decide)
      (by decide) (by decide) (by decide) (.inl hdrawn)⟩

/-- **The fallback revision goes stale at the next commit.** Take a history from the empty
database whose calls end by `c₁`, `Revision` at `t₁` finding no entry in its fuzzing window, a
history that commits, and `CheckRevision` at `t₂` whose GC window reaches back no further than
`c₁`. `CheckRevision` rejects as stale the revision `Revision` returned, the last one of its
time. -/
theorem fallback_revision_stale (h₁ h₂ : List (Int × WriteCall)) {c₁ t₁ t₂ : Int} (pick : Nat)
    (hclock₁ : ClockBetween 0 h₁ c₁) (hc₁ : c₁ ≤ t₁) (hclock₂ : ClockBetween t₁ h₂ t₂)
    (ht₂ : t₂ < 2 ^ 63) (hcalls : h₁.length + h₂.length < 2 ^ 64)
    (hgc : cfg.gcWindowInverted ≤ 0) (hpast : c₁ < t₂ + cfg.gcWindowInverted)
    (hnone : candidates cfg (TimedDB.empty.run h₁).1 t₁ = [])
    (hcommit : syncRevision (TimedDB.empty.run h₁).1.db <
      syncRevision ((TimedDB.empty.run h₁).1.run h₂).1.db) :
    checkRevision cfg ((TimedDB.empty.run h₁).1.run h₂).1 t₂
        (revision cfg (TimedDB.empty.run h₁).1 t₁ pick) =
      .error ⟨revision cfg (TimedDB.empty.run h₁).1 t₁ pick, .revisionStale⟩ := by
  have ht₁ := hclock₂.le
  have h0 := hclock₁.le
  obtain ⟨n₁, hn₁, hst₁⟩ := Stamped.of_run hclock₁ (by omega) (by omega)
  obtain ⟨n₂, -, -, hst₂, hext⟩ := (hst₁.mono hc₁).run h₂ (by omega) hclock₂ (by omega)
    (by omega)
  rw [hst₁.syncRevision_eq, hst₂.syncRevision_eq] at hcommit
  unfold Revision at hcommit
  rw [checkRevision_eq_spec hst₂, checkRevisionSpec, revision_of_candidates_eq_nil pick hnone,
    hst₁.syncRevision_eq, if_neg (show n₂ ≠ 0 by omega), if_neg (show ¬n₂ < n₁ by omega), if_neg]
  -- no entry of the GC window is as old as `n₁`: the earlier ones are before it, the new ones newer
  rintro (h | ⟨s, hs, hlb, hsid⟩)
  · unfold Revision at h
    omega
  · have hlb' := (toUint64_le_iff (by omega) (by omega)).mp hlb
    rcases hext.fresh s hs with hs₁ | ⟨hid, -⟩
    · have := hst₁.le_clock s hs₁
      omega
    · omega

theorem fallback_revision_stale_createAB :
    ClockBetween 0 [(10, createA)] 10 ∧ (10 : Int) ≤ 20 ∧ ClockBetween 20 [(22, createB)] 25 ∧
      (25 : Int) < 2 ^ 63 ∧ [(10, createA)].length + [(22, createB)].length < 2 ^ 64 ∧
      shortWindows.gcWindowInverted ≤ 0 ∧ 10 < 25 + shortWindows.gcWindowInverted ∧
      candidates shortWindows (TimedDB.empty.run [(10, createA)]).1 20 = [] ∧
      syncRevision (TimedDB.empty.run [(10, createA)]).1.db <
        syncRevision ((TimedDB.empty.run [(10, createA)]).1.run [(22, createB)]).1.db ∧
      checkRevision shortWindows ((TimedDB.empty.run [(10, createA)]).1.run [(22, createB)]).1 25
          (revision shortWindows (TimedDB.empty.run [(10, createA)]).1 20 0) =
        .error ⟨revision shortWindows (TimedDB.empty.run [(10, createA)]).1 20 0, .revisionStale⟩ :=
  have hnone : candidates shortWindows (TimedDB.empty.run [(10, createA)]).1 20 = [] := by
    rw [candidates_eq_nil_iff]
    decide
  ⟨by decide, by decide, by decide, by decide, by decide, by decide, by decide, hnone, by decide,
    @fallback_revision_stale shortWindows _ _ 10 20 25 0 (by decide) (by decide) (by decide)
      (by decide) (by decide) (by decide) (by decide) hnone (by decide)⟩

/-- **A GC window reaching back before the epoch accepts only the last revision.** The `uint64`
of a time before the epoch wraps above every timestamp of the `int64` clock, so after every
history from the empty database whose clock never goes back, `CheckRevision` then finds no
entry in its window and accepts exactly the last revision, if there is one. -/
theorem checkRevision_before_epoch (hist : List (Int × WriteCall)) {t : Int} (now : Int)
    (rev : Revision) (hclock : ClockBetween 0 hist t) (ht : t < 2 ^ 63)
    (hcalls : hist.length < 2 ^ 64) (hlo : -2 ^ 63 ≤ now + cfg.gcWindowInverted)
    (hneg : now + cfg.gcWindowInverted < 0) :
    checkRevision cfg (TimedDB.empty.run hist).1 now rev = .ok () ↔
      0 < syncRevision (TimedDB.empty.run hist).1.db ∧
        rev = syncRevision (TimedDB.empty.run hist).1.db := by
  obtain ⟨n, -, h⟩ := Stamped.of_run hclock ht hcalls
  have hwrap := toUint64_toNat_of_neg hlo hneg
  -- the wrapped lower bound is above every timestamp
  have hnone : ¬∃ s ∈ (TimedDB.empty.run hist).1.stamps,
      toUint64 (now + cfg.gcWindowInverted) ≤ s.timestamp ∧ s.id.toNat ≤ rev := by
    rintro ⟨s, hs, hlb, -⟩
    have := h.le_clock s hs
    rw [UInt64.le_iff_toNat_le] at hlb
    simp at hwrap
    omega
  rw [checkRevision_eq_spec h, h.syncRevision_eq]
  simp only [checkRevisionSpec, or_iff_left hnone]
  unfold Revision at *
  split_ifs <;> simp <;> omega

theorem checkRevision_before_epoch_createA :
    ClockBetween 0 [(10, createA)] 10 ∧ (10 : Int) < 2 ^ 63 ∧ [(10, createA)].length < 2 ^ 64 ∧
      -2 ^ 63 ≤ 20 + longGcWindow.gcWindowInverted ∧ 20 + longGcWindow.gcWindowInverted < 0 ∧
      (checkRevision longGcWindow (TimedDB.empty.run [(10, createA)]).1 20 1 = .ok () ↔
        0 < syncRevision (TimedDB.empty.run [(10, createA)]).1.db ∧
          1 = syncRevision (TimedDB.empty.run [(10, createA)]).1.db) :=
  ⟨by decide, by decide, by decide, by decide, by decide,
    @checkRevision_before_epoch longGcWindow _ 10 20 1 (by decide) (by decide) (by decide)
      (by decide) (by decide)⟩

end Histories

end SpiceDB.Memdb
