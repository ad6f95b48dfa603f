import SpiceDB.Memdb.Changelog
import Mathlib.Data.Finset.Basic

/-!
# What the tuple table holds

A history of `WriteTuples` calls denotes, at each committed revision `r`, a set of tuples:
start from the empty set and apply in order the mutation lists of the calls committed at
`r` or before, `CREATE` and `TOUCH` adding their tuple and `DELETE` removing it (`Spec`).
The versions visible at `r` list that set, each tuple once.

Not for every history. `CREATE` inserts a new version whether or not the tuple has a live
one, and a live version from an earlier transaction has another primary key, so a second
`CREATE` of a live tuple leaves two live versions: the tuple is listed twice, and a later
`DELETE` retires only the one `findTuple` returns (`create_of_live_tuple_duplicates`).

A `CREATE` of a tuple whose live version this transaction made is harmless: the new version
has the same primary key and replaces it. So when no `CREATE` meets a live version from an
earlier call (`Spec.freshCreates`), and fewer than `2^64 - 1` calls commit, the table refines
the set semantics (`Refines.run`). Inside a transaction the invariant is `TxnInv`: every tuple
has as many live versions as the set says (one or none), the revisions before the transaction
see what they saw (`TxnCounts`), and the live versions from earlier transactions are of the
tuples no `DELETE` or `TOUCH` of this one has retired. Each mutation keeps it
(`TxnInv.applyMutation`), and a commit turns it into the invariant of the database
(`Refines.commit`). The counts are of the versions of one tuple, which an `Insert` changes only
for the tuple it writes.
-/

namespace SpiceDB.Memdb

/-! ## The set semantics -/

namespace Spec

/-- What a mutation does to the set of tuples: `CREATE` and `TOUCH` add, `DELETE` removes. -/
def applyMutation (S : Finset RelationTuple) (m : RelationTupleUpdate) : Finset RelationTuple :=
  match m.operation with
  | .create | .touch => insert m.tuple S
  | .delete => S.erase m.tuple
  | .unknown _ => S

/-- A mutation list, applied in order. -/
def applyMutations (S : Finset RelationTuple) (ms : List RelationTupleUpdate) : Finset RelationTuple :=
  ms.foldl applyMutation S

/-- The tuples with a live version from an earlier call, after a mutation: a `DELETE` or a
`TOUCH` retires the one of its tuple. -/
def retireEarlier (E : Finset RelationTuple) (m : RelationTupleUpdate) : Finset RelationTuple :=
  match m.operation with
  | .delete | .touch => E.erase m.tuple
  | .create | .unknown _ => E

/-- No `CREATE` of the list meets a live version from an earlier call: `E` holds the tuples that
have one, at first the whole set before the call. -/
def freshCreates : Finset RelationTuple → List RelationTupleUpdate → Bool
  | _, [] => true
  | E, m :: ms =>
    (m.operation != .create || decide (m.tuple ∉ E)) && freshCreates (retireEarlier E m) ms

/-- No `CREATE` of a log meets a live version from an earlier call. -/
def freshLog : Finset RelationTuple → List (List RelationTupleUpdate) → Bool
  | _, [] => true
  | S, ms :: rest => freshCreates S ms && freshLog (applyMutations S ms) rest

/-- The set at revision `r` of a log of committed mutation lists, the `i`-th committed at
revision `i + 1`. -/
def setAt (h : List (List RelationTupleUpdate)) (r : Nat) : Finset RelationTuple :=
  (h.take r).foldl applyMutations ∅

/-- A call on the set semantics: it fails on the first precondition not in the set, then on
the first unknown operation; otherwise it commits at the next revision. -/
def write (h : List (List RelationTupleUpdate)) (c : WriteCall) :
    Except WriteError Revision × List (List RelationTupleUpdate) :=
  match c.preconditions.find? fun t => decide (t ∉ setAt h h.length) with
  | some t => (.error (.preconditionFailed t), h)
  | none =>
    match c.mutations.find? (!·.operation.isKnown) with
    | some m => (.error (unknownOperation m.operation), h)
    | none => (.ok (h.length + 1), h ++ [c.mutations])

/-- A history of calls on the set semantics. -/
def run (h : List (List RelationTupleUpdate)) :
    List WriteCall → List (List RelationTupleUpdate) × List (Except WriteError Revision)
  | [] => (h, [])
  | c :: cs => (run (write h c).2 cs |>.1, (write h c).1 :: (run (write h c).2 cs).2)

theorem setAt_append_of_le {h : List (List RelationTupleUpdate)} {ms : List RelationTupleUpdate}
    {r : Nat} (hr : r ≤ h.length) : setAt (h ++ [ms]) r = setAt h r := by
  rw [setAt, List.take_append_of_le_length hr, setAt]

theorem setAt_append_length (h : List (List RelationTupleUpdate)) (ms : List RelationTupleUpdate) :
    setAt (h ++ [ms]) (h ++ [ms]).length = applyMutations (setAt h h.length) ms := by
  rw [setAt, List.take_length, setAt, List.take_length, List.foldl_append]
  rfl

/-- A call on the set semantics fails and changes nothing, or commits at the next revision. -/
theorem write_cases (h : List (List RelationTupleUpdate)) (c : WriteCall) :
    (∃ err, write h c = (.error err, h)) ∨ write h c = (.ok (h.length + 1), h ++ [c.mutations]) := by
  unfold write
  split
  · exact .inl ⟨_, rfl⟩
  · split
    · exact .inl ⟨_, rfl⟩
    · exact .inr rfl

/-- The log a history ends with: the one it started from and the committed mutation lists. -/
theorem run_fst : ∀ (h : List (List RelationTupleUpdate)) (cs : List WriteCall),
    (run h cs).1 = h ++ (committed cs (run h cs).2).map Prod.snd
  | h, [] => by simp [run, committed]
  | h, c :: cs => by
    rcases write_cases h c with ⟨err, hw⟩ | hw <;>
      simp only [run, hw, committed, List.map_cons, run_fst _ cs, List.append_assoc,
        List.singleton_append]

theorem insert_erase_self (S : Finset RelationTuple) (t : RelationTuple) :
    insert t (S.erase t) = insert t S := by
  ext u
  by_cases h : u = t <;> simp [h]

end Spec

/-! ## Counting versions -/

namespace TupleTable

/-- The versions of `u` that `p` accepts. -/
def versions (tbl : TupleTable) (p : TupleEntry → Bool) (u : RelationTuple) : Nat :=
  tbl.entries.countP fun e => e.tuple == u && p e

variable {tbl : TupleTable} {p : TupleEntry → Bool} {u : RelationTuple}

theorem count_visibleAt (tbl : TupleTable) (r : Nat) (u : RelationTuple) :
    (tbl.visibleAt r).count u = tbl.versions (TupleEntry.visibleAt r) u := by
  simp only [visibleAt, versions, List.count_eq_countP, List.countP_map, List.countP_filter]
  exact List.countP_congr fun e _ => by simp [Bool.and_comm]

/-- An insert counts its own version, and every other version but those of its key. -/
theorem versions_insert (tbl : TupleTable) (e : TupleEntry) (p : TupleEntry → Bool)
    (u : RelationTuple) :
    (tbl.insert e).versions p u = (tbl.entries.filter (·.primaryKey != e.primaryKey)).countP
      (fun x => x.tuple == u && p x) + if e.tuple == u && p e then 1 else 0 :=
  List.countP_cons _ _ _

theorem countP_filter_key_le (tbl : TupleTable) (p : TupleEntry → Bool) (u : RelationTuple)
    (e : TupleEntry) :
    (tbl.entries.filter (·.primaryKey != e.primaryKey)).countP (fun x => x.tuple == u && p x) ≤
      tbl.versions p u :=
  (List.filter_sublist _).countP_le _

theorem countP_filter_key_of_forall {e : TupleEntry}
    (h : ∀ x ∈ tbl.entries, x.primaryKey = e.primaryKey → (x.tuple == u && p x) = false) :
    (tbl.entries.filter (·.primaryKey != e.primaryKey)).countP (fun x => x.tuple == u && p x) =
      tbl.versions p u := by
  rw [List.countP_filter]
  refine List.countP_congr fun x hx => ?_
  by_cases hk : x.primaryKey = e.primaryKey
  · simp [h x hx hk]
  · simp [hk]

/-- The key of a version in the table is its own: filtering it out drops that version only. -/
theorem countP_filter_key_of_mem {l : List TupleEntry} (hl : (l.map TupleEntry.primaryKey).Nodup)
    {x : TupleEntry} (hx : x ∈ l) (q : TupleEntry → Bool) :
    (l.filter (·.primaryKey != x.primaryKey)).countP q + (if q x then 1 else 0) = l.countP q := by
  induction l with
  | nil => cases hx
  | cons y ys ih =>
    rw [List.map_cons, List.nodup_cons] at hl
    rcases List.mem_cons.mp hx with rfl | hx
    · have hys : ys.filter (·.primaryKey != x.primaryKey) = ys :=
        List.filter_eq_self.mpr fun z hz => by
          have hzx : z.primaryKey ≠ x.primaryKey := fun h => hl.1 (h ▸ List.mem_map_of_mem _ hz)
          simpa using hzx
      simp [hys, List.countP_cons]
    · have hyx : y.primaryKey ≠ x.primaryKey := fun h => hl.1 (h ▸ List.mem_map_of_mem _ hx)
      simp only [List.filter_cons, bne_iff_ne, ne_eq, hyx, not_false_eq_true, decide_True,
        if_true, List.countP_cons]
      have := ih hl.2 hx
      omega

end TupleTable

/-! ## Inside a transaction -/

namespace TupleEntry

@[simp] theorem isLive_eq_true {e : TupleEntry} : e.isLive = true ↔ e.deletedTxn = deletedTransactionID := by
  simp [isLive]

theorem visibleAt_of_lt_created {e : TupleEntry} {r : Nat} (h : r < e.createdTxn.toNat) :
    e.visibleAt r = false := by
  simp [visibleAt]
  omega

end TupleEntry

/-- A version bounded by transaction `d`: created by `d` or before, and live or deleted by `d`
or before. -/
def Bounded (d : Nat) (e : TupleEntry) : Prop :=
  e.createdTxn.toNat ≤ d ∧ (e.isLive = true ∨ e.deletedTxn.toNat ≤ d)

theorem Bounded.mono {d d' : Nat} {e : TupleEntry} (h : Bounded d e) (hd : d ≤ d') : Bounded d' e :=
  ⟨Nat.le_trans h.1 hd, h.2.imp_right fun h' => Nat.le_trans h' hd⟩

/-- At the revision that bounds it, a version is visible exactly when it is live. -/
theorem Bounded.visibleAt_eq {d : Nat} {e : TupleEntry} (h : Bounded d e) (hd : d < 2 ^ 64 - 1) :
    e.visibleAt d = e.isLive := by
  cases hl : e.isLive
  · have hdel := h.2.resolve_left (by simp [hl])
    simp only [TupleEntry.visibleAt, Bool.and_eq_false_iff, decide_eq_false_iff_not]
    omega
  · have hdel : e.deletedTxn.toNat = 2 ^ 64 - 1 := by
      rw [TupleEntry.isLive_eq_true.mp hl, deletedTransactionID_toNat]
    simp only [TupleEntry.visibleAt, Bool.and_eq_true, decide_eq_true_eq]
    exact ⟨h.1, by omega⟩

/-- Inside transaction `id`, started on `tbl₀`: the versions are bounded by `id`, a tuple has
one live version if it is in `S` and none otherwise, and every revision before `id` sees what
it saw in `tbl₀`. -/
structure TxnCounts (id : UInt64) (tbl₀ tbl : TupleTable) (S : Finset RelationTuple) : Prop where
  bounded : ∀ e ∈ tbl.entries, Bounded id.toNat e
  live : ∀ u, tbl.versions TupleEntry.isLive u = if u ∈ S then 1 else 0
  frame : ∀ r < id.toNat, ∀ u, tbl.versions (TupleEntry.visibleAt r) u = tbl₀.versions (TupleEntry.visibleAt r) u

/-- The invariant of transaction `id`: the counts, and every live version an earlier transaction
created is of a tuple of `E`, those no `DELETE` or `TOUCH` of this one has retired yet. -/
structure TxnInv (id : UInt64) (tbl₀ tbl : TupleTable) (S E : Finset RelationTuple)
    extends TxnCounts id tbl₀ tbl S : Prop where
  earlier : ∀ e ∈ tbl.entries, e.isLive = true → e.createdTxn ≠ id → e.tuple ∈ E

namespace TxnCounts

variable {id : UInt64} {tbl₀ tbl : TupleTable} {S : Finset RelationTuple}

theorem bounded_insert {e : TupleEntry} (h : ∀ x ∈ tbl.entries, Bounded id.toNat x)
    (he : Bounded id.toNat e) : ∀ x ∈ (tbl.insert e).entries, Bounded id.toNat x := fun x hx =>
  (List.mem_cons.mp hx).elim (· ▸ he) fun hx => h x (List.mem_filter.mp hx).1

/-- A `CREATE` or the second half of a `TOUCH`, of a tuple whose live versions, if any, this
transaction made: they have the new version's key, and give way to it. -/
theorem insertNew (h : TxnCounts id tbl₀ tbl S) {t : RelationTuple}
    (ht : ∀ x ∈ tbl.entries, x.tuple = t → x.isLive = true → x.createdTxn = id) :
    TxnCounts id tbl₀ (tbl.insert (newVersion t id)) (insert t S) where
  bounded := bounded_insert h.bounded ⟨le_rfl, .inl (by simp)⟩
  live u := by
    rw [TupleTable.versions_insert]
    by_cases hu : t = u
    · subst hu
      rw [List.countP_eq_zero.mpr fun x hx hq => ?_]
      · simp
      · simp only [List.mem_filter, bne_iff_ne, ne_eq] at hx
        simp only [Bool.and_eq_true, beq_iff_eq] at hq
        exact hx.2 (by simp [TupleEntry.primaryKey, hq.1, ht x hx.1 hq.1 hq.2])
    · rw [TupleTable.countP_filter_key_of_forall fun x _ hk => ?_, h.live u]
      · simp [hu, Finset.mem_insert, Ne.symm hu]
      · have : x.tuple = t := by simpa using congrArg Prod.fst hk
        simp [this, hu]
  frame r hr u := by
    rw [TupleTable.versions_insert, TupleTable.countP_filter_key_of_forall fun x _ hk => ?_, h.frame r hr u]
    · simp [@TupleEntry.visibleAt_of_lt_created (newVersion t id) r (by simpa using hr)]
    · have : x.createdTxn = id := by simpa using congrArg Prod.snd hk
      simp [TupleEntry.visibleAt_of_lt_created (this ▸ hr : r < x.createdTxn.toNat)]

/-- A tuple with no live version is not in the set. -/
theorem not_mem_of_findTuple (h : TxnCounts id tbl₀ tbl S) {t : RelationTuple}
    (hf : findTuple tbl t = none) : t ∉ S := by
  intro ht
  have h1 := h.live t
  rw [if_pos ht, TupleTable.versions, List.countP_eq_zero.mpr fun e he hq => by
    simp only [Bool.and_eq_true, beq_iff_eq] at hq
    rw [findTuple_eq_none.mp hf e he hq.1] at hq
    exact Bool.false_ne_true hq.2] at h1
  cases h1

/-- A `DELETE` or the first half of a `TOUCH`: the live version `findTuple` returns, if any,
is deleted by transaction `id`. -/
theorem deleteExisting (hid : id ≠ deletedTransactionID) (h : TxnCounts id tbl₀ tbl S)
    (t : RelationTuple) :
    TxnCounts id tbl₀ (Memdb.deleteExisting tbl (findTuple tbl t) id) (S.erase t) := by
  cases hf : findTuple tbl t with
  | none => rwa [Memdb.deleteExisting, Finset.erase_eq_of_not_mem (h.not_mem_of_findTuple hf)]
  | some x =>
    obtain ⟨hx, rfl, hlive⟩ := findTuple_spec hf
    have hxlive : x.deletedTxn = deletedTransactionID := by simpa using hlive
    have hkey := TupleTable.countP_filter_key_of_mem tbl.nodup hx
    have hlt : id.toNat < 2 ^ 64 - 1 := by
      have := UInt64.toNat_lt_size id
      have : id.toNat ≠ 2 ^ 64 - 1 := fun h' =>
        hid (UInt64.toNat.inj (by rw [h', deletedTransactionID_toNat]))
      simp only [UInt64.size] at *
      omega
    refine ⟨bounded_insert h.bounded ⟨(h.bounded x hx).1, .inr le_rfl⟩, fun u => ?_, fun r hr u => ?_⟩
    · have hq := hkey fun e => e.tuple == u && e.isLive
      have hnew : ({ x with deletedTxn := id }.tuple == u && { x with deletedTxn := id }.isLive) =
          false := by simp [TupleEntry.isLive, hid]
      rw [Memdb.deleteExisting, TupleTable.versions_insert, TupleEntry.primaryKey_deletedTxn, hnew,
        if_neg Bool.false_ne_true, Nat.add_zero]
      rw [← TupleTable.versions, h.live u] at hq
      by_cases hu : x.tuple = u
      · subst hu
        rw [if_pos (by simpa using hlive)] at hq
        have hS : x.tuple ∈ S := by
          by_contra hS
          rw [if_neg hS] at hq
          omega
        rw [if_pos hS] at hq
        rw [if_neg (Finset.not_mem_erase _ _)]
        omega
      · have hmem : u ∈ S.erase x.tuple ↔ u ∈ S := by simp [Finset.mem_erase, Ne.symm hu]
        rw [if_neg (by simp [hu]), Nat.add_zero] at hq
        rw [hq]
        exact if_congr hmem rfl rfl |>.symm
    · have hq := hkey fun e => e.tuple == u && e.visibleAt r
      rw [Memdb.deleteExisting, TupleTable.versions_insert, TupleEntry.primaryKey_deletedTxn,
        ← h.frame r hr u]
      rw [← TupleTable.versions] at hq
      have hvis : ({ x with deletedTxn := id } : TupleEntry).visibleAt r = x.visibleAt r := by
        simp only [TupleEntry.visibleAt, hxlive, deletedTransactionID_toNat]
        simp only [decide_eq_true hr, decide_eq_true (Nat.lt_trans hr hlt)]
      simp only [TupleEntry.tuple_deletedTxn, hvis] at hq ⊢
      omega

end TxnCounts

/-- A live version `deleteExisting` leaves was there before. -/
theorem mem_of_deleteExisting {id : UInt64} {tbl : TupleTable} {t : RelationTuple}
    {x : TupleEntry} (hid : id ≠ deletedTransactionID)
    (hx : x ∈ (Memdb.deleteExisting tbl (findTuple tbl t) id).entries) (hl : x.isLive = true) :
    x ∈ tbl.entries := by
  cases hf : findTuple tbl t with
  | none => rwa [hf, Memdb.deleteExisting] at hx
  | some y =>
    rw [hf, Memdb.deleteExisting] at hx
    rcases TupleTable.mem_insert.mp hx with rfl | ⟨hx, -⟩
    · simp [TupleEntry.isLive, hid] at hl
    · exact hx

namespace TxnInv

variable {id : UInt64} {tbl₀ tbl : TupleTable} {S E : Finset RelationTuple}

/-- A `CREATE` or the second half of a `TOUCH`, of a tuple with no live version from an earlier
transaction. -/
theorem insertNew (h : TxnInv id tbl₀ tbl S E) {t : RelationTuple} (ht : t ∉ E) :
    TxnInv id tbl₀ (tbl.insert (newVersion t id)) (insert t S) E where
  toTxnCounts := h.toTxnCounts.insertNew fun x hx hxt hl =>
    Decidable.byContradiction fun hc => ht (hxt ▸ h.earlier x hx hl hc)
  earlier x hx hl hc := by
    rcases TupleTable.mem_insert.mp hx with rfl | ⟨hx, -⟩
    · exact absurd rfl hc
    · exact h.earlier x hx hl hc

/-- A `DELETE` or the first half of a `TOUCH`: its tuple has no live version left. -/
theorem deleteExisting (hid : id ≠ deletedTransactionID) (h : TxnInv id tbl₀ tbl S E)
    (t : RelationTuple) :
    TxnInv id tbl₀ (Memdb.deleteExisting tbl (findTuple tbl t) id) (S.erase t) (E.erase t) := by
  have hc := h.toTxnCounts.deleteExisting hid t
  refine ⟨hc, fun x hx hl hne => Finset.mem_erase.mpr ⟨fun hxt => ?_, ?_⟩⟩
  · have h0 := hc.live t
    rw [if_neg (Finset.not_mem_erase t S), TupleTable.versions, List.countP_eq_zero] at h0
    exact h0 x hx (by simp [hxt, hl])
  · exact h.earlier x (mem_of_deleteExisting hid hx hl) hl hne

/-- **One mutation.** A known operation runs, and keeps the invariant with the set it denotes,
as long as a `CREATE` meets no live version from an earlier transaction. -/
theorem applyMutation (hid : id ≠ deletedTransactionID) (h : TxnInv id tbl₀ tbl S E)
    {m : RelationTupleUpdate} (hk : m.operation.isKnown)
    (hfresh : m.operation = .create → m.tuple ∉ E) :
    ∃ tbl', Memdb.applyMutation id tbl m = .ok tbl' ∧
      TxnInv id tbl₀ tbl' (Spec.applyMutation S m) (Spec.retireEarlier E m) := by
  unfold Memdb.applyMutation Spec.applyMutation Spec.retireEarlier
  cases hop : m.operation with
  | create => exact ⟨_, rfl, h.insertNew (hfresh hop)⟩
  | delete => exact ⟨_, rfl, h.deleteExisting hid m.tuple⟩
  | touch =>
    refine ⟨_, rfl, ?_⟩
    rw [← Spec.insert_erase_self]
    exact (h.deleteExisting hid m.tuple).insertNew (Finset.not_mem_erase _ _)
  | unknown => simp [hop, UpdateOperation.isKnown] at hk

/-- **The mutation loop.** -/
theorem foldlM (hid : id ≠ deletedTransactionID) :
    ∀ {ms : List RelationTupleUpdate} {tbl : TupleTable} {S E : Finset RelationTuple},
      TxnInv id tbl₀ tbl S E → Spec.freshCreates E ms → (∀ m ∈ ms, m.operation.isKnown) →
        ∃ tbl' E', ms.foldlM (Memdb.applyMutation id) tbl = .ok tbl' ∧
          TxnInv id tbl₀ tbl' (Spec.applyMutations S ms) E'
  | [], tbl, _, E, h, _, _ => ⟨tbl, E, rfl, h⟩
  | m :: ms, _, _, _, h, hfresh, hk => by
    simp only [Spec.freshCreates, Bool.and_eq_true, Bool.or_eq_true, bne_iff_ne, ne_eq,
      decide_eq_true_eq] at hfresh
    obtain ⟨tbl₁, h₁, hinv₁⟩ := h.applyMutation hid (hk m (List.mem_cons_self _ _))
      fun hc => hfresh.1.resolve_left (not_not.mpr hc)
    obtain ⟨tbl', E', h', hinv'⟩ :=
      foldlM hid hinv₁ hfresh.2 fun m' hm => hk m' (List.mem_cons_of_mem _ hm)
    exact ⟨tbl', E', by rw [List.foldlM_cons, h₁]; exact h', hinv'⟩

end TxnInv

/-! ## Committed states -/

namespace TupleTable

/-- `findTuple` finds a version of `t` exactly when `t` has a live version. -/
theorem findTuple_isSome_iff {tbl : TupleTable} {t : RelationTuple} :
    (findTuple tbl t).isSome ↔ 0 < tbl.versions TupleEntry.isLive t := by
  rw [findTuple_isSome, versions, List.countP_pos_iff]
  simp

end TupleTable

/-- A list in which each tuple of `S` occurs once and no other tuple occurs lists `S`. -/
theorem nodup_toFinset_of_count {l : List RelationTuple} {S : Finset RelationTuple}
    (h : ∀ u, l.count u = if u ∈ S then 1 else 0) : l.Nodup ∧ l.toFinset = S :=
  ⟨List.nodup_iff_count_le_one.mpr fun u => by rw [h u]; split <;> omega,
    Finset.ext fun u => by rw [List.mem_toFinset, ← List.count_pos_iff, h u]; split <;> simp_all⟩

/-- The database after committing the log `h`, the `i`-th list at revision `i + 1`: the
changelog runs to `h.length`, every version is bounded by it, and at every revision up to it a
tuple has one visible version if it is in the set `h` denotes there and none otherwise. -/
structure Refines (db : DB) (h : List (List RelationTupleUpdate)) : Prop where
  changelog : ChangelogTo db.changelog h.length
  bounded : ∀ e ∈ db.tuples.entries, Bounded h.length e
  visible : ∀ r ≤ h.length, ∀ u,
    db.tuples.versions (TupleEntry.visibleAt r) u = if u ∈ Spec.setAt h r then 1 else 0

namespace Refines

variable {db : DB} {h : List (List RelationTupleUpdate)}

theorem empty : Refines DB.empty [] :=
  ⟨ChangelogTo.empty, fun _ he => (by cases he), fun _ _ _ => by simp [Spec.setAt]; rfl⟩

/-- The live versions are the ones visible at the last revision. -/
theorem live (hr : Refines db h) (hn : h.length < 2 ^ 64 - 1) (u : RelationTuple) :
    db.tuples.versions TupleEntry.isLive u = if u ∈ Spec.setAt h h.length then 1 else 0 := by
  rw [← hr.visible _ le_rfl u, TupleTable.versions, TupleTable.versions]
  exact List.countP_congr fun e he => by rw [(hr.bounded e he).visibleAt_eq hn]

/-- The preconditions read the set at the last revision. -/
theorem findTuple_isNone (hr : Refines db h) (hn : h.length < 2 ^ 64 - 1) (t : RelationTuple) :
    (findTuple db.tuples t).isNone = decide (t ∉ Spec.setAt h h.length) := by
  have hl := hr.live hn t
  have hsome := @TupleTable.findTuple_isSome_iff db.tuples t
  by_cases ht : t ∈ Spec.setAt h h.length
  · rw [if_pos ht] at hl
    obtain ⟨e, he⟩ := Option.isSome_iff_exists.mp (hsome.mpr (by omega))
    simp [he, ht]
  · rw [if_neg ht] at hl
    have hnone : findTuple db.tuples t = none :=
      Option.not_isSome_iff_eq_none.mp fun h' => absurd (hsome.mp h') (by omega)
    simp [hnone, ht]

/-- A transaction starts with the set of the last revision, every tuple of which has its live
version from an earlier transaction. -/
theorem txnInv (hr : Refines db h) (hn : h.length + 1 < 2 ^ 64 - 1) :
    TxnInv (nextTupleChangelogID db.changelog) db.tuples db.tuples (Spec.setAt h h.length)
      (Spec.setAt h h.length) where
  bounded e he := (hr.bounded e he).mono (by rw [hr.changelog.next_toNat (by omega)]; omega)
  live := hr.live (by omega)
  frame _ _ _ := rfl
  earlier e he hl _ := by
    have h1 := hr.live (by omega) e.tuple
    by_contra hS
    rw [if_neg hS, TupleTable.versions, List.countP_eq_zero] at h1
    exact h1 e he (by simp [hl])

/-- **A commit.** The table a transaction leaves, with the changelog entry it adds, refines the
log with the transaction's mutations appended. -/
theorem commit (hr : Refines db h) (hn : h.length + 1 < 2 ^ 64 - 1) {tbl : TupleTable}
    {ms : List RelationTupleUpdate}
    (ht : TxnCounts (nextTupleChangelogID db.changelog) db.tuples tbl
      (Spec.applyMutations (Spec.setAt h h.length) ms)) :
    Refines ⟨tbl, insertChangelog db.changelog ⟨nextTupleChangelogID db.changelog, ms⟩⟩ (h ++ [ms]) := by
  have hnext := hr.changelog.next_toNat (by omega)
  have hlen : (h ++ [ms]).length = h.length + 1 := by simp
  refine ⟨hlen ▸ hr.changelog.insert (by omega) ms, fun e he => hlen ▸ hnext ▸ ht.bounded e he,
    fun r hr' u => ?_⟩
  rw [hlen] at hr'
  rcases Nat.lt_or_ge r (h.length + 1) with hlt | hge
  · rw [Spec.setAt_append_of_le (by omega), ht.frame r (hnext ▸ hlt) u, hr.visible r (by omega) u]
  · obtain rfl : r = h.length + 1 := by omega
    rw [← hlen, Spec.setAt_append_length, ← ht.live u, TupleTable.versions, TupleTable.versions]
    refine List.countP_congr fun e he => ?_
    have hb : Bounded (h.length + 1) e := hnext ▸ ht.bounded e he
    rw [hlen, hb.visibleAt_eq (by omega)]

/-- **One call.** On a database that refines `h`, a call returns what the set semantics
returns, and the database after it refines the log after it, provided that a commit stays
below the sentinel and no `CREATE` of it meets a live version from an earlier call. -/
theorem write (hr : Refines db h) (hn : h.length < 2 ^ 64 - 1) (c : WriteCall)
    (hok : ∀ rev db', writeTuples db c.preconditions c.mutations = .ok (rev, db') →
      h.length + 1 < 2 ^ 64 - 1 ∧ Spec.freshCreates (Spec.setAt h h.length) c.mutations) :
    (db.write c).1 = (Spec.write h c).1 ∧ Refines (db.write c).2 (Spec.write h c).2 := by
  have hpre : (fun t => (findTuple db.tuples t).isNone) =
      fun t => decide (t ∉ Spec.setAt h h.length) := funext (hr.findTuple_isNone hn)
  unfold DB.write Spec.write writeTuples
  rw [hpre]
  cases hfind : c.preconditions.find? fun t => decide (t ∉ Spec.setAt h h.length) with
  | some t => exact ⟨rfl, hr⟩
  | none =>
    dsimp only
    cases hm : c.mutations.find? (!·.operation.isKnown) with
    | some m => rw [foldlM_applyMutation_error db.tuples hm]; exact ⟨rfl, hr⟩
    | none =>
      have hk : ∀ m ∈ c.mutations, m.operation.isKnown := by
        simpa using List.find?_eq_none.mp hm
      obtain ⟨tbl, hf⟩ :=
        @foldlM_applyMutation_ok (nextTupleChangelogID db.changelog) _ db.tuples hk
      obtain ⟨hn', hfresh⟩ := hok _ _ (by
        unfold writeTuples
        rw [hpre, hfind]
        dsimp only
        rw [hf])
      have hnext := hr.changelog.next_toNat (by omega)
      have hid : nextTupleChangelogID db.changelog ≠ deletedTransactionID := fun heq => by
        rw [heq, deletedTransactionID_toNat] at hnext
        omega
      obtain ⟨tbl', _, hf', hinv⟩ := (hr.txnInv hn').foldlM hid hfresh hk
      rw [hf] at hf'
      cases hf'
      rw [hf]
      exact ⟨by simp [revisionFromVersion, hnext], hr.commit hn' hinv.toTxnCounts⟩

/-- **A history.** From a database that refines `h`, a history returns what the set semantics
returns and ends on a database that refines the log it ends with, provided that fewer than
`2^64 - 1` calls commit in all and no `CREATE` of a committed call meets a live version from an
earlier call. -/
theorem run : ∀ (cs : List WriteCall) {db : DB} {h : List (List RelationTupleUpdate)},
    Refines db h → h.length + (committed cs (db.run cs).2).length < 2 ^ 64 - 1 →
    Spec.freshLog (Spec.setAt h h.length) ((committed cs (db.run cs).2).map Prod.snd) →
      (db.run cs).2 = (Spec.run h cs).2 ∧ Refines (db.run cs).1 (Spec.run h cs).1
  | [], _, _, hr, _, _ => ⟨rfl, hr⟩
  | c :: cs, db, h, hr, hn, hfresh => by
    have hok : ∀ rev db', writeTuples db c.preconditions c.mutations = .ok (rev, db') →
        h.length + 1 < 2 ^ 64 - 1 ∧ Spec.freshCreates (Spec.setAt h h.length) c.mutations := by
      intro rev db' hw
      have hwrite : db.write c = (.ok rev, db') := by simp [DB.write, hw]
      simp only [DB.run, hwrite, committed, List.length_cons, List.map_cons, Spec.freshLog,
        Bool.and_eq_true] at hn hfresh
      exact ⟨by omega, hfresh.1⟩
    obtain ⟨hres, hr'⟩ := hr.write (by omega) c hok
    simp only [DB.run, Spec.run] at hn hfresh ⊢
    rw [← hres]
    rcases Spec.write_cases h c with ⟨err, hw⟩ | hw <;> rw [hw] at hres hr' ⊢ <;> rw [hres] at hn hfresh
    · simp only [committed] at hn hfresh
      obtain ⟨hrun, hr''⟩ := run cs hr' hn hfresh
      exact ⟨by rw [hrun], hr''⟩
    · simp only [committed, List.length_cons, List.map_cons, Spec.freshLog, Bool.and_eq_true] at hn hfresh
      rw [← Spec.setAt_append_length] at hfresh
      obtain ⟨hrun, hr''⟩ := run cs hr' (by simp only [List.length_append, List.length_singleton]; omega)
        hfresh.2
      exact ⟨by rw [hrun], hr''⟩

end Refines

/-! ## Histories from the empty database -/

/-- In a log whose revisions run from `s` on, the entries at revision `r` or before are the
first `r + 1 - s`. -/
theorem map_snd_filter_le {α : Type} (r : Nat) :
    ∀ (log : List (Nat × α)) (s : Nat), log.map Prod.fst = List.range' s log.length →
      (log.filter (·.1 ≤ r)).map Prod.snd = (log.map Prod.snd).take (r + 1 - s)
  | [], _, _ => by simp
  | a :: rest, s, h => by
    simp only [List.map_cons, List.length_cons, List.range'_succ, List.cons.injEq] at h
    have ih := map_snd_filter_le r rest (s + 1) h.2
    by_cases hs : s ≤ r
    · obtain ⟨k, hk⟩ : ∃ k, r + 1 - s = k + 1 := ⟨r - s, by omega⟩
      rw [List.filter_cons_of_pos (by simp [h.1, hs]), List.map_cons, List.map_cons, hk,
        List.take_succ_cons, ih]
      congr 2
      omega
    · rw [List.filter_cons_of_neg (by simp [h.1]; omega), ih, List.map_cons,
        show r + 1 - s = 0 by omega, show r + 1 - (s + 1) = 0 by omega]
      rfl

/-- **memdb refines the set semantics.** Whether a call commits depends only on its
preconditions having live versions and its operations being known, and a failing call leaves
the database as it was (`DB.write_of_error`: the transaction is committed only by a call that
gets past its last mutation). For every history from the empty database in which no `CREATE` of a
committed call meets a live version from an earlier call, and fewer than `2^64 - 1` calls
commit, the tuples visible at each committed revision are duplicate-free and are the set the
mutation lists committed up to it denote. -/
theorem writeTuples_refines_sets (cs : List WriteCall)
    (hfresh : Spec.freshLog ∅ ((committed cs (DB.empty.run cs).2).map Prod.snd))
    (hn : (committed cs (DB.empty.run cs).2).length < 2 ^ 64 - 1) :
    (∀ db pre ms, (∃ rev db', writeTuples db pre ms = .ok (rev, db')) ↔
      (∀ t ∈ pre, ∃ e ∈ db.tuples.entries, e.tuple = t ∧ e.isLive = true) ∧
        ∀ m ∈ ms, m.operation.isKnown) ∧
      (∀ (db : DB) c err, (db.write c).1 = .error err → (db.write c).2 = db) ∧
      ∀ r ∈ (committed cs (DB.empty.run cs).2).map Prod.fst,
        ((DB.empty.run cs).1.tuples.visibleAt r).Nodup ∧
          ((DB.empty.run cs).1.tuples.visibleAt r).toFinset =
            (((committed cs (DB.empty.run cs).2).filter (·.1 ≤ r)).map Prod.snd).foldl
              Spec.applyMutations ∅ := by
  refine ⟨writeTuples_ok_iff, fun _ _ _ => DB.write_of_error, fun r hr => ?_⟩
  obtain ⟨hres, href⟩ := Refines.run cs Refines.empty (by simpa using hn) (by simpa [Spec.setAt] using hfresh)
  have hlog := Spec.run_fst [] cs
  rw [← hres, List.nil_append] at hlog
  obtain ⟨hrevs, -⟩ := @committed_revisions cs DB.empty 0 ChangelogTo.empty (by omega)
  rw [Nat.zero_add] at hrevs
  have hr' : r ≤ (Spec.run [] cs).1.length := by
    rw [hrevs, List.mem_range'_1] at hr
    rw [hlog, List.length_map]
    unfold Revision at hr ⊢
    omega
  rw [map_snd_filter_le r _ 1 hrevs, Nat.add_sub_cancel, ← hlog]
  exact nodup_toFinset_of_count fun u => by
    rw [TupleTable.count_visibleAt, href.visible r hr' u]
    rfl

/-- Create `a` twice in one call; fail on the missing `b`; touch `a`, create it again and create
`b`; delete `a` and create it again. No `CREATE` meets a live version from an earlier call. -/
def touchAndRecreate : List WriteCall :=
  [⟨[], [⟨.create, viewerA⟩, ⟨.create, viewerA⟩]⟩, ⟨[viewerB], [⟨.create, viewerB⟩]⟩,
    ⟨[viewerA], [⟨.touch, viewerA⟩, ⟨.create, viewerA⟩, ⟨.create, viewerB⟩]⟩,
    ⟨[], [⟨.delete, viewerA⟩, ⟨.create, viewerA⟩]⟩]

theorem writeTuples_refines_sets_touchAndRecreate :
    Spec.freshLog ∅ ((committed touchAndRecreate (DB.empty.run touchAndRecreate).2).map Prod.snd) ∧
      (committed touchAndRecreate (DB.empty.run touchAndRecreate).2).length < 2 ^ 64 - 1 ∧
      ((∀ db pre ms, (∃ rev db', writeTuples db pre ms = .ok (rev, db')) ↔
        (∀ t ∈ pre, ∃ e ∈ db.tuples.entries, e.tuple = t ∧ e.isLive = true) ∧
          ∀ m ∈ ms, m.operation.isKnown) ∧
      (∀ (db : DB) c err, (db.write c).1 = .error err → (db.write c).2 = db) ∧
      ∀ r ∈ (committed touchAndRecreate (DB.empty.run touchAndRecreate).2).map Prod.fst,
        ((DB.empty.run touchAndRecreate).1.tuples.visibleAt r).Nodup ∧
          ((DB.empty.run touchAndRecreate).1.tuples.visibleAt r).toFinset =
            (((committed touchAndRecreate (DB.empty.run touchAndRecreate).2).filter
              (·.1 ≤ r)).map Prod.snd).foldl Spec.applyMutations ∅) :=
  ⟨by decide, by decide, writeTuples_refines_sets touchAndRecreate (by decide) (by decide)⟩

/-- Two calls that create `doc:1#viewer@user:a#...`, then one that deletes it. -/
def createCreateDelete : List WriteCall :=
  [⟨[], [⟨.create, viewerA⟩]⟩, ⟨[], [⟨.create, viewerA⟩]⟩, ⟨[], [⟨.delete, viewerA⟩]⟩]

theorem create_of_live_tuple_duplicates :
    (DB.empty.run createCreateDelete).2 = [.ok 1, .ok 2, .ok 3] ∧
      (DB.empty.run createCreateDelete).1.tuples.visibleAt 2 = [viewerA, viewerA] ∧
      (DB.empty.run createCreateDelete).1.tuples.visibleAt 3 = [viewerA] ∧
      (((committed createCreateDelete (DB.empty.run createCreateDelete).2).filter (·.1 ≤ 3)).map
        Prod.snd).foldl Spec.applyMutations ∅ = ∅ :=
  ⟨rfl, rfl, rfl, by decide⟩

end SpiceDB.Memdb
