import SpiceDB.Memdb.Changelog

/-!
# memdb keeps every version

`WriteTuples` removes no version from `tableTuple`. A `CREATE` or a `TOUCH` inserts a new
version under the transaction's id, and a `DELETE` or a `TOUCH` inserts again the live version
`findTuple` finds, its `deletedTxn` set to that id. `txn.Insert` replaces only the version of the
same primary key, the tuple and its `createdTxn`. A new version's key is new, since every
version already in the table was created by an earlier transaction, and a retired version's key
is its own.

So a later database keeps every version of an earlier one, as it was or, if it was live,
retired by one of the commits between them (`memdb_keeps_versions`). Nothing collects the
versions the GC window leaves behind: `CheckRevision` refuses the revisions that would read them,
and the table only grows.
-/

namespace SpiceDB.Memdb

/-- What one pass of the mutation loop does, when it succeeds. -/
theorem applyMutation_cases {id : UInt64} {tbl tbl' : TupleTable} {m : RelationTupleUpdate}
    (h : applyMutation id tbl m = .ok tbl') :
    tbl' = tbl.insert (newVersion m.tuple id) ∨
      tbl' = deleteExisting tbl (findTuple tbl m.tuple) id ∨
      tbl' = (deleteExisting tbl (findTuple tbl m.tuple) id).insert (newVersion m.tuple id) := by
  unfold applyMutation at h
  cases hop : m.operation <;> rw [hop] at h <;> cases h
  case create => exact .inl rfl
  case touch => exact .inr (.inr rfl)
  case delete => exact .inr (.inl rfl)

/-- A property of tables that every successful pass keeps holds after the whole loop. -/
theorem foldlM_applyMutation_induction {id : UInt64} {P : TupleTable → Prop}
    (hstep : ∀ tbl m tbl', P tbl → applyMutation id tbl m = .ok tbl' → P tbl') :
    ∀ {ms : List RelationTupleUpdate} {tbl tbl' : TupleTable}, P tbl →
      ms.foldlM (applyMutation id) tbl = .ok tbl' → P tbl'
  | [], _, _, h, hf => by cases hf; exact h
  | m :: ms, tbl, _, h, hf => by
    rw [List.foldlM_cons] at hf
    cases hm : applyMutation id tbl m with
    | error => rw [hm] at hf; cases hf
    | ok tbl₁ =>
      rw [hm] at hf
      exact foldlM_applyMutation_induction hstep (hstep tbl m tbl₁ h hm) hf

/-! ## Inside a transaction -/

/-- Within transaction `id`, version `e` is in `tbl` as it was or, if it was live, retired
by `id`. -/
def Survives (id : UInt64) (tbl : TupleTable) (e : TupleEntry) : Prop :=
  e ∈ tbl.entries ∨ e.isLive = true ∧ { e with deletedTxn := id } ∈ tbl.entries

namespace Survives

variable {id : UInt64} {tbl : TupleTable} {e : TupleEntry}

/-- A new version of transaction `id` replaces no version an earlier transaction created. -/
theorem insertNew (h : Survives id tbl e) (hcreated : e.createdTxn ≠ id) (t : RelationTuple) :
    Survives id (tbl.insert (newVersion t id)) e := by
  have hkey : ∀ x : TupleEntry, x.createdTxn = e.createdTxn →
      x.primaryKey ≠ (newVersion t id).primaryKey :=
    fun x hx hk => hcreated (hx ▸ congrArg Prod.snd hk)
  rcases h with h | ⟨hl, h⟩
  · exact .inl (TupleTable.mem_insert.mpr (.inr ⟨h, hkey e rfl⟩))
  · exact .inr ⟨hl, TupleTable.mem_insert.mpr (.inr ⟨h, hkey _ rfl⟩)⟩

/-- Retiring the live version `findTuple` finds leaves every other version as it was. -/
theorem deleteExisting (h : Survives id tbl e) (hid : id ≠ deletedTransactionID)
    (t : RelationTuple) : Survives id (Memdb.deleteExisting tbl (findTuple tbl t) id) e := by
  cases hf : findTuple tbl t with
  | none => exact h
  | some x =>
    obtain ⟨hx, -, hlive⟩ := findTuple_spec hf
    rw [Memdb.deleteExisting]
    rcases h with h | ⟨hl, h⟩
    · by_cases hk : e.primaryKey = x.primaryKey
      · -- `e` is the version found, and is now retired
        obtain rfl := TupleTable.eq_of_primaryKey_eq h hx hk
        exact .inr ⟨hlive, TupleTable.mem_insert.mpr (.inl rfl)⟩
      · exact .inl (TupleTable.mem_insert.mpr (.inr ⟨h, by simpa using hk⟩))
    · -- `e` was retired: it is not live, so not the version found
      refine .inr ⟨hl, TupleTable.mem_insert.mpr (.inr ⟨h, fun hk => ?_⟩)⟩
      rw [← TupleTable.eq_of_primaryKey_eq h hx (by simpa using hk)] at hlive
      simp [TupleEntry.isLive, hid] at hlive

theorem applyMutation (h : Survives id tbl e) (hcreated : e.createdTxn ≠ id)
    (hid : id ≠ deletedTransactionID) {m : RelationTupleUpdate} {tbl' : TupleTable}
    (hm : Memdb.applyMutation id tbl m = .ok tbl') : Survives id tbl' e := by
  rcases applyMutation_cases hm with rfl | rfl | rfl
  · exact h.insertNew hcreated _
  · exact h.deleteExisting hid _
  · exact (h.deleteExisting hid _).insertNew hcreated _

end Survives

/-- Every version of `tbl` was created by a transaction no later than the `n`-th. -/
def CreatedBy (n : Nat) (tbl : TupleTable) : Prop :=
  ∀ e ∈ tbl.entries, e.createdTxn.toNat ≤ n

namespace CreatedBy

variable {n : Nat} {tbl : TupleTable}

theorem insert (h : CreatedBy n tbl) {e : TupleEntry} (he : e.createdTxn.toNat ≤ n) :
    CreatedBy n (tbl.insert e) := fun x hx =>
  (TupleTable.mem_insert.mp hx).elim (· ▸ he) fun hx => h x hx.1

theorem applyMutation (h : CreatedBy n tbl) {id : UInt64} (hid : id.toNat ≤ n)
    {m : RelationTupleUpdate} {tbl' : TupleTable} (hm : Memdb.applyMutation id tbl m = .ok tbl') :
    CreatedBy n tbl' := by
  -- a retired version keeps the `createdTxn` of the version found
  have hdel : CreatedBy n (deleteExisting tbl (findTuple tbl m.tuple) id) := by
    cases hf : findTuple tbl m.tuple with
    | none => exact h
    | some x => exact h.insert (h x (findTuple_spec hf).1)
  rcases applyMutation_cases hm with rfl | rfl | rfl
  · exact h.insert hid
  · exact hdel
  · exact hdel.insert hid

end CreatedBy

/-! ## Commits and histories -/

/-- `tbl'` keeps every version of `tbl`: as it was or, if it was live, retired by a transaction
after the `n`-th. -/
def KeepsAfter (n : Nat) (tbl tbl' : TupleTable) : Prop :=
  ∀ e ∈ tbl.entries, e ∈ tbl'.entries ∨ e.isLive = true ∧ ∃ id : UInt64,
    n < id.toNat ∧ id ≠ deletedTransactionID ∧ { e with deletedTxn := id } ∈ tbl'.entries

namespace KeepsAfter

theorem refl (n : Nat) (tbl : TupleTable) : KeepsAfter n tbl tbl := fun _ he => .inl he

/-- A retired version is not live, so a later table keeps it as it is. -/
theorem trans {n m : Nat} {tbl tbl' tbl'' : TupleTable} (h₁ : KeepsAfter n tbl tbl')
    (h₂ : KeepsAfter m tbl' tbl'') (hnm : n ≤ m) : KeepsAfter n tbl tbl'' := by
  intro e he
  rcases h₁ e he with h | ⟨hl, id, hlt, hid, h⟩
  · rcases h₂ e h with h | ⟨hl, id, hlt, hid, h⟩
    · exact .inl h
    · exact .inr ⟨hl, id, by omega, hid, h⟩
  · refine .inr ⟨hl, id, hlt, hid, (h₂ _ h).resolve_right fun ⟨hl', _⟩ => ?_⟩
    simp [TupleEntry.isLive, hid] at hl'

end KeepsAfter

/-- A commit after `n` commits keeps the versions before it, retiring only by its own id
`n + 1`, and creates its versions under that id. -/
theorem writeTuples_keeps {db db' : DB} {pre : List RelationTuple}
    {ms : List RelationTupleUpdate} {rev : Revision} {n : Nat} (h : ChangelogTo db.changelog n)
    (hcreated : CreatedBy n db.tuples) (hn : n + 1 < 2 ^ 64 - 1)
    (hw : writeTuples db pre ms = .ok (rev, db')) :
    KeepsAfter n db.tuples db'.tuples ∧ CreatedBy (n + 1) db'.tuples := by
  obtain ⟨-, tuples, hf, -, rfl⟩ := writeTuples_eq_ok.mp hw
  have hnext := h.next_toNat (by omega)
  have hid : nextTupleChangelogID db.changelog ≠ deletedTransactionID := fun heq => by
    rw [heq, deletedTransactionID_toNat] at hnext
    omega
  refine ⟨fun e he => ?_, @foldlM_applyMutation_induction _ (CreatedBy (n + 1))
    (fun _ _ _ hc hm => hc.applyMutation hnext.le hm) _ _ _
    (fun x hx => Nat.le_succ_of_le (hcreated x hx)) hf⟩
  have hne : e.createdTxn ≠ nextTupleChangelogID db.changelog := fun heq => by
    have := hcreated e he
    rw [heq, hnext] at this
    omega
  rcases @foldlM_applyMutation_induction _ (Survives _ · e)
      (fun _ _ _ hs hm => hs.applyMutation hne hid hm) _ _ _ (.inl he) hf with h | ⟨hl, h⟩
  · exact .inl h
  · exact .inr ⟨hl, _, by omega, hid, h⟩

/-- A history after `n` commits keeps every version, and creates its own under the ids after
`n`. -/
theorem run_keeps : ∀ (cs : List WriteCall) {db : DB} {n : Nat}, ChangelogTo db.changelog n →
    CreatedBy n db.tuples → n + (committed cs (db.run cs).2).length < 2 ^ 64 - 1 →
      KeepsAfter n db.tuples (db.run cs).1.tuples ∧
        CreatedBy (n + (committed cs (db.run cs).2).length) (db.run cs).1.tuples
  | [], _, _, _, hc, _ => ⟨.refl _ _, hc⟩
  | c :: cs, db, n, h, hc, hn => by
    cases hw : writeTuples db c.preconditions c.mutations with
    | ok p =>
      obtain ⟨rev, db'⟩ := p
      simp only [DB.run, DB.write, hw, committed, List.length_cons] at hn ⊢
      obtain ⟨hkeep, hc'⟩ := writeTuples_keeps h hc (by omega) hw
      obtain ⟨hkeep', hc''⟩ :=
        run_keeps cs (writeTuples_changelog h (by omega) hw).2 hc' (by omega)
      exact ⟨hkeep.trans hkeep' (Nat.le_succ n), by rwa [Nat.add_right_comm, Nat.add_assoc] at hc''⟩
    | error err =>
      simp only [DB.run, DB.write, hw, committed] at hn ⊢
      exact run_keeps cs h hc hn

/-- **memdb keeps every version.** For every history of `WriteTuples` calls from the empty
database, and every further history, with fewer than `2^64 - 1` commits in all: the table after
both keeps every version of the table after the first, each as it was or, if it was live,
retired by one of the later commits. No call removes a version. -/
theorem memdb_keeps_versions (cs₀ cs : List WriteCall)
    (hn : (committed cs₀ (DB.empty.run cs₀).2).length +
      (committed cs ((DB.empty.run cs₀).1.run cs).2).length < 2 ^ 64 - 1) :
    KeepsAfter (committed cs₀ (DB.empty.run cs₀).2).length (DB.empty.run cs₀).1.tuples
      ((DB.empty.run cs₀).1.run cs).1.tuples := by
  have hcreated : CreatedBy 0 DB.empty.tuples := fun _ he => by cases he
  obtain ⟨-, hc₀⟩ := @run_keeps cs₀ DB.empty 0 ChangelogTo.empty hcreated (by omega)
  obtain ⟨-, h₀⟩ := @committed_revisions cs₀ DB.empty 0 ChangelogTo.empty (by omega)
  rw [Nat.zero_add] at hc₀ h₀
  exact (run_keeps cs h₀ hc₀ hn).1

/-- `createFailTouch` cut after its first call: the `TOUCH` retires the version of `a` the
first call created. -/
theorem memdb_keeps_versions_createFailTouch :
    (committed (createFailTouch.take 1) (DB.empty.run (createFailTouch.take 1)).2).length +
        (committed (createFailTouch.drop 1)
          ((DB.empty.run (createFailTouch.take 1)).1.run (createFailTouch.drop 1)).2).length <
      2 ^ 64 - 1 ∧
      KeepsAfter
        (committed (createFailTouch.take 1) (DB.empty.run (createFailTouch.take 1)).2).length
        (DB.empty.run (createFailTouch.take 1)).1.tuples
        ((DB.empty.run (createFailTouch.take 1)).1.run (createFailTouch.drop 1)).1.tuples :=
  ⟨by decide, memdb_keeps_versions (createFailTouch.take 1) (createFailTouch.drop 1) (by decide)⟩

end SpiceDB.Memdb
