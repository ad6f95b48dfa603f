import SpiceDB.Graph.Schedules

/-!
# A child whose send is never received

`expandSetOperation` gives each child an unbuffered channel (`make(chan ExpandResult)`)
and stops receiving at the first error and at `ctx.Done()`. A child still running then
finishes, reaches `resultChan <- result`, and waits there for a receiver that has
returned: its goroutine never ends, and the tuple iterator its closure opened is never
released by the deferred `Close`. `ExpandOne`'s channel has room for its one result, so
its child never waits.

A goroutine waiting in a send that no goroutine awaits stays as it is along every later
run (`blocked_forever`), and the process reaches such a state (`expandSetOperation_leaks_send`).
-/

namespace SpiceDB.Graph

/-- The goroutines a code is still to receive from. -/
def Code.awaits : Code → Nat → Bool
  | .awaitAll _ _ pending _, k => decide (k ∈ pending)
  | .awaitOne j, k => decide (j = k)
  | _, _ => false

/-- Waiting in a send on a full channel: at its `send` frame with no room left. -/
def Goroutine.Blocked (g : Goroutine) : Prop :=
  (∃ v, g.code = .ret v) ∧ (∃ rest, g.stack = .send :: rest) ∧ g.cap ≤ g.buf.length

namespace Sys

/-- No goroutine is to receive from goroutine `k`. -/
def Orphan (s : Sys) (k : Nat) : Prop := ∀ g ∈ s.gs, g.code.awaits k = false

instance (s : Sys) (k : Nat) : Decidable (s.Orphan k) :=
  inferInstanceAs (Decidable (∀ g ∈ s.gs, g.code.awaits k = false))

/-- The runs from a state, under any schedule. -/
inductive Steps (ld : LocalDispatcher) (s : Sys) : Sys → Prop
  | refl : Steps ld s s
  | tail {s₁ s₂ : Sys} (a : Action) : Steps ld s s₁ → s₁.step ld a = some s₂ → Steps ld s s₂

/-- A step leaves goroutine `k` as it was, and does not start to await it. -/
def Keeps (s s' : Sys) (k : Nat) : Prop := s'.gs[k]? = s.gs[k]? ∧ (s.Orphan k → s'.Orphan k)

variable {s s' s'' : Sys} {i j k : Nat}

theorem Keeps.trans (h₁ : s.Keeps s' k) (h₂ : s'.Keeps s'' k) : s.Keeps s'' k :=
  ⟨h₂.1.trans h₁.1, h₂.2 ∘ h₁.2⟩

theorem keeps_update {g' : Goroutine} (hik : i ≠ k) (hg' : s.Orphan k → g'.code.awaits k = false) :
    s.Keeps (s.update i g') k :=
  ⟨by rw [getElem?_update, if_neg fun h => hik h.1], fun ho g hg =>
    (List.mem_or_eq_of_mem_set hg).elim (ho g) fun h => h ▸ hg' ho⟩

theorem keeps_cancelScope (x : Nat) : s.Keeps (s.cancelScope x) k := ⟨rfl, id⟩

theorem keeps_spawnAll {ctx : List Nat} {cap : Nat} {fs : List ExpandFunc} (hk : k < s.gs.length) :
    s.Keeps (s.spawnAll ctx cap fs) k :=
  ⟨getElem?_spawnAll_of_lt hk, fun ho g hg => by
    rcases List.mem_append.mp hg with hg | hg
    · exact ho g hg
    · obtain ⟨f, -, rfl⟩ := List.mem_map.mp hg
      rfl⟩

/-- A receive from `j` changes only `j`, which stops or keeps its code. -/
theorem keeps_recv {v : ExpandResult} (h : s.recv j = some (s', v)) (hjk : j ≠ k) : s.Keeps s' k := by
  obtain ⟨hj, hget, ⟨-, -, -, -, rfl⟩ | ⟨-, -, -, rfl⟩⟩ := recv_spec h
  · exact keeps_update hjk fun _ => rfl
  · exact keeps_update hjk fun ho => ho hj (List.getElem?_mem hget)

theorem keeps_startReducer {g : Goroutine} {op : Operation} {start : ObjectAndRelation}
    {fs : List ExpandFunc} (hk : k < s.gs.length) (hik : i ≠ k) :
    s.Keeps (s.startReducer i g op start fs) k := by
  unfold startReducer
  split
  · exact keeps_update hik fun _ => rfl
  · refine (keeps_spawnAll hk).trans (keeps_update hik fun _ => ?_)
    simp only [Code.awaits, decide_eq_false_iff_not, List.mem_range'_1]
    omega

/-- The body of a closure changes only its own goroutine, which comes to await only goroutines
it starts. -/
theorem keeps_callStep {ld : LocalDispatcher} {g : Goroutine} {f : ExpandFunc}
    (hk : k < s.gs.length) (hik : i ≠ k) : s.Keeps (s.callStep ld i g f) k := by
  cases f with
  | direct r sb =>
    simp only [callStep]
    split
    · exact keeps_update hik fun _ => rfl
    · split
      · exact keeps_update hik fun _ => rfl
      · exact keeps_startReducer hk hik
  | setOperation r op fs => exact keeps_startReducer hk hik
  | dispatch r =>
    simp only [callStep]
    split
    · exact keeps_update hik fun _ => rfl
    · split
      · exact keeps_update hik fun _ => rfl
      · split
        · exact ⟨rfl, id⟩
        · refine (keeps_spawnAll hk).trans (keeps_update hik fun _ => ?_)
          simp only [Code.awaits, decide_eq_false_iff_not]
          omega
  | tupleToUserset r ttu =>
    simp only [callStep]
    split
    · exact keeps_update hik fun _ => rfl
    · split
      · exact ⟨rfl, id⟩
      · exact keeps_startReducer hk hik
  | alwaysFail => exact keeps_update hik fun _ => rfl

theorem keeps_retStep {g : Goroutine} {r : ExpandResult} {stack : List Frame} (hik : i ≠ k)
    (h : s.retStep i g r stack = some s') : s.Keeps s' k := by
  match stack, h with
  | .send :: _, h =>
    simp only [retStep] at h
    split at h
    · cases h
      exact keeps_update hik fun _ => rfl
    · cases h
  | .appendLeaf _ :: _, h =>
    simp only [retStep] at h
    split at h
    · cases h
      exact keeps_update hik fun _ => rfl
    · cases h
      exact ⟨rfl, id⟩
    · cases h
  | .caller :: _, h =>
    cases h
    exact keeps_update hik fun _ => rfl

/-- A step keeps a blocked goroutine that nobody awaits: its own step cannot happen, and no
other goroutine receives from it or comes to await it. -/
theorem keeps_runStep {ld : LocalDispatcher} {done : Bool} {gk : Goroutine}
    (h : s.runStep ld i done = some s') (hk : s.gs[k]? = some gk) (hb : gk.Blocked)
    (ho : s.Orphan k) : s.Keeps s' k := by
  obtain ⟨g, hi, hcase⟩ := runStep_cases h
  have hlt : k < s.gs.length := (List.getElem?_eq_some_iff.mp hk).1
  have hg : g.code.awaits k = false := ho g (List.getElem?_mem hi)
  by_cases hik : i = k
  · subst hik
    rw [hk] at hi
    cases hi
    obtain ⟨⟨v, hv⟩, ⟨rest, hrest⟩, hcap⟩ := hb
    rcases hcase with ⟨_, h', -⟩ | ⟨_, _, _, h', -⟩ | ⟨_, _, _, _, _, h', -⟩ | ⟨_, h', -⟩ |
        ⟨r, h', h⟩
    all_goals rw [hv] at h'
    all_goals try cases h'
    rw [hrest] at h
    simp [retStep, Nat.not_lt.mpr hcap] at h
  rcases hcase with ⟨f, -, rfl⟩ | ⟨_, _, _, -, rfl⟩ |
      ⟨_, _, j, pending, _, hcode, ⟨-, rfl⟩ | ⟨s₁, v, hr, ⟨e, -, rfl⟩ | ⟨-, rfl⟩⟩⟩ |
      ⟨j, hcode, ⟨-, rfl⟩ | ⟨s₁, v, hr, rfl⟩⟩ | ⟨r, -, h⟩
  · exact keeps_callStep hlt hik
  · exact (keeps_update hik fun _ => by rfl).trans (keeps_cancelScope _)
  · exact (keeps_update hik fun _ => by rfl).trans (keeps_cancelScope _)
  · rw [hcode] at hg
    simp only [Code.awaits, decide_eq_false_iff_not, List.mem_cons, not_or] at hg
    exact ((keeps_recv hr (Ne.symm hg.1)).trans (keeps_update hik fun _ => by rfl)).trans
      (keeps_cancelScope _)
  · rw [hcode] at hg
    simp only [Code.awaits, decide_eq_false_iff_not, List.mem_cons, not_or] at hg
    exact (keeps_recv hr (Ne.symm hg.1)).trans
      (keeps_update hik fun _ => by simpa [Code.awaits] using hg.2)
  · exact keeps_update hik fun _ => by rfl
  · rw [hcode] at hg
    simp only [Code.awaits, decide_eq_false_iff_not] at hg
    exact (keeps_recv hr hg).trans (keeps_update hik fun _ => by rfl)
  · exact keeps_retStep hik h

/--
**Blocked forever.** A goroutine waiting in a send that no goroutine is to receive stays as it
is along every run from there: it never returns, and it keeps what it holds.
-/
theorem blocked_forever {ld : LocalDispatcher} {g : Goroutine} (hk : s.gs[k]? = some g)
    (hb : g.Blocked) (ho : s.Orphan k) (hrun : Steps ld s s') : s'.gs[k]? = some g ∧ s'.Orphan k := by
  induction hrun with
  | refl => exact ⟨hk, ho⟩
  | tail a _ h ih =>
    unfold step at h
    split at h
    · cases h
    · cases a with
      | cancel =>
        cases h
        exact ih
      | run i done =>
        have hkeep := keeps_runStep h ih.1 hb ih.2
        exact ⟨hkeep.1.trans ih.1, hkeep.2 ih.2⟩

end Sys

/-! ## The leak -/

/-- `Expand` on `doc:1#viewer` at depth 1: the `owner` dispatch (goroutine 2) fails at depth 0,
the union (goroutine 1) returns its error to the caller, and the `_this` read (goroutine 3) is
left holding its leaf. -/
def leakSchedule : List Action :=
  [.run 0 false, .run 1 false, .run 3 false, .run 2 false, .run 1 false, .run 1 false,
    .run 0 false, .run 0 false]

def leakRun : Sys :=
  (Sys.runActions (docDispatcher ownerOrThis) (Sys.init (docViewer 1)) leakSchedule).getD (Sys.init (docViewer 1))

theorem expandSetOperation_leaks_send :
    Reachable (docDispatcher ownerOrThis) (docViewer 1) leakRun ∧
      leakRun.returned = some ⟨none, some .maxDepthExceeded⟩ ∧
      ∃ g, leakRun.gs[3]? = some g ∧ g.iterOpen = true ∧ g.Blocked ∧
        ∀ s', Sys.Steps (docDispatcher ownerOrThis) leakRun s' → s'.gs[3]? = some g :=
  have hb : Goroutine.Blocked
      ⟨[2, 0], .ret ⟨some (.leafNode none [⟨⟨"user", "a", Ellipsis⟩⟩]), none⟩, [.send], true, 0, [],
        .direct (docViewer 1) .excludeStart⟩ :=
    ⟨⟨_, rfl⟩, ⟨_, rfl⟩, Nat.le_refl 0⟩
  ⟨@Reachable.of_runActions _ _ _ leakRun leakSchedule .init rfl, rfl, _, rfl, rfl, hb,
    fun _ hs => (Sys.blocked_forever rfl hb (by decide) hs).1⟩

end SpiceDB.Graph
