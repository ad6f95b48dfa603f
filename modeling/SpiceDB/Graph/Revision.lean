import SpiceDB.Graph.Schedules

/-!
# One revision, one mode

Every request an expansion dispatches, at any depth, is one hop down from a request it
already reached: revision and mode are copied, only the depth goes down. Every query a
closure issues is about its own request's object, at its request's revision. So an
expansion reads the store only at the root's revision, and two stores that answer alike
there give the same result, whatever they hold at other revisions.

`ExpandFunc.Dispatches` over-approximates the requests a closure's run can ask the dispatcher
(`run_congr`). The results about runs are stated over `run` itself: the run of every closure of
the expansion gives the same outcome with any two dispatchers that answer alike the requests of
the root's revision and mode, and in shallow mode the run of a direct read gives the same outcome
with any two dispatchers at all, so the subjects it finds are never dispatched.
-/

namespace SpiceDB.Graph

open ConcurrentExpander

namespace LocalDispatcher

variable (ld : LocalDispatcher)

/-- The closure the dispatcher builds and runs for `r`. -/
def Builds (r : ExpandRequest) (f : ExpandFunc) : Prop :=
  r.depthRemaining ≠ 0 ∧ ∃ relation,
    ld.nsm.readNamespaceAndRelation r.start.namespace_ r.start.relation r.atRevision = .ok relation ∧
      ConcurrentExpander.expand r relation = .ok f

/-- The requests an expansion of `req` dispatches, at any depth. -/
inductive Reaches (req : ExpandRequest) : ExpandRequest → Prop
  | root : Reaches req req
  | hop {r r' : ExpandRequest} {f : ExpandFunc} :
      Reaches req r → ld.Builds r f → f.Dispatches r' → Reaches req r'

variable {ld}

theorem Builds.builtFor {r : ExpandRequest} {f : ExpandFunc} (h : ld.Builds r f) : BuiltFor r f :=
  let ⟨_, _, _, hf⟩ := h
  expand_builtFor hf

/-- Every request an expansion dispatches has the root's revision and mode. -/
theorem Reaches.revision_mode {req r : ExpandRequest} (h : ld.Reaches req r) :
    r.atRevision = req.atRevision ∧ r.expansionMode = req.expansionMode := by
  induction h with
  | root => exact ⟨rfl, rfl⟩
  | hop _ hb hd ih =>
    have hop := hb.builtFor.dispatches hd
    exact ⟨hop.atRevision.trans ih.1, hop.expansionMode.trans ih.2⟩

/-- Every query of an expansion reads at the root's revision. -/
theorem Reaches.query_revision {req r : ExpandRequest} {f : ExpandFunc} {q : TupleQuery}
    (h : ld.Reaches req r) (hb : ld.Builds r f) (hq : f.Queries q) : q.revision = req.atRevision := by
  rcases hb.builtFor.queries hq with rfl | ⟨_, rfl⟩ <;> exact h.revision_mode.1

/-- The run of a closure of the expansion asks the dispatcher only requests of the root's
revision and mode. -/
theorem Reaches.run_congr_mode {req r : ExpandRequest} {f : ExpandFunc} (h : ld.Reaches req r)
    (hb : ld.Builds r f) {d₁ d₂ : Dispatcher}
    (hagree : ∀ r', r'.atRevision = req.atRevision → r'.expansionMode = req.expansionMode →
      d₁.expand r' = d₂.expand r') :
    run ⟨d₁, ld.ds⟩ f = run ⟨d₂, ld.ds⟩ f :=
  run_congr f (fun r' hd => (Reaches.hop h hb hd).revision_mode.elim (hagree r'))
    fun _ _ => rfl

/-- In shallow mode a direct read of the expansion asks the dispatcher nothing. -/
theorem Reaches.run_direct_shallow {req r : ExpandRequest}
    (hs : req.expansionMode = .shallowExpansion) (h : ld.Reaches req r) (sb : StartInclusion)
    (d₁ d₂ : Dispatcher) : run ⟨d₁, ld.ds⟩ (.direct r sb) = run ⟨d₂, ld.ds⟩ (.direct r sb) := by
  have hmode : r.expansionMode = .shallowExpansion := h.revision_mode.2.trans hs
  simp [run, expandDirect, hmode]

/-- Two stores that answer alike at revision `rev` give the same expansion of every request
at `rev`. -/
theorem expandAux_congr_store {nsm : NamespaceManager} {ds₁ ds₂ : GraphDatastore} {rev : Revision}
    (hagree : ∀ q : TupleQuery, q.revision = rev → ds₁.queryTuples q = ds₂.queryTuples q) :
    ∀ (n : Nat) (r : ExpandRequest), r.atRevision = rev →
      (⟨nsm, ds₁⟩ : LocalDispatcher).expandAux n r = (⟨nsm, ds₂⟩ : LocalDispatcher).expandAux n r
  | 0, _, _ => rfl
  | n + 1, r, hr => by
    simp only [expandAux]
    split
    · rfl
    · split
      · rfl
      · split
        · rfl
        · rename_i f hf
          refine congrArg expandOne (run_congr f (fun r' hr' => ?_) (fun q hq => hagree q ?_))
          · exact expandAux_congr_store hagree n r'
              (((expand_builtFor hf).dispatches hr').atRevision.trans hr)
          · rcases (expand_builtFor hf).queries hq with rfl | ⟨_, rfl⟩ <;> exact hr

end LocalDispatcher

/--
**One revision, one mode.** Every request an expansion dispatches, at any depth, carries the
root request's revision and mode, and the run of every closure of the expansion gives the same
outcome with any two dispatchers that answer alike the requests of that revision and mode; every
query it issues reads at that revision; in shallow mode the run of a direct read of the expansion
gives the same outcome whatever the dispatcher, so no subject it finds is dispatched; and two
stores that answer alike at the root's revision give the same result.
-/
theorem expansion_reads_one_revision (ld : LocalDispatcher) (req : ExpandRequest) :
    (∀ r, ld.Reaches req r → r.atRevision = req.atRevision ∧ r.expansionMode = req.expansionMode) ∧
      (∀ r f, ld.Reaches req r → ld.Builds r f → ∀ d₁ d₂ : Dispatcher,
        (∀ r', r'.atRevision = req.atRevision → r'.expansionMode = req.expansionMode →
          d₁.expand r' = d₂.expand r') →
        run ⟨d₁, ld.ds⟩ f = run ⟨d₂, ld.ds⟩ f) ∧
      (∀ r f q, ld.Reaches req r → ld.Builds r f → f.Queries q → q.revision = req.atRevision) ∧
      (req.expansionMode = .shallowExpansion → ∀ r, ld.Reaches req r →
        ∀ sb (d₁ d₂ : Dispatcher), run ⟨d₁, ld.ds⟩ (.direct r sb) = run ⟨d₂, ld.ds⟩ (.direct r sb)) ∧
      (∀ ds₂ : GraphDatastore,
        (∀ q : TupleQuery, q.revision = req.atRevision → ld.ds.queryTuples q = ds₂.queryTuples q) →
          ld.expand req = (⟨ld.nsm, ds₂⟩ : LocalDispatcher).expand req) :=
  ⟨fun _ h => h.revision_mode, fun _ _ h hb _ _ hagree => h.run_congr_mode hb hagree,
    fun _ _ _ h hb hq => h.query_revision hb hq, fun hs _ h => h.run_direct_shallow hs,
    fun _ hagree => LocalDispatcher.expandAux_congr_store hagree _ req rfl⟩

end SpiceDB.Graph
