import SpiceDB.Graph.Expand

/-!
# What a closure reads, and why the recursion stops

A closure's result depends on two collaborators only: the dispatcher, through the
requests it hands over, and the datastore, through the queries it issues.
`Dispatches` and `Queries` collect both, and `run_congr` says nothing else
matters — this is the frame lemma every later argument about two runs uses.

Every closure built for a request `req` (`BuiltFor req`) captures `req` itself,
and every request it dispatches is one hop down: same revision, same mode, and
`DepthRemaining - 1`. The dispatcher refuses depth zero before it builds anything,
so the `uint16` decrement never wraps, and a chain of hops from a request of
depth `d` has at most `d` links. That is the fuel bound: `d + 1` fuel never runs
out, and more fuel changes nothing.
-/

namespace SpiceDB.Graph

open ConcurrentExpander

/-! ## Decrementing a `uint16` -/

theorem UInt16.eq_zero_iff {d : UInt16} : d = 0 ↔ d.toNat = 0 :=
  ⟨fun h => by simp [h], fun h => UInt16.toNat.inj (by simpa using h)⟩

/-- Above zero, `DepthRemaining - 1` does not wrap. -/
theorem UInt16.toNat_sub_one {d : UInt16} (h : d ≠ 0) : (d - 1).toNat = d.toNat - 1 := by
  have h1 : d.toNat ≠ 0 := fun h0 => h (UInt16.eq_zero_iff.mpr h0)
  rw [UInt16.toNat_sub_of_le]
  · rfl
  · rw [UInt16.le_def, BitVec.le_def]
    show 1 ≤ d.toNat
    omega

/-! ## What a closure reads -/

/-- The requests a closure may hand to its dispatcher. -/
inductive ExpandFunc.Dispatches : ExpandFunc → ExpandRequest → Prop
  | direct {req : ExpandRequest} {sb : StartInclusion} (user : User) :
      req.expansionMode = .recursiveExpansion →
      Dispatches (.direct req sb) (nonTerminalRequest req user)
  | setOperation {req : ExpandRequest} {op : Operation} {fs : List ExpandFunc} {f : ExpandFunc}
      {r : ExpandRequest} : f ∈ fs → Dispatches f r → Dispatches (.setOperation req op fs) r
  | dispatch (req : ExpandRequest) : Dispatches (.dispatch req) req
  | tupleToUserset {req : ExpandRequest} {ttu : TupleToUserset} {r : ExpandRequest}
      (tpl : RelationTuple) : computedUsersetRequest req ttu.computedUserset (some tpl) = .ok r →
      Dispatches (.tupleToUserset req ttu) r

/-- The queries a closure may issue. -/
inductive ExpandFunc.Queries : ExpandFunc → TupleQuery → Prop
  | direct (req : ExpandRequest) (sb : StartInclusion) : Queries (.direct req sb) (directQuery req)
  | setOperation {req : ExpandRequest} {op : Operation} {fs : List ExpandFunc} {f : ExpandFunc}
      {q : TupleQuery} : f ∈ fs → Queries f q → Queries (.setOperation req op fs) q
  | tupleToUserset (req : ExpandRequest) (ttu : TupleToUserset) :
      Queries (.tupleToUserset req ttu) (tuplesetQuery req ttu)

/-- An element of a list mapped without error comes from an element of the source. -/
theorem exists_of_mapM_ok {α β ε : Type} {g : α → Except ε β} :
    ∀ {l : List α} {bs : List β} {b : β}, l.mapM g = .ok bs → b ∈ bs → ∃ a ∈ l, g a = .ok b
  | [], bs, b, h, hb => by
    simp only [List.mapM_nil] at h
    cases h
    simp at hb
  | a :: l, bs, b, h, hb => by
    rw [List.mapM_cons] at h
    cases ha : g a with
    | error e => rw [ha] at h; cases h
    | ok b' =>
      cases hl : l.mapM g with
      | error e => rw [ha, hl] at h; cases h
      | ok bs' =>
        rw [ha, hl] at h
        cases h
        rcases List.mem_cons.mp hb with rfl | hb
        · exact ⟨a, List.mem_cons_self _ _, ha⟩
        · obtain ⟨a', ha', hg⟩ := exists_of_mapM_ok hl hb
          exact ⟨a', List.mem_cons_of_mem _ ha', hg⟩

mutual

/--
**The frame lemma.** A closure's result is decided by the dispatcher's answers to
the requests it dispatches and the datastore's answers to the queries it issues.
-/
theorem run_congr {d₁ d₂ : Dispatcher} {ds₁ ds₂ : GraphDatastore} :
    ∀ f : ExpandFunc, (∀ r, f.Dispatches r → d₁.expand r = d₂.expand r) →
      (∀ q, f.Queries q → ds₁.queryTuples q = ds₂.queryTuples q) →
      run ⟨d₁, ds₁⟩ f = run ⟨d₂, ds₂⟩ f
  | .direct req sb, hd, hq => by
    simp only [run, expandDirect]
    rw [hq _ (.direct req sb)]
    split
    · rfl
    · rename_i hmode
      split
      · rfl
      · rename_i hrec
        have hm : req.expansionMode = .recursiveExpansion := by
          by_contra hne; simp [hne] at hrec
        congr 2
        exact List.map_congr_left fun u _ => hd _ (.direct u hm)
  | .setOperation req op fs, hd, hq => by
    simp only [run, runAll_eq_map]
    rw [runAll_congr fs (fun f hf r hr => hd r (.setOperation hf hr))
      (fun f hf q hq' => hq q (.setOperation hf hq'))]
  | .dispatch req, hd, _ => hd req (.dispatch req)
  | .tupleToUserset req ttu, hd, hq => by
    simp only [run, expandTupleToUserset]
    rw [hq _ (.tupleToUserset req ttu)]
    split
    · rfl
    · split
      · rfl
      · rename_i hreqs
        congr 1
        refine List.map_congr_left fun r hr => hd r ?_
        obtain ⟨tpl, -, htpl⟩ := exists_of_mapM_ok hreqs hr
        exact .tupleToUserset tpl htpl
  | .alwaysFail, _, _ => rfl

/-- `run_congr` over a list of closures. -/
theorem runAll_congr {d₁ d₂ : Dispatcher} {ds₁ ds₂ : GraphDatastore} :
    ∀ fs : List ExpandFunc, (∀ f ∈ fs, ∀ r, f.Dispatches r → d₁.expand r = d₂.expand r) →
      (∀ f ∈ fs, ∀ q, f.Queries q → ds₁.queryTuples q = ds₂.queryTuples q) →
      fs.map (run ⟨d₁, ds₁⟩) = fs.map (run ⟨d₂, ds₂⟩)
  | [], _, _ => rfl
  | f :: fs, hd, hq => by
    simp only [List.map_cons]
    rw [run_congr f (hd f (List.mem_cons_self _ _)) (hq f (List.mem_cons_self _ _)),
      runAll_congr fs (fun g hg => hd g (List.mem_cons_of_mem _ hg))
        (fun g hg => hq g (List.mem_cons_of_mem _ hg))]

end

/-! ## What a closure built for a request captures -/

/-- One dispatcher hop down from `req`: same revision and mode, one less depth. -/
structure HopFrom (req r : ExpandRequest) : Prop where
  atRevision : r.atRevision = req.atRevision
  expansionMode : r.expansionMode = req.expansionMode
  depthRemaining : r.depthRemaining = req.depthRemaining - 1

/-- A closure the expander builds for `req`: it captures `req`, and dispatches hops. -/
inductive BuiltFor (req : ExpandRequest) : ExpandFunc → Prop
  | direct (sb : StartInclusion) : BuiltFor req (.direct req sb)
  | setOperation (op : Operation) {fs : List ExpandFunc} :
      (∀ f ∈ fs, BuiltFor req f) → BuiltFor req (.setOperation req op fs)
  | dispatch {r : ExpandRequest} : HopFrom req r → BuiltFor req (.dispatch r)
  | tupleToUserset (ttu : TupleToUserset) : BuiltFor req (.tupleToUserset req ttu)
  | alwaysFail : BuiltFor req .alwaysFail

theorem nonTerminalRequest_hop (req : ExpandRequest) (user : User) :
    HopFrom req (nonTerminalRequest req user) := ⟨rfl, rfl, rfl⟩

theorem computedUsersetRequest_hop {req r : ExpandRequest} {cu : ComputedUserset}
    {tpl : Option RelationTuple} (h : computedUsersetRequest req cu tpl = .ok r) :
    HopFrom req r := by
  simp only [computedUsersetRequest, bind, Except.bind] at h
  split at h
  · cases h
  · cases h; exact ⟨rfl, rfl, rfl⟩

mutual

theorem expandUsersetRewrite_builtFor (req : ExpandRequest) :
    ∀ (usr : UsersetRewrite) {f : ExpandFunc}, expandUsersetRewrite req usr = .ok f → BuiltFor req f
  | .union child, f, h | .intersection child, f, h | .exclusion child, f, h => by
    simp only [expandUsersetRewrite, Functor.map, Except.map] at h
    split at h
    · cases h
    · rename_i fs hfs
      cases h
      exact .setOperation _ (expandChildren_builtFor req child hfs)
  | .unset, f, h => by cases h; exact .alwaysFail

theorem expandChildren_builtFor (req : ExpandRequest) :
    ∀ (cs : List SetOperationChild) {fs : List ExpandFunc}, expandChildren req cs = .ok fs →
      ∀ f ∈ fs, BuiltFor req f
  | [], fs, h => by cases h; simp
  | c :: cs, fs, h => by
    have tail : ∀ {g : ExpandFunc} {fs' : List ExpandFunc}, BuiltFor req g →
        (g :: ·) <$> expandChildren req cs = .ok fs' → ∀ f ∈ fs', BuiltFor req f := by
      intro g fs' hg h'
      simp only [Functor.map, Except.map] at h'
      split at h'
      · cases h'
      · rename_i gs hgs
        cases h'
        intro f hf
        rcases List.mem_cons.mp hf with rfl | hf
        · exact hg
        · exact expandChildren_builtFor req cs hgs f hf
    match c with
    | .this => exact tail (.direct _) h
    | .computedUserset cu =>
      simp only [expandChildren, bind, Except.bind] at h
      split at h
      · cases h
      · rename_i g hg
        simp only [expandComputedUserset, Functor.map, Except.map] at hg
        split at hg
        · cases hg
        · rename_i r hr
          cases hg
          exact tail (.dispatch (computedUsersetRequest_hop hr)) h
    | .usersetRewrite rw =>
      simp only [expandChildren, bind, Except.bind] at h
      split at h
      · cases h
      · rename_i g hg
        exact tail (expandUsersetRewrite_builtFor req rw hg) h
    | .tupleToUserset ttu => exact tail (.tupleToUserset ttu) h
    | .unset => exact expandChildren_builtFor req cs h

end

/-- Every closure `expand` builds for `req` is built for `req`. -/
theorem expand_builtFor {req : ExpandRequest} {relation : Relation} {f : ExpandFunc}
    (h : expand req relation = .ok f) : BuiltFor req f := by
  simp only [expand] at h
  split at h
  · cases h; exact .direct _
  · exact expandUsersetRewrite_builtFor req _ h

/-- Everything a closure built for `req` dispatches is one hop down from `req`. -/
theorem BuiltFor.dispatches {req r : ExpandRequest} {f : ExpandFunc} (hb : BuiltFor req f)
    (hd : f.Dispatches r) : HopFrom req r := by
  induction hd with
  | direct user _ => cases hb; exact nonTerminalRequest_hop req user
  | setOperation hf _ ih => cases hb with
    | setOperation _ hfs => exact ih (hfs _ hf)
  | dispatch => cases hb with
    | dispatch hop => exact hop
  | tupleToUserset tpl h => cases hb; exact computedUsersetRequest_hop h

/-- Everything a closure built for `req` queries is about `req`'s object, at its revision. -/
theorem BuiltFor.queries {req : ExpandRequest} {f : ExpandFunc} {q : TupleQuery}
    (hb : BuiltFor req f) (hq : f.Queries q) :
    q = directQuery req ∨ ∃ ttu, q = tuplesetQuery req ttu := by
  induction hq with
  | direct => cases hb; exact .inl rfl
  | setOperation hf _ ih => cases hb with
    | setOperation _ hfs => exact ih (hfs _ hf)
  | tupleToUserset _ ttu => cases hb; exact .inr ⟨ttu, rfl⟩

/-! ## What every closure keeps -/

/-- A property of outcomes that each way a closure can end has by itself: an error, a tree, a
panic. The reducers, `appendLeaf` and `ExpandOne` keep it, and so does every closure whose
dispatches have it (`Outcome.Closed.run`). -/
structure Outcome.Closed (P : Outcome → Prop) : Prop where
  error : ∀ e, P (.result ⟨none, some e⟩)
  tree : ∀ t, P (.result ⟨some t, none⟩)
  panic : ∀ msg, P (.panic msg)

/-- A sequential reducer ends with its own result or with one of its children's outcomes. -/
theorem Outcome.Closed.collect {P : Outcome → Prop} (hP : Outcome.Closed P) {op : Operation}
    {start : ObjectAndRelation} :
    ∀ {acc : List (Option RelationTupleTreeNode)} {outs : List Outcome},
      (∀ o ∈ outs, P o) → P (collectChildren op start acc outs)
  | _, [], _ => hP.tree _
  | _, .result r :: _, h => by
    simp only [collectChildren]
    split
    · exact hP.error _
    · exact Outcome.Closed.collect hP fun o ho => h o (List.mem_cons_of_mem _ ho)
  | _, .panic _ :: _, h => h _ (List.mem_cons_self _ _)
  | _, .outOfFuel :: _, h => h _ (List.mem_cons_self _ _)

theorem Outcome.Closed.append {P : Outcome → Prop} (hP : Outcome.Closed P)
    {leaf : RelationTupleTreeNode} {o : Outcome} (h : P o) : P (appendLeaf leaf o) := by
  unfold appendLeaf
  split
  · split
    · exact h
    · exact hP.tree _
    · exact hP.panic _
  · exact h

/-- `appendLeaf` succeeds only on a successful node, and appends the leaf to its children. -/
theorem appendLeaf_success {leaf : RelationTupleTreeNode} {o : Outcome} {res : ExpandResult}
    (h : appendLeaf leaf o = .result res) (he : res.err = none) :
    ∃ r₀ expanded op children, o = .result r₀ ∧ r₀.err = none ∧
      r₀.tree = some (.intermediateNode expanded op children) ∧
      res = ⟨some (.intermediateNode expanded op (children ++ [some leaf])), none⟩ := by
  cases o with
  | result r₀ =>
    obtain ⟨tree, err⟩ := r₀
    cases err with
    | some e =>
      cases h
      cases he
    | none =>
      cases tree with
      | none => cases h
      | some t =>
        cases t with
        | intermediateNode expanded op children =>
          cases h
          exact ⟨_, expanded, op, children, rfl, rfl, rfl, rfl⟩
        | leafNode => cases h
  | panic => cases h
  | outOfFuel => cases h

/-- `ExpandOne` succeeds only where its closure does, with the same result. -/
theorem expandOne_success {o : Outcome} {res : ExpandResult} (h : expandOne o = .result res)
    (he : res.err = none) : o = .result res := by
  cases o with
  | result r =>
    simp only [expandOne] at h
    split at h
    · cases h
      rename_i hr
      rw [he] at hr
      cases hr
    · exact h
  | panic => cases h
  | outOfFuel => cases h

theorem Outcome.Closed.one {P : Outcome → Prop} (hP : Outcome.Closed P) {o : Outcome} (h : P o) :
    P (expandOne o) := by
  unfold expandOne
  split
  · split
    · rename_i hr
      obtain ⟨e, he⟩ := Option.isSome_iff_exists.mp hr
      rw [he]
      exact hP.error e
    · exact h
  · exact h

mutual

/-- Every closure keeps a closed property its dispatcher's outcomes have. -/
theorem Outcome.Closed.run {P : Outcome → Prop} (hP : Outcome.Closed P)
    {ce : ConcurrentExpander} :
    ∀ f : ExpandFunc, (∀ r, f.Dispatches r → P (ce.d.expand r)) → P (ce.run f)
  | .direct req sb, hd => by
    simp only [ConcurrentExpander.run, expandDirect]
    split
    · exact hP.error _
    · split
      · exact hP.tree _
      · rename_i hrec
        have hm : req.expansionMode = .recursiveExpansion := by
          by_contra hne; simp [hne] at hrec
        refine hP.append (hP.collect fun o ho => ?_)
        obtain ⟨u, -, rfl⟩ := List.mem_map.mp ho
        exact hd _ (.direct u hm)
  | .setOperation req op fs, hd => by
    simp only [ConcurrentExpander.run, runAll_eq_map]
    exact hP.collect (Outcome.Closed.runAll hP fs fun f hf r hr => hd r (.setOperation hf hr))
  | .dispatch req, hd => hd req (.dispatch req)
  | .tupleToUserset req ttu, hd => by
    simp only [ConcurrentExpander.run, expandTupleToUserset]
    split
    · exact hP.error _
    · split
      · exact hP.panic _
      · rename_i hreqs
        refine hP.collect fun o ho => ?_
        obtain ⟨r, hr, rfl⟩ := List.mem_map.mp ho
        obtain ⟨tpl, -, htpl⟩ := exists_of_mapM_ok hreqs hr
        exact hd r (.tupleToUserset tpl htpl)
  | .alwaysFail, _ => hP.error _

/-- `Outcome.Closed.run` over a list of closures. -/
theorem Outcome.Closed.runAll {P : Outcome → Prop} (hP : Outcome.Closed P)
    {ce : ConcurrentExpander} :
    ∀ fs : List ExpandFunc, (∀ f ∈ fs, ∀ r, f.Dispatches r → P (ce.d.expand r)) →
      ∀ o ∈ fs.map ce.run, P o
  | [], _ => by simp
  | f :: fs, hd => by
    intro o ho
    rcases List.mem_cons.mp ho with rfl | ho
    · exact Outcome.Closed.run hP f (hd f (List.mem_cons_self _ _))
    · exact Outcome.Closed.runAll hP fs (fun g hg => hd g (List.mem_cons_of_mem _ hg)) o ho

end

/-- Only fuel runs out. -/
theorem Outcome.closed_ne_outOfFuel : Outcome.Closed (· ≠ .outOfFuel) :=
  ⟨fun _ => nofun, fun _ => nofun, fun _ => nofun⟩

/-- Every result an outcome carries has exactly one of tree and error. -/
def Outcome.Valid (o : Outcome) : Prop := ∀ r, o = .result r → r.Valid

theorem Outcome.closed_valid : Outcome.Closed Outcome.Valid where
  error _ _ h := by cases h; simp [ExpandResult.Valid]
  tree _ _ h := by cases h; simp [ExpandResult.Valid]
  panic _ _ h := by cases h

namespace LocalDispatcher

variable (ld : LocalDispatcher)

/-- The requests a hop above depth zero dispatches sit one level lower. -/
theorem depth_of_hop {req r : ExpandRequest} {relation : Relation} {f : ExpandFunc}
    (hz : req.depthRemaining ≠ 0) (hf : ConcurrentExpander.expand req relation = .ok f)
    (hr : f.Dispatches r) :
    r.depthRemaining.toNat + 1 = req.depthRemaining.toNat := by
  have h0 : req.depthRemaining.toNat ≠ 0 := fun h => hz (UInt16.eq_zero_iff.mpr h)
  rw [((expand_builtFor hf).dispatches hr).depthRemaining, UInt16.toNat_sub_one hz]
  omega

/-- Fuel above the depth gives the same outcome whatever its amount. -/
theorem expandAux_stable : ∀ {n m : Nat} {req : ExpandRequest},
    req.depthRemaining.toNat < n → req.depthRemaining.toNat < m →
      ld.expandAux n req = ld.expandAux m req
  | 0, _, _, hn, _ => absurd hn (Nat.not_lt_zero _)
  | _ + 1, 0, _, _, hm => absurd hm (Nat.not_lt_zero _)
  | n + 1, m + 1, req, hn, hm => by
    simp only [expandAux]
    split
    · rfl
    · rename_i hz
      split
      · rfl
      · split
        · rfl
        · rename_i f hf
          congr 1
          refine run_congr f (fun r hr => ?_) (fun _ _ => rfl)
          have := depth_of_hop hz hf hr
          exact expandAux_stable (by omega) (by omega)

/-- Fuel above the depth never runs out. -/
theorem expandAux_ne_outOfFuel : ∀ {n : Nat} {req : ExpandRequest},
    req.depthRemaining.toNat < n → ld.expandAux n req ≠ .outOfFuel
  | 0, _, hn => absurd hn (Nat.not_lt_zero _)
  | n + 1, req, hn => by
    simp only [expandAux]
    split
    · nofun
    · rename_i hz
      split
      · nofun
      · split
        · nofun
        · rename_i f hf
          refine Outcome.closed_ne_outOfFuel.one (Outcome.closed_ne_outOfFuel.run f fun r hr => ?_)
          have := depth_of_hop hz hf hr
          exact expandAux_ne_outOfFuel (by omega)

/-- Every result of the sequential expansion has exactly one of tree and error. -/
theorem expandAux_valid : ∀ (n : Nat) (req : ExpandRequest), (ld.expandAux n req).Valid
  | 0, _ => fun _ h => by cases h
  | n + 1, req => by
    simp only [expandAux]
    split
    · exact Outcome.closed_valid.error _
    · split
      · exact Outcome.closed_valid.error _
      · split
        · exact Outcome.closed_valid.panic _
        · exact Outcome.closed_valid.one (Outcome.closed_valid.run _ fun r _ => expandAux_valid n r)

/--
**Expansion terminates.** For every schema and snapshot, a request of depth `d`
needs at most `d + 1` dispatcher calls in a row: that much fuel never runs out,
and any more gives the same outcome.
-/
theorem expand_terminates (req : ExpandRequest) :
    ld.expandAux (req.depthRemaining.toNat + 1) req ≠ .outOfFuel ∧
      ∀ n, req.depthRemaining.toNat < n →
        ld.expandAux n req = ld.expandAux (req.depthRemaining.toNat + 1) req :=
  ⟨ld.expandAux_ne_outOfFuel (Nat.lt_succ_self _),
    fun _ hn => ld.expandAux_stable hn (Nat.lt_succ_self _)⟩

/-- `Expand` is the run with fuel one above the depth. -/
theorem expand_eq_expandAux (req : ExpandRequest) :
    ld.expand req = ld.expandAux (req.depthRemaining.toNat + 1) req :=
  ld.expandAux_stable req.depthRemaining.toNat_lt_size (Nat.lt_succ_self _)

end LocalDispatcher

end SpiceDB.Graph
