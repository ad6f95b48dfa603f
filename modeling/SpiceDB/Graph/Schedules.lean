import SpiceDB.Graph.Interleaving

/-!
# Every schedule returns the sequential result

One lemma per kind of step shows that it keeps the invariant of `Interleaving.lean`:
the caller's cancellation, the body of each closure up to its first receive, a
reducer's receive and its exits, `ExpandOne`'s receive, and a return to each kind
of frame. By induction every reachable state keeps it, and what the caller of the
dispatcher gets back is read off it.
-/

namespace SpiceDB.Graph

open ConcurrentExpander

/-! ## The dispatcher and the reference of each closure -/

namespace LocalDispatcher

variable (ld : LocalDispatcher)

@[simp] theorem expanderAt_ds (n : Nat) : (ld.expanderAt n).ds = ld.ds := rfl

@[simp] theorem expanderAt_expand (n : Nat) : (ld.expanderAt n).d.expand = ld.expandAux n := rfl

theorem expand_of_zero {r : ExpandRequest} (hz : r.depthRemaining = 0) :
    ld.expand r = .result ⟨none, some .maxDepthExceeded⟩ := by
  rw [expand, show UInt16.size = 65535 + 1 from rfl, expandAux, if_pos hz]

theorem expand_of_error {r : ExpandRequest} {err : String} (hz : r.depthRemaining ≠ 0)
    (hns : ld.nsm.readNamespaceAndRelation r.start.namespace_ r.start.relation r.atRevision =
      .error err) :
    ld.expand r = .result ⟨none, some (.expansionFailure err)⟩ := by
  rw [expand, show UInt16.size = 65535 + 1 from rfl, expandAux, if_neg hz, hns]

/-- A dispatch that resolves its relation to closure `f` awaits `f` with `ExpandOne`: the fuel
left to its hops is enough either way. -/
theorem expand_of_ok {r : ExpandRequest} {relation : Relation} {f : ExpandFunc}
    (hz : r.depthRemaining ≠ 0)
    (hns : ld.nsm.readNamespaceAndRelation r.start.namespace_ r.start.relation r.atRevision =
      .ok relation)
    (hf : ConcurrentExpander.expand r relation = .ok f) :
    ld.expand r = expandOne (ld.reference f) := by
  have hlt : r.depthRemaining.toNat < 65536 := r.depthRemaining.toNat_lt_size
  rw [expand, show UInt16.size = 65535 + 1 from rfl, expandAux, if_neg hz, hns]
  simp only [hf, reference, expanderAt]
  refine congrArg expandOne (run_congr f (fun r' hr' => ?_) (fun _ _ => rfl))
  have := depth_of_hop hz hf hr'
  exact ld.expandAux_stable (by omega) (show _ < 65536 by omega)

theorem reference_setOperation (r : ExpandRequest) (op : Operation) (fs : List ExpandFunc) :
    ld.reference (.setOperation r op fs) = collectChildren op r.start [] (fs.map ld.reference) := by
  simp only [reference, run, runAll_eq_map, Graph.expandSetOperation]
  rfl

end LocalDispatcher

section Steps

variable {ld : LocalDispatcher} {req : ExpandRequest}

/-! ## What a step does to one goroutine -/

theorem BufOk.mono {s s' : Sys} {g : Goroutine} (h : BufOk ld s g) (hext : s.Extends s') :
    BufOk ld s' g :=
  fun v hv => (h v hv).imp_right fun ⟨h1, h2⟩ => ⟨h1, hext.done h2⟩

/-- Only the caller's goroutine runs a closure under the `caller` frame, and that closure is
the dispatch of the request. -/
theorem Shape.stack_of_call {g : Goroutine} {f : ExpandFunc} (h : Shape req g)
    (hcode : g.code = .call f) (hf : f ≠ .dispatch req) : g.stack = [.send] := by
  rcases h with h | ⟨-, -, -, h⟩ | h | ⟨-, -, h⟩
  · rw [hcode] at h; cases h
  · exact absurd (h f hcode) hf
  · exact h
  · exact absurd hcode (h f)

/-- A goroutine that starts returning `r` keeps its invariant when `r` is what the rest of its
code would deliver, or `RequestCanceled` on a done context. -/
theorem GInv.toRet {s s' : Sys} {i : Nat} {g : Goroutine} {r : ExpandResult} {b : Bool}
    (h : GInv ld req s i g) (hext : s.Extends s') (hne : g.code ≠ .exited)
    (hgoal : stackRef g.stack (.result r) = ld.reference g.src ∨
      (r = canceledResult ∧ s.done g.ctx = true)) :
    GInv ld req s' i { g with code := .ret r, iterOpen := b } where
  goal := by
    rcases hgoal with h1 | ⟨rfl, h1⟩
    · exact .inr (.inl h1)
    · exact .inr (.inr ⟨rfl, hext.done h1⟩)
  buf := h.buf.mono hext
  shape := h.shape.setCode hne (fun _ => nofun) rfl rfl rfl
  awaits := trivial

/-- A goroutine that moves on to code `c` keeps its invariant when `c` reads as its old code
did and finds what it awaits. -/
theorem GInv.toCode {s s' : Sys} {i : Nat} {g : Goroutine} {c : Code} (h : GInv ld req s i g)
    (hext : s.Extends s') (hne : g.code ≠ .exited) (hnr : ∀ r, g.code ≠ .ret r)
    (hcall : ∀ f, c ≠ .call f) (hread : s'.codeRef ld c = s.codeRef ld g.code)
    (haw : Awaits s' i { g with code := c }) : GInv ld req s' i { g with code := c } where
  goal := .inr (.inl (by
    show stackRef g.stack (s'.codeRef ld c) = _
    rw [hread]
    exact h.running rfl hne hnr))
  buf := h.buf.mono hext
  shape := h.shape.setCode hne hcall rfl rfl rfl
  awaits := haw

/-- A goroutine just started on `f` keeps the invariant while its scope number is free. -/
theorem GInv.spawned {s : Sys} {k : Nat} {ctx : List Nat} {cap : Nat} {f : ExpandFunc}
    (hk : k + 1 ∉ s.cancelled) : GInv ld req s k (Sys.spawned ctx cap f) :=
  ⟨.inr (.inl rfl), fun _ hv => absurd hv (List.not_mem_nil _), .inr (.inr (.inl rfl)), hk⟩

/-! ## What a step does to the process -/

/-- The invariant reads only the goroutines, the cancellations and what was returned. -/
theorem Inv.congr {s s' : Sys} (hinv : Inv ld req s) (hgs : s.gs = s'.gs)
    (hc : s.cancelled = s'.cancelled)
    (hret : ∀ r, s'.returned = some r →
      ld.expand req = .result r ∨ (r = canceledResult ∧ 0 ∈ s'.cancelled)) : Inv ld req s' where
  gor i g hi := (hinv.gor i g (by rwa [hgs])).frame (Sys.extends_of_eq hgs hc) (by rw [hc]; exact id)
  returned := hret
  scopes x hx := by
    rw [← hgs]
    exact hinv.scopes x (by rwa [hc])

/-- Starting goroutines keeps the invariant. -/
theorem Inv.spawnAll {s : Sys} (hinv : Inv ld req s) (ctx : List Nat) (cap : Nat)
    (fs : List ExpandFunc) : Inv ld req (s.spawnAll ctx cap fs) := by
  refine hinv.of_touch (s.gs.length ≤ ·) (Sys.extends_spawnAll s ctx cap fs)
    (by simp [Sys.spawnAll_gs]) (fun k g hk hT => ?_) (fun x hx => .inl hx) hinv.returned
  rw [Sys.getElem?_spawnAll] at hk
  split at hk
  · rename_i hlt
    exact absurd hk (hT.resolve_left (Nat.not_le.mpr hlt))
  · obtain ⟨f, -, rfl⟩ := Option.map_eq_some'.mp hk
    exact GInv.spawned fun hc => by have := hinv.scopes _ hc; omega

/-- Entering `expandSetOperation` keeps the invariant, when the reducer's result read through
the goroutine's new stack is the reference of its closure. -/
theorem Inv.startReducer {s : Sys} {i : Nat} {g g₁ : Goroutine} {op : Operation}
    {start : ObjectAndRelation} {fs : List ExpandFunc} (hinv : Inv ld req s)
    (hi : s.gs[i]? = some g) (hsrc : g₁.src = g.src) (hctx : g₁.ctx = g.ctx)
    (hbuf : BufOk ld s g₁) (hnc : i + 1 ∉ s.cancelled)
    (hread : stackRef g₁.stack (collectChildren op start [] (fs.map ld.reference)) =
      ld.reference g.src)
    (hshape : ∀ c : Code, (∀ f, c ≠ .call f) → Shape req { g₁ with code := c }) :
    Inv ld req (s.startReducer i g₁ op start fs) := by
  unfold Sys.startReducer
  split
  · rename_i hfs
    rw [List.isEmpty_iff.mp hfs] at hread
    exact hinv.update hi hsrc hctx
      ⟨.inr (.inl (hsrc ▸ hread)), hbuf.mono (Sys.extends_update hi hsrc hctx),
        hshape _ fun _ => nofun, trivial⟩
  · have hlt : i < s.gs.length := (List.getElem?_eq_some_iff.mp hi).1
    have hi' : (s.spawnAll ((i + 1) :: g₁.ctx) 0 fs).gs[i]? = some g := by
      rw [Sys.getElem?_spawnAll_of_lt hlt, hi]
    set g₂ : Goroutine := { g₁ with code := .awaitAll op start (List.range' s.gs.length fs.length) [] }
    have hsrc₂ : g₂.src = g.src := hsrc
    have hext := (Sys.extends_spawnAll s ((i + 1) :: g₁.ctx) 0 fs).trans
      (Sys.extends_update hi' hsrc₂ hctx)
    refine (hinv.spawnAll _ 0 fs).update hi' hsrc₂ hctx
      ⟨.inr (.inl ?_), hbuf.mono hext, hshape _ fun _ => nofun, hnc, fun k hk => ?_⟩
    · have hm := congrArg (List.map ld.reference) (Sys.map_src_spawnAll s ((i + 1) :: g₁.ctx) 0 fs)
      rw [List.map_map] at hm
      show stackRef g₁.stack (collectChildren op start []
        ((List.range' s.gs.length fs.length).map fun j => ld.reference (Sys.src _ j))) = _
      rw [Sys.src_update hi' hsrc₂, hsrc₂]
      exact hm ▸ hread
    · obtain ⟨hk₁, hk₂⟩ := List.mem_range'_1.mp hk
      have hkf : k - s.gs.length < fs.length := by omega
      refine ⟨Sys.spawned ((i + 1) :: g₁.ctx) 0 fs[k - s.gs.length], ?_, rfl⟩
      have hki : ¬(i = k ∧ i < (s.spawnAll ((i + 1) :: g₁.ctx) 0 fs).gs.length) := by omega
      have hkl : ¬k < s.gs.length := by omega
      simp only [Sys.getElem?_update, hki, Sys.getElem?_spawnAll, hkl, if_false,
        List.getElem?_eq_getElem hkf, Option.map_some']

/-- The caller cancels its context. -/
theorem Inv.cancel {s : Sys} (hinv : Inv ld req s) : Inv ld req (s.cancelScope 0) :=
  hinv.of_touch (fun _ => False) (Sys.extends_cancelScope s 0) le_rfl
    (fun _ _ hk hT => absurd hk (hT.resolve_left id))
    (fun _ hx => (List.mem_cons.mp hx).symm.imp_right .inl)
    (fun r hr => (hinv.returned r hr).imp_right fun ⟨h1, _⟩ => ⟨h1, List.mem_cons_self _ _⟩)

/-! ## Receiving -/

/-- A reducer with nothing left to receive returns its node and cancels its scope. -/
theorem Inv.awaitAll_nil {s : Sys} {i : Nat} {g : Goroutine} {op : Operation}
    {start : ObjectAndRelation} {children : List (Option RelationTupleTreeNode)}
    (hinv : Inv ld req s) (hi : s.gs[i]? = some g)
    (hcode : g.code = .awaitAll op start [] children) :
    Inv ld req ((s.update i { g with code := .ret (setResult op start children) }).cancelScope
      (i + 1)) :=
  have hg := hinv.gor i g hi
  hinv.update_cancel hi rfl rfl <| hg.toRet (Sys.extends_update_cancel hi (by rfl) (by rfl) _)
    (by rw [hcode]; nofun) (.inl (hg.running hcode nofun nofun))

/-- A reducer receives from the next child: an error ends it, a tree joins its children. -/
theorem Inv.awaitAll_recv {s s₁ : Sys} {i j : Nat} {g : Goroutine} {op : Operation}
    {start : ObjectAndRelation} {pending : List Nat} {children : List (Option RelationTupleTreeNode)}
    {v : ExpandResult} (hinv : Inv ld req s) (hi : s.gs[i]? = some g)
    (hcode : g.code = .awaitAll op start (j :: pending) children)
    (hr : s.recv j = some (s₁, v)) :
    (∀ e, v.err = some e →
      Inv ld req ((s₁.update i { g with code := .ret ⟨none, some e⟩ }).cancelScope (i + 1))) ∧
    (v.err = none →
      Inv ld req (s₁.update i { g with code := .awaitAll op start pending (children ++ [v.tree]) })) := by
  have hg := hinv.gor i g hi
  have hne : g.code ≠ .exited := by rw [hcode]; nofun
  have haw := hg.awaits
  unfold Awaits at haw
  rw [hcode] at haw
  obtain ⟨hnc, hp⟩ := haw
  obtain ⟨hj, hj', hjctx⟩ := hp j (List.mem_cons_self _ _)
  obtain ⟨hj₂, hget, hval, hext, hcan, hother⟩ := recv_agrees hinv hr
  rw [hj'] at hget
  cases hget
  have hij : i ≠ j := by
    rintro rfl
    rw [hi] at hj'
    cases hj'
    exact List.cons_ne_self _ _ hjctx.symm
  have hi₁ : s₁.gs[i]? = some g := (hother i hij).trans hi
  have hinv₁ := hinv.recv hr
  have href := hg.running hcode nofun nofun
  have hsrcj : s.src j = hj.src := by simp [Sys.src, hj']
  simp only [Sys.codeRef, List.map_cons, hsrcj] at href
  refine ⟨fun e he => ?_, fun he => ?_⟩
  · refine hinv₁.update_cancel hi₁ rfl rfl
      (hg.toRet (hext.trans (Sys.extends_update_cancel hi₁ (by rfl) (by rfl) _)) hne ?_)
    rcases hval with hv | ⟨rfl, hd⟩
    · rw [hv] at href
      simp only [collectChildren, he] at href
      exact .inl href
    · cases he
      exact .inr ⟨rfl, Sys.done_cons (hjctx ▸ hd) hnc⟩
  · have hv : ld.reference hj.src = .result v := by
      rcases hval with hv | ⟨rfl, -⟩
      · exact hv
      · cases he
    have hext' : s.Extends (s₁.update i
        { g with code := .awaitAll op start pending (children ++ [v.tree]) }) :=
      hext.trans (Sys.extends_update hi₁ rfl rfl)
    refine hinv₁.update hi₁ rfl rfl (hg.toCode hext' hne (by rw [hcode]; nofun) (fun _ => nofun)
      ?_ ⟨by rw [← hcan] at hnc; exact hnc, fun k hk => ?_⟩)
    · simp only [Sys.codeRef, hcode, List.map_cons, hsrcj, hv, collectChildren, he]
      refine congrArg _ (List.map_congr_left fun k hk => ?_)
      obtain ⟨h, hk', -⟩ := hp k (List.mem_cons_of_mem _ hk)
      rw [hext'.src_eq hk']
    · obtain ⟨h, hk', hctx⟩ := hp k (List.mem_cons_of_mem _ hk)
      obtain ⟨h', hk'', -, hctx'⟩ := hext'.gs k h hk'
      exact ⟨h', hk'', hctx'.trans hctx⟩

/-- `ExpandOne` receives its closure's result and drops the tree of an error. -/
theorem Inv.awaitOne_recv {s s₁ : Sys} {i j : Nat} {g : Goroutine} {v : ExpandResult}
    (hinv : Inv ld req s) (hi : s.gs[i]? = some g) (hcode : g.code = .awaitOne j)
    (hr : s.recv j = some (s₁, v)) :
    Inv ld req (s₁.update i { g with code := .ret (if v.err.isSome then ⟨none, v.err⟩ else v) }) := by
  have hg := hinv.gor i g hi
  have haw := hg.awaits
  unfold Awaits at haw
  rw [hcode] at haw
  obtain ⟨hij, hj, hj', hjctx⟩ := haw
  obtain ⟨hj₂, hget, hval, hext, -, hother⟩ := recv_agrees hinv hr
  rw [hj'] at hget
  cases hget
  have hi₁ : s₁.gs[i]? = some g := (hother i (by omega)).trans hi
  refine (hinv.recv hr).update hi₁ rfl rfl
    (hg.toRet (hext.trans (Sys.extends_update hi₁ rfl rfl)) (by rw [hcode]; nofun) ?_)
  rcases hval with hv | ⟨rfl, hd⟩
  · have href := hg.running hcode nofun nofun
    simp only [Sys.codeRef, Sys.src, hj', Option.map_some', Option.getD_some, hv, expandOne] at href
    refine .inl (Eq.trans ?_ href)
    split <;> rfl
  · exact .inr ⟨rfl, hjctx ▸ hd⟩

/-! ## Returning -/

/-- A return to any frame keeps the invariant: a send fills the channel and ends the goroutine,
`appendLeaf` adds the leaf, and the `caller` frame hands the result to the dispatcher's caller. -/
theorem Inv.retStep {s s' : Sys} {i : Nat} {g : Goroutine} {r : ExpandResult}
    (hinv : Inv ld req s) (hi : s.gs[i]? = some g) (hcode : g.code = .ret r)
    (h : s.retStep i g r g.stack = some s') : Inv ld req s' := by
  have hg := hinv.gor i g hi
  have hgoal : stackRef g.stack (.result r) = ld.reference g.src ∨
      (r = canceledResult ∧ s.done g.ctx = true) := by
    rcases hg.goal with h1 | h1 | ⟨h1, h2⟩
    · rw [hcode] at h1; cases h1
    · rw [hcode] at h1; exact .inl h1
    · rw [hcode] at h1; cases h1; exact .inr ⟨rfl, h2⟩
  have hshape := hg.shape
  unfold Shape at hshape
  rw [hcode] at hshape
  cases hst : g.stack with
  | nil => rw [hst] at h; cases h
  | cons fr rest =>
    rw [hst] at h hgoal hshape
    cases fr with
    | send =>
      have hrest : rest = [] := by
        rcases hshape with h | ⟨h, -⟩ | h | ⟨_, h, -⟩ <;> cases h; rfl
      subst hrest
      simp only [Sys.retStep] at h
      split at h
      · cases h
        have hext : s.Extends (s.update i
            { g with code := .exited, stack := [], buf := g.buf ++ [r], iterOpen := false }) :=
          Sys.extends_update hi rfl rfl
        refine hinv.update hi rfl rfl ⟨.inl rfl, fun v hv => ?_, .inl rfl, trivial⟩
        rcases List.mem_append.mp hv with hv | hv
        · exact hg.buf.mono hext v hv
        · rw [List.mem_singleton.mp hv]
          exact hgoal.imp Eq.symm fun ⟨h1, h2⟩ => ⟨h1, hext.done h2⟩
      · cases h
    | appendLeaf leaf =>
      have hrest : rest = [.send] := by
        rcases hshape with h | ⟨h, -⟩ | h | ⟨_, h, -⟩ <;> cases h; rfl
      subst hrest
      simp only [Sys.retStep] at h
      split at h
      · rename_i r' heq
        cases h
        have hext : s.Extends (s.update i { g with code := .ret r', stack := [.send] }) :=
          Sys.extends_update hi rfl rfl
        refine hinv.update hi rfl rfl ⟨?_, hg.buf.mono hext, .inr (.inr (.inl rfl)), trivial⟩
        rcases hgoal with h1 | ⟨rfl, h2⟩
        · exact .inr (.inl (by show stackRef [.send] (.result r') = _; rw [← heq]; exact h1))
        · cases heq
          exact .inr (.inr ⟨rfl, hext.done h2⟩)
      · cases h
        exact hinv.congr rfl rfl hinv.returned
      · cases h
    | caller =>
      obtain ⟨hrest, hsrc, hctx⟩ : rest = [] ∧ g.src = .dispatch req ∧ g.ctx = [0] := by
        rcases hshape with h | ⟨h, hsrc, hctx, -⟩ | h | ⟨_, h, -⟩ <;> cases h
        exact ⟨rfl, hsrc, hctx⟩
      subst hrest
      simp only [Sys.retStep, Option.some.injEq] at h
      subst h
      have hext : s.Extends (s.update i { g with code := .exited, stack := [] }) :=
        Sys.extends_update hi rfl rfl
      have hinv' : Inv ld req (s.update i { g with code := .exited, stack := [] }) :=
        hinv.update hi rfl rfl ⟨.inl rfl, hg.buf.mono hext, .inl rfl, trivial⟩
      refine hinv'.congr rfl rfl fun r' hr' => ?_
      cases hr'
      rw [hsrc, hctx] at hgoal
      rcases hgoal with h1 | ⟨h1, h2⟩
      · exact .inl h1.symm
      · exact .inr ⟨h1, by simpa [Sys.done] using h2⟩

/-! ## Running a closure's body -/

/-- The body of every closure, up to its first receive, keeps the invariant. -/
theorem Inv.callStep {s : Sys} {i : Nat} {g : Goroutine} {f : ExpandFunc}
    (hinv : Inv ld req s) (hi : s.gs[i]? = some g) (hcode : g.code = .call f) :
    Inv ld req (s.callStep ld i g f) := by
  have hg := hinv.gor i g hi
  have hne : g.code ≠ .exited := by rw [hcode]; nofun
  have hread : stackRef g.stack (ld.reference f) = ld.reference g.src :=
    hg.running hcode nofun nofun
  have hnc : i + 1 ∉ s.cancelled := by
    have haw := hg.awaits
    unfold Awaits at haw
    rwa [hcode] at haw
  have hret : ∀ r b, ld.reference f = .result r →
      Inv ld req (s.update i { g with code := .ret r, iterOpen := b }) := fun r b hr =>
    hinv.update hi rfl rfl (hg.toRet (Sys.extends_update hi (by rfl) (by rfl)) hne (.inl (hr ▸ hread)))
  have hsame : ∀ c : Code, (∀ f, c ≠ .call f) → ∀ b, Shape req { g with code := c, iterOpen := b } :=
    fun c hc _ => hg.shape.setCode hne hc rfl rfl rfl
  cases f with
  | direct r sb =>
    simp only [Sys.callStep]
    split
    · rename_i err hq
      exact hret _ _ (by simp [LocalDispatcher.reference, run, expandDirect, hq])
    · rename_i tuples hq
      split
      · rename_i hc
        exact hret _ _ (by simp [LocalDispatcher.reference, run, expandDirect, hq, hc])
      · rename_i hc
        refine hinv.startReducer hi rfl rfl hg.buf hnc ?_ fun c hc' =>
          .inr (.inr (.inr ⟨_, by rw [hg.shape.stack_of_call hcode nofun], hc'⟩))
        rw [← hread]
        simp [LocalDispatcher.reference, run, expandDirect, hq, hc, stackRef, Frame.apply, expandAny,
          Graph.expandSetOperation, LocalDispatcher.expand, Function.comp_def]
  | setOperation r op fs =>
    exact hinv.startReducer hi rfl rfl hg.buf hnc
      (by rw [← LocalDispatcher.reference_setOperation]; exact hread) fun c hc => hsame c hc _
  | dispatch r =>
    simp only [Sys.callStep]
    split
    · rename_i hz
      exact hret _ _ (ld.expand_of_zero hz)
    · rename_i hz
      split
      · rename_i err hns
        exact hret _ _ (ld.expand_of_error hz hns)
      · rename_i relation hns
        split
        · exact hinv.congr rfl rfl hinv.returned
        · rename_i f hf
          have hlt : i < s.gs.length := (List.getElem?_eq_some_iff.mp hi).1
          have hi' : (s.spawnAll g.ctx 1 [f]).gs[i]? = some g := by
            rw [Sys.getElem?_spawnAll_of_lt hlt, hi]
          have hj : ((s.spawnAll g.ctx 1 [f]).update i { g with code := .awaitOne s.gs.length }).gs[
              s.gs.length]? = some (Sys.spawned g.ctx 1 f) := by
            rw [Sys.getElem?_update, if_neg (by omega)]
            simp [Sys.getElem?_spawnAll]
          have hext : s.Extends ((s.spawnAll g.ctx 1 [f]).update i
              { g with code := .awaitOne s.gs.length }) :=
            (Sys.extends_spawnAll s g.ctx 1 [f]).trans (Sys.extends_update hi' rfl rfl)
          refine (hinv.spawnAll g.ctx 1 [f]).update hi' rfl rfl
            (hg.toCode hext hne (by rw [hcode]; nofun) (fun _ => nofun) ?_
              ⟨hlt, Sys.spawned g.ctx 1 f, hj, rfl⟩)
          simp only [Sys.codeRef, hcode, LocalDispatcher.reference_dispatch,
            ld.expand_of_ok hz hns hf, Sys.src_of_getElem? hj, Sys.spawned]
  | tupleToUserset r ttu =>
    simp only [Sys.callStep]
    split
    · rename_i err hq
      exact hret _ _ (by simp [LocalDispatcher.reference, run, expandTupleToUserset, hq])
    · rename_i tuples hq
      split
      · exact hinv.congr rfl rfl hinv.returned
      · rename_i requests hreqs
        refine hinv.startReducer hi rfl rfl hg.buf hnc ?_ fun c hc => hsame c hc _
        rw [← hread]
        simp only [LocalDispatcher.reference, run, expandTupleToUserset,
          LocalDispatcher.expanderAt_ds, LocalDispatcher.expanderAt_expand, hq, hreqs, expandAny,
          Graph.expandSetOperation, List.map_map]
        rfl
  | alwaysFail => exact hret _ _ rfl

/-! ## Every reachable state -/

/-- Every step of any goroutine keeps the invariant. -/
theorem Inv.runStep {s s' : Sys} {i : Nat} {done : Bool} (hinv : Inv ld req s)
    (h : s.runStep ld i done = some s') : Inv ld req s' := by
  obtain ⟨g, hi, ⟨f, hcode, rfl⟩ | ⟨op, start, children, hcode, rfl⟩ |
      ⟨op, start, j, pending, children, hcode, ⟨hd, rfl⟩ | ⟨s₁, v, hr, ⟨e, he, rfl⟩ | ⟨he, rfl⟩⟩⟩ |
      ⟨j, hcode, ⟨hd, rfl⟩ | ⟨s₁, v, hr, rfl⟩⟩ | ⟨r, hcode, h⟩⟩ := Sys.runStep_cases h
  · exact hinv.callStep hi hcode
  · exact hinv.awaitAll_nil hi hcode
  · exact hinv.update_cancel hi rfl rfl ((hinv.gor i g hi).toRet
      (Sys.extends_update_cancel hi (by rfl) (by rfl) _) (by rw [hcode]; nofun) (.inr ⟨rfl, hd⟩))
  · exact (hinv.awaitAll_recv hi hcode hr).1 e he
  · exact (hinv.awaitAll_recv hi hcode hr).2 he
  · exact hinv.update hi rfl rfl ((hinv.gor i g hi).toRet
      (Sys.extends_update hi (by rfl) (by rfl)) (by rw [hcode]; nofun) (.inr ⟨rfl, hd⟩))
  · exact hinv.awaitOne_recv hi hcode hr
  · exact hinv.retStep hi hcode h

/-- Every step of the process keeps the invariant. -/
theorem Inv.step {s s' : Sys} {a : Action} (hinv : Inv ld req s) (h : s.step ld a = some s') :
    Inv ld req s' := by
  unfold Sys.step at h
  split at h
  · cases h
  · cases a with
    | cancel => cases h; exact hinv.cancel
    | run i done => exact hinv.runStep h

theorem Inv.init : Inv ld req (Sys.init req) where
  gor i g hi := by
    match i, hi with
    | 0, hi =>
      cases hi
      exact ⟨.inr (.inl rfl), fun _ hv => absurd hv (List.not_mem_nil _),
        .inr (.inl ⟨rfl, rfl, rfl, fun _ h => (Code.call.inj h).symm⟩), List.not_mem_nil _⟩
  returned _ h := by cases h
  scopes _ h := absurd h (List.not_mem_nil _)

theorem Reachable.inv {s : Sys} (hs : Reachable ld req s) : Inv ld req s := by
  induction hs with
  | init => exact Inv.init
  | step a _ h ih => exact ih.step h

end Steps

/-! ## What the caller gets back -/

theorem ExpandResult.eq_of_tree {r : ExpandResult} {t : RelationTupleTreeNode} (hv : r.Valid)
    (ht : r.tree = some t) : r = ⟨some t, none⟩ := by
  obtain ⟨tree, err⟩ := r
  cases ht
  cases err
  · rfl
  · simp [ExpandResult.Valid] at hv

/--
**Every schedule returns the sequential result.** Under any interleaving of the goroutines and
whenever the caller cancels, what the dispatcher's `Expand` returns has exactly one of tree and
error; a tree it returns is the sequential expansion's; and if the caller never cancelled, the
whole result is the sequential expansion's.
-/
theorem returned_matches_reference {ld : LocalDispatcher} {req : ExpandRequest} {s : Sys}
    {r : ExpandResult} (hs : Reachable ld req s) (hr : s.returned = some r) :
    r.Valid ∧ (∀ t, r.tree = some t → ld.expand req = .result ⟨some t, none⟩) ∧
      (0 ∉ s.cancelled → ld.expand req = .result r) := by
  rcases hs.inv.returned r hr with h | ⟨rfl, hc⟩
  · have hv := ld.expandAux_valid _ req r h
    exact ⟨hv, fun t ht => ExpandResult.eq_of_tree hv ht ▸ h, fun _ => h⟩
  · exact ⟨by simp [canceledResult, ExpandResult.Valid], (fun _ ht => by cases ht), (absurd hc ·)⟩

/-! ## A run -/

/-- A `doc` namespace whose `viewer` relation is the rewrite `viewer` and whose `owner` relation
is read directly. -/
def docSchema (viewer : UsersetRewrite) : NamespaceManager :=
  ⟨fun ns rel _ =>
    if ns = "doc" ∧ rel = "viewer" then .ok ⟨"viewer", some viewer, []⟩
    else if ns = "doc" ∧ rel = "owner" then .ok ⟨"owner", none, []⟩
    else .error "namespace not found"⟩

/-- `viewer = owner ∪ _this`. -/
def ownerOrThis : UsersetRewrite := .union [.computedUserset ⟨.tupleObject, "owner"⟩, .this]

/-- `doc:1#owner@user:b` and `doc:1#viewer@user:a`, at every revision. -/
def docTuples : GraphDatastore :=
  ⟨fun q => .ok ([⟨⟨"doc", "1", "owner"⟩, ⟨⟨"user", "b", Ellipsis⟩⟩⟩,
      ⟨⟨"doc", "1", "viewer"⟩, ⟨⟨"user", "a", Ellipsis⟩⟩⟩].filter fun t =>
    t.objectAndRelation = ⟨q.namespace_, q.objectId, q.relation⟩)⟩

def docDispatcher (viewer : UsersetRewrite) : LocalDispatcher := ⟨docSchema viewer, docTuples⟩

def docViewer (depth : UInt16) : ExpandRequest :=
  ⟨⟨"doc", "1", "viewer"⟩, 1, depth, .shallowExpansion⟩

/-- The union's second child (`_this`, goroutine 3) finishes before its first (the `owner`
dispatch, goroutine 2). -/
def docSchedule : List Action :=
  [.run 0 false, .run 1 false, .run 3 false, .run 2 false, .run 4 false, .run 4 false,
    .run 2 false, .run 1 false, .run 1 false, .run 1 false, .run 1 false, .run 0 false,
    .run 0 false]

def docRun : Sys := (Sys.runActions (docDispatcher ownerOrThis) (Sys.init (docViewer 2)) docSchedule).getD
  (Sys.init (docViewer 2))

/-- The tree of `doc:1#viewer`: the `owner` leaf, then the unlabelled `_this` leaf. -/
def docViewerNode : RelationTupleTreeNode :=
  .intermediateNode (some ⟨"doc", "1", "viewer"⟩) .union
    [some (.leafNode (some ⟨"doc", "1", "owner"⟩) [⟨⟨"user", "b", Ellipsis⟩⟩]),
      some (.leafNode none [⟨⟨"user", "a", Ellipsis⟩⟩])]

def docViewerTree : ExpandResult := ⟨some docViewerNode, none⟩

theorem returned_matches_reference_docViewer :
    docViewerTree.Valid ∧
      (∀ t, docViewerTree.tree = some t →
        (docDispatcher ownerOrThis).expand (docViewer 2) = .result ⟨some t, none⟩) ∧
      (0 ∉ docRun.cancelled →
        (docDispatcher ownerOrThis).expand (docViewer 2) = .result docViewerTree) :=
  @returned_matches_reference (docDispatcher ownerOrThis) (docViewer 2) docRun docViewerTree
    (@Reachable.of_runActions _ _ _ docRun docSchedule .init rfl) rfl

end SpiceDB.Graph
