import Mathlib.Data.List.Forall2
import SpiceDB.Graph.Schedules

/-!
# More depth, the same tree

Raising `DepthRemaining` changes nothing a successful expansion computes. The closures the
expander builds for the deeper request have the same shape and capture the same starts,
revision and mode; only the depths they carry are higher, and a hop takes one from each side,
so the deeper side stays deeper without wrapping. A successful run never met the guard at
depth 0, and every success it combined has the same success on the deeper side.
-/

namespace SpiceDB.Graph

open ConcurrentExpander

/-- `b` is `a` with at least as much depth left. -/
structure ExpandRequest.DepthLe (a b : ExpandRequest) : Prop where
  start : a.start = b.start
  atRevision : a.atRevision = b.atRevision
  expansionMode : a.expansionMode = b.expansionMode
  depth : a.depthRemaining.toNat ≤ b.depthRemaining.toNat

/-- A hop down from both sides keeps the deeper side deeper. -/
theorem ExpandRequest.DepthLe.sub_one {a b : ExpandRequest} (h : a.DepthLe b)
    (hz : a.depthRemaining ≠ 0) :
    (a.depthRemaining - 1).toNat ≤ (b.depthRemaining - 1).toNat := by
  have ha : a.depthRemaining.toNat ≠ 0 := fun h0 => hz (UInt16.eq_zero_iff.mpr h0)
  have hb : b.depthRemaining ≠ 0 := fun h0 => ha (by have := h.depth; rw [h0] at this; simpa using this)
  rw [UInt16.toNat_sub_one hz, UInt16.toNat_sub_one hb]
  exact Nat.sub_le_sub_right h.depth 1

theorem nonTerminalRequest_depthLe {a b : ExpandRequest} (h : a.DepthLe b)
    (hz : a.depthRemaining ≠ 0) (user : User) :
    (nonTerminalRequest a user).DepthLe (nonTerminalRequest b user) :=
  ⟨rfl, h.atRevision, h.expansionMode, h.sub_one hz⟩

theorem computedUsersetRequest_depthLe {a b a' : ExpandRequest} {cu : ComputedUserset}
    {tpl : Option RelationTuple} (h : a.DepthLe b) (hz : a.depthRemaining ≠ 0)
    (ha : computedUsersetRequest a cu tpl = .ok a') :
    ∃ b', computedUsersetRequest b cu tpl = .ok b' ∧ a'.DepthLe b' := by
  simp only [computedUsersetRequest, computedUsersetStart, h.start] at ha ⊢
  split at ha
  · cases ha
  · cases ha
    exact ⟨_, rfl, ⟨rfl, h.atRevision, h.expansionMode, h.sub_one hz⟩⟩
  · cases ha
    exact ⟨_, rfl, ⟨rfl, h.atRevision, h.expansionMode, h.sub_one hz⟩⟩
  · cases ha
    exact ⟨_, rfl, ⟨rfl, h.atRevision, h.expansionMode, h.sub_one hz⟩⟩
  · cases ha

mutual

/-- `g` is the closure `f` built for a request with at least as much depth left. -/
inductive ExpandFunc.DepthLe : ExpandFunc → ExpandFunc → Prop
  | direct {a b : ExpandRequest} (sb : StartInclusion) :
      a.DepthLe b → a.depthRemaining ≠ 0 → ExpandFunc.DepthLe (.direct a sb) (.direct b sb)
  | setOperation {a b : ExpandRequest} (op : Operation) {fs gs : List ExpandFunc} :
      a.start = b.start → ExpandFunc.AllDepthLe fs gs →
      ExpandFunc.DepthLe (.setOperation a op fs) (.setOperation b op gs)
  | dispatch {a b : ExpandRequest} : a.DepthLe b → ExpandFunc.DepthLe (.dispatch a) (.dispatch b)
  | tupleToUserset {a b : ExpandRequest} (ttu : TupleToUserset) :
      a.DepthLe b → a.depthRemaining ≠ 0 →
      ExpandFunc.DepthLe (.tupleToUserset a ttu) (.tupleToUserset b ttu)
  | alwaysFail : ExpandFunc.DepthLe .alwaysFail .alwaysFail

/-- `ExpandFunc.DepthLe`, closure by closure. -/
inductive ExpandFunc.AllDepthLe : List ExpandFunc → List ExpandFunc → Prop
  | nil : ExpandFunc.AllDepthLe [] []
  | cons {f g : ExpandFunc} {fs gs : List ExpandFunc} :
      ExpandFunc.DepthLe f g → ExpandFunc.AllDepthLe fs gs → ExpandFunc.AllDepthLe (f :: fs) (g :: gs)

end

/-! ## Building for a deeper request -/

mutual

theorem expandUsersetRewrite_depthLe {a b : ExpandRequest} (h : a.DepthLe b)
    (hz : a.depthRemaining ≠ 0) :
    ∀ (rw : UsersetRewrite) {f : ExpandFunc}, expandUsersetRewrite a rw = .ok f →
      ∃ g, expandUsersetRewrite b rw = .ok g ∧ f.DepthLe g
  | .union child, f, hf | .intersection child, f, hf | .exclusion child, f, hf => by
    simp only [expandUsersetRewrite, Functor.map, Except.map] at hf ⊢
    split at hf
    · cases hf
    · rename_i fs hfs
      cases hf
      obtain ⟨gs, hgs, hall⟩ := expandChildren_depthLe h hz child hfs
      rw [hgs]
      exact ⟨_, rfl, .setOperation _ h.start hall⟩
  | .unset, f, hf => by
    cases hf
    exact ⟨_, rfl, .alwaysFail⟩

theorem expandChildren_depthLe {a b : ExpandRequest} (h : a.DepthLe b)
    (hz : a.depthRemaining ≠ 0) :
    ∀ (cs : List SetOperationChild) {fs : List ExpandFunc}, expandChildren a cs = .ok fs →
      ∃ gs, expandChildren b cs = .ok gs ∧ ExpandFunc.AllDepthLe fs gs
  | [], fs, hf => by
    cases hf
    exact ⟨[], rfl, .nil⟩
  | c :: cs, fs, hf => by
    have tail : ∀ {f g : ExpandFunc} {fs' : List ExpandFunc}, f.DepthLe g →
        (f :: ·) <$> expandChildren a cs = .ok fs' →
        ∃ gs, (g :: ·) <$> expandChildren b cs = .ok gs ∧ ExpandFunc.AllDepthLe fs' gs := by
      intro f g fs' hfg h'
      simp only [Functor.map, Except.map] at h' ⊢
      split at h'
      · cases h'
      · rename_i fs'' hfs
        cases h'
        obtain ⟨gs, hgs, hall⟩ := expandChildren_depthLe h hz cs hfs
        rw [hgs]
        exact ⟨_, rfl, .cons hfg hall⟩
    match c with
    | .this => exact tail (.direct _ h hz) hf
    | .computedUserset cu =>
      simp only [expandChildren, expandComputedUserset] at hf ⊢
      cases ha : computedUsersetRequest a cu none with
      | error e => rw [ha] at hf; cases hf
      | ok a' =>
        obtain ⟨b', hb, hab⟩ := computedUsersetRequest_depthLe h hz ha
        rw [ha] at hf
        rw [hb]
        exact tail (.dispatch hab) hf
    | .usersetRewrite rw =>
      simp only [expandChildren, bind, Except.bind] at hf ⊢
      split at hf
      · cases hf
      · rename_i f hrw
        obtain ⟨g, hg, hfg⟩ := expandUsersetRewrite_depthLe h hz rw hrw
        rw [hg]
        exact tail hfg hf
    | .tupleToUserset ttu => exact tail (.tupleToUserset ttu h hz) hf
    | .unset => exact expandChildren_depthLe h hz cs hf

end

/-- Building for a deeper request gives the deeper closure. -/
theorem expand_depthLe {a b : ExpandRequest} {relation : Relation} {f : ExpandFunc}
    (h : a.DepthLe b) (hz : a.depthRemaining ≠ 0) (hf : ConcurrentExpander.expand a relation = .ok f) :
    ∃ g, ConcurrentExpander.expand b relation = .ok g ∧ f.DepthLe g := by
  simp only [ConcurrentExpander.expand] at hf ⊢
  split at hf
  · cases hf
    exact ⟨_, rfl, .direct _ h hz⟩
  · exact expandUsersetRewrite_depthLe h hz _ hf

theorem mapM_computedUsersetRequest_depthLe {a b : ExpandRequest} {cu : ComputedUserset}
    (h : a.DepthLe b) (hz : a.depthRemaining ≠ 0) :
    ∀ {tuples : List RelationTuple} {as : List ExpandRequest},
      tuples.mapM (computedUsersetRequest a cu ∘ some) = .ok as →
      ∃ bs, tuples.mapM (computedUsersetRequest b cu ∘ some) = .ok bs ∧
        List.Forall₂ ExpandRequest.DepthLe as bs
  | [], as, ha => by
    cases ha
    exact ⟨[], rfl, .nil⟩
  | t :: ts, as, ha => by
    rw [List.mapM_cons] at ha ⊢
    cases hc : (computedUsersetRequest a cu ∘ some) t with
    | error e => rw [hc] at ha; cases ha
    | ok a' =>
      cases hts : ts.mapM (computedUsersetRequest a cu ∘ some) with
      | error e => rw [hc, hts] at ha; cases ha
      | ok as' =>
        rw [hc, hts] at ha
        cases ha
        obtain ⟨b', hb', hab⟩ := computedUsersetRequest_depthLe h hz hc
        obtain ⟨bs, hbs, hall⟩ := mapM_computedUsersetRequest_depthLe h hz hts
        rw [show (computedUsersetRequest b cu ∘ some) t = .ok b' from hb', hbs]
        exact ⟨_, rfl, .cons hab hall⟩

/-! ## Running the deeper closure -/

/-- Where the first outcome is a success, the second is the same success. -/
def SuccessLe (o₁ o₂ : Outcome) : Prop := ∀ r, o₁ = .result r → r.err = none → o₂ = .result r

/-- A reducer's success is made of its children's successes. -/
theorem collectChildren_successLe {op : Operation} {start : ObjectAndRelation} :
    ∀ {acc : List (Option RelationTupleTreeNode)} {outs₁ outs₂ : List Outcome},
      List.Forall₂ SuccessLe outs₁ outs₂ →
      SuccessLe (collectChildren op start acc outs₁) (collectChildren op start acc outs₂)
  | _, [], [], .nil => fun _ h _ => h
  | acc, o₁ :: outs₁, o₂ :: outs₂, .cons ho hs => fun r h he => by
    cases o₁ with
    | result r₁ =>
      simp only [collectChildren] at h
      split at h
      · cases h
        cases he
      · rename_i he₁
        rw [ho r₁ rfl he₁]
        simp only [collectChildren, he₁]
        exact collectChildren_successLe hs r h he
    | panic _ => cases h
    | outOfFuel => cases h

theorem appendLeaf_successLe {leaf : RelationTupleTreeNode} {o₁ o₂ : Outcome} (h : SuccessLe o₁ o₂) :
    SuccessLe (appendLeaf leaf o₁) (appendLeaf leaf o₂) := fun r h₁ he => by
  cases o₁ with
  | result r₁ =>
    have he₁ : r₁.err = none := by
      cases h₁e : r₁.err with
      | none => rfl
      | some e =>
        simp only [appendLeaf, h₁e, Outcome.result.injEq] at h₁
        rw [← h₁, h₁e] at he
        cases he
    rw [h r₁ rfl he₁]
    exact h₁
  | panic _ => cases h₁
  | outOfFuel => cases h₁

theorem expandOne_successLe {o₁ o₂ : Outcome} (h : SuccessLe o₁ o₂) :
    SuccessLe (expandOne o₁) (expandOne o₂) := fun r h₁ he => by
  cases o₁ with
  | result r₁ =>
    have he₁ : r₁.err = none := by
      cases h₁e : r₁.err with
      | none => rfl
      | some e =>
        simp only [expandOne, h₁e, Option.isSome_some, if_true, Outcome.result.injEq] at h₁
        rw [← h₁] at he
        cases he
    rw [h r₁ rfl he₁]
    exact h₁
  | panic _ => cases h₁
  | outOfFuel => cases h₁

mutual

/-- Against dispatchers whose successes carry over to deeper requests, a deeper closure has
every success of the shallower one. -/
theorem run_successLe {d₁ d₂ : Dispatcher} {ds : GraphDatastore}
    (hd : ∀ a b, a.DepthLe b → SuccessLe (d₁.expand a) (d₂.expand b)) :
    ∀ {f g : ExpandFunc}, f.DepthLe g → SuccessLe (run ⟨d₁, ds⟩ f) (run ⟨d₂, ds⟩ g)
  | _, _, .direct sb h hz => by
    simp only [run, expandDirect, directQuery, directLeaf, h.start, h.atRevision, h.expansionMode]
    split
    · exact fun _ h' _ => h'
    · split
      · exact fun _ h' _ => h'
      · refine appendLeaf_successLe (collectChildren_successLe ?_)
        exact List.forall₂_map_left_iff.mpr (List.forall₂_map_right_iff.mpr
          (List.forall₂_same.mpr fun u _ => hd _ _ (nonTerminalRequest_depthLe h hz u)))
  | _, _, .setOperation op hs hall => by
    simp only [run, runAll_eq_map, Graph.expandSetOperation, hs]
    exact collectChildren_successLe (runAll_successLe hd hall)
  | _, _, .dispatch h => hd _ _ h
  | _, _, .tupleToUserset ttu h hz => by
    simp only [run, expandTupleToUserset, tuplesetQuery, h.start, h.atRevision]
    split
    · exact fun _ h' _ => h'
    · rename_i tuples _
      split
      · exact fun _ h' _ => by cases h'
      · rename_i as has
        obtain ⟨bs, hbs, hall⟩ := mapM_computedUsersetRequest_depthLe h hz has
        rw [hbs]
        exact collectChildren_successLe (List.forall₂_map_left_iff.mpr
          (List.forall₂_map_right_iff.mpr (hall.imp fun a b hab => hd a b hab)))
  | _, _, .alwaysFail => fun _ h he => by cases h; cases he

/-- `run_successLe`, closure by closure. -/
theorem runAll_successLe {d₁ d₂ : Dispatcher} {ds : GraphDatastore}
    (hd : ∀ a b, a.DepthLe b → SuccessLe (d₁.expand a) (d₂.expand b)) :
    ∀ {fs gs : List ExpandFunc}, ExpandFunc.AllDepthLe fs gs →
      List.Forall₂ SuccessLe (fs.map (run ⟨d₁, ds⟩)) (gs.map (run ⟨d₂, ds⟩))
  | _, _, .nil => .nil
  | _, _, .cons hfg hall => .cons (run_successLe hd hfg) (runAll_successLe hd hall)

end

namespace LocalDispatcher

variable (ld : LocalDispatcher)

/-- With the same fuel, every success of the dispatcher on a request is its result on any
deeper request. -/
theorem expandAux_successLe :
    ∀ (n : Nat) (a b : ExpandRequest), a.DepthLe b → SuccessLe (ld.expandAux n a) (ld.expandAux n b)
  | 0, _, _, _ => fun _ h _ => by cases h
  | n + 1, a, b, h => fun r h₁ he => by
    simp only [expandAux] at h₁ ⊢
    split at h₁
    · cases h₁
      cases he
    · rename_i hz
      have hb : b.depthRemaining ≠ 0 := fun h0 => hz (UInt16.eq_zero_iff.mpr (by
        have := h.depth
        rw [h0] at this
        simpa using this))
      rw [if_neg hb, ← h.start, ← h.atRevision]
      split at h₁
      · cases h₁
        cases he
      · split at h₁
        · cases h₁
        · rename_i f hf
          obtain ⟨g, hg, hfg⟩ := expand_depthLe h hz hf
          simp only [hg]
          exact expandOne_successLe (run_successLe (fun a b hab => expandAux_successLe n a b hab) hfg)
            r h₁ he

end LocalDispatcher

/--
**More depth, the same tree.** If the expansion of a request returns a tree, the expansion of the
same request with any larger `DepthRemaining` returns the same tree.
-/
theorem expand_depth_monotone (ld : LocalDispatcher) (req : ExpandRequest) (d' : UInt16)
    (T : RelationTupleTreeNode) (hd : req.depthRemaining ≤ d')
    (h : ld.expand req = .result ⟨some T, none⟩) :
    ld.expand { req with depthRemaining := d' } = .result ⟨some T, none⟩ := by
  rw [UInt16.le_def, BitVec.le_def] at hd
  exact ld.expandAux_successLe _ req { req with depthRemaining := d' } ⟨rfl, rfl, rfl, hd⟩ _ h rfl

theorem expand_depth_monotone_docViewer :
    (docViewer 2).depthRemaining ≤ 5 ∧
      (docDispatcher ownerOrThis).expand (docViewer 2) = .result ⟨some docViewerNode, none⟩ ∧
      (docDispatcher ownerOrThis).expand { docViewer 2 with depthRemaining := 5 } =
        .result ⟨some docViewerNode, none⟩ :=
  ⟨by decide, rfl, expand_depth_monotone _ _ 5 docViewerNode (by decide) rfl⟩

end SpiceDB.Graph
