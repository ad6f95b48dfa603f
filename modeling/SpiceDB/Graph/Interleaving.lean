import SpiceDB.Graph.Goroutines

/-!
# Every interleaving returns the sequential result

The process of `Goroutines.lean` is related to the sequential reading of
`Expand.lean` goroutine by goroutine. Each goroutine was started on some closure
`src`; its code and stack say what it will still do, and `codeRef`/`stackRef`
read that remainder sequentially, taking for every goroutine it awaits the
sequential result of that goroutine's closure. The invariant is that this reading
is the sequential result of `src` itself — unless the goroutine is returning
`RequestCanceled` and its context is done.

That one disjunct is all cancellation can add. A reducer only receives while it
runs, and its own scope is cancelled only when it stops, so a child whose context
is done while it is still awaited has a done parent. At the top, the caller's
context is scope `0`: whatever the caller gets back is the sequential result, or
`RequestCanceled` after the caller cancelled.
-/

namespace SpiceDB.Graph

open ConcurrentExpander

namespace LocalDispatcher

variable (ld : LocalDispatcher)

/-- The sequential reference of a closure. -/
def reference (f : ExpandFunc) : Outcome := (ld.expanderAt UInt16.size).run f

@[simp] theorem reference_dispatch (r : ExpandRequest) : ld.reference (.dispatch r) = ld.expand r :=
  rfl

end LocalDispatcher

/-- What a frame does to the result that reaches it. -/
def Frame.apply : Frame → Outcome → Outcome
  | .send, o => o
  | .appendLeaf leaf, o => ConcurrentExpander.appendLeaf leaf o
  | .caller, o => o

/-- What a stack of frames does to the result that reaches its top. -/
def stackRef : List Frame → Outcome → Outcome
  | [], o => o
  | f :: fs, o => stackRef fs (f.apply o)

namespace Sys

/-- The closure goroutine `j` was started with. -/
def src (s : Sys) (j : Nat) : ExpandFunc := (s.gs[j]?.map (·.src)).getD .alwaysFail

/-- The sequential reading of what a code still does. -/
def codeRef (ld : LocalDispatcher) (s : Sys) : Code → Outcome
  | .call f => ld.reference f
  | .awaitAll op start pending children =>
    collectChildren op start children (pending.map fun j => ld.reference (s.src j))
  | .awaitOne j => expandOne (ld.reference (s.src j))
  | .ret r => .result r
  | .exited => .outOfFuel

/-- `s'` keeps every goroutine of `s`, with its closure and context, and every cancellation. -/
structure Extends (s s' : Sys) : Prop where
  gs : ∀ (j : Nat) (g : Goroutine), s.gs[j]? = some g →
    ∃ g' : Goroutine, s'.gs[j]? = some g' ∧ g'.src = g.src ∧ g'.ctx = g.ctx
  cancelled : ∀ x ∈ s.cancelled, x ∈ s'.cancelled

theorem src_of_getElem? {s : Sys} {j : Nat} {g : Goroutine} (h : s.gs[j]? = some g) :
    s.src j = g.src := by
  simp [src, h]

theorem Extends.src_eq {s s' : Sys} (h : Extends s s') {j : Nat} {g : Goroutine}
    (hj : s.gs[j]? = some g) : s'.src j = s.src j := by
  obtain ⟨g', hj', hsrc, -⟩ := h.gs j g hj
  simp [src, hj, hj', hsrc]

theorem Extends.done {s s' : Sys} (h : Extends s s') {ctx : List Nat} (hd : s.done ctx = true) :
    s'.done ctx = true := by
  simp only [Sys.done, List.any_eq_true, decide_eq_true_eq] at hd ⊢
  obtain ⟨x, hx, hc⟩ := hd
  exact ⟨x, hx, h.cancelled x hc⟩

theorem done_cons {s : Sys} {x : Nat} {ctx : List Nat} (hd : s.done (x :: ctx) = true)
    (hx : x ∉ s.cancelled) : s.done ctx = true := by
  simp only [done, List.any_cons, Bool.or_eq_true, decide_eq_true_eq] at hd
  exact hd.resolve_left hx

end Sys

/-! ## The invariant -/

section Invariant

variable (ld : LocalDispatcher) (req : ExpandRequest)

/-- The goroutine will deliver the reference of its closure, or is returning `RequestCanceled`
on a done context. -/
def GoalOk (s : Sys) (g : Goroutine) : Prop :=
  g.code = .exited ∨ stackRef g.stack (s.codeRef ld g.code) = ld.reference g.src ∨
    (g.code = .ret canceledResult ∧ s.done g.ctx = true)

/-- What waits in its channel is the reference of its closure, or `RequestCanceled` on a done
context. -/
def BufOk (s : Sys) (g : Goroutine) : Prop :=
  ∀ v ∈ g.buf, ld.reference g.src = .result v ∨ (v = canceledResult ∧ s.done g.ctx = true)

/-- The stacks that occur: the caller's, a closure's, and a direct read's while it awaits its
recursive union. -/
def Shape (g : Goroutine) : Prop :=
  g.code = .exited ∨
    (g.stack = [.caller] ∧ g.src = .dispatch req ∧ g.ctx = [0] ∧ ∀ f, g.code = .call f → f = .dispatch req) ∨
    g.stack = [.send] ∨
    (∃ leaf, g.stack = [.appendLeaf leaf, .send] ∧ ∀ f, g.code ≠ .call f)

/-- What goroutine `i` awaits exists and runs in the context it gave it; its own scope is not
cancelled before its reducer stops. -/
def Awaits (s : Sys) (i : Nat) (g : Goroutine) : Prop :=
  match g.code with
  | .call _ => i + 1 ∉ s.cancelled
  | .awaitAll _ _ pending _ =>
    i + 1 ∉ s.cancelled ∧ ∀ j ∈ pending, ∃ h, s.gs[j]? = some h ∧ h.ctx = (i + 1) :: g.ctx
  | .awaitOne j => i < j ∧ ∃ h, s.gs[j]? = some h ∧ h.ctx = g.ctx
  | _ => True

/-- The invariant of one goroutine. -/
structure GInv (s : Sys) (i : Nat) (g : Goroutine) : Prop where
  goal : GoalOk ld s g
  buf : BufOk ld s g
  shape : Shape req g
  awaits : Awaits s i g

/-- The invariant of the process. -/
structure Inv (s : Sys) : Prop where
  gor : ∀ (i : Nat) (g : Goroutine), s.gs[i]? = some g → GInv ld req s i g
  returned : ∀ r, s.returned = some r →
    ld.expand req = .result r ∨ (r = canceledResult ∧ 0 ∈ s.cancelled)
  scopes : ∀ x ∈ s.cancelled, x ≤ s.gs.length

variable {ld req}

/-- The references a code reads are those of goroutines it awaits. -/
theorem codeRef_congr {s s' : Sys} {i : Nat} {g : Goroutine} (hext : s.Extends s')
    (haw : Awaits s i g) : s'.codeRef ld g.code = s.codeRef ld g.code := by
  unfold Awaits at haw
  unfold Sys.codeRef
  split
  · rfl
  · rename_i pending _ hcode
    rw [hcode] at haw
    obtain ⟨-, hp⟩ := haw
    congr 1
    refine List.map_congr_left fun j hj => ?_
    obtain ⟨h, hj, -⟩ := hp j hj
    rw [hext.src_eq hj]
  · rename_i j hcode
    rw [hcode] at haw
    obtain ⟨-, h, hj, -⟩ := haw
    rw [hext.src_eq hj]
  · rfl
  · rfl

/-- **Frame.** A goroutine whose code, stack, closure and context a step left alone, and whose
channel it at most drained, keeps its invariant. -/
theorem GInv.mono {s s' : Sys} {i : Nat} {g g' : Goroutine} (h : GInv ld req s i g)
    (hext : s.Extends s') (hnc : i + 1 ∈ s'.cancelled → i + 1 ∈ s.cancelled)
    (hcode : g'.code = g.code) (hstack : g'.stack = g.stack) (hsrc : g'.src = g.src)
    (hctx : g'.ctx = g.ctx) (hbuf : ∀ v ∈ g'.buf, v ∈ g.buf) : GInv ld req s' i g' where
  goal := by
    rw [GoalOk, hcode, hstack, hsrc, hctx]
    rcases h.goal with hg | hg | ⟨hc, hd⟩
    · exact .inl hg
    · exact .inr (.inl (by rw [codeRef_congr hext h.awaits, hg]))
    · exact .inr (.inr ⟨hc, hext.done hd⟩)
  buf v hv := by
    rw [hsrc, hctx]
    exact (h.buf v (hbuf v hv)).imp_right fun ⟨hv, hd⟩ => ⟨hv, hext.done hd⟩
  shape := by
    have hs := h.shape
    unfold Shape at hs ⊢
    rw [hcode, hstack, hsrc, hctx]
    exact hs
  awaits := by
    have haw := h.awaits
    unfold Awaits at haw ⊢
    rw [hcode, hctx]
    split
    · rename_i hc; rw [hc] at haw; exact fun hc => haw (hnc hc)
    · rename_i pending _ hc
      rw [hc] at haw
      refine ⟨fun hc => haw.1 (hnc hc), fun j hj => ?_⟩
      obtain ⟨h', hj', hctx⟩ := haw.2 j hj
      obtain ⟨h'', hj'', -, hctx'⟩ := hext.gs j h' hj'
      exact ⟨h'', hj'', hctx'.trans hctx⟩
    · rename_i j hc
      rw [hc] at haw
      obtain ⟨hij, h', hj', hctx⟩ := haw
      obtain ⟨h'', hj'', -, hctx'⟩ := hext.gs j h' hj'
      exact ⟨hij, h'', hj'', hctx'.trans hctx⟩
    · trivial

theorem GInv.frame {s s' : Sys} {i : Nat} {g : Goroutine} (h : GInv ld req s i g)
    (hext : s.Extends s') (hnc : i + 1 ∈ s'.cancelled → i + 1 ∈ s.cancelled) :
    GInv ld req s' i g :=
  h.mono hext hnc rfl rfl rfl rfl fun _ hv => hv

/-- **Assembly.** A step keeps the invariant when the goroutines it touched or started keep
theirs, it cancels only the caller's scope or a touched goroutine's, and what it returned agrees. -/
theorem Inv.of_touch {s s' : Sys} (T : Nat → Prop) (hinv : Inv ld req s) (hext : s.Extends s')
    (hlen : s.gs.length ≤ s'.gs.length)
    (htouch : ∀ (k : Nat) (g' : Goroutine), s'.gs[k]? = some g' → (T k ∨ s.gs[k]? ≠ some g') →
      GInv ld req s' k g')
    (hcancel : ∀ x ∈ s'.cancelled, x ∈ s.cancelled ∨ x = 0 ∨ ∃ k, x = k + 1 ∧ T k ∧ k < s'.gs.length)
    (hret : ∀ r, s'.returned = some r →
      ld.expand req = .result r ∨ (r = canceledResult ∧ 0 ∈ s'.cancelled)) :
    Inv ld req s' where
  gor k g' hk := by
    by_cases hT : T k
    · exact htouch k g' hk (.inl hT)
    by_cases hold : s.gs[k]? = some g'
    · refine (hinv.gor k g' hold).frame hext fun hc => ?_
      rcases hcancel _ hc with h | h | ⟨k', hk', hTk', -⟩
      · exact h
      · omega
      · cases Nat.succ.inj hk'; exact absurd hTk' hT
    · exact htouch k g' hk (.inr hold)
  returned := hret
  scopes x hx := by
    rcases hcancel x hx with h | rfl | ⟨k, rfl, -, hk⟩
    · exact (hinv.scopes x h).trans hlen
    · exact Nat.zero_le _
    · exact hk

end Invariant

/-! ## What the operations do to the state -/

namespace Sys

/-- The goroutine `spawnAll` starts for a closure. -/
def spawned (ctx : List Nat) (cap : Nat) (f : ExpandFunc) : Goroutine :=
  ⟨ctx, .call f, [.send], false, cap, [], f⟩

theorem spawnAll_gs (s : Sys) (ctx : List Nat) (cap : Nat) (fs : List ExpandFunc) :
    (s.spawnAll ctx cap fs).gs = s.gs ++ fs.map (spawned ctx cap) := rfl

theorem getElem?_update {s : Sys} {i k : Nat} {g : Goroutine} :
    (s.update i g).gs[k]? = if i = k ∧ i < s.gs.length then some g else s.gs[k]? := by
  simp only [update, List.getElem?_set]
  by_cases h : i = k
  · subst h; by_cases hl : i < s.gs.length <;> simp [hl, List.getElem?_eq_none, Nat.not_lt.mp]
  · simp [h]

theorem getElem?_spawnAll {s : Sys} {ctx : List Nat} {cap k : Nat} {fs : List ExpandFunc} :
    (s.spawnAll ctx cap fs).gs[k]? =
      if k < s.gs.length then s.gs[k]? else (fs[k - s.gs.length]?).map (spawned ctx cap) := by
  rw [spawnAll_gs]
  split
  · exact List.getElem?_append_left (by assumption)
  · rw [List.getElem?_append_right (by omega), List.getElem?_map]

theorem Extends.refl (s : Sys) : s.Extends s := ⟨fun _ g h => ⟨g, h, rfl, rfl⟩, fun _ h => h⟩

theorem Extends.trans {s₁ s₂ s₃ : Sys} (h₁ : s₁.Extends s₂) (h₂ : s₂.Extends s₃) :
    s₁.Extends s₃ where
  gs j g hj := by
    obtain ⟨g₂, hj₂, hs₂, hc₂⟩ := h₁.gs j g hj
    obtain ⟨g₃, hj₃, hs₃, hc₃⟩ := h₂.gs j g₂ hj₂
    exact ⟨g₃, hj₃, hs₃.trans hs₂, hc₃.trans hc₂⟩
  cancelled x hx := h₂.cancelled x (h₁.cancelled x hx)

theorem extends_update {s : Sys} {i : Nat} {g g' : Goroutine} (hi : s.gs[i]? = some g)
    (hsrc : g'.src = g.src) (hctx : g'.ctx = g.ctx) : s.Extends (s.update i g') where
  gs j h hj := by
    rw [getElem?_update]
    split
    · rename_i hij
      obtain ⟨rfl, -⟩ := hij
      rw [hi] at hj; cases hj
      exact ⟨g', rfl, hsrc, hctx⟩
    · exact ⟨h, hj, rfl, rfl⟩
  cancelled _ h := h

theorem extends_spawnAll (s : Sys) (ctx : List Nat) (cap : Nat) (fs : List ExpandFunc) :
    s.Extends (s.spawnAll ctx cap fs) where
  gs j h hj := ⟨h, by rw [spawnAll_gs, List.getElem?_append_left (List.getElem?_eq_some_iff.mp hj).1]; exact hj, rfl, rfl⟩
  cancelled _ h := h

theorem extends_cancelScope (s : Sys) (x : Nat) : s.Extends (s.cancelScope x) where
  gs _ h hj := ⟨h, hj, rfl, rfl⟩
  cancelled _ h := List.mem_cons_of_mem _ h

theorem extends_update_cancel {s : Sys} {i : Nat} {g g' : Goroutine} (hi : s.gs[i]? = some g)
    (hsrc : g'.src = g.src) (hctx : g'.ctx = g.ctx) (x : Nat) :
    s.Extends ((s.update i g').cancelScope x) :=
  (extends_update hi hsrc hctx).trans (extends_cancelScope _ x)

/-- The closures of the goroutines `spawnAll` starts are its closures, in order. -/
theorem map_src_spawnAll (s : Sys) (ctx : List Nat) (cap : Nat) (fs : List ExpandFunc) :
    (List.range' s.gs.length fs.length).map (s.spawnAll ctx cap fs).src = fs := by
  refine List.ext_getElem (by simp) fun m h₁ h₂ => ?_
  simp only [List.getElem_map, List.getElem_range', Nat.one_mul, src, getElem?_spawnAll]
  simp [List.getElem?_eq_getElem h₂, spawned, show ¬ s.gs.length + m < s.gs.length by omega]

theorem extends_of_eq {s s' : Sys} (hgs : s.gs = s'.gs) (hc : s.cancelled = s'.cancelled) :
    s.Extends s' :=
  ⟨fun _ g h => ⟨g, hgs ▸ h, rfl, rfl⟩, fun _ h => hc ▸ h⟩

theorem getElem?_spawnAll_of_lt {s : Sys} {ctx : List Nat} {cap k : Nat} {fs : List ExpandFunc}
    (hk : k < s.gs.length) : (s.spawnAll ctx cap fs).gs[k]? = s.gs[k]? := by
  rw [getElem?_spawnAll, if_pos hk]

/-- Replacing a goroutine by one started on the same closure keeps every closure. -/
theorem src_update {s : Sys} {i : Nat} {g g' : Goroutine} (hi : s.gs[i]? = some g)
    (hsrc : g'.src = g.src) : (s.update i g').src = s.src := by
  funext k
  simp only [src, getElem?_update]
  split
  · rename_i h
    obtain ⟨rfl, -⟩ := h
    simp [hi, hsrc]
  · rfl

/-- What a receive from goroutine `j` does. -/
theorem recv_spec {s s' : Sys} {j : Nat} {v : ExpandResult} (h : s.recv j = some (s', v)) :
    ∃ hj : Goroutine, s.gs[j]? = some hj ∧
      ((hj.cap = 0 ∧ ∃ rest, hj.code = .ret v ∧ hj.stack = .send :: rest ∧
          s' = s.update j { hj with code := .exited, stack := rest, iterOpen := false }) ∨
        (hj.cap ≠ 0 ∧ ∃ rest, hj.buf = v :: rest ∧ s' = s.update j { hj with buf := rest })) := by
  unfold recv at h
  split at h
  · cases h
  · rename_i hj hget
    refine ⟨hj, hget, ?_⟩
    split at h
    · rename_i hcap
      split at h
      · rename_i v' rest hcode hstack
        cases h
        exact .inl ⟨hcap, rest, hcode, hstack, rfl⟩
      · cases h
    · rename_i hcap
      split at h
      · rename_i v' rest hbuf
        cases h
        exact .inr ⟨hcap, rest, hbuf, rfl⟩
      · cases h

end Sys

/-! ## Building blocks of the step lemmas -/

section Blocks

variable {ld : LocalDispatcher} {req : ExpandRequest}

/-- A goroutine that is neither returning nor gone will deliver the reference of its closure. -/
theorem GInv.running {s : Sys} {i : Nat} {g : Goroutine} {c : Code} (h : GInv ld req s i g)
    (hcode : g.code = c) (hne : c ≠ .exited) (hnr : ∀ r, c ≠ .ret r) :
    stackRef g.stack (s.codeRef ld c) = ld.reference g.src := by
  rw [← hcode]
  rcases h.goal with h1 | h1 | ⟨h1, -⟩
  · exact absurd (h1 ▸ hcode).symm hne
  · exact h1
  · exact absurd (h1 ▸ hcode).symm (hnr _)

theorem Shape.setCode {g g' : Goroutine} (h : Shape req g) (hne : g.code ≠ .exited)
    (hcall : ∀ f, g'.code ≠ .call f) (hstack : g'.stack = g.stack) (hsrc : g'.src = g.src)
    (hctx : g'.ctx = g.ctx) : Shape req g' := by
  unfold Shape at h ⊢
  rw [hstack, hsrc, hctx]
  rcases h with h | ⟨h1, h2, h3, -⟩ | h | ⟨leaf, h1, -⟩
  · exact absurd h hne
  · exact .inr (.inl ⟨h1, h2, h3, fun f hf => absurd hf (hcall f)⟩)
  · exact .inr (.inr (.inl h))
  · exact .inr (.inr (.inr ⟨leaf, h1, hcall⟩))

/-- An update of goroutine `i` keeps the invariant when the new goroutine keeps its own. -/
theorem Inv.update {s : Sys} {i : Nat} {g g' : Goroutine} (hinv : Inv ld req s)
    (hi : s.gs[i]? = some g) (hsrc : g'.src = g.src) (hctx : g'.ctx = g.ctx)
    (hg' : GInv ld req (s.update i g') i g') : Inv ld req (s.update i g') := by
  have hlt : i < s.gs.length := (List.getElem?_eq_some_iff.mp hi).1
  refine hinv.of_touch (· = i) (Sys.extends_update hi hsrc hctx) (by simp [Sys.update])
    (fun k x hk hT => ?_) (fun x hx => .inl hx) hinv.returned
  rw [Sys.getElem?_update] at hk
  split at hk
  · rename_i hik
    obtain ⟨rfl, -⟩ := hik
    cases hk
    exact hg'
  · rename_i hik
    rcases hT with rfl | hne
    · exact absurd ⟨rfl, hlt⟩ hik
    · exact absurd hk hne

/-- The same, when the update also cancels goroutine `i`'s scope. -/
theorem Inv.update_cancel {s : Sys} {i : Nat} {g g' : Goroutine} (hinv : Inv ld req s)
    (hi : s.gs[i]? = some g) (hsrc : g'.src = g.src) (hctx : g'.ctx = g.ctx)
    (hg' : GInv ld req ((s.update i g').cancelScope (i + 1)) i g') :
    Inv ld req ((s.update i g').cancelScope (i + 1)) := by
  have hlt : i < s.gs.length := (List.getElem?_eq_some_iff.mp hi).1
  refine hinv.of_touch (· = i) ((Sys.extends_update hi hsrc hctx).trans (Sys.extends_cancelScope _ _))
    (by simp [Sys.update, Sys.cancelScope]) (fun k x hk hT => ?_) (fun x hx => ?_)
    (fun r hr => (hinv.returned r hr).imp_right fun ⟨h1, h2⟩ => ⟨h1, List.mem_cons_of_mem _ h2⟩)
  · rw [Sys.cancelScope, Sys.getElem?_update] at hk
    split at hk
    · rename_i hik
      obtain ⟨rfl, -⟩ := hik
      cases hk
      exact hg'
    · rename_i hik
      rcases hT with rfl | hne
      · exact absurd ⟨rfl, hlt⟩ hik
      · exact absurd hk hne
  · rcases List.mem_cons.mp hx with rfl | hx
    · exact .inr (.inr ⟨i, rfl, rfl, by simpa [Sys.update, Sys.cancelScope] using hlt⟩)
    · exact .inl hx

/-- A receive keeps the invariant: the sender returns, or its channel is drained. -/
theorem Inv.recv {s s' : Sys} {j : Nat} {v : ExpandResult} (hinv : Inv ld req s)
    (h : s.recv j = some (s', v)) : Inv ld req s' := by
  obtain ⟨hj, hget, ⟨-, rest, hcode, -, rfl⟩ | ⟨-, rest, hbuf, rfl⟩⟩ := Sys.recv_spec h
  · have hgj := hinv.gor j hj hget
    refine hinv.update hget rfl rfl ⟨.inl rfl, fun v hv => ?_, .inl rfl, trivial⟩
    exact ((hgj.buf v hv).imp_right fun ⟨h1, h2⟩ =>
      ⟨h1, (Sys.extends_update hget rfl rfl).done h2⟩)
  · refine hinv.update hget rfl rfl ((hinv.gor j hj hget).mono (Sys.extends_update hget rfl rfl)
      (fun hc => hc) rfl rfl rfl rfl fun w hw => ?_)
    rw [hbuf]; exact List.mem_cons_of_mem _ hw

/-- What a receive from goroutine `j` yields is the reference of `j`'s closure, or
`RequestCanceled` on `j`'s done context; everything but `j` is left as it was. -/
theorem recv_agrees {s s' : Sys} {j : Nat} {v : ExpandResult} (hinv : Inv ld req s)
    (h : s.recv j = some (s', v)) :
    ∃ hj : Goroutine, s.gs[j]? = some hj ∧
      (ld.reference hj.src = .result v ∨ (v = canceledResult ∧ s.done hj.ctx = true)) ∧
      s.Extends s' ∧ s'.cancelled = s.cancelled ∧ ∀ k, k ≠ j → s'.gs[k]? = s.gs[k]? := by
  obtain ⟨hj, hget, hcase⟩ := Sys.recv_spec h
  have hgj := hinv.gor j hj hget
  refine ⟨hj, hget, ?_⟩
  rcases hcase with ⟨-, rest, hcode, hstack, rfl⟩ | ⟨-, rest, hbuf, rfl⟩
  · refine ⟨?_, Sys.extends_update hget rfl rfl, rfl, fun k hk => ?_⟩
    · have hrest : rest = [] := by
        have hs := hgj.shape
        unfold Shape at hs
        rw [hstack, hcode] at hs
        rcases hs with h | ⟨h, -⟩ | h | ⟨_, h, -⟩
        · cases h
        · cases h
        · cases h; rfl
        · cases h
      rcases hgj.goal with h | h | ⟨h1, h2⟩
      · rw [hcode] at h; cases h
      · rw [hcode, hstack, hrest] at h
        exact .inl h.symm
      · rw [hcode] at h1; cases h1
        exact .inr ⟨rfl, h2⟩
    · rw [Sys.getElem?_update, if_neg fun h => hk h.1.symm]
  · refine ⟨hgj.buf v (by rw [hbuf]; exact List.mem_cons_self _ _), Sys.extends_update hget rfl rfl,
      rfl, fun k hk => ?_⟩
    rw [Sys.getElem?_update, if_neg fun h => hk h.1.symm]

end Blocks

end SpiceDB.Graph
