import SpiceDB.Graph.Depth

/-!
# The goroutines

`Expand.lean` reads the reducers sequentially. The code does not run them so:
`expandSetOperation` starts one goroutine per child (`go req(childCtx, resultChan)`),
then receives from their channels in list order, each time in a `select` that
also watches `ctx.Done()`; `ExpandOne` does the same for a single closure on a
buffered channel. This file is that execution, one goroutine step at a time,
under any scheduler and with the caller free to cancel its context between any
two steps.

A goroutine's state is a `Code` (where it is) and a stack of `Frame`s (what
becomes of the result it computes). Each goroutine owns its result channel, so a
channel is named by its sender's index. A reducer running in goroutine `i` derives
its children's context from its own with cancel scope `i + 1`, and cancels that
scope on every exit; scope `0` is the caller's context. A goroutine runs at most
one reducer, so scopes are never reused.

`Goroutine.src`, the closure a goroutine was started with, is proof-only ghost
state: nothing reads it.
-/

namespace SpiceDB.Graph

open ConcurrentExpander

/-- What becomes of the result a goroutine computes. -/
inductive Frame where
  /-- `resultChan <- result`, the last statement of every closure. -/
  | send
  /-- The tail of `expandDirect`'s recursive case, after `ExpandAny` returns. -/
  | appendLeaf (leaf : RelationTupleTreeNode)
  /-- Return to the caller of the dispatcher's `Expand`. -/
  | caller
deriving Repr

/-- Where a goroutine is. -/
inductive Code where
  /-- About to run a closure's body. -/
  | call (f : ExpandFunc)
  /-- In `expandSetOperation`'s receive loop: `pending` are the senders still to
  receive from, in order, and `children` the trees received so far. -/
  | awaitAll (op : Operation) (start : ObjectAndRelation) (pending : List Nat)
      (children : List (Option RelationTupleTreeNode))
  /-- In `ExpandOne`'s `select`, receiving from goroutine `j`. -/
  | awaitOne (j : Nat)
  /-- Returning `r` to the innermost frame; at a `send` frame, blocked in the send. -/
  | ret (r : ExpandResult)
  /-- Returned from its function, deferred calls included. -/
  | exited
deriving Repr

/-- A goroutine, with its result channel. -/
structure Goroutine where
  /-- The cancel scopes of its context, innermost first. -/
  ctx : List Nat
  code : Code
  stack : List Frame
  /-- It holds a tuple iterator its deferred `Close` has not released. -/
  iterOpen : Bool
  /-- The capacity of its result channel: 0 under `expandSetOperation`, 1 under `ExpandOne`. -/
  cap : Nat
  /-- Results sent and not yet received. -/
  buf : List ExpandResult
  /-- The closure it was started with. -/
  src : ExpandFunc
deriving Repr

/-- The whole process. -/
structure Sys where
  gs : List Goroutine
  /-- Cancelled scopes. -/
  cancelled : List Nat
  /-- What the dispatcher's `Expand` returned to its caller. -/
  returned : Option ExpandResult
  /-- The panic that killed the process. -/
  panicked : Option String
deriving Repr

/-- A scheduler's choice. -/
inductive Action where
  /-- The caller cancels its context. -/
  | cancel
  /-- Goroutine `i` steps; in a `select` with both cases ready, `done` picks `ctx.Done()`. -/
  | run (i : Nat) (done : Bool)
deriving Repr

/-- `NewRequestCanceledErr()`, as a result. -/
def canceledResult : ExpandResult := ⟨none, some .requestCanceled⟩

namespace Sys

/-- The caller, about to call the dispatcher's `Expand(ctx, req)` on context scope `0`. -/
def init (req : ExpandRequest) : Sys :=
  ⟨[⟨[0], .call (.dispatch req), [.caller], false, 0, [], .dispatch req⟩], [], none, none⟩

/-- `ctx.Done()` is closed: some scope of the context is cancelled. -/
def done (s : Sys) (ctx : List Nat) : Bool := ctx.any (· ∈ s.cancelled)

/-- Replace goroutine `i`. -/
def update (s : Sys) (i : Nat) (g : Goroutine) : Sys := { s with gs := s.gs.set i g }

/-- Cancel a scope. -/
def cancelScope (s : Sys) (x : Nat) : Sys := { s with cancelled := x :: s.cancelled }

/-- `go req(ctx, resultChan)` for each closure, each with a channel of capacity `cap`. -/
def spawnAll (s : Sys) (ctx : List Nat) (cap : Nat) (fs : List ExpandFunc) : Sys :=
  { s with gs := s.gs ++ fs.map fun f => ⟨ctx, .call f, [.send], false, cap, [], f⟩ }

/-- Goroutine `i`, as `g`, enters `expandSetOperation` over `fs`. -/
def startReducer (s : Sys) (i : Nat) (g : Goroutine) (op : Operation)
    (start : ObjectAndRelation) (fs : List ExpandFunc) : Sys :=
  if fs.isEmpty then s.update i { g with code := .ret (setResult op start []) }
  else
    (s.spawnAll ((i + 1) :: g.ctx) 0 fs).update i
      { g with code := .awaitAll op start (List.range' s.gs.length fs.length) [] }

/-- Goroutine `i`, as `g`, runs the body of closure `f` up to its first receive. -/
def callStep (ld : LocalDispatcher) (s : Sys) (i : Nat) (g : Goroutine) : ExpandFunc → Sys
  | .direct req sb =>
    match ld.ds.queryTuples (directQuery req) with
    | .error err => s.update i { g with code := .ret ⟨none, some (.expansionFailure err)⟩ }
    | .ok tuples =>
      if req.expansionMode != .recursiveExpansion || (nonTerminalUsers tuples).isEmpty then
        s.update i { g with code := .ret ⟨some (directLeaf req sb tuples), none⟩, iterOpen := true }
      else
        s.startReducer i
          { g with stack := .appendLeaf (directLeaf req sb tuples) :: g.stack, iterOpen := true }
          .union req.start
          ((nonTerminalUsers tuples).map fun user => .dispatch (nonTerminalRequest req user))
  | .setOperation req reducer fs => s.startReducer i g reducer req.start fs
  | .dispatch req =>
    if req.depthRemaining = 0 then s.update i { g with code := .ret ⟨none, some .maxDepthExceeded⟩ }
    else
      match ld.nsm.readNamespaceAndRelation req.start.namespace_ req.start.relation
          req.atRevision with
      | .error err => s.update i { g with code := .ret ⟨none, some (.expansionFailure err)⟩ }
      | .ok relation =>
        match expand req relation with
        | .error msg => { s with panicked := some msg }
        | .ok f => (s.spawnAll g.ctx 1 [f]).update i { g with code := .awaitOne s.gs.length }
  | .tupleToUserset req ttu =>
    match ld.ds.queryTuples (tuplesetQuery req ttu) with
    | .error err => s.update i { g with code := .ret ⟨none, some (.expansionFailure err)⟩ }
    | .ok tuples =>
      match tuples.mapM (computedUsersetRequest req ttu.computedUserset ∘ some) with
      | .error msg => { s with panicked := some msg }
      | .ok requests =>
        s.startReducer i { g with iterOpen := true } .union req.start (requests.map .dispatch)
  | .alwaysFail => s.update i { g with code := .ret ⟨none, some .alwaysFail⟩ }

/-- Receive from goroutine `j`'s channel: take its buffered value, or meet it blocked in an
unbuffered send, which then completes and lets it return. -/
def recv (s : Sys) (j : Nat) : Option (Sys × ExpandResult) :=
  match s.gs[j]? with
  | none => none
  | some h =>
    if h.cap = 0 then
      match h.code, h.stack with
      | .ret v, .send :: rest =>
        some (s.update j { h with code := .exited, stack := rest, iterOpen := false }, v)
      | _, _ => none
    else
      match h.buf with
      | v :: rest => some (s.update j { h with buf := rest }, v)
      | [] => none

/-- Goroutine `i`, as `g`, returns `r` to its innermost frame. -/
def retStep (s : Sys) (i : Nat) (g : Goroutine) (r : ExpandResult) : List Frame → Option Sys
  | [] => none
  | .send :: rest =>
    if g.buf.length < g.cap then
      some (s.update i { g with code := .exited, stack := rest, buf := g.buf ++ [r], iterOpen := false })
    else none
  | .appendLeaf leaf :: rest =>
    match appendLeaf leaf (.result r) with
    | .result r' => some (s.update i { g with code := .ret r', stack := rest })
    | .panic msg => some { s with panicked := some msg }
    | .outOfFuel => none
  | .caller :: rest => some { s.update i { g with code := .exited, stack := rest } with returned := some r }

/-- Goroutine `i` steps. -/
def runStep (ld : LocalDispatcher) (s : Sys) (i : Nat) (done : Bool) : Option Sys :=
  match s.gs[i]? with
  | none => none
  | some g =>
    match g.code with
    | .call f => some (s.callStep ld i g f)
    | .awaitAll op start [] children =>
      some ((s.update i { g with code := .ret (setResult op start children) }).cancelScope (i + 1))
    | .awaitAll op start (j :: pending) children =>
      if done then
        if s.done g.ctx then some ((s.update i { g with code := .ret canceledResult }).cancelScope (i + 1))
        else none
      else
        match s.recv j with
        | none => none
        | some (s', v) =>
          match v.err with
          | some e => some ((s'.update i { g with code := .ret ⟨none, some e⟩ }).cancelScope (i + 1))
          | none => some (s'.update i { g with code := .awaitAll op start pending (children ++ [v.tree]) })
    | .awaitOne j =>
      if done then
        if s.done g.ctx then some (s.update i { g with code := .ret canceledResult }) else none
      else
        match s.recv j with
        | none => none
        | some (s', v) =>
          some (s'.update i { g with code := .ret (if v.err.isSome then ⟨none, v.err⟩ else v) })
    | .ret r => s.retStep i g r g.stack
    | .exited => none

/-- What one step of goroutine `i` can do. -/
theorem runStep_cases {ld : LocalDispatcher} {s s' : Sys} {i : Nat} {done : Bool}
    (h : s.runStep ld i done = some s') :
    ∃ g, s.gs[i]? = some g ∧
      ((∃ f, g.code = .call f ∧ s' = s.callStep ld i g f) ∨
        (∃ op start children, g.code = .awaitAll op start [] children ∧
          s' = (s.update i { g with code := .ret (setResult op start children) }).cancelScope (i + 1)) ∨
        (∃ op start j pending children, g.code = .awaitAll op start (j :: pending) children ∧
          ((s.done g.ctx = true ∧
              s' = (s.update i { g with code := .ret canceledResult }).cancelScope (i + 1)) ∨
            (∃ s₁ v, s.recv j = some (s₁, v) ∧
              ((∃ e, v.err = some e ∧
                  s' = (s₁.update i { g with code := .ret ⟨none, some e⟩ }).cancelScope (i + 1)) ∨
                (v.err = none ∧
                  s' = s₁.update i { g with code := .awaitAll op start pending (children ++ [v.tree]) }))))) ∨
        (∃ j, g.code = .awaitOne j ∧
          ((s.done g.ctx = true ∧ s' = s.update i { g with code := .ret canceledResult }) ∨
            (∃ s₁ v, s.recv j = some (s₁, v) ∧
              s' = s₁.update i { g with code := .ret (if v.err.isSome then ⟨none, v.err⟩ else v) }))) ∨
        (∃ r, g.code = .ret r ∧ s.retStep i g r g.stack = some s')) := by
  unfold runStep at h
  split at h
  · cases h
  · rename_i g hi
    refine ⟨g, hi, ?_⟩
    split at h
    · rename_i f hcode
      exact .inl ⟨f, hcode, (Option.some.inj h).symm⟩
    · rename_i op start children hcode
      exact .inr (.inl ⟨op, start, children, hcode, (Option.some.inj h).symm⟩)
    · rename_i op start j pending children hcode
      refine .inr (.inr (.inl ⟨op, start, j, pending, children, hcode, ?_⟩))
      split at h
      · split at h
        · exact .inl ⟨‹_›, (Option.some.inj h).symm⟩
        · cases h
      · split at h
        · cases h
        · rename_i s₁ v hr
          refine .inr ⟨s₁, v, hr, ?_⟩
          split at h
          · exact .inl ⟨_, ‹_›, (Option.some.inj h).symm⟩
          · exact .inr ⟨‹_›, (Option.some.inj h).symm⟩
    · rename_i j hcode
      refine .inr (.inr (.inr (.inl ⟨j, hcode, ?_⟩)))
      split at h
      · split at h
        · exact .inl ⟨‹_›, (Option.some.inj h).symm⟩
        · cases h
      · split at h
        · cases h
        · rename_i s₁ v hr
          exact .inr ⟨s₁, v, hr, (Option.some.inj h).symm⟩
    · rename_i r hcode
      exact .inr (.inr (.inr (.inr ⟨r, hcode, h⟩)))
    · cases h

/-- One step of the process; a dead process takes none. -/
def step (ld : LocalDispatcher) (s : Sys) (a : Action) : Option Sys :=
  if s.panicked.isSome then none
  else
    match a with
    | .cancel => some (s.cancelScope 0)
    | .run i done => s.runStep ld i done

/-- Run a schedule. -/
def runActions (ld : LocalDispatcher) : Sys → List Action → Option Sys
  | s, [] => some s
  | s, a :: as => (s.step ld a).bind (runActions ld · as)

end Sys

/-- The states the process reaches from a call to `Expand(ctx, req)`, under any schedule. -/
inductive Reachable (ld : LocalDispatcher) (req : ExpandRequest) : Sys → Prop
  | init : Reachable ld req (Sys.init req)
  | step {s s' : Sys} (a : Action) : Reachable ld req s → s.step ld a = some s' → Reachable ld req s'

theorem Reachable.of_runActions {ld : LocalDispatcher} {req : ExpandRequest} :
    ∀ {s s' : Sys} {as : List Action}, Reachable ld req s → Sys.runActions ld s as = some s' →
      Reachable ld req s'
  | s, s', [], hs, h => by cases h; exact hs
  | s, s', a :: as, hs, h => by
    simp only [Sys.runActions] at h
    cases ha : s.step ld a with
    | none => simp [ha] at h
    | some s1 =>
      rw [ha, Option.some_bind] at h
      exact Reachable.of_runActions (.step a hs ha) h

end SpiceDB.Graph
