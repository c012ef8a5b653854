import CppCoroutines.Executor.Stop
import CppCoroutines.Await.Pending
import CppCoroutines.Await.Client

/-!
# Stopping the `io_service`

After `io_service::stop` the handlers that are still pending are destroyed without having been
invoked. The README says that the coroutines, to which only the handlers refer, are destroyed
with them. The handlers of `await_adapters.h` are lambdas, though, and what they capture is a
pointer and a `coroutine_handle`. Nor does a future refer to the frame: it shares the state
that the promise sets, and the frame goes when the body ends.
-/

namespace CppCoroutines

open Executor (OnDrop)

/-! ## The handlers of `await_adapters.h` -/

/-- What a handler captures. -/
inductive Capture where
  /-- `this`, a pointer to the awaiter -/
  | this
  /-- a `coroutine_handle<>`, a pointer to the frame -/
  | coro
deriving DecidableEq, Repr

/-- The end of a captured variable: neither of the two owns what it points to. -/
def Capture.onDrop {Reply : Type} : Capture → OnDrop Reply
  | .this => .nothing
  | .coro => .nothing

/-- The awaiters. -/
inductive Adapter where
  | write
  | readSome
  | accept
  | wait
  | connect
  | post
deriving DecidableEq, Repr

/-- The lambda that `await_suspend` passes to Asio. -/
def Adapter.captures : Adapter → List Capture
  | .write | .readSome | .accept | .wait | .connect => [.this, .coro]
  | .post => [.coro]

/-- The destructor of that lambda: its captured variables are destroyed, and the first that
does something to the coroutine decides. -/
def Adapter.onDrop {Reply : Type} (a : Adapter) : OnDrop Reply :=
  ((a.captures.map Capture.onDrop).find? OnDrop.releases).getD .nothing

/-- None of the handlers does anything to its coroutine. -/
theorem Adapter.onDrop_eq_nothing {Reply : Type} (a : Adapter) :
    (a.onDrop : OnDrop Reply) = .nothing := by
  cases a <;> rfl

/-- The awaiter a session starts an operation with. -/
def SessionOp.adapter : SessionOp → Adapter
  | .connect => .connect
  | .readSome => .readSome
  | .write _ => .write

/-! ## Any coroutines on these awaiters -/

section Adapters

variable {σ Op Reply Env Out : Type} [DecidableEq Op] {code : Executor.Code σ Op Reply Env Out}
  {roots : List σ} {s : Executor.State σ Op Reply Out}

/-- The handlers of coroutines that suspend in these awaiters only release nothing, so that
there must be nothing to release. -/
theorem released_iff_none_suspended (adapter : Op → Adapter)
    (h : (Executor.machine code roots).Reachable s) {order : List (Executor.Handler Op)}
    (horder : order.Perm s.pending) :
    Executor.Released s (s.shutdown (fun op => (adapter op).onDrop) order) ↔
      ∀ i number op, s.status i ≠ some (.suspended number op) := by
  have hinv := Executor.inv_reachable h
  rw [hinv.released_iff horder]
  constructor
  · intro hall i number op hst
    have hmem : ⟨number, i, op⟩ ∈ s.pending := hinv.ledger.mem_pending.mpr hst
    have hreleases := hall _ hmem
    rw [Adapter.onDrop_eq_nothing] at hreleases
    cases hreleases
  · intro hnone hd hmem
    exact absurd (hinv.ledger.mem_pending.mp hmem) (hnone _ _ _)

end Adapters

/-! ## `server.cpp` and `client.cpp` -/

namespace AwaitServer

def ServerOp.adapter : ServerOp → Adapter
  | .accept => .accept
  | .session op => op.adapter

/-- The socket that the frame holds, or its acceptor, is open. -/
def Locals.isOpen {n : ℕ} : Locals n → Bool
  | .server listening => listening
  | .session s => s.socketOpen

/-- The `io_service` is stopped and its handlers are destroyed in this order. -/
def stop {n : ℕ} (s : ServerState n) (order : List (Executor.Handler ServerOp)) : ServerState n :=
  s.shutdown (fun op => op.adapter.onDrop) order

end AwaitServer

namespace AwaitClient

/-- How the calls of a session come off that do not suspend, and what it reads of `stop`. -/
structure Calls where
  beforeTry : Option Thrown
  stop : Bool
  close : Option ErrorCode
deriving DecidableEq, Repr

variable {n : ℕ}

/-- `session` from one `co_await` to the next or to its end. -/
def sessionTurn (calls : Calls) (f : Frame n) :
    Executor.Turn (Session n) SessionOp (Outcome (UInt64 × UInt64)) :=
  closingTurn id id calls.close f

/-- `session` of `client.cpp`. -/
def sessionCode (n : ℕ) :
    Executor.Code (Session n) SessionOp SessionReply Calls (Outcome (UInt64 × UInt64)) where
  complete s op reply := s.complete op ⟨reply, false⟩
  start s calls :=
    match calls.beforeTry with
    | some e => .finish { s with socketOpen := false } (.exception e)
    | none => .await s .connect
  resume s op reply calls := sessionTurn calls (s.resume op ⟨reply, calls.stop⟩)
  -- a session calls no coroutine
  proceed s calls := sessionTurn calls s.finish

abbrev SessionsState (n : ℕ) :=
  Executor.State (Session n) SessionOp SessionReply (Outcome (UInt64 × UInt64))

/-- The sessions that `client` starts. -/
def sessionsMachine (n sessionCount : ℕ) :
    Machine (SessionsState n) (Executor.Event SessionOp SessionReply Calls) :=
  Executor.machine (sessionCode n) (List.replicate sessionCount Session.new)

/-- The `io_service` is stopped and its handlers are destroyed in this order. -/
def stop (s : SessionsState n) (order : List (Executor.Handler SessionOp)) : SessionsState n :=
  s.shutdown (fun op => op.adapter.onDrop) order

end AwaitClient

/-- At every moment of every run of the server, or of any number of sessions of the client, and
in whatever order the handlers are destroyed: no handler is left, and each coroutine that was
suspended has been resumed or destroyed once if and only if there was none. -/
theorem no_orphans_iff (n sessionCount : ℕ) :
    (∀ s, (AwaitServer.serverMachine n).Reachable s → ∀ order, order.Perm s.pending →
      (AwaitServer.stop s order).pending = [] ∧
        (Executor.Released s (AwaitServer.stop s order) ↔
          ∀ i number op, s.status i ≠ some (.suspended number op))) ∧
    ∀ s, (AwaitClient.sessionsMachine n sessionCount).Reachable s → ∀ order,
      order.Perm s.pending →
        (AwaitClient.stop s order).pending = [] ∧
          (Executor.Released s (AwaitClient.stop s order) ↔
            ∀ i number op, s.status i ≠ some (.suspended number op)) := by
  constructor
  · intro s hs order horder
    exact ⟨Executor.State.shutdown_pending horder,
      released_iff_none_suspended AwaitServer.ServerOp.adapter hs horder⟩
  · intro s hs order horder
    exact ⟨Executor.State.shutdown_pending horder,
      released_iff_none_suspended SessionOp.adapter hs horder⟩

/-- The accept fails before any connection: `server` has ended, and there are no sessions. -/
theorem no_orphans_iff_refused :
    ∃ s, (AwaitServer.serverMachine 2).run (Executor.State.new [.server false])
        [.advance 0 .ok, .invoke ⟨0, 0, .accept⟩ (.accepted (some (.other 24))), .advance 0 .ok] =
          some s ∧
      Executor.Released s (AwaitServer.stop s []) := by
  have hrun : ∃ s, (AwaitServer.serverMachine 2).run (Executor.State.new [.server false])
        [.advance 0 .ok, .invoke ⟨0, 0, .accept⟩ (.accepted (some (.other 24))), .advance 0 .ok] =
          some s ∧
      s.pending = [] := ⟨_, rfl, rfl⟩
  obtain ⟨s, hrun, hpending⟩ := hrun
  have hreach : (AwaitServer.serverMachine 2).Reachable s :=
    (Machine.Reachable.init rfl).run hrun
  have horder : [].Perm s.pending := by rw [hpending]
  refine ⟨s, hrun, (((no_orphans_iff 2 0).1 s hreach [] horder).2).mpr ?_⟩
  intro i number op hst
  have hmem : ⟨number, i, op⟩ ∈ s.pending :=
    (Executor.inv_reachable hreach).ledger.mem_pending.mpr hst
  rw [hpending] at hmem
  cases hmem

/-- A connection is accepted, and its session waits for data as `server` does for the next. -/
def connectedRun : List (Executor.Event AwaitServer.ServerOp AwaitServer.ServerReply
    AwaitServer.Calls) :=
  [.advance 0 .ok, .invoke ⟨0, 0, .accept⟩ (.accepted none), .advance 0 .ok, .advance 1 .ok,
    .advance 0 .ok]

/-- The frame of that session is neither resumed nor destroyed, and nothing refers to it any
more; its socket stays open. -/
theorem session_orphaned :
    ∃ s order, (AwaitServer.serverMachine 2).Reachable s ∧ order.Perm s.pending ∧
      (AwaitServer.stop s order).pending = [] ∧ (AwaitServer.stop s order).released = [] ∧
      (AwaitServer.stop s order).status 1 = some (.suspended 1 (.session .readSome)) ∧
      (∃ t, (AwaitServer.stop s order).tasks[1]? = some t ∧ t.locals.isOpen = true) ∧
      ¬ Executor.Released s (AwaitServer.stop s order) := by
  have hrun : ∃ s, (AwaitServer.serverMachine 2).run
      (Executor.State.new [.server false]) connectedRun = some s ∧
      s.status 1 = some (.suspended 1 (.session .readSome)) ∧
      (AwaitServer.stop s s.pending).pending = [] ∧
      (AwaitServer.stop s s.pending).released = [] ∧
      (AwaitServer.stop s s.pending).status 1 = some (.suspended 1 (.session .readSome)) ∧
      ∃ t, (AwaitServer.stop s s.pending).tasks[1]? = some t ∧ t.locals.isOpen = true :=
    ⟨_, rfl, rfl, rfl, rfl, rfl, _, rfl, rfl⟩
  obtain ⟨s, hrun, hsession, hpending, hreleased, hstays, hopen⟩ := hrun
  have hreach : (AwaitServer.serverMachine 2).Reachable s :=
    (Machine.Reachable.init rfl).run hrun
  have hperm : s.pending.Perm s.pending := List.Perm.refl _
  refine ⟨s, s.pending, hreach, hperm, hpending, hreleased, hstays, hopen, ?_⟩
  intro hall
  exact hall.resolved _ _ _ hstays

end CppCoroutines
