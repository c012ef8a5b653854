import CppCoroutines.Executor.Ends
import CppCoroutines.Await.Listener

/-!
# One operation for each coroutine

`server.cpp` as a whole: `server` and the sessions it calls, which are executed within the
handler of the accept up to their first `co_await`. The coroutines have no strands: the
main result says that each of them has one operation outstanding while it is suspended and
none while it is executed, so that no handler can enter a coroutine that another one is in.
-/

namespace CppCoroutines

/-- A session, whose frame is `f`, suspends, or closes its socket and ends. -/
def closingTurn {σ τ Op Op' α : Type} (locals : σ → τ) (operation : Op → Op')
    (closeErr : Option ErrorCode) (f : Coroutine.Frame σ Op (Outcome α)) :
    Executor.Turn τ Op' (Outcome α) :=
  match f.point with
  | .awaiting op => .await (locals f.locals) (operation op)
  | .finished out =>
      .finish (locals f.locals)
        (match closeErr with
        -- `socket.close()` is after the `catch` clauses: `unhandled_exception`
        | some err => .exception (.system err)
        | none => out)

theorem closingTurn_ne_call {σ τ Op Op' α : Type} (locals : σ → τ) (operation : Op → Op')
    (closeErr : Option ErrorCode) (f : Coroutine.Frame σ Op (Outcome α)) (l child : τ) :
    closingTurn locals operation closeErr f ≠ .call l child := by
  unfold closingTurn
  cases f.point with
  | awaiting op => exact nofun
  | finished out => exact nofun

namespace AwaitServer

/-- The frame of `server` or of a `session`. -/
inductive Locals (n : ℕ) where
  | server (listening : Bool)
  | session (s : Session n)

inductive ServerOp where
  | accept
  | session (op : SessionOp)
deriving DecidableEq, Repr

inductive ServerReply where
  | accepted (err : Option ErrorCode)
  | session (reply : SessionReply)
deriving DecidableEq, Repr

/-- How the calls come off that do not suspend. -/
structure Calls where
  /-- `acceptor.open` up to `acceptor.listen` -/
  listen : Option ErrorCode
  /-- what is thrown before the `try` block of a session -/
  beforeTry : Option Thrown
  setOption : Option ErrorCode
  /-- `socket.close()`, which is after the `catch` clauses -/
  close : Option ErrorCode
deriving DecidableEq, Repr

/-- Nothing fails. -/
def Calls.ok : Calls := ⟨none, none, none, none⟩

abbrev ServerTurn (n : ℕ) := Executor.Turn (Locals n) ServerOp (Outcome Unit)

variable {n : ℕ}

/-- `session` from one `co_await` to the next or to its end. -/
def sessionTurn (calls : Calls) (f : Coroutine.Frame (Session n) SessionOp (Outcome Unit)) :
    ServerTurn n := closingTurn Locals.session ServerOp.session calls.close f

namespace Locals

def complete : Locals n → ServerOp → ServerReply → Option (Locals n)
  | .server listening, .accept, .accepted _ => some (.server listening)
  | .session s, .session op, .session reply => (s.complete op reply).map .session
  | _, _, _ => none

/-- From the call to the first suspension. -/
def start : Locals n → Calls → ServerTurn n
  | .server _, calls =>
      match calls.listen with
      | some err => .finish (.server false) (.exception (.system err))
      | none => .await (.server true) .accept
  | .session s, calls =>
      match calls.beforeTry with
      | some e => .finish (.session { s with socketOpen := false }) (.exception e)
      | none => sessionTurn calls (Session.start calls.setOption)

def resume : Locals n → ServerOp → ServerReply → Calls → ServerTurn n
  | .server listening, .accept, .accepted err, _ =>
      match awaitDone err with
      -- the future that `session` returns is not kept
      | .ok _ => .call (.server listening) (.session Session.new)
      | .error e => .finish (.server false) (.exception e)
  | .session s, .session op, .session reply, calls => sessionTurn calls (s.resume op reply)
  -- an operation completes with a result of its own kind
  | l, op, _, _ => .await l op

/-- `session(..)` has returned; its future is dropped. -/
def proceed : Locals n → Calls → ServerTurn n
  | .server listening, _ => .await (.server listening) .accept
  -- a session calls no coroutine
  | .session s, _ => .finish (.session s) (.value ())

end Locals

/-- `session` and `server` of `server.cpp`. -/
def serverCode (n : ℕ) : Executor.Code (Locals n) ServerOp ServerReply Calls (Outcome Unit) where
  complete := Locals.complete
  start := Locals.start
  resume := Locals.resume
  proceed := Locals.proceed

abbrev ServerState (n : ℕ) := Executor.State (Locals n) ServerOp ServerReply (Outcome Unit)

/-- `main` calls `server` and runs the `io_service`. -/
def serverMachine (n : ℕ) : Machine (ServerState n) (Executor.Event ServerOp ServerReply Calls) :=
  Executor.machine (serverCode n) [.server false]

/-- Only `server` calls a coroutine, when an accept has succeeded. -/
theorem serverCode_flat (n : ℕ) : (serverCode n).Flat := by
  constructor
  · intro l calls locals child
    cases l with
    | server listening =>
        cases hlisten : calls.listen with
        | none => simp [serverCode, Locals.start, hlisten]
        | some err => simp [serverCode, Locals.start, hlisten]
    | session s =>
        cases hbefore : calls.beforeTry with
        | none =>
            simpa [serverCode, Locals.start, hbefore, sessionTurn] using
              closingTurn_ne_call _ _ _ _ locals child
        | some e => simp [serverCode, Locals.start, hbefore]
  · intro l calls locals child
    cases l with
    | server listening => exact nofun
    | session s => exact nofun

/-- Every suspended coroutine has one operation outstanding and the others have none: they are
being executed or have ended. The handlers being executed have only so much left to do, and
where there is none the coroutines are suspended or have ended. A completion resumes the
coroutine that started the operation, once, and what it finds in its awaiter is the result of
that operation. A promise is set once, when the coroutine ends. -/
structure OneOperation (s : ServerState n) : Prop where
  handlers : ∀ i, s.pending.filter (fun h => h.coro = i) = s.awaited i
  outstanding : ∀ h ∈ s.pending, s.started[h.number]? = some h
  stands : ∀ i st, s.status i = some st →
    (∃ number op, st = .suspended number op) ∨ (∃ out, st = .finished out) ∨ st.active = true
  rest : (∀ i calls, (serverMachine n).step s (.advance i calls) = none) →
    ∀ i st, s.status i = some st →
      (∃ number op, st = .suspended number op) ∨ ∃ out, st = .finished out
  ends : ∀ es s', (∀ e ∈ es, ∃ i calls, e = .advance i calls) →
    (serverMachine n).run s es = some s' → es.length ≤ 3 * s.tasks.length
  owner : ∀ d ∈ s.invoked, ∃ op, s.started[d.number]? = some ⟨d.number, d.coro, op⟩
  once : (s.pending.map Executor.Handler.number ++ s.invoked.map Executor.Delivery.number).Perm
    (List.range s.started.length)
  yields : ∀ d, d ∈ s.invoked ↔
    d ∈ s.yielded ∨ ∃ op, s.status d.coro = some (.resumed d.number op d.reply)
  yieldsOnce : (s.yielded.map Executor.Delivery.number).Nodup
  promises : ∀ i, s.promises.filter (fun p => p.1 = i) = s.outcome i
  faults : s.faults = []

/-- For every number of connections and every interleaving of the completions, and however the
sessions end, each coroutine of `server.cpp` has one operation at a time. -/
theorem one_operation {s : ServerState n} (h : (serverMachine n).Reachable s) :
    OneOperation s := by
  have hinv := Executor.inv_reachable h
  refine ⟨hinv.handlers, hinv.ledger.pendingStarted, fun i st => hinv.stands, ?_, ?_,
    hinv.ledger.invokedStarted, hinv.ledger.numbers, fun d => hinv.ledger.mem_invoked,
    hinv.ledger.yielded, hinv.settled, hinv.ledger.faults⟩
  · intro hidle i st hst
    exact hinv.rest Calls.ok hidle hst
  · intro es s' hadvance hrun
    exact (hinv.length_le (serverCode_flat n) hadvance hrun).trans s.left_le

/-- The read of the first session completes while `server` is still within the handler of its
accept; the session then fails to close its socket. -/
def nestedRun : List (Executor.Event ServerOp ServerReply Calls) :=
  [.advance 0 .ok, .invoke ⟨0, 0, .accept⟩ (.accepted none), .advance 0 .ok, .advance 1 .ok,
    .invoke ⟨1, 1, .session .readSome⟩ (.session (.read (some .eof) [])),
    .advance 1 ⟨none, none, none, some .badDescriptor⟩, .advance 0 .ok]

theorem one_operation_nested :
    ∃ s, (serverMachine 2).run (Executor.State.new [.server false]) nestedRun = some s ∧
      s.promises = [(1, .exception (.system .badDescriptor))] ∧
      s.pending = [⟨2, 0, .accept⟩] ∧ OneOperation s := by
  have hrun : ∃ s, (serverMachine 2).run (Executor.State.new [.server false]) nestedRun = some s ∧
      s.promises = [(1, .exception (.system .badDescriptor))] ∧
      s.pending = [⟨2, 0, .accept⟩] := ⟨_, rfl, rfl, rfl⟩
  obtain ⟨s, hrun, hpromises, hpending⟩ := hrun
  have hreach : (serverMachine 2).Reachable s := (Machine.Reachable.init rfl).run hrun
  exact ⟨s, hrun, hpromises, hpending, one_operation hreach⟩

end AwaitServer

end CppCoroutines
