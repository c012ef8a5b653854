import CppCoroutines.Executor.Ends

/-!
# Coroutines of `std::future`

`future.cpp` makes `std::future<T>` a coroutine type and lets its coroutines `co_await` futures.
The frame does not wait at its first suspension point, nor at its last one; the promise is set
where the body ends. An awaiter whose future is not ready spawns a thread, which waits for the
future and resumes the coroutine. All threads run at once.
-/

namespace CppCoroutines.Future

/-! ## Bodies -/

/-- The body of a coroutine, as the `co_await`s it comes to; what it does after one depends on
what `await_resume` returns or throws. -/
inductive Body (ε α : Type) where
  /-- `co_return`, or an exception that leaves the body -/
  | done (r : Except ε α)
  /-- `co_await std::async(f)`, where `f` comes to `r`. A task that is deferred is executed by
  the `get` of its future. -/
  | async (deferred : Bool) (r : Except ε α) (next : Except ε α → Body ε α)
  /-- `co_await` of the future of a coroutine that is called for it -/
  | call (callee : Body ε α) (next : Except ε α → Body ε α)

namespace Body

variable {ε α : Type}

/-- What the body comes to if every `co_await` is the call of a function. -/
def eval : Body ε α → Except ε α
  | .done r => r
  | .async _ r next => (next r).eval
  | .call callee next => (next callee.eval).eval

/-- An exception of the `co_await` leaves the body. -/
def propagate (next : α → Body ε α) : Except ε α → Body ε α
  | .ok a => next a
  | .error e => .done (.error e)

end Body

/-! ## The coroutines and the threads -/

/-- A future: of `std::async`, or of a coroutine. -/
inductive Fut where
  | task (t : ℕ)
  | coroutine (j : ℕ)
deriving DecidableEq, Repr

/-- Where a coroutine is. -/
inductive Code (ε α : Type) where
  | running (b : Body ε α)
  /-- the coroutine that it has called is executed on its stack -/
  | calling (callee : ℕ) (next : Except ε α → Body ε α)
  /-- about to call `await_ready` -/
  | awaiting (fut : Fut) (next : Except ε α → Body ε α)
  | suspended (fut : Fut) (next : Except ε α → Body ε α)
  /-- the frame is gone -/
  | finished

/-- The caller of a coroutine waits for it to suspend or to end. -/
inductive Control where
  | within
  /-- it has suspended or ended, and is about to return -/
  | leaving
  | returned
deriving DecidableEq, Repr

structure Coroutine (ε α : Type) where
  /-- history: what it was called with -/
  body : Body ε α
  code : Code ε α
  control : Control
  /-- the shared state of its promise -/
  value : Option (Except ε α)
  /-- history: how often it has been suspended -/
  suspensions : ℕ
  /-- history: how often it has been resumed -/
  resumptions : ℕ

/-- The shared state of `std::async`. -/
structure Task (ε α : Type) where
  deferred : Bool
  result : Except ε α
  ready : Bool

/-- A thread that `await_suspend` has spawned. -/
structure Waiter where
  coro : ℕ
  fut : Fut
deriving DecidableEq, Repr

/-- What must not happen: a promise is set twice, a coroutine is resumed that is not suspended. -/
inductive Fault where
  | promiseAlreadySatisfied
  | notSuspended
deriving DecidableEq, Repr

structure State (ε α : Type) where
  coroutines : List (Coroutine ε α)
  tasks : List (Task ε α)
  waiters : List Waiter
  /-- what `get` has returned or thrown in `main` -/
  got : Option (Except ε α)
  faults : List Fault

variable {ε α : Type}

/-- A coroutine is called. -/
def Coroutine.new (b : Body ε α) : Coroutine ε α := ⟨b, .running b, .within, none, 0, 0⟩

/-- It suspends or ends: the control goes back, the first time to its caller. -/
def Control.leave : Control → Control
  | .within => .leaving
  | c => c

namespace State

/-- `main` has called the coroutine. -/
def start (b : Body ε α) : State ε α := ⟨[Coroutine.new b], [], [], none, []⟩

def setCoroutine (s : State ε α) (j : ℕ) (c : Coroutine ε α) : State ε α :=
  { s with coroutines := s.coroutines.set j c }

def fault (s : State ε α) (f : Fault) : State ε α := { s with faults := s.faults ++ [f] }

/-- What `get` returns or throws, as soon as it does not block. The status of a deferred task is
not `timeout`. -/
def fetch (s : State ε α) : Fut → Option (Except ε α)
  | .task t => s.tasks[t]?.bind fun x => if x.deferred || x.ready then some x.result else none
  | .coroutine j => s.coroutines[j]?.bind Coroutine.value

/-- `return_value` or `unhandled_exception`; the frame is destroyed. -/
def finish (s : State ε α) (j : ℕ) (c : Coroutine ε α) (r : Except ε α) : State ε α :=
  match c.value with
  | some _ => s.fault .promiseAlreadySatisfied
  | none =>
      s.setCoroutine j { c with code := .finished, value := some r, control := c.control.leave }

/-- `await_suspend`. -/
def suspend (s : State ε α) (j : ℕ) (c : Coroutine ε α) (fut : Fut)
    (next : Except ε α → Body ε α) : State ε α :=
  { s.setCoroutine j { c with
      code := .suspended fut next
      control := c.control.leave
      suspensions := c.suspensions + 1 } with
    waiters := s.waiters ++ [⟨j, fut⟩] }

/-- `cont()`, where the future is ready. -/
def resume (s : State ε α) (j : ℕ) : State ε α :=
  match s.coroutines[j]? with
  | some c =>
      match c.code with
      | .suspended fut next =>
          match s.fetch fut with
          | some r =>
              s.setCoroutine j { c with
                code := .running (next r)
                resumptions := c.resumptions + 1 }
          | none => s.fault .notSuspended
      | _ => s.fault .notSuspended
  | none => s.fault .notSuspended

/-- The body goes on to its next `co_await`, or to its end. -/
def go (s : State ε α) (j : ℕ) (c : Coroutine ε α) : Body ε α → State ε α
  | .done r => s.finish j c r
  | .async deferred r next =>
      { s.setCoroutine j { c with code := .awaiting (.task s.tasks.length) next } with
        tasks := s.tasks ++ [⟨deferred, r, false⟩] }
  | .call callee next =>
      { s with
        coroutines := s.coroutines.set j { c with code := .calling s.coroutines.length next } ++
          [Coroutine.new callee] }

end State

inductive Event where
  /-- the body of a coroutine goes on -/
  | go (j : ℕ)
  /-- a call has returned -/
  | proceed (j : ℕ)
  /-- `await_ready`, then `await_resume` or `await_suspend` -/
  | await (j : ℕ)
  /-- the control goes back to the caller -/
  | leave (j : ℕ)
  /-- the thread of a task has executed it -/
  | work (t : ℕ)
  /-- the thread of an awaiter has waited for its future and resumes the coroutine -/
  | resume (i : ℕ)
  /-- `get` in `main` -/
  | get
deriving DecidableEq, Repr

/-- One step of one of the threads. -/
def step (s : State ε α) : Event → Option (State ε α)
  | .go j =>
      match s.coroutines[j]? with
      | some c =>
          match c.code with
          | .running b => some (s.go j c b)
          | _ => none
      | none => none
  | .proceed j =>
      match s.coroutines[j]? with
      | some c =>
          match c.code with
          | .calling m next =>
              if s.coroutines[m]?.map Coroutine.control = some .returned then
                some (s.setCoroutine j { c with code := .awaiting (.coroutine m) next })
              else none
          | _ => none
      | none => none
  | .await j =>
      match s.coroutines[j]? with
      | some c =>
          match c.code with
          | .awaiting fut next =>
              match s.fetch fut with
              | some r => some (s.setCoroutine j { c with code := .running (next r) })
              | none => some (s.suspend j c fut next)
          | _ => none
      | none => none
  | .leave j =>
      match s.coroutines[j]? with
      | some c =>
          if c.control = .leaving then some (s.setCoroutine j { c with control := .returned })
          else none
      | none => none
  | .work t =>
      match s.tasks[t]? with
      | some x =>
          if x.deferred = false ∧ x.ready = false then
            some { s with tasks := s.tasks.set t { x with ready := true } }
          else none
      | none => none
  | .resume i =>
      match s.waiters[i]? with
      | some w =>
          if (s.fetch w.fut).isSome then
            some ({ s with waiters := s.waiters.eraseIdx i }.resume w.coro)
          else none
      | none => none
  | .get =>
      if s.got = none ∧ s.coroutines[0]?.map Coroutine.control = some .returned then
        (s.fetch (.coroutine 0)).map fun r => { s with got := some r }
      else none

/-- `main` calls a coroutine with this body and asks its future for the result. -/
def machine (b : Body ε α) : Machine (State ε α) Event where
  init s := s = State.start b
  step := step

end CppCoroutines.Future
