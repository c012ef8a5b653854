import CppCoroutines.Machine
import Mathlib.Data.List.Basic

/-!
# Coroutines on an event loop

A coroutine that suspends in an awaiter has started one operation, whose handler holds the
number of the awaiter and the handle of the coroutine. When the operation completes, the
handler stores the result in the awaiter and resumes the coroutine, which runs up to its next
suspension or to its end. It may call other coroutines, each of which is executed on its
stack up to its first suspension. Several handlers may be executed at a time, so that
every such piece of code is an event of its own.
-/

universe u v w x y

namespace Executor

/-- What a piece of the code of a coroutine comes to. -/
inductive Turn (σ : Type u) (Op : Type v) (Out : Type w) where
  /-- it starts the operation and suspends -/
  | await (locals : σ) (op : Op)
  /-- it calls a coroutine with these parameters -/
  | call (locals child : σ)
  /-- its body ends and its promise is set -/
  | finish (locals : σ) (out : Out)

/-- The code of the coroutines. An `Env` is what the calls of one piece of code that do not
suspend come back with. -/
structure Code (σ : Type u) (Op : Type v) (Reply : Type w) (Env : Type x) (Out : Type y) where
  /-- what a completion leaves in the frame, if the operation can complete that way -/
  complete : σ → Op → Reply → Option σ
  start : σ → Env → Turn σ Op Out
  /-- from `await_resume` on -/
  resume : σ → Op → Reply → Env → Turn σ Op Out
  /-- after a call -/
  proceed : σ → Env → Turn σ Op Out

inductive Status (Op : Type v) (Reply : Type w) (Out : Type y) where
  /-- called, its code has not begun -/
  | starting
  /-- its code is being executed -/
  | running
  /-- the code of a coroutine that it has called is -/
  | calling (child : ℕ)
  /-- in the awaiter with this number -/
  | suspended (number : ℕ) (op : Op)
  /-- resumed in that awaiter, which holds the result -/
  | resumed (number : ℕ) (op : Op) (reply : Reply)
  | finished (out : Out)
  /-- its frame was destroyed before its body ended -/
  | destroyed
deriving DecidableEq, Repr

/-- A coroutine. `caller` is what the first suspension returns to. -/
structure Task (σ : Type u) (Op : Type v) (Reply : Type w) (Out : Type y) where
  locals : σ
  status : Status Op Reply Out
  caller : Option ℕ
deriving DecidableEq, Repr

/-- A handler: the awaiter it points to and the coroutine it resumes. -/
structure Handler (Op : Type v) where
  number : ℕ
  coro : ℕ
  op : Op
deriving DecidableEq, Repr

/-- A result, with the awaiter and the coroutine it is for. -/
structure Delivery (Reply : Type w) where
  number : ℕ
  coro : ℕ
  reply : Reply
deriving DecidableEq, Repr

/-- What a handler must not find: an awaiter that is gone, a coroutine that is not suspended. -/
inductive Fault where
  | awaiterGone
  | notSuspended
deriving DecidableEq, Repr

/-- The coroutines, the handlers of the outstanding operations, and the history. The awaiters
are numbered as they suspend. -/
structure State (σ : Type u) (Op : Type v) (Reply : Type w) (Out : Type y) where
  tasks : List (Task σ Op Reply Out)
  pending : List (Handler Op)
  /-- history: the operations started -/
  started : List (Handler Op)
  /-- history: the handlers invoked, with what their operations came to -/
  invoked : List (Delivery Reply)
  /-- history: what each `await_resume` found in its awaiter -/
  yielded : List (Delivery Reply)
  /-- history: what each promise was set to -/
  promises : List (ℕ × Out)
  /-- history: the coroutines resumed or destroyed by the destructor of a handler -/
  released : List ℕ
  faults : List Fault
deriving DecidableEq, Repr

variable {σ : Type u} {Op : Type v} {Reply : Type w} {Env : Type x} {Out : Type y}

/-- The next piece of code of a coroutine, if it is its turn. -/
def Task.turn (code : Code σ Op Reply Env Out) (t : Task σ Op Reply Out) (env : Env) :
    Option (Turn σ Op Out) :=
  match t.status with
  | .starting => some (code.start t.locals env)
  | .running => some (code.proceed t.locals env)
  -- `await_resume` reads what the handler has left in the awaiter
  | .resumed _ op reply => some (code.resume t.locals op reply env)
  | _ => none

/-- It is the turn of a coroutine that has been called, resumed, or returned to. -/
theorem Task.turn_cases {code : Code σ Op Reply Env Out} {t : Task σ Op Reply Out} {env : Env}
    {turn : Turn σ Op Out} (h : t.turn code env = some turn) :
    t.status = .starting ∧ code.start t.locals env = turn ∨
      t.status = .running ∧ code.proceed t.locals env = turn ∨
      ∃ number op reply, t.status = .resumed number op reply ∧
        code.resume t.locals op reply env = turn := by
  unfold Task.turn at h
  cases hstatus : t.status with
  | starting =>
      rw [hstatus] at h
      exact Or.inl ⟨rfl, Option.some.inj h⟩
  | running =>
      rw [hstatus] at h
      exact Or.inr (Or.inl ⟨rfl, Option.some.inj h⟩)
  | resumed number op reply =>
      rw [hstatus] at h
      exact Or.inr (Or.inr ⟨number, op, reply, rfl, Option.some.inj h⟩)
  | _ =>
      rw [hstatus] at h
      cases h

namespace State

/-- The coroutines with these parameters are called. -/
def new (roots : List σ) : State σ Op Reply Out where
  tasks := roots.map fun locals => ⟨locals, .starting, none⟩
  pending := []
  started := []
  invoked := []
  yielded := []
  promises := []
  released := []
  faults := []

def status (s : State σ Op Reply Out) (i : ℕ) : Option (Status Op Reply Out) :=
  s.tasks[i]?.map Task.status

def caller (s : State σ Op Reply Out) (i : ℕ) : Option ℕ := s.tasks[i]?.bind Task.caller

def fault (s : State σ Op Reply Out) (f : Fault) : State σ Op Reply Out :=
  { s with faults := s.faults ++ [f] }

/-- `await_resume`, if the coroutine has been resumed, and on. -/
def goOn (s : State σ Op Reply Out) (i : ℕ) (t : Task σ Op Reply Out) : State σ Op Reply Out where
  tasks := s.tasks.set i { t with status := .running }
  pending := s.pending
  started := s.started
  invoked := s.invoked
  yielded :=
    match t.status with
    | .resumed number _ reply => s.yielded ++ [⟨number, i, reply⟩]
    | _ => s.yielded
  promises := s.promises
  released := s.released
  faults := s.faults

/-- A call returns to the coroutine that made it. -/
def ret (s : State σ Op Reply Out) (caller : Option ℕ) : State σ Op Reply Out :=
  match caller with
  | some p => { s with tasks := s.tasks.modify p fun t => { t with status := .running } }
  | none => s

/-- `await_suspend`. -/
def suspend (s : State σ Op Reply Out) (i : ℕ) (locals : σ) (op : Op) : State σ Op Reply Out :=
  { s with
    tasks := s.tasks.set i ⟨locals, .suspended s.started.length op, none⟩
    pending := s.pending ++ [⟨s.started.length, i, op⟩]
    started := s.started ++ [⟨s.started.length, i, op⟩] }

/-- A coroutine is called; `caller` is what the caller itself returns to. -/
def call (s : State σ Op Reply Out) (i : ℕ) (caller : Option ℕ) (locals child : σ) :
    State σ Op Reply Out :=
  { s with
    tasks := s.tasks.set i ⟨locals, .calling s.tasks.length, caller⟩ ++
      [⟨child, .starting, some i⟩] }

/-- The promise is set and the frame destroyed. -/
def finish (s : State σ Op Reply Out) (i : ℕ) (locals : σ) (out : Out) : State σ Op Reply Out :=
  { s with
    tasks := s.tasks.set i ⟨locals, .finished out, none⟩
    promises := s.promises ++ [(i, out)] }

/-- What a piece of code comes to. -/
def perform (s : State σ Op Reply Out) (i : ℕ) (caller : Option ℕ) :
    Turn σ Op Out → State σ Op Reply Out
  | .await locals op => (s.suspend i locals op).ret caller
  -- the new coroutine is executed next; this one goes on when the call returns
  | .call locals child => s.call i caller locals child
  | .finish locals out => (s.finish i locals out).ret caller

/-- The result is stored in the awaiter and the coroutine `t` is resumed. -/
def deliver [DecidableEq Op] (s : State σ Op Reply Out) (h : Handler Op) (reply : Reply)
    (t : Task σ Op Reply Out) : State σ Op Reply Out :=
  { s with
    tasks := s.tasks.set h.coro t
    pending := s.pending.erase h
    invoked := s.invoked ++ [⟨h.number, h.coro, reply⟩] }

/-- A handler is invoked: it writes to its awaiter and resumes its coroutine. -/
def invoke [DecidableEq Op] (code : Code σ Op Reply Env Out) (s : State σ Op Reply Out)
    (h : Handler Op) (reply : Reply) : Option (State σ Op Reply Out) :=
  match s.tasks[h.coro]? with
  | some ⟨locals, .suspended number op, caller⟩ =>
      -- `this` points to the awaiter of the suspended `co_await`, or to one that is gone
      if number = h.number then
        (code.complete locals op reply).map fun locals =>
          s.deliver h reply ⟨locals, .resumed number op reply, caller⟩
      -- the coroutine has gone on and is suspended in another awaiter
      else some (fault { s with pending := s.pending.erase h } .awaiterGone)
  | _ => some (fault { s with pending := s.pending.erase h } .notSuspended)

end State

/-- An operation completes, or a coroutine whose turn it is executes its next piece of code. -/
inductive Event (Op : Type v) (Reply : Type w) (Env : Type x) where
  | invoke (h : Handler Op) (reply : Reply)
  | advance (i : ℕ) (env : Env)
deriving DecidableEq, Repr

def step [DecidableEq Op] (code : Code σ Op Reply Env Out) (s : State σ Op Reply Out) :
    Event Op Reply Env → Option (State σ Op Reply Out)
  | .invoke h reply => if h ∈ s.pending then s.invoke code h reply else none
  | .advance i env =>
      s.tasks[i]?.bind fun t => (t.turn code env).map ((s.goOn i t).perform i t.caller)

/-- The event loop with these coroutines called first. -/
def machine [DecidableEq Op] (code : Code σ Op Reply Env Out) (roots : List σ) :
    Machine (State σ Op Reply Out) (Event Op Reply Env) where
  init s := s = State.new roots
  step := step code

/-! ## What the steps do to a coroutine -/

/-- What the handlers, the awaiters and the promise see of a coroutine. -/
def Status.visible : Status Op Reply Out → Option (Status Op Reply Out)
  | .starting | .running | .calling _ => none
  | st => some st

/-- Code of the coroutine, or of one it has called, is being executed. -/
def Status.active : Status Op Reply Out → Bool
  | .starting | .running | .calling _ | .resumed _ _ _ => true
  | _ => false

namespace State

variable {s : State σ Op Reply Out}

def visible (s : State σ Op Reply Out) (i : ℕ) : Option (Status Op Reply Out) :=
  (s.status i).bind Status.visible

theorem visible_eq_suspended {i number : ℕ} {op : Op} :
    s.visible i = some (.suspended number op) ↔ s.status i = some (.suspended number op) := by
  unfold visible
  rcases s.status i with - | st
  · simp
  · cases st <;> simp [Status.visible]

theorem visible_eq_resumed {i number : ℕ} {op : Op} {reply : Reply} :
    s.visible i = some (.resumed number op reply) ↔
      s.status i = some (.resumed number op reply) := by
  unfold visible
  rcases s.status i with - | st
  · simp
  · cases st <;> simp [Status.visible]

theorem status_eq_some {i : ℕ} {st : Status Op Reply Out} :
    s.status i = some st ↔ ∃ t, s.tasks[i]? = some t ∧ t.status = st := Option.map_eq_some_iff

/-- A coroutine is replaced. -/
theorem status_set {s' : State σ Op Reply Out} {i : ℕ} {t : Task σ Op Reply Out} {locals : σ}
    {st : Status Op Reply Out} {c : Option ℕ} (h : s.tasks[i]? = some t)
    (hs' : s'.tasks = s.tasks.set i ⟨locals, st, c⟩) (j : ℕ) :
    s'.status j = if j = i then some st else s.status j := by
  have hlt := (List.getElem?_eq_some_iff.mp h).1
  unfold status
  rw [hs', List.getElem?_set]
  by_cases hj : j = i
  · simp [hj, hlt]
  · rw [if_neg (Ne.symm hj), if_neg hj]

theorem caller_set {s' : State σ Op Reply Out} {i : ℕ} {t : Task σ Op Reply Out} {locals : σ}
    {st : Status Op Reply Out} {c : Option ℕ} (h : s.tasks[i]? = some t)
    (hs' : s'.tasks = s.tasks.set i ⟨locals, st, c⟩) (j : ℕ) :
    s'.caller j = if j = i then c else s.caller j := by
  have hlt := (List.getElem?_eq_some_iff.mp h).1
  unfold caller
  rw [hs', List.getElem?_set]
  by_cases hj : j = i
  · simp [hj, hlt]
  · rw [if_neg (Ne.symm hj), if_neg hj]

theorem status_ret (c : Option ℕ) (j : ℕ) :
    (s.ret c).status j = if c = some j then (s.status j).map fun _ => .running else s.status j := by
  cases c with
  | none => rfl
  | some p =>
      unfold status ret
      rw [List.getElem?_modify]
      by_cases hj : p = j
      · simp [hj, Function.comp_def]
      · simp [hj]

theorem caller_ret (c : Option ℕ) (j : ℕ) : (s.ret c).caller j = s.caller j := by
  cases c with
  | none => rfl
  | some p =>
      unfold caller ret
      rw [List.getElem?_modify]
      cases s.tasks[j]? with
      | none => rfl
      | some t => by_cases hj : p = j <;> simp [hj]

/-- The coroutine of a call is a new one. -/
theorem getElem?_call {i : ℕ} {t t' child : Task σ Op Reply Out} (h : s.tasks[i]? = some t)
    (j : ℕ) : (s.tasks.set i t' ++ [child])[j]? =
      if j = s.tasks.length then some child else if j = i then some t' else s.tasks[j]? := by
  have hlt := (List.getElem?_eq_some_iff.mp h).1
  by_cases hnew : j = s.tasks.length
  · simp [hnew]
  · rw [if_neg hnew, List.getElem?_append, List.length_set]
    by_cases hj : j < s.tasks.length
    · rw [if_pos hj, List.getElem?_set]
      by_cases hji : j = i
      · simp [hji, hlt]
      · rw [if_neg (Ne.symm hji), if_neg hji]
    · have hne : j ≠ i := by omega
      have hold : s.tasks[j]? = none := List.getElem?_eq_none (by omega)
      have hchild : [child][j - s.tasks.length]? = none :=
        List.getElem?_eq_none (by rw [List.length_singleton]; omega)
      rw [if_neg hj, if_neg hne, hchild, hold]

theorem status_call {i : ℕ} {t : Task σ Op Reply Out} {c : Option ℕ} {locals child : σ}
    (h : s.tasks[i]? = some t) (j : ℕ) :
    (s.call i c locals child).status j = if j = s.tasks.length then some .starting
      else if j = i then some (.calling s.tasks.length) else s.status j := by
  unfold status call
  rw [getElem?_call h]
  split
  · rfl
  · split
    · rfl
    · rfl

theorem caller_call {i : ℕ} {t : Task σ Op Reply Out} {c : Option ℕ} {locals child : σ}
    (h : s.tasks[i]? = some t) (j : ℕ) :
    (s.call i c locals child).caller j = if j = s.tasks.length then some i
      else if j = i then c else s.caller j := by
  unfold caller call
  rw [getElem?_call h]
  split
  · rfl
  · split
    · rfl
    · rfl

end State

end Executor
