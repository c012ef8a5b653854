import CppCoroutines.WinRT.Waiting

/-!
# The shutdown of `winrt_server`

`wmain` of `winrt_server.cpp`: the listener appends sessions to a list; after the signal
a loop cancels each session in the list and calls `wait_for` on it, which returns at once,
since the operation has been cancelled, whether the coroutine has ended or not; then
the locals are destroyed in the reverse order of their construction. A session that is
suspended in a `pool_awaiter` submits its resumption to the thread pool environment, a
local of `wmain`, whenever its operation completes. Every step is atomic.
-/

namespace CppCoroutines.Shutdown

open PoolAwaiter (AsyncStatus)
open WinRTPromise (Exn)

/-- The operation a session waits for. -/
inductive Op where
  | readAsync
  | writeAsync
deriving DecidableEq, Repr

/-- How it completes: with a number of bytes, or with an `hresult_error`, which a
cancellation is too. -/
inductive IoResult where
  | bytes (length : ℕ)
  | failed
deriving DecidableEq, Repr

/-- Where a session coroutine is. -/
inductive Status where
  /-- suspended, the operation is outstanding -/
  | suspended (op : Op)
  /-- its resumption has been submitted to the environment -/
  | submitted (op : Op) (result : IoResult)
  /-- the submission was refused: nothing will resume it -/
  | stranded
  /-- its resumption has been submitted to an environment that is gone -/
  | dangling
  | finished
deriving DecidableEq, Repr

/-- The resumption of the coroutine is in the pool. -/
def Status.isSubmitted : Status → Bool
  | .submitted _ _ => true
  | _ => false

/-- The coroutine submits nothing any more: it has finished, or nothing will resume it. -/
def Status.isOver : Status → Bool
  | .finished => true
  | .stranded => true
  | _ => false

/-- The next operation of the loop in `session`, `none` where the loop is left: by an
exception, for a client that has closed, or for a session that is cancelled. -/
def nextOp (cancelled : Bool) : Op → IoResult → Option Op
  | _, .failed => none
  | .readAsync, .bytes length =>
      -- `await_transform` throws in a cancelled coroutine
      if length = 0 ∨ cancelled = true then none else some .writeAsync
  | .writeAsync, .bytes _ => if cancelled = true then none else some .readAsync

/-- The session goes on from an operation; one that has completed by the time it is awaited
does not suspend the coroutine. -/
def advance (cancelled : Bool) (op : Op) : List IoResult → Status
  | [] => .suspended op
  | r :: inline =>
      match nextOp cancelled op r with
      | some op => advance cancelled op inline
      | none => .finished

/-- An element of `sessions`, with the history of the shutdown loop. -/
structure Session where
  status : Status
  /-- what `Status` of the operation returns -/
  async : AsyncStatus
  /-- history: `wait_for` has returned before it had finished -/
  unfinished : Bool
  /-- history: it was appended after the loop had come to the end of the list -/
  late : Bool
deriving DecidableEq, Repr

namespace Session

/-- The coroutine comes to its next suspension or to its end. `closed` is what `socket.Close()`
throws; nothing in the body catches it. -/
def goTo (x : Session) (status : Status) (closed : Option Exn) : Session :=
  let ending : Except Exn Unit := closed.elim (.ok ()) .error
  { x with
    status := status
    async :=
      if status = .finished then
        WinRTPromise.statusOf (x.async == .canceled) (some ending) true
      else x.async }

/-- The session is called and runs to its first suspension. -/
def new (late : Bool) (inline : List IoResult) (closed : Option Exn) : Session :=
  goTo ⟨.suspended .readAsync, .started, false, late⟩ (advance false .readAsync inline) closed

/-- `Cancel`. -/
def cancel (x : Session) : Session :=
  { x with async := if x.async = .started then .canceled else x.async }

end Session

/-- The locals of `wmain` in the order in which they are destroyed. -/
inductive Local where
  | revoker
  | sessions
  | listener
  | environment
deriving DecidableEq, Repr

/-- Where `wmain` is. -/
inductive Main where
  /-- in `WaitForSingleObject` -/
  | waiting
  /-- at the head of the loop, with the iterator at this session -/
  | looping (i : ℕ)
  /-- in `wait_for` on this session, which has been cancelled -/
  | joining (i : ℕ)
  /-- leaving the block, with these locals still to be destroyed -/
  | leaving (locals : List Local)
deriving DecidableEq, Repr

structure State where
  main : Main
  sessions : List Session
deriving DecidableEq, Repr

namespace State

/-- The listener is set up. -/
def start : State := ⟨.waiting, []⟩

/-- The revoker has not been destroyed: connections are received. -/
def listening (s : State) : Bool :=
  match s.main with
  | .leaving locals => .revoker ∈ locals
  | _ => true

/-- The loop has come to the end of the list. -/
def loopEnded (s : State) : Bool :=
  match s.main with
  | .leaving _ => true
  | _ => false

/-- `~environment` has returned. -/
def environmentDestroyed (s : State) : Bool :=
  match s.main with
  | .leaving locals => .environment ∉ locals
  | _ => false

def modify (s : State) (i : ℕ) (f : Session → Session) : State :=
  { s with sessions := s.sessions.modify i f }

/-- `wait_for` has returned, and the loop goes on. -/
def joined (s : State) (i : ℕ) : State :=
  { s.modify i fun x => { x with unfinished := x.status ≠ .finished } with
    main := .looping (i + 1) }

end State

/-- What can happen. -/
inductive Event where
  /-- `ConnectionReceived`; the session runs to its first suspension -/
  | connect (inline : List IoResult) (closed : Option Exn)
  /-- the operation of a session completes; `TrySubmitThreadpoolCallback` may refuse -/
  | complete (i : ℕ) (result : IoResult) (accepted : Bool)
  /-- a thread of the pool resumes a session -/
  | run (i : ℕ) (inline : List IoResult) (closed : Option Exn)
  | signal
  | cancel
  /-- `wait_for` returns, its handler having been invoked -/
  | joined
  /-- `wait_for` returns after one minute -/
  | timeout
  | endLoop
  /-- the next local is destroyed -/
  | destroy
deriving DecidableEq, Repr

/-- `TrySubmitThreadpoolCallback`, by the handler of an operation that has completed. -/
def trySubmit (environmentDestroyed : Bool) (op : Op) (result : IoResult) (accepted : Bool) :
    Status :=
  if environmentDestroyed then .dangling
  else if accepted then .submitted op result
  else .stranded

def step (s : State) : Event → Option State
  | .connect inline closed =>
      if s.listening then
        some { s with sessions := s.sessions ++ [Session.new s.loopEnded inline closed] }
      else none
  | .complete i result accepted =>
      match s.sessions[i]? with
      | some ⟨.suspended op, _, _, _⟩ =>
          some (s.modify i fun x =>
            { x with status := trySubmit s.environmentDestroyed op result accepted })
      | _ => none
  | .run i inline closed =>
      match s.sessions[i]? with
      | some ⟨.submitted op result, async, _, _⟩ =>
          some (s.modify i fun x =>
            x.goTo (advance (async == .canceled) op (result :: inline)) closed)
      | _ => none
  | .signal => if s.main = .waiting then some { s with main := .looping 0 } else none
  | .cancel =>
      match s.main with
      | .looping i =>
          if i < s.sessions.length then
            some { s.modify i Session.cancel with main := .joining i }
          else none
      | _ => none
  | .joined =>
      match s.main with
      | .joining i =>
          -- `Completed` invokes the handler at once, or the coroutine at its end
          if ∃ x, s.sessions[i]? = some x ∧ x.async ≠ .started then some (s.joined i) else none
      | _ => none
  | .timeout =>
      match s.main with
      | .joining i =>
          if ∃ x, s.sessions[i]? = some x ∧ x.async = .started then some (s.joined i) else none
      | _ => none
  | .endLoop =>
      match s.main with
      | .looping i =>
          if i = s.sessions.length then
            some { s with main := .leaving [.revoker, .sessions, .listener, .environment] }
          else none
      | _ => none
  | .destroy =>
      match s.main with
      | .leaving (.environment :: locals) =>
          -- `CloseThreadpoolCleanupGroupMembers(.., FALSE, ..)` waits for all callbacks
          if ∀ x ∈ s.sessions, x.status.isSubmitted = false then
            some { s with main := .leaving locals }
          else none
      | .leaving (_ :: locals) => some { s with main := .leaving locals }
      | _ => none

/-- `winrt_server` from the moment it listens. -/
def machine : Machine State Event where
  init s := s = State.start
  step := step

/-- After the end of the environment no session submits anything any more. -/
def Orderly (s : State) : Prop :=
  s.environmentDestroyed = true → ∀ x ∈ s.sessions, x.status.isOver = true

/-- The shutdown loop has not seen this session finish. -/
def Session.abandoned (x : Session) : Bool := x.unfinished || x.late

/-- When the environment is destroyed the abandoned sessions are over all the same. -/
def AbandonedOver (s : State) (e : Event) : Prop :=
  e = .destroy → s.main = .leaving [.environment] →
    ∀ x ∈ s.sessions, x.abandoned = true → x.status.isOver = true

/-! ## Inverting a step -/

/-- What a step can do, guard by guard. -/
inductive Step (s : State) : Event → State → Prop where
  | connect (inline : List IoResult) (closed : Option Exn) : s.listening = true →
      Step s (.connect inline closed) { s with
        sessions := s.sessions ++ [Session.new s.loopEnded inline closed] }
  | complete {i : ℕ} {x : Session} {op : Op} (result : IoResult) (accepted : Bool) :
      s.sessions[i]? = some x → x.status = .suspended op →
      Step s (.complete i result accepted) (s.modify i fun x =>
        { x with status := trySubmit s.environmentDestroyed op result accepted })
  | run {i : ℕ} {x : Session} {op : Op} {r : IoResult} (inline : List IoResult)
      (closed : Option Exn) : s.sessions[i]? = some x → x.status = .submitted op r →
      Step s (.run i inline closed) (s.modify i fun y =>
        y.goTo (advance (x.async == .canceled) op (r :: inline)) closed)
  | signal : s.main = .waiting → Step s .signal { s with main := .looping 0 }
  | cancel {i : ℕ} : s.main = .looping i → i < s.sessions.length →
      Step s .cancel { s.modify i Session.cancel with main := .joining i }
  | joined {i : ℕ} {x : Session} : s.main = .joining i → s.sessions[i]? = some x →
      x.async ≠ .started → Step s .joined (s.joined i)
  | timeout {i : ℕ} {x : Session} : s.main = .joining i → s.sessions[i]? = some x →
      x.async = .started → Step s .timeout (s.joined i)
  | endLoop {i : ℕ} : s.main = .looping i → i = s.sessions.length →
      Step s .endLoop { s with main := .leaving [.revoker, .sessions, .listener, .environment] }
  | destroy {l : Local} {locals : List Local} : s.main = .leaving (l :: locals) →
      Step s .destroy { s with main := .leaving locals }

theorem step_cases {s s' : State} {e : Event} (hstep : step s e = some s') : Step s e s' := by
  cases e with
  | connect inline closed =>
      obtain ⟨hlistening, heq⟩ := Option.ite_none_right_eq_some.mp hstep
      exact Option.some.inj heq ▸ Step.connect inline closed hlistening
  | complete i result accepted =>
      cases hx : s.sessions[i]? with
      | none => simp [step, hx] at hstep
      | some x =>
          obtain ⟨status, async, unfinished, late⟩ := x
          cases status with
          | suspended op =>
              simp only [step, hx] at hstep
              exact Option.some.inj hstep ▸ Step.complete result accepted hx rfl
          | submitted op r => simp [step, hx] at hstep
          | stranded => simp [step, hx] at hstep
          | dangling => simp [step, hx] at hstep
          | finished => simp [step, hx] at hstep
  | run i inline closed =>
      cases hx : s.sessions[i]? with
      | none => simp [step, hx] at hstep
      | some x =>
          obtain ⟨status, async, unfinished, late⟩ := x
          cases status with
          | submitted op r =>
              simp only [step, hx] at hstep
              exact Option.some.inj hstep ▸ Step.run inline closed hx rfl
          | suspended op => simp [step, hx] at hstep
          | stranded => simp [step, hx] at hstep
          | dangling => simp [step, hx] at hstep
          | finished => simp [step, hx] at hstep
  | signal =>
      obtain ⟨hmain, heq⟩ := Option.ite_none_right_eq_some.mp hstep
      exact Option.some.inj heq ▸ Step.signal hmain
  | cancel =>
      cases hmain : s.main with
      | looping i =>
          simp only [step, hmain] at hstep
          obtain ⟨hlt, heq⟩ := Option.ite_none_right_eq_some.mp hstep
          exact Option.some.inj heq ▸ Step.cancel hmain hlt
      | waiting => simp [step, hmain] at hstep
      | joining i => simp [step, hmain] at hstep
      | leaving l => simp [step, hmain] at hstep
  | joined =>
      cases hmain : s.main with
      | joining i =>
          simp only [step, hmain] at hstep
          obtain ⟨⟨x, hx, hended⟩, heq⟩ := Option.ite_none_right_eq_some.mp hstep
          exact Option.some.inj heq ▸ Step.joined hmain hx hended
      | waiting => simp [step, hmain] at hstep
      | looping i => simp [step, hmain] at hstep
      | leaving l => simp [step, hmain] at hstep
  | timeout =>
      cases hmain : s.main with
      | joining i =>
          simp only [step, hmain] at hstep
          obtain ⟨⟨x, hx, hstarted⟩, heq⟩ := Option.ite_none_right_eq_some.mp hstep
          exact Option.some.inj heq ▸ Step.timeout hmain hx hstarted
      | waiting => simp [step, hmain] at hstep
      | looping i => simp [step, hmain] at hstep
      | leaving l => simp [step, hmain] at hstep
  | endLoop =>
      cases hmain : s.main with
      | looping i =>
          simp only [step, hmain] at hstep
          obtain ⟨hend, heq⟩ := Option.ite_none_right_eq_some.mp hstep
          exact Option.some.inj heq ▸ Step.endLoop hmain hend
      | waiting => simp [step, hmain] at hstep
      | joining i => simp [step, hmain] at hstep
      | leaving l => simp [step, hmain] at hstep
  | destroy =>
      cases hmain : s.main with
      | waiting => simp [step, hmain] at hstep
      | looping i => simp [step, hmain] at hstep
      | joining i => simp [step, hmain] at hstep
      | leaving l =>
          cases l with
          | nil => simp [step, hmain] at hstep
          | cons l locals =>
              cases l with
              | environment =>
                  simp only [step, hmain] at hstep
                  obtain ⟨-, heq⟩ := Option.ite_none_right_eq_some.mp hstep
                  exact Option.some.inj heq ▸ Step.destroy hmain
              | revoker =>
                  simp only [step, hmain] at hstep
                  exact Option.some.inj hstep ▸ Step.destroy hmain
              | sessions =>
                  simp only [step, hmain] at hstep
                  exact Option.some.inj hstep ▸ Step.destroy hmain
              | listener =>
                  simp only [step, hmain] at hstep
                  exact Option.some.inj hstep ▸ Step.destroy hmain

/-! ## What the loop has seen -/

/-- How many sessions the loop has dealt with. -/
def State.seen (s : State) : ℕ :=
  match s.main with
  | .waiting => 0
  | .looping i => i
  | .joining i => i
  | .leaving _ => s.sessions.length

/-- The loop has seen the session finish, or has not. -/
def Session.DealtWith (x : Session) : Prop := x.status = .finished ∨ x.abandoned = true

/-- Every session the loop has dealt with has finished or has been abandoned, the one it waits for
has been cancelled, and the locals are destroyed in order. -/
structure Inv (s : State) : Prop where
  seen : s.seen ≤ s.sessions.length
  joining : ∀ i, s.main = .joining i → ∃ x, s.sessions[i]? = some x ∧ x.async ≠ .started
  joined : ∀ i x, i < s.seen → s.sessions[i]? = some x → x.DealtWith
  locals : ∀ l, s.main = .leaving l → l <:+ [.revoker, .sessions, .listener, .environment]

theorem inv_start : Inv State.start := by
  refine ⟨Nat.le_refl 0, nofun, ?_, nofun⟩
  intro i x hi
  exact absurd hi (Nat.not_lt_zero i)

section Steps

variable {s s' : State}

/-- The revoker goes first: nothing connects after the end of the environment. -/
theorem Inv.not_listening (h : Inv s) (hdestroyed : s.environmentDestroyed = true) :
    s.listening = false := by
  unfold State.environmentDestroyed at hdestroyed
  unfold State.listening
  cases hmain : s.main with
  | leaving locals =>
      simp only [hmain, decide_eq_true_eq] at hdestroyed ⊢
      have hsuffix := h.locals locals hmain
      simp only [List.suffix_cons_iff, List.suffix_nil] at hsuffix
      rcases hsuffix with rfl | rfl | rfl | rfl | rfl
      · simp at hdestroyed
      · rfl
      · rfl
      · rfl
      · rfl
  | waiting => simp [hmain] at hdestroyed
  | looping i => simp [hmain] at hdestroyed
  | joining i => simp [hmain] at hdestroyed

/-- A session that arrives after the end of the loop is late. -/
theorem Inv.connect {inline : List IoResult} {closed : Option Exn} (h : Inv s) :
    Inv { s with sessions := s.sessions ++ [Session.new s.loopEnded inline closed] } := by
  have hlength : ∀ x : Session, (s.sessions ++ [x]).length = s.sessions.length + 1 := by simp
  refine ⟨?_, ?_, ?_, h.locals⟩
  · have hseen := h.seen
    unfold State.seen at hseen ⊢
    rw [hlength]
    cases hmain : s.main with
    | leaving locals => exact Nat.le_refl _
    | waiting => exact Nat.zero_le _
    | looping i =>
        simp only [hmain] at hseen ⊢
        omega
    | joining i =>
        simp only [hmain] at hseen ⊢
        omega
  · intro i hmain
    obtain ⟨x, hx, hasync⟩ := h.joining i hmain
    have hlt := (List.getElem?_eq_some_iff.mp hx).1
    exact ⟨x, (List.getElem?_append_left hlt).trans hx, hasync⟩
  · intro i x hi hx
    have hx : (s.sessions ++ [_])[i]? = some x := hx
    by_cases hold : i < s.sessions.length
    · rw [List.getElem?_append_left hold] at hx
      refine h.joined i x ?_ hx
      unfold State.seen at hi ⊢
      cases hmain : s.main with
      | leaving locals => exact hold
      | waiting => simp [hmain] at hi
      | looping j => simpa [hmain] using hi
      | joining j => simpa [hmain] using hi
    · -- only the end of the loop makes the new session one of those it has dealt with
      have hseen := h.seen
      have hended : s.loopEnded = true := by
        unfold State.seen at hi hseen
        unfold State.loopEnded
        cases hmain : s.main with
        | leaving locals => rfl
        | waiting => simp [hmain] at hi
        | looping j =>
            simp only [hmain] at hi hseen
            omega
        | joining j =>
            simp only [hmain] at hi hseen
            omega
      rw [List.getElem?_append_right (Nat.not_lt.mp hold)] at hx
      have hnew : x = Session.new s.loopEnded inline closed :=
        List.mem_singleton.mp (List.mem_of_getElem? hx)
      apply Or.inr
      rw [hnew]
      exact hended

/-- A session changes; what the loop has seen of it stays so. -/
theorem Inv.modify {i : ℕ} {f : Session → Session} (h : Inv s)
    (hf : ∀ x, s.sessions[i]? = some x →
      (x.DealtWith → (f x).DealtWith) ∧ (x.async ≠ .started → (f x).async ≠ .started)) :
    Inv (s.modify i f) := by
  have hlength : (s.modify i f).sessions.length = s.sessions.length := List.length_modify _ _ _
  have hseen : (s.modify i f).seen = s.seen := by
    unfold State.seen
    rw [hlength]
    rfl
  refine ⟨?_, ?_, ?_, h.locals⟩
  · rw [hseen, hlength]
    exact h.seen
  · intro j hmain
    obtain ⟨x, hx, hasync⟩ := h.joining j hmain
    by_cases hij : i = j
    · subst hij
      refine ⟨f x, ?_, (hf x hx).2 hasync⟩
      show (s.sessions.modify i f)[i]? = _
      rw [List.getElem?_modify_eq, hx]
      rfl
    · exact ⟨x, (List.getElem?_modify_ne _ _ hij).trans hx, hasync⟩
  · intro j x hj hx
    rw [hseen] at hj
    have hx : (s.sessions.modify i f)[j]? = some x := hx
    by_cases hij : i = j
    · subst hij
      rw [List.getElem?_modify_eq] at hx
      obtain ⟨y, hy, rfl⟩ := Option.map_eq_some_iff.mp hx
      exact (hf y hy).1 (h.joined i y hj hy)
    · rw [List.getElem?_modify_ne _ _ hij] at hx
      exact h.joined j x hj hx

/-- The operation of a session completes. -/
theorem Inv.setStatus {i : ℕ} {x : Session} {status : Status} (h : Inv s)
    (hx : s.sessions[i]? = some x) (hunfinished : x.status ≠ .finished) :
    Inv (s.modify i fun x => { x with status := status }) := by
  apply h.modify
  intro y hy
  obtain rfl := Option.some.inj (hx.symm.trans hy)
  exact ⟨fun hdealt => Or.inr (hdealt.resolve_left hunfinished), id⟩

/-- Neither the loop of the session nor its end starts the operation again. -/
theorem goTo_async {x : Session} (hx : x.async ≠ .started) (status : Status)
    (closed : Option Exn) : (x.goTo status closed).async ≠ .started := by
  unfold Session.goTo
  show (if status = .finished then _ else x.async) ≠ .started
  split
  · unfold WinRTPromise.statusOf
    cases closed with
    | none => cases x.async == .canceled <;> nofun
    | some ex => cases ex <;> nofun
  · exact hx

/-- A session goes on. -/
theorem Inv.goTo {i : ℕ} {x : Session} {status : Status} {closed : Option Exn} (h : Inv s)
    (hx : s.sessions[i]? = some x) (hunfinished : x.status ≠ .finished) :
    Inv (s.modify i fun x => x.goTo status closed) := by
  apply h.modify
  intro y hy
  obtain rfl := Option.some.inj (hx.symm.trans hy)
  exact ⟨fun hdealt => Or.inr (hdealt.resolve_left hunfinished),
    fun hasync => goTo_async hasync status closed⟩

/-- `wmain` goes on. -/
theorem Inv.main {m : Main} (h : Inv s)
    (hseen : State.seen { s with main := m } ≤ s.sessions.length)
    (hjoining : ∀ i, m = .joining i → ∃ x, s.sessions[i]? = some x ∧ x.async ≠ .started)
    (hjoined : ∀ i x, s.seen ≤ i → i < State.seen { s with main := m } →
      s.sessions[i]? = some x → x.DealtWith)
    (hlocals : ∀ l, m = .leaving l → l <:+ [.revoker, .sessions, .listener, .environment]) :
    Inv { s with main := m } := by
  refine ⟨hseen, hjoining, ?_, hlocals⟩
  intro i x hi hx
  by_cases hlt : i < s.seen
  · exact h.joined i x hlt hx
  · exact hjoined i x (Nat.not_lt.mp hlt) hi hx

/-- `Cancel`. -/
theorem Inv.cancel {i : ℕ} (h : Inv s) (hmain : s.main = .looping i)
    (hlt : i < s.sessions.length) : Inv { s.modify i Session.cancel with main := .joining i } := by
  have hcancelled : ∀ x : Session, x.cancel.async ≠ .started := by
    intro x
    show (if x.async = .started then AsyncStatus.canceled else x.async) ≠ .started
    split
    · nofun
    · assumption
  have hmodify : Inv (s.modify i Session.cancel) := h.modify fun x _ => ⟨id, fun _ => hcancelled x⟩
  have hlength : (s.modify i Session.cancel).sessions.length = s.sessions.length :=
    List.length_modify _ _ _
  refine hmodify.main ?_ ?_ ?_ nofun
  · show i ≤ _
    omega
  · intro j hj
    obtain rfl := Main.joining.inj hj
    refine ⟨s.sessions[i].cancel, ?_, hcancelled _⟩
    show (s.sessions.modify i Session.cancel)[i]? = _
    rw [List.getElem?_modify_eq, List.getElem?_eq_getElem hlt]
    rfl
  · intro j x hj hj' _
    have hseen : (s.modify i Session.cancel).seen = i := by
      simp [State.seen, State.modify, hmain]
    have hj' : j < i := hj'
    omega

/-- The loop goes on to the next session; whether this one has finished is written down. -/
theorem Inv.next {i : ℕ} (h : Inv s) (hmain : s.main = .joining i) : Inv (s.joined i) := by
  obtain ⟨x, hx, -⟩ := h.joining i hmain
  have hlt := (List.getElem?_eq_some_iff.mp hx).1
  have hdealt : ∀ x : Session,
      Session.DealtWith { x with unfinished := x.status ≠ .finished } := by
    intro x
    by_cases hfinished : x.status = .finished
    · exact Or.inl hfinished
    · apply Or.inr
      simp [Session.abandoned, hfinished]
  have hmodify : Inv (s.modify i fun x => { x with unfinished := x.status ≠ .finished }) :=
    h.modify fun x _ => ⟨fun _ => hdealt x, id⟩
  refine hmodify.main ?_ nofun ?_ nofun
  · show i + 1 ≤ (s.sessions.modify i _).length
    rw [List.length_modify]
    exact hlt
  · intro j y hj hj' hy
    have hseen : (s.modify i fun x => { x with unfinished := x.status ≠ .finished }).seen = i := by
      simp [State.seen, State.modify, hmain]
    have hj' : j < i + 1 := hj'
    obtain rfl : j = i := by omega
    have hy : (s.sessions.modify j _)[j]? = some y := hy
    rw [List.getElem?_modify_eq] at hy
    obtain ⟨z, -, rfl⟩ := Option.map_eq_some_iff.mp hy
    exact hdealt z

theorem step_inv {e : Event} (h : Inv s) (hstep : step s e = some s') : Inv s' := by
  cases step_cases hstep with
  | connect inline closed _ => exact h.connect
  | complete result accepted hx hstatus => exact h.setStatus hx (by simp [hstatus])
  | run inline closed hx hstatus => exact h.goTo hx (by simp [hstatus])
  | signal hmain =>
      refine h.main (Nat.zero_le _) nofun ?_ nofun
      intro i x _ hi
      exact absurd hi (Nat.not_lt_zero i)
  | cancel hmain hlt => exact h.cancel hmain hlt
  | joined hmain _ _ => exact h.next hmain
  | timeout hmain _ _ => exact h.next hmain
  | @endLoop i hmain hend =>
      refine h.main (Nat.le_refl _) nofun ?_ ?_
      · intro j x hj hj' _
        have hseen : s.seen = i := by simp [State.seen, hmain]
        have hj' : j < s.sessions.length := hj'
        omega
      · intro l hl
        obtain rfl := Main.leaving.inj hl
        exact List.suffix_rfl
  | @destroy l locals hmain =>
      refine h.main (Nat.le_refl _) nofun ?_ ?_
      · intro j x hj hj' _
        have hseen : s.seen = s.sessions.length := by simp [State.seen, hmain]
        have hj' : j < s.sessions.length := hj'
        omega
      · intro l' hl'
        obtain rfl := Main.leaving.inj hl'
        exact (List.suffix_cons l _).trans (h.locals _ hmain)

theorem inv_reachable (hs : machine.Reachable s) : Inv s := by
  have hinv : machine.Inductive Inv := by
    constructor
    · rintro s rfl
      exact inv_start
    · intro s e s' h hstep
      exact step_inv h hstep
  exact hinv.reachable hs

/-! ## The calls of `wait_for` -/

/-- A call of `wait_for` can return by its handler where the call of a thread that finds the
operation with this status returns at once. -/
theorem joined_iff {i : ℕ} {x : Session} (hmain : s.main = .joining i)
    (hx : s.sessions[i]? = some x) {α : Type} {kind : WinRTPromise.Kind α}
    {w : WinRTWait.State α} (hw : (WinRTWait.machine .waitFor kind).Reachable w)
    (hphase : w.phase = .calling) (hstatus : w.async.promise.status = x.async) :
    (∃ s', step s .joined = some s') ↔
      ∃ w', (WinRTWait.machine .waitFor kind).run w WinRTWait.atOnce = some w' ∧
        w'.phase = .returned ∧ w'.status = w.async.promise.status ∧
        w'.async.body = w.async.body := by
  rw [← WinRTWait.wait_for_at_once_iff hw hphase, hstatus]
  simp [step, hmain, hx]

/-- In no run does a call of `wait_for` time out: `Cancel` has ended the operation, and the call
can return at once, wherever the session is. -/
theorem never_times_out (hs : machine.Reachable s) {i : ℕ} (hmain : s.main = .joining i) :
    step s .timeout = none ∧ step s .joined = some (s.joined i) := by
  obtain ⟨x, hx, hasync⟩ := (inv_reachable hs).joining i hmain
  simp [step, hmain, hx, hasync]

/-! ## Runs -/

theorem exists_leaving (hdestroyed : s.environmentDestroyed = true) : ∃ l, s.main = .leaving l := by
  cases hmain : s.main with
  | leaving l => exact ⟨l, rfl⟩
  | waiting => simp [State.environmentDestroyed, hmain] at hdestroyed
  | looping i => simp [State.environmentDestroyed, hmain] at hdestroyed
  | joining i => simp [State.environmentDestroyed, hmain] at hdestroyed

/-- When the environment is gone and all sessions are over, they stay as they are. -/
theorem Inv.settled {e : Event} (h : Inv s) (hdestroyed : s.environmentDestroyed = true)
    (horderly : Orderly s) (hstep : step s e = some s') : Orderly s' := by
  obtain ⟨l, hleaving⟩ := exists_leaving hdestroyed
  cases step_cases hstep with
  | connect inline closed hlistening =>
      rw [h.not_listening hdestroyed] at hlistening
      cases hlistening
  | complete result accepted hx hstatus =>
      have hover := horderly hdestroyed _ (List.mem_of_getElem? hx)
      simp [hstatus, Status.isOver] at hover
  | run inline closed hx hstatus =>
      have hover := horderly hdestroyed _ (List.mem_of_getElem? hx)
      simp [hstatus, Status.isOver] at hover
  | signal hmain => simp [hleaving] at hmain
  | cancel hmain => simp [hleaving] at hmain
  | joined hmain _ _ => simp [hleaving] at hmain
  | timeout hmain _ _ => simp [hleaving] at hmain
  | endLoop hmain => simp [hleaving] at hmain
  | destroy hmain => exact fun _ => horderly hdestroyed

/-- The environment comes to its end as the last of the locals. -/
theorem Inv.last {e : Event} (h : Inv s) (halive : s.environmentDestroyed = false)
    (hstep : step s e = some s') (hdestroyed : s'.environmentDestroyed = true) :
    e = .destroy ∧ s.main = .leaving [.environment] ∧ s'.sessions = s.sessions := by
  have hsame : s'.main = s.main → s'.environmentDestroyed = false := by
    intro hmain
    unfold State.environmentDestroyed at halive ⊢
    rw [hmain]
    exact halive
  have hnot : s'.environmentDestroyed ≠ false := by simp [hdestroyed]
  cases step_cases hstep with
  | connect inline closed _ => exact absurd (hsame rfl) hnot
  | complete result accepted hx hstatus => exact absurd (hsame rfl) hnot
  | run inline closed hx hstatus => exact absurd (hsame rfl) hnot
  | signal hmain => exact absurd rfl hnot
  | cancel hmain => exact absurd rfl hnot
  | joined hmain _ _ => exact absurd rfl hnot
  | timeout hmain _ _ => exact absurd rfl hnot
  | endLoop hmain => exact absurd rfl hnot
  | @destroy l locals hmain =>
      have hsuffix := h.locals _ hmain
      have hnotMem : Local.environment ∉ locals := by
        simpa [State.environmentDestroyed] using hdestroyed
      simp only [List.suffix_cons_iff, List.suffix_nil] at hsuffix
      refine ⟨rfl, ?_, rfl⟩
      rw [hmain]
      -- any other rest still has the environment in it
      rcases hsuffix with heq | heq | heq | heq | heq
      · obtain ⟨rfl, rfl⟩ := List.cons.inj heq
        simp at hnotMem
      · obtain ⟨rfl, rfl⟩ := List.cons.inj heq
        simp at hnotMem
      · obtain ⟨rfl, rfl⟩ := List.cons.inj heq
        simp at hnotMem
      · rw [heq]
      · cases heq

/-- A step that destroys the environment leaves the sessions in order if the abandoned ones
are over: the loop has seen the others finish. -/
theorem step_orderly {e : Event} (hs : Inv s ∧ Orderly s) (hstep : step s e = some s')
    (hover : AbandonedOver s e) : Inv s' ∧ Orderly s' := by
  obtain ⟨h, horderly⟩ := hs
  refine ⟨step_inv h hstep, ?_⟩
  cases halive : s.environmentDestroyed with
  | true => exact h.settled halive horderly hstep
  | false =>
      intro hdestroyed x hx
      obtain ⟨rfl, hmain, hsessions⟩ := h.last halive hstep hdestroyed
      rw [hsessions] at hx
      obtain ⟨i, hi⟩ := List.mem_iff_getElem?.mp hx
      have hlt : i < s.seen := by
        have hlength := (List.getElem?_eq_some_iff.mp hi).1
        simpa [State.seen, hmain] using hlength
      rcases h.joined i x hlt hi with hfinished | habandoned
      · rw [hfinished]
        rfl
      · exact hover rfl hmain x hx habandoned

/-- An abandoned session that is not over when the environment is destroyed is left behind. -/
theorem step_leaves {e : Event} (hstep : step s e = some s') (hover : ¬ AbandonedOver s e) :
    ¬ Orderly s' := by
  simp only [AbandonedOver, not_forall] at hover
  obtain ⟨rfl, hmain, x, hx, -, hnot⟩ := hover
  cases step_cases hstep with
  | @destroy l locals hmain' =>
      obtain ⟨rfl, rfl⟩ : l = .environment ∧ locals = [] := by
        rw [hmain] at hmain'
        simpa [eq_comm] using hmain'
      intro horderly
      exact hnot (horderly rfl x hx)

/-- Over every interleaving of connections, completions, the signal, the shutdown loop and
the destruction of the locals: no session can submit a resumption after the end of the
environment, throughout the run, if and only if the sessions that had not finished when their
`wait_for` returned and those that arrived after the end of the loop are over when it is
destroyed. -/
theorem orderly_throughout_iff {es : List Event} (hrun : machine.run State.start es = some s) :
    machine.Throughout Orderly State.start es ↔ machine.Along AbandonedOver State.start es :=
  Machine.throughout_iff_along (fun _ hs => hs.2) (fun _ _ _ => step_orderly)
    (fun _ _ _ _ => step_leaves) ⟨inv_start, nofun⟩ hrun

end Steps

/-- One session reads and writes once; `wait_for` returns while its read is outstanding, but the
read fails and the session ends before the environment does. -/
def cancelledRun : List Event :=
  [.connect [] none, .complete 0 (.bytes 1024) true, .run 0 [.bytes 1024] none, .signal, .cancel,
    .joined, .endLoop, .complete 0 .failed true, .run 0 [] none, .destroy, .destroy, .destroy,
    .destroy]

theorem orderly_throughout_iff_cancelled :
    ∃ s, machine.run State.start cancelledRun = some s ∧
      s.sessions = [⟨.finished, .canceled, true, false⟩] ∧
      (machine.Throughout Orderly State.start cancelledRun ↔
        machine.Along AbandonedOver State.start cancelledRun) := by
  have hrun : ∃ s, machine.run State.start cancelledRun = some s ∧
      s.sessions = [⟨.finished, .canceled, true, false⟩] := ⟨_, rfl, rfl⟩
  obtain ⟨s, hrun, hsessions⟩ := hrun
  exact ⟨s, hrun, hsessions, orderly_throughout_iff hrun⟩

/-- One session, which waits for its client to send something. -/
def idleRun : List Event :=
  [.connect [] none, .signal, .cancel, .joined, .endLoop, .destroy, .destroy, .destroy, .destroy]

/-- A client connects after the loop has come to the end of the list. -/
def lateRun : List Event :=
  [.signal, .endLoop, .connect [] none, .destroy, .destroy, .destroy, .destroy]

/-- A session that is suspended at the end of a run in which the environment was destroyed has been
left behind. -/
theorem not_orderly {es : List Event} {s : State} {x : Session} {op : Op}
    (hrun : machine.run State.start es = some s) (hdestroyed : s.environmentDestroyed = true)
    (hx : x ∈ s.sessions) (hstatus : x.status = .suspended op) :
    ¬ machine.Throughout Orderly State.start es := by
  intro hthroughout
  have horderly := Machine.throughout_iff.mp hthroughout _ List.prefix_rfl s hrun
  have hover := horderly hdestroyed x hx
  rw [hstatus] at hover
  cases hover

/-- A cancelled session that waits for its client, and one that arrives late, are left behind. -/
theorem sessions_left :
    (∃ s, machine.run State.start idleRun = some s) ∧
      ¬ machine.Throughout Orderly State.start idleRun ∧
      (∃ s, machine.run State.start lateRun = some s) ∧
      ¬ machine.Throughout Orderly State.start lateRun := by
  have hidle : ∃ s, machine.run State.start idleRun = some s ∧ s.environmentDestroyed = true ∧
      s.sessions = [⟨.suspended .readAsync, .canceled, true, false⟩] := ⟨_, rfl, rfl, rfl⟩
  have hlate : ∃ s, machine.run State.start lateRun = some s ∧ s.environmentDestroyed = true ∧
      s.sessions = [⟨.suspended .readAsync, .started, false, true⟩] := ⟨_, rfl, rfl, rfl⟩
  obtain ⟨s, hidle, hdestroyed, hsessions⟩ := hidle
  obtain ⟨s', hlate, hdestroyed', hsessions'⟩ := hlate
  refine ⟨⟨s, hidle⟩, ?_, ⟨s', hlate⟩, ?_⟩
  · exact not_orderly hidle hdestroyed (by rw [hsessions]; exact List.mem_cons_self) rfl
  · exact not_orderly hlate hdestroyed' (by rw [hsessions']; exact List.mem_cons_self) rfl

end CppCoroutines.Shutdown
