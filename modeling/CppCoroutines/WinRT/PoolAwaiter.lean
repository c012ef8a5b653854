import CppCoroutines.Machine
import CppCoroutines.Rendezvous
import Mathlib.Data.Fintype.Basic

/-!
# The thread-pool awaiter

`pool_awaiter` of `threadpool_winrt.h`. A coroutine with a `pool_promise` performs a
sequence of `co_await`s. For each of them `await_suspend` registers a callback and
then exchanges `suspending`; the callback, on whatever thread the operation invokes
it and possibly within the registration, sets the status, exchanges `suspending` too
and, if it finds it cleared, submits the coroutine to the thread pool. Every atomic
step is an event of its own here.
-/

namespace CppCoroutines.PoolAwaiter

/-- `winrt::Windows::Foundation::AsyncStatus`. -/
inductive AsyncStatus where
  | started
  | completed
  | canceled
  | error
deriving DecidableEq, Repr

/-- How far `await_suspend` has come: not called, within `async.Completed(...)`, after it,
after the exchange, returned. -/
inductive Caller where
  | idle
  | registering
  | registered
  | exchanged (suspend : Bool)
  | returned (suspend : Bool)
deriving DecidableEq, Repr

/-- How far the callback has come: not invoked, status set, after the exchange, at its end. -/
inductive Callback where
  | idle
  | updated
  | exchanged (found : Bool)
  | done (found : Bool)
deriving DecidableEq, Repr

/-- What the exchange of `await_suspend` returned. -/
def Caller.found : Caller → Option Bool
  | .exchanged suspend => some suspend
  | .returned suspend => some suspend
  | _ => none

/-- What the exchange of the callback returned. -/
def Callback.found : Callback → Option Bool
  | .exchanged found => some found
  | .done found => some found
  | _ => none

/-- Who continues the coroutine: the thread that awaits, or a thread of the pool. -/
inductive How where
  | inline
  | pool
deriving DecidableEq, Repr

/-- A continuation, with the status that `await_resume` reads. -/
structure Continuation where
  how : How
  status : AsyncStatus
deriving DecidableEq, Repr

/-- One `co_await`: the members of its awaiter, its two threads of control, and its history. -/
structure Await where
  suspending : Bool
  status : AsyncStatus
  caller : Caller
  callback : Callback
  /-- history: the status the operation reported -/
  reported : Option AsyncStatus
  /-- history: the successful calls of `TrySubmitThreadpoolCallback` -/
  submissions : ℕ
  /-- history: the continuations of the coroutine from this `co_await` -/
  continuations : List Continuation
deriving DecidableEq, Repr

/-- A `co_await` that has not been reached. -/
def Await.new : Await where
  suspending := true
  status := .started
  caller := .idle
  callback := .idle
  reported := none
  submissions := 0
  continuations := []

/-- What must not happen: the coroutine is continued while it runs, an awaiter is used
after its coroutine has gone on, a promise is used while its coroutine may have ended. -/
inductive Fault where
  | resumedWhileRunning
  | awaiterDead
  | frameGone
deriving DecidableEq, Repr

/-- A coroutine that performs `n` `co_await`s. -/
structure State (n : ℕ) where
  awaits : Fin n → Await
  /-- the `co_await` the coroutine is in, or performs next -/
  position : ℕ
  /-- the body of the coroutine is running -/
  running : Bool
  /-- the callbacks submitted to the pool that have not run -/
  pool : List (Fin n)
  faults : List Fault

namespace State

variable {n : ℕ}

def new : State n where
  awaits := fun _ => Await.new
  position := 0
  running := true
  pool := []
  faults := []

def setAwait (s : State n) (k : Fin n) (a : Await) : State n :=
  { s with awaits := Function.update s.awaits k a }

def fault (s : State n) (f : Fault) : State n := { s with faults := s.faults ++ [f] }

/-- A member of the awaiter is used: it lives until its coroutine goes on. -/
def touch (s : State n) (k : Fin n) : State n :=
  if s.position ≤ k then s else s.fault .awaiterDead

/-- `handle.promise()`: the frame is sure to exist while the coroutine is in this `co_await`. -/
def promise (s : State n) (k : Fin n) : State n :=
  if s.position = k ∧ s.running = false then s else s.fault .frameGone

/-- The coroutine goes on from `co_await` number `k`: `await_resume` reads the status, and
the body runs. -/
def continueFrom (s : State n) (k : Fin n) (how : How) : State n :=
  if s.position = k ∧ s.running = false then
    { s.setAwait k { s.awaits k with
        continuations := (s.awaits k).continuations ++ [⟨how, (s.awaits k).status⟩] } with
      position := k + 1
      running := true }
  else s.fault .resumedWhileRunning

/-- `threadpool_callback`; a coroutine whose `await_suspend` has not made up its mind is
still running. -/
def threadpoolCallback (s : State n) (k : Fin n) : State n :=
  if (s.awaits k).caller.found = some true then s.continueFrom k .pool
  else s.fault .resumedWhileRunning

end State

/-- The atomic steps. -/
inductive Event (n : ℕ) where
  | await (k : Fin n)
  | completedReturns (k : Fin n)
  | exchange (k : Fin n)
  | returns (k : Fin n)
  | invoke (k : Fin n) (status : AsyncStatus)
  | callbackExchange (k : Fin n)
  | callbackEnds (k : Fin n)
  | run (k : Fin n)
deriving DecidableEq, Repr

/-- One step: of the coroutine's body, of `await_suspend`, of a callback, of the pool. -/
def step {n : ℕ} (s : State n) : Event n → Option (State n)
  | .await k =>
      if s.running = true ∧ s.position = k ∧ (s.awaits k).caller = .idle then
        some { s.setAwait k { s.awaits k with caller := .registering } with running := false }
      else none
  | .completedReturns k =>
      if (s.awaits k).caller = .registering then
        some (s.setAwait k { s.awaits k with caller := .registered })
      else none
  | .exchange k =>
      if (s.awaits k).caller = .registered then
        some ((s.touch k).setAwait k { s.awaits k with
          suspending := false
          caller := .exchanged (s.awaits k).suspending })
      else none
  | .returns k =>
      match (s.awaits k).caller with
      | .exchanged true => some (s.setAwait k { s.awaits k with caller := .returned true })
      | .exchanged false =>
          some ((s.setAwait k { s.awaits k with caller := .returned false }).continueFrom k .inline)
      | _ => none
  -- the operation invokes its handler once, from the registration on
  | .invoke k status =>
      if (s.awaits k).caller ≠ .idle ∧ (s.awaits k).callback = .idle then
        some ((s.touch k).setAwait k { s.awaits k with
          status := status
          reported := some status
          callback := .updated })
      else none
  | .callbackExchange k =>
      if (s.awaits k).callback = .updated then
        some ((s.touch k).setAwait k { s.awaits k with
          suspending := false
          callback := .exchanged (s.awaits k).suspending })
      else none
  | .callbackEnds k =>
      match (s.awaits k).callback with
      | .exchanged true => some (s.setAwait k { s.awaits k with callback := .done true })
      | .exchanged false =>
          some { (s.promise k).setAwait k { s.awaits k with
                  callback := .done false
                  submissions := (s.awaits k).submissions + 1 } with
                 pool := s.pool ++ [k] }
      | _ => none
  | .run k =>
      if k ∈ s.pool then some ({ s with pool := s.pool.erase k }.threadpoolCallback k) else none

/-- The coroutine from its first `co_await` on. -/
def machine (n : ℕ) : Machine (State n) (Event n) where
  init s := s = State.new
  step := step

/-! ## One `co_await` -/

/-- Where the coroutine stands with respect to a `co_await`. -/
inductive Where where
  | before
  | within
  | after
deriving DecidableEq, Repr

/-- The invariant of one `co_await`, `queued` callbacks of which are in the pool: the two
exchanges meet at the flag, and the continuation is the one their order decides. -/
structure AwaitInv (a : Await) (w : Where) (queued : ℕ) : Prop where
  flag : ∃ r : Rendezvous, a.suspending = r.flag ∧ a.caller.found = r.waiterFound ∧
    a.callback.found = r.wakerFound
  registered : a.callback ≠ .idle → a.caller ≠ .idle
  reported : a.callback ≠ .idle → a.reported = some a.status
  submissions : a.submissions = if a.callback = .done false then 1 else 0
  before : w = .before → a.caller = .idle ∧ a.continuations = [] ∧ queued = 0
  within : w = .within → a.caller ≠ .idle ∧ a.caller ≠ .returned false ∧ a.continuations = [] ∧
    queued = a.submissions
  after : w = .after → queued = 0 ∧
    (a.caller = .returned false ∧ a.continuations = [⟨.inline, a.status⟩] ∨
      a.caller.found = some true ∧ a.callback = .done false ∧
        a.continuations = [⟨.pool, a.status⟩])

theorem awaitInv_new : AwaitInv Await.new .before 0 where
  flag := ⟨.nobody, rfl, rfl, rfl⟩
  registered h := absurd rfl h
  reported h := absurd rfl h
  submissions := rfl
  before _ := ⟨rfl, rfl, rfl⟩
  within := nofun
  after := nofun

variable {a : Await} {w : Where} {queued : ℕ}

/-- A `co_await` that has been reached and not been left is the one the coroutine is in. -/
theorem AwaitInv.within_of (h : AwaitInv a w queued) (hcaller : a.caller ≠ .idle)
    (hafter : w ≠ .after) : w = .within := by
  cases w with
  | before => exact absurd (h.before rfl).1 hcaller
  | within => rfl
  | after => exact absurd rfl hafter

/-- While `await_suspend` has not exchanged, the coroutine has not gone on. -/
theorem AwaitInv.within_of_caller (h : AwaitInv a w queued) (hcaller : a.caller ≠ .idle)
    (hfound : a.caller.found = none) : w = .within := by
  apply h.within_of hcaller
  intro hw
  rcases (h.after hw).2 with ⟨hreturned, -⟩ | ⟨htrue, -⟩
  · rw [hreturned] at hfound
    cases hfound
  · rw [hfound] at htrue
    cases htrue

/-- While the callback has not exchanged, the coroutine has not gone on. -/
theorem AwaitInv.within_of_callback (h : AwaitInv a w queued) (hcaller : a.caller ≠ .idle)
    (hfound : a.callback.found = none) : w = .within := by
  apply h.within_of hcaller
  intro hw
  rcases h.flag with ⟨r, -, hwaiter, hwaker⟩
  rcases (h.after hw).2 with ⟨hreturned, -⟩ | ⟨-, hdone, -⟩
  · -- `await_suspend` returned false because the callback had been there
    rw [hreturned] at hwaiter
    rw [hfound, Rendezvous.waker_of_waiter_false hwaiter.symm] at hwaker
    cases hwaker
  · rw [hdone] at hfound
    cases hfound

/-- An `await_suspend` about to return false has not continued the coroutine yet. -/
theorem AwaitInv.within_of_inline (h : AwaitInv a w queued)
    (hcaller : a.caller = .exchanged false) : w = .within := by
  apply h.within_of
  · rw [hcaller]
    exact nofun
  · intro hw
    rcases (h.after hw).2 with ⟨hreturned, -⟩ | ⟨htrue, -⟩
    · rw [hcaller] at hreturned
      cases hreturned
    · rw [hcaller] at htrue
      cases htrue

/-- A callback that found the flag cleared belongs to a suspended coroutine. -/
theorem AwaitInv.within_of_exchanged (h : AwaitInv a w queued)
    (hcallback : a.callback = .exchanged false) : w = .within := by
  apply h.within_of
  · apply h.registered
    rw [hcallback]
    exact nofun
  · intro hw
    rcases h.flag with ⟨r, -, hwaiter, hwaker⟩
    rcases (h.after hw).2 with ⟨hreturned, -⟩ | ⟨-, hdone, -⟩
    · rw [hreturned] at hwaiter
      rw [hcallback, Rendezvous.waker_of_waiter_false hwaiter.symm] at hwaker
      cases hwaker
    · rw [hdone] at hcallback
      cases hcallback

/-- A callback that is in the pool was submitted for a coroutine that `await_suspend` has
left suspended. -/
theorem AwaitInv.of_queued (h : AwaitInv a w queued) (hqueued : 0 < queued) :
    w = .within ∧ queued = 1 ∧ a.caller.found = some true ∧ a.callback = .done false := by
  cases w with
  | before =>
      have := (h.before rfl).2.2
      omega
  | after =>
      have := (h.after rfl).1
      omega
  | within =>
      rcases h.within rfl with ⟨-, -, -, heq⟩
      have hsub := h.submissions
      rw [← heq] at hsub
      by_cases hdone : a.callback = .done false
      · rw [if_pos hdone] at hsub
        rcases h.flag with ⟨r, -, hwaiter, hwaker⟩
        rw [hdone] at hwaker
        rw [Rendezvous.waiter_of_waker_false hwaker.symm] at hwaiter
        exact ⟨rfl, hsub, hwaiter, hdone⟩
      · rw [if_neg hdone] at hsub
        omega

/-! What each step does to its `co_await`. -/

theorem AwaitInv.await (h : AwaitInv a .before queued) :
    AwaitInv { a with caller := .registering } .within queued := by
  rcases h.before rfl with ⟨hcaller, hcontinuations, hqueued⟩
  have hcallback : a.callback = .idle := by
    by_contra hne
    exact h.registered hne hcaller
  rcases h.flag with ⟨r, hflag, hwaiter, hwaker⟩
  refine
    { flag := ⟨r, hflag, ?_, hwaker⟩, registered := fun _ => nofun, reported := h.reported,
      submissions := h.submissions, before := nofun, within := ?_, after := nofun }
  · rw [← hwaiter, hcaller]
    rfl
  · intro _
    refine ⟨nofun, nofun, hcontinuations, ?_⟩
    rw [hqueued, h.submissions, hcallback]
    rfl

theorem AwaitInv.completedReturns (h : AwaitInv a w queued) (hcaller : a.caller = .registering) :
    AwaitInv { a with caller := .registered } w queued := by
  have hw : w = .within := h.within_of_caller (by rw [hcaller]; exact nofun) (by rw [hcaller]; rfl)
  subst hw
  rcases h.flag with ⟨r, hflag, hwaiter, hwaker⟩
  rcases h.within rfl with ⟨-, -, hcontinuations, hqueued⟩
  refine
    { flag := ⟨r, hflag, ?_, hwaker⟩, registered := fun _ => nofun, reported := h.reported,
      submissions := h.submissions, before := nofun,
      within := fun _ => ⟨nofun, nofun, hcontinuations, hqueued⟩, after := nofun }
  rw [← hwaiter, hcaller]
  rfl

theorem AwaitInv.exchange (h : AwaitInv a w queued) (hcaller : a.caller = .registered) :
    AwaitInv { a with suspending := false, caller := .exchanged a.suspending } w queued := by
  have hw : w = .within := h.within_of_caller (by rw [hcaller]; exact nofun) (by rw [hcaller]; rfl)
  subst hw
  rcases h.flag with ⟨r, hflag, hwaiter, hwaker⟩
  rcases h.within rfl with ⟨-, -, hcontinuations, hqueued⟩
  have hnone : r.waiterFound = none := by
    rw [← hwaiter, hcaller]
    rfl
  rcases Rendezvous.exchangeWaiter_spec hnone with ⟨hfound, hother, hcleared⟩
  refine
    { flag := ⟨r.exchangeWaiter, hcleared.symm, ?_, hwaker.trans hother.symm⟩,
      registered := fun _ => nofun, reported := h.reported, submissions := h.submissions,
      before := nofun, within := fun _ => ⟨nofun, nofun, hcontinuations, hqueued⟩,
      after := nofun }
  rw [hfound, ← hflag]
  rfl

theorem AwaitInv.returnsTrue (h : AwaitInv a w queued) (hcaller : a.caller = .exchanged true) :
    AwaitInv { a with caller := .returned true } w queued := by
  rcases h.flag with ⟨r, hflag, hwaiter, hwaker⟩
  rw [hcaller] at hwaiter
  refine
    { flag := ⟨r, hflag, hwaiter, hwaker⟩, registered := fun _ => nofun, reported := h.reported,
      submissions := h.submissions, before := ?_, within := ?_, after := ?_ }
  · intro hw
    have hidle := (h.before hw).1
    rw [hcaller] at hidle
    cases hidle
  · intro hw
    rcases h.within hw with ⟨-, -, hcontinuations, hqueued⟩
    exact ⟨nofun, nofun, hcontinuations, hqueued⟩
  · intro hw
    rcases h.after hw with ⟨hqueued, ⟨hreturned, -⟩ | ⟨-, hdone, hcontinuations⟩⟩
    · rw [hcaller] at hreturned
      cases hreturned
    · exact ⟨hqueued, Or.inr ⟨rfl, hdone, hcontinuations⟩⟩

/-- `await_suspend` returns false: the callback has been there and has left the coroutine
to the thread that awaits. -/
theorem AwaitInv.returnsFalse (h : AwaitInv a .within queued)
    (hcaller : a.caller = .exchanged false) :
    AwaitInv { a with
      caller := .returned false
      continuations := a.continuations ++ [⟨.inline, a.status⟩] } .after queued := by
  rcases h.flag with ⟨r, hflag, hwaiter, hwaker⟩
  rcases h.within rfl with ⟨-, -, hcontinuations, hqueued⟩
  rw [hcaller] at hwaiter
  have hdone : a.callback ≠ .done false := by
    intro hdone
    rw [hdone, Rendezvous.waker_of_waiter_false hwaiter.symm] at hwaker
    cases hwaker
  refine
    { flag := ⟨r, hflag, hwaiter, hwaker⟩, registered := fun _ => nofun, reported := h.reported,
      submissions := h.submissions, before := nofun, within := nofun, after := ?_ }
  intro _
  refine ⟨?_, Or.inl ⟨rfl, ?_⟩⟩
  · rw [hqueued, h.submissions, if_neg hdone]
  · show a.continuations ++ [_] = _
    rw [hcontinuations]
    rfl

theorem AwaitInv.invoke (h : AwaitInv a w queued) (hcaller : a.caller ≠ .idle)
    (hcallback : a.callback = .idle) (status : AsyncStatus) :
    AwaitInv { a with status := status, reported := some status, callback := .updated } w
      queued := by
  have hw : w = .within := h.within_of_callback hcaller (by rw [hcallback]; rfl)
  subst hw
  rcases h.flag with ⟨r, hflag, hwaiter, hwaker⟩
  rcases h.within rfl with ⟨-, hreturned, hcontinuations, hqueued⟩
  have hsub := h.submissions
  rw [hcallback] at hsub hwaker
  exact
    { flag := ⟨r, hflag, hwaiter, hwaker⟩, registered := fun _ => hcaller,
      reported := fun _ => rfl, submissions := hsub, before := nofun,
      within := fun _ => ⟨hcaller, hreturned, hcontinuations, hqueued⟩, after := nofun }

theorem AwaitInv.callbackExchange (h : AwaitInv a w queued) (hcallback : a.callback = .updated) :
    AwaitInv { a with suspending := false, callback := .exchanged a.suspending } w queued := by
  have hcaller : a.caller ≠ .idle := h.registered (by rw [hcallback]; exact nofun)
  have hw : w = .within := h.within_of_callback hcaller (by rw [hcallback]; rfl)
  subst hw
  rcases h.flag with ⟨r, hflag, hwaiter, hwaker⟩
  rcases h.within rfl with ⟨-, hreturned, hcontinuations, hqueued⟩
  have hnone : r.wakerFound = none := by
    rw [← hwaker, hcallback]
    rfl
  rcases Rendezvous.exchangeWaker_spec hnone with ⟨hfound, hother, hcleared⟩
  have hsub := h.submissions
  rw [hcallback] at hsub
  refine
    { flag := ⟨r.exchangeWaker, hcleared.symm, hwaiter.trans hother.symm, ?_⟩,
      registered := fun _ => hcaller,
      reported := fun _ => h.reported (by rw [hcallback]; exact nofun), submissions := hsub, before := nofun,
      within := fun _ => ⟨hcaller, hreturned, hcontinuations, hqueued⟩, after := nofun }
  rw [hfound, ← hflag]
  rfl

theorem AwaitInv.callbackEndsTrue (h : AwaitInv a w queued)
    (hcallback : a.callback = .exchanged true) :
    AwaitInv { a with callback := .done true } w queued := by
  have hcaller : a.caller ≠ .idle := h.registered (by rw [hcallback]; exact nofun)
  rcases h.flag with ⟨r, hflag, hwaiter, hwaker⟩
  have hsub := h.submissions
  rw [hcallback] at hsub hwaker
  refine
    { flag := ⟨r, hflag, hwaiter, hwaker⟩, registered := fun _ => hcaller,
      reported := fun _ => h.reported (by rw [hcallback]; exact nofun), submissions := hsub,
      before := h.before, within := h.within, after := ?_ }
  intro hw
  rcases h.after hw with ⟨hqueued, hinline | ⟨-, hdone, -⟩⟩
  · exact ⟨hqueued, Or.inl hinline⟩
  · rw [hcallback] at hdone
    cases hdone

/-- The callback submits the coroutine, which `await_suspend` has left suspended. -/
theorem AwaitInv.callbackEndsFalse (h : AwaitInv a .within queued)
    (hcallback : a.callback = .exchanged false) :
    AwaitInv { a with callback := .done false, submissions := a.submissions + 1 } .within
      (queued + 1) := by
  have hcaller : a.caller ≠ .idle := h.registered (by rw [hcallback]; exact nofun)
  rcases h.flag with ⟨r, hflag, hwaiter, hwaker⟩
  rcases h.within rfl with ⟨-, hreturned, hcontinuations, hqueued⟩
  have hsub := h.submissions
  rw [hcallback] at hsub hwaker
  refine
    { flag := ⟨r, hflag, hwaiter, hwaker⟩, registered := fun _ => hcaller,
      reported := fun _ => h.reported (by rw [hcallback]; exact nofun), submissions := ?_,
      before := nofun, within := ?_, after := nofun }
  · show a.submissions + 1 = 1
    rw [hsub]
    rfl
  · exact fun _ => ⟨hcaller, hreturned, hcontinuations, congrArg (· + 1) hqueued⟩

/-- The submitted callback runs: the coroutine goes on in the pool. -/
theorem AwaitInv.run (h : AwaitInv a w queued) (hqueued : 0 < queued) :
    AwaitInv { a with continuations := a.continuations ++ [⟨.pool, a.status⟩] } .after
      (queued - 1) := by
  rcases h.of_queued hqueued with ⟨rfl, hone, hfound, hdone⟩
  rcases h.within rfl with ⟨-, -, hcontinuations, -⟩
  refine
    { flag := h.flag, registered := h.registered, reported := h.reported,
      submissions := h.submissions, before := nofun, within := nofun, after := ?_ }
  intro _
  refine ⟨by omega, Or.inr ⟨hfound, hdone, ?_⟩⟩
  show a.continuations ++ [_] = _
  rw [hcontinuations]
  rfl

end CppCoroutines.PoolAwaiter
