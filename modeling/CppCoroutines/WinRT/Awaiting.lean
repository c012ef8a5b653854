import CppCoroutines.WinRT.Continuations
import CppCoroutines.WinRT.Results

/-!
# Coroutines that await coroutines

A coroutine of `threadpool_winrt.h` awaits others of the same kind, one after the other. The
`pool_awaiter` registers its handler with the promise of the other, which invokes it from
`Completed` or from `set_completed`; once the coroutine has been continued, `await_resume` asks
that promise for the results.
-/

namespace CppCoroutines.WinRTAwait

open PoolAwaiter (AsyncStatus)
open WinRTPromise (Exn Got Holder Kind)

/-- The coroutine that awaits, those it awaits, to each of which it holds the first reference,
and what the calls of `await_resume` have come to. -/
structure State (n : ℕ) (α : Type) where
  parent : PoolAwaiter.State n
  children : Fin n → WinRTPromise.State α
  outcomes : Fin n → Option (Got α)

inductive Event (n : ℕ) (α : Type) where
  /-- `await_suspend`, which calls `async.Completed(handler)` -/
  | await (k : Fin n)
  /-- a step of `await_suspend`, of a handler, or of the pool -/
  | parent (e : PoolAwaiter.Event n)
  /-- `Completed` invokes the handler itself -/
  | invoke (k : Fin n)
  | invokeCompleted (k : Fin n)
  /-- `await_resume` -/
  | resume (k : Fin n)
  /-- the awaiter is destroyed, and with it its reference -/
  | release (k : Fin n)
  /-- a step of a coroutine that is awaited, or of the holder of another reference to it -/
  | child (k : Fin n) (e : WinRTPromise.Event α)
deriving DecidableEq, Repr

/-- The handler has been invoked and has not returned. -/
def active : PoolAwaiter.Callback → Bool
  | .updated | .exchanged _ => true
  | _ => false

namespace State

variable {n : ℕ} {α : Type}

def new (n : ℕ) (kind : Kind α) : State n α where
  parent := PoolAwaiter.State.new
  children := fun _ => WinRTPromise.State.new kind
  outcomes := fun _ => none

/-- The handler runs on the thread that is in `Completed`, or on that of the other coroutine. -/
def handlerRuns (s : State n α) (k : Fin n) (byCoroutine : Bool) : Bool :=
  active (s.parent.awaits k).callback &&
    (s.children k).invocations.any fun v => v.byCoroutine == byCoroutine

def allowsParent (s : State n α) : PoolAwaiter.Event n → Bool
  -- these are steps of the promise too
  | .await _ | .invoke _ _ => false
  -- `Completed` returns once the handler that it has invoked has returned
  | .completedReturns k =>
      decide ((s.children k).holders[0]? = some .idle) && !s.handlerRuns k false
  | _ => true

def allowsChild (s : State n α) (k : Fin n) : WinRTPromise.Event α → Bool
  -- an operation is awaited once, and only the awaiter asks for its results
  | .completed _ _ | .getResults _ | .invoke _ => false
  -- there is no handler to invoke
  | .invokeCompleted => (s.children k).body.owed == 0
  -- `set_completed` returns once the handler has returned
  | .finalRelease => !s.handlerRuns k true
  | .release i => i != 0
  | _ => true

/-- A step of a coroutine that is awaited. -/
def childStep (kind : Kind α) (s : State n α) (k : Fin n) (e : WinRTPromise.Event α) :
    Option (State n α) :=
  (WinRTPromise.step kind (s.children k) e).map fun c =>
    { s with children := Function.update s.children k c }

/-- A step that both take. -/
def bothStep (kind : Kind α) (s : State n α) (k : Fin n) (e : PoolAwaiter.Event n)
    (e' : WinRTPromise.Event α) : Option (State n α) :=
  (PoolAwaiter.step s.parent e).bind fun p => childStep kind { s with parent := p } k e'

def setOutcome (s : State n α) (k : Fin n) (g : Got α) : State n α :=
  { s with outcomes := Function.update s.outcomes k (some g) }

/-- `await_resume`. -/
def awaitResume (kind : Kind α) (s : State n α) (k : Fin n) : Option (State n α) :=
  -- `check_status_canceled`
  if (s.parent.awaits k).status = .canceled then some (s.setOutcome k (.thrown .canceled))
  else (s.setOutcome k ((s.children k).answer kind)).childStep kind k (.getResults 0)

end State

variable {n : ℕ} {α : Type}

def step (kind : Kind α) (s : State n α) : Event n α → Option (State n α)
  | .await k =>
      if ∀ j, j < k → (s.outcomes j).isSome = true then
        s.bothStep kind k (.await k) (.completed 0 (some 0))
      else none
  | .parent e =>
      if s.allowsParent e then
        (PoolAwaiter.step s.parent e).map fun p => { s with parent := p }
      else none
  | .invoke k =>
      match (s.children k).holders[0]? with
      | some (Holder.invoking _ status) => s.bothStep kind k (.invoke k status) (.invoke 0)
      | _ => none
  | .invokeCompleted k =>
      match (s.children k).body with
      | .invoking (some _) status => s.bothStep kind k (.invoke k status) .invokeCompleted
      | _ => none
  | .resume k =>
      if s.parent.running = true ∧ s.parent.position = k + 1 ∧ (s.outcomes k).isNone = true then
        s.awaitResume kind k
      else none
  | .release k =>
      if (s.outcomes k).isSome = true then s.childStep kind k (.release 0) else none
  | .child k e => if s.allowsChild k e then s.childStep kind k e else none

/-- The coroutine from its first `co_await` on; the others have been called. -/
def machine (n : ℕ) (kind : Kind α) : Machine (State n α) (Event n α) where
  init s := s = State.new n kind
  step := step kind

/-! ## The two sides -/

section Steps

variable {kind : Kind α} {s s' : State n α}

theorem State.childStep_eq_some {k : Fin n} {e : WinRTPromise.Event α} :
    s.childStep kind k e = some s' ↔ ∃ c, WinRTPromise.step kind (s.children k) e = some c ∧
      { s with children := Function.update s.children k c } = s' := Option.map_eq_some_iff

/-- What a step is. -/
inductive Steps (kind : Kind α) (s : State n α) : State n α → Prop where
  | await {k : Fin n} {p : PoolAwaiter.State n} {c : WinRTPromise.State α}
      (hresumed : ∀ j, j < k → (s.outcomes j).isSome = true)
      (hp : PoolAwaiter.step s.parent (.await k) = some p)
      (hc : WinRTPromise.step kind (s.children k) (.completed 0 (some 0)) = some c) :
      Steps kind s { s with parent := p, children := Function.update s.children k c }
  | parent {e : PoolAwaiter.Event n} {p : PoolAwaiter.State n}
      (hallowed : s.allowsParent e = true) (hp : PoolAwaiter.step s.parent e = some p) :
      Steps kind s { s with parent := p }
  | told {k : Fin n} {status : AsyncStatus} {p : PoolAwaiter.State n}
      {c : WinRTPromise.State α} {e : WinRTPromise.Event α} (h : ℕ)
      (hp : PoolAwaiter.step s.parent (.invoke k status) = some p)
      (hc : WinRTPromise.step kind (s.children k) e = some c)
      (he : e = .invoke 0 ∧ (s.children k).holders[0]? = some (.invoking h status) ∨
        e = .invokeCompleted ∧ (s.children k).body = .invoking (some h) status) :
      Steps kind s { s with parent := p, children := Function.update s.children k c }
  | canceled {k : Fin n} (hrunning : s.parent.running = true)
      (hposition : s.parent.position = k + 1) (hnone : s.outcomes k = none)
      (hstatus : (s.parent.awaits k).status = .canceled) :
      Steps kind s (s.setOutcome k (.thrown .canceled))
  | answered {k : Fin n} {c : WinRTPromise.State α} (hrunning : s.parent.running = true)
      (hposition : s.parent.position = k + 1) (hnone : s.outcomes k = none)
      (hstatus : (s.parent.awaits k).status ≠ .canceled)
      (hc : WinRTPromise.step kind (s.children k) (.getResults 0) = some c) :
      Steps kind s { s.setOutcome k ((s.children k).answer kind) with
        children := Function.update s.children k c }
  | release {k : Fin n} {c : WinRTPromise.State α} (hsome : (s.outcomes k).isSome = true)
      (hc : WinRTPromise.step kind (s.children k) (.release 0) = some c) :
      Steps kind s { s with children := Function.update s.children k c }
  | child {k : Fin n} {e : WinRTPromise.Event α} {c : WinRTPromise.State α}
      (hallowed : s.allowsChild k e = true)
      (hc : WinRTPromise.step kind (s.children k) e = some c) :
      Steps kind s { s with children := Function.update s.children k c }

theorem bothStep_cases {k : Fin n} {e : PoolAwaiter.Event n} {e' : WinRTPromise.Event α}
    (hstep : s.bothStep kind k e e' = some s') :
    ∃ p c, PoolAwaiter.step s.parent e = some p ∧
      WinRTPromise.step kind (s.children k) e' = some c ∧
      s' = { s with parent := p, children := Function.update s.children k c } := by
  rcases Option.bind_eq_some_iff.mp hstep with ⟨p, hp, hchild⟩
  rcases State.childStep_eq_some.mp hchild with ⟨c, hc, rfl⟩
  exact ⟨p, c, hp, hc, rfl⟩

theorem step_cases {e : Event n α} (hstep : step kind s e = some s') : Steps kind s s' := by
  cases e with
  | await k =>
      rcases Option.ite_none_right_eq_some.mp hstep with ⟨hresumed, hboth⟩
      rcases bothStep_cases hboth with ⟨p, c, hp, hc, rfl⟩
      exact .await hresumed hp hc
  | parent e =>
      rcases Option.ite_none_right_eq_some.mp hstep with ⟨hallowed, hmap⟩
      rcases Option.map_eq_some_iff.mp hmap with ⟨p, hp, rfl⟩
      exact .parent hallowed hp
  | invoke k =>
      simp only [step] at hstep
      split at hstep
      · rename_i h status hholder
        rcases bothStep_cases hstep with ⟨p, c, hp, hc, rfl⟩
        exact .told h hp hc (Or.inl ⟨rfl, hholder⟩)
      · cases hstep
  | invokeCompleted k =>
      simp only [step] at hstep
      split at hstep
      · rename_i h status hbody
        rcases bothStep_cases hstep with ⟨p, c, hp, hc, rfl⟩
        exact .told h hp hc (Or.inr ⟨rfl, hbody⟩)
      · cases hstep
  | resume k =>
      rcases Option.ite_none_right_eq_some.mp hstep with ⟨⟨hrunning, hposition, hnone⟩, hresume⟩
      have hnone := Option.isNone_iff_eq_none.mp hnone
      unfold State.awaitResume at hresume
      split at hresume
      · rename_i hstatus
        rw [← Option.some.inj hresume]
        exact .canceled hrunning hposition hnone hstatus
      · rename_i hstatus
        rcases State.childStep_eq_some.mp hresume with ⟨c, hc, rfl⟩
        exact .answered hrunning hposition hnone hstatus hc
  | release k =>
      rcases Option.ite_none_right_eq_some.mp hstep with ⟨hsome, hchild⟩
      rcases State.childStep_eq_some.mp hchild with ⟨c, hc, rfl⟩
      exact .release hsome hc
  | child k e =>
      rcases Option.ite_none_right_eq_some.mp hstep with ⟨hallowed, hchild⟩
      rcases State.childStep_eq_some.mp hchild with ⟨c, hc, rfl⟩
      exact .child hallowed hc

/-- The awaiter sees an operation. -/
theorem parent_projection (n : ℕ) (kind : Kind α) :
    (machine n kind).Projection (PoolAwaiter.machine n) State.parent := by
  constructor
  · rintro s rfl
    rfl
  · intro s e s' hstep
    cases step_cases hstep with
    | @await k _ _ _ hp _ => exact Or.inr ⟨.await k, hp⟩
    | @parent e _ _ hp => exact Or.inr ⟨e, hp⟩
    | @told k status _ _ _ _ hp _ _ => exact Or.inr ⟨.invoke k status, hp⟩
    | _ => exact Or.inl rfl

/-- The promise sees the holder of a reference. -/
theorem child_projection (n : ℕ) (kind : Kind α) (k : Fin n) :
    (machine n kind).Projection (WinRTPromise.machine kind) fun s => s.children k := by
  have hupdate : ∀ {s : State n α} {j : Fin n} {e : WinRTPromise.Event α}
      {c : WinRTPromise.State α},
      WinRTPromise.step kind (s.children j) e = some c →
      Function.update s.children j c k = s.children k ∨
        ∃ d, WinRTPromise.step kind (s.children k) d =
          some (Function.update s.children j c k) := by
    intro s j e c hc
    by_cases hj : j = k
    · subst hj
      rw [Function.update_self]
      exact Or.inr ⟨e, hc⟩
    · rw [Function.update_of_ne (Ne.symm hj)]
      exact Or.inl rfl
  constructor
  · rintro s rfl
    rfl
  · intro s e s' hstep
    cases step_cases hstep with
    | await _ _ hc => exact hupdate hc
    | told _ _ hc _ => exact hupdate hc
    | answered _ _ _ _ hc => exact hupdate hc
    | release _ hc => exact hupdate hc
    | child _ hc => exact hupdate hc
    | _ => exact Or.inl rfl

end Steps

/-! ## What the steps leave alone -/

/-- Nothing that the promise sees changes. -/
structure SameAwait (a a' : PoolAwaiter.Await) : Prop where
  caller : a'.caller = .idle ↔ a.caller = .idle
  callback : a'.callback = .idle ↔ a.callback = .idle
  status : a'.status = a.status

theorem SameAwait.refl (a : PoolAwaiter.Await) : SameAwait a a := ⟨Iff.rfl, Iff.rfl, rfl⟩

theorem SameAwait.trans {a a' a'' : PoolAwaiter.Await} (h : SameAwait a a')
    (h' : SameAwait a' a'') : SameAwait a a'' :=
  ⟨h'.caller.trans h.caller, h'.callback.trans h.callback, h'.status.trans h.status⟩

section Frames

variable {p : PoolAwaiter.State n}

theorem sameAwait_update {awaits awaits' : Fin n → PoolAwaiter.Await} {k : Fin n}
    {a : PoolAwaiter.Await} (hawaits : awaits' = Function.update awaits k a)
    (h : SameAwait (awaits k) a) (j : Fin n) : SameAwait (awaits j) (awaits' j) := by
  rw [hawaits]
  by_cases hj : j = k
  · subst hj
    rw [Function.update_self]
    exact h
  · rw [Function.update_of_ne hj]
    exact .refl _

theorem sameAwait_continueFrom (p : PoolAwaiter.State n) (k : Fin n) (how : PoolAwaiter.How)
    (j : Fin n) : SameAwait (p.awaits j) ((p.continueFrom k how).awaits j) := by
  unfold PoolAwaiter.State.continueFrom
  split
  · refine sameAwait_update rfl ?_ j
    exact ⟨Iff.rfl, Iff.rfl, rfl⟩
  · exact .refl _

/-- The registration and the invocation apart, the promise does not see the awaiter. -/
theorem parent_frame {s : State n α} {e : PoolAwaiter.Event n}
    (hallowed : s.allowsParent e = true) (hp : PoolAwaiter.step s.parent e = some p) (j : Fin n) :
    SameAwait (s.parent.awaits j) (p.awaits j) := by
  cases e with
  | await k => cases hallowed
  | invoke k status => cases hallowed
  | completedReturns k =>
      rcases Option.ite_none_right_eq_some.mp hp with ⟨hcaller, heq⟩
      rw [← Option.some.inj heq]
      refine sameAwait_update rfl ?_ j
      refine ⟨?_, Iff.rfl, rfl⟩
      rw [hcaller]
      exact iff_of_false (fun h => by cases h) (fun h => by cases h)
  | exchange k =>
      rcases Option.ite_none_right_eq_some.mp hp with ⟨hcaller, heq⟩
      rw [← Option.some.inj heq, ← PoolAwaiter.awaits_touch s.parent k]
      refine sameAwait_update rfl ?_ j
      refine ⟨?_, ?_, ?_⟩
      · rw [PoolAwaiter.awaits_touch, hcaller]
        exact iff_of_false (fun h => by cases h) (fun h => by cases h)
      · rw [PoolAwaiter.awaits_touch]
      · rw [PoolAwaiter.awaits_touch]
  | returns k =>
      simp only [PoolAwaiter.step] at hp
      split at hp
      · rename_i hcaller
        rw [← Option.some.inj hp]
        refine sameAwait_update rfl ?_ j
        refine ⟨?_, Iff.rfl, rfl⟩
        rw [hcaller]
        exact iff_of_false (fun h => by cases h) (fun h => by cases h)
      · rename_i hcaller
        rw [← Option.some.inj hp]
        refine SameAwait.trans ?_ (sameAwait_continueFrom _ k .inline j)
        refine sameAwait_update rfl ?_ j
        refine ⟨?_, Iff.rfl, rfl⟩
        rw [hcaller]
        exact iff_of_false (fun h => by cases h) (fun h => by cases h)
      · cases hp
  | callbackExchange k =>
      rcases Option.ite_none_right_eq_some.mp hp with ⟨hcallback, heq⟩
      rw [← Option.some.inj heq, ← PoolAwaiter.awaits_touch s.parent k]
      refine sameAwait_update rfl ?_ j
      refine ⟨?_, ?_, ?_⟩
      · rw [PoolAwaiter.awaits_touch]
      · rw [PoolAwaiter.awaits_touch, hcallback]
        exact iff_of_false (fun h => by cases h) (fun h => by cases h)
      · rw [PoolAwaiter.awaits_touch]
  | callbackEnds k =>
      simp only [PoolAwaiter.step] at hp
      split at hp
      · rename_i hcallback
        rw [← Option.some.inj hp]
        refine sameAwait_update rfl ?_ j
        refine ⟨Iff.rfl, ?_, rfl⟩
        rw [hcallback]
        exact iff_of_false (fun h => by cases h) (fun h => by cases h)
      · rename_i hcallback
        rw [← Option.some.inj hp, ← PoolAwaiter.awaits_promise s.parent k]
        refine sameAwait_update rfl ?_ j
        refine ⟨?_, ?_, ?_⟩
        · rw [PoolAwaiter.awaits_promise]
        · rw [PoolAwaiter.awaits_promise, hcallback]
          exact iff_of_false (fun h => by cases h) (fun h => by cases h)
        · rw [PoolAwaiter.awaits_promise]
      · cases hp
  | run k =>
      rcases Option.ite_none_right_eq_some.mp hp with ⟨-, heq⟩
      rw [← Option.some.inj heq]
      unfold PoolAwaiter.State.threadpoolCallback
      split
      · exact sameAwait_continueFrom { s.parent with pool := s.parent.pool.erase k } k .pool j
      · exact .refl _

/-- Nor does the coroutine move, unless it is continued. -/
theorem parent_moves {s : State n α} {e : PoolAwaiter.Event n}
    (hallowed : s.allowsParent e = true) (hp : PoolAwaiter.step s.parent e = some p) :
    p.position = s.parent.position ∧ p.running = s.parent.running ∨
      p.position = s.parent.position + 1 ∧ p.running = true ∧ s.parent.running = false := by
  have htouch : ∀ (q : PoolAwaiter.State n) (k : Fin n),
      (q.touch k).position = q.position ∧ (q.touch k).running = q.running := by
    intro q k
    unfold PoolAwaiter.State.touch
    split <;> exact ⟨rfl, rfl⟩
  have hcontinue : ∀ (q : PoolAwaiter.State n) (k : Fin n) (how : PoolAwaiter.How),
      (q.continueFrom k how).position = q.position ∧ (q.continueFrom k how).running = q.running ∨
        (q.continueFrom k how).position = q.position + 1 ∧
          (q.continueFrom k how).running = true ∧ q.running = false := by
    intro q k how
    unfold PoolAwaiter.State.continueFrom
    split
    · rename_i hat
      exact Or.inr ⟨congrArg (· + 1) hat.1.symm, rfl, hat.2⟩
    · exact Or.inl ⟨rfl, rfl⟩
  cases e with
  | await k => cases hallowed
  | invoke k status => cases hallowed
  | completedReturns k =>
      rcases Option.ite_none_right_eq_some.mp hp with ⟨-, heq⟩
      rw [← Option.some.inj heq]
      exact Or.inl ⟨rfl, rfl⟩
  | exchange k =>
      rcases Option.ite_none_right_eq_some.mp hp with ⟨-, heq⟩
      rw [← Option.some.inj heq]
      exact Or.inl (htouch _ k)
  | returns k =>
      simp only [PoolAwaiter.step] at hp
      split at hp
      · rw [← Option.some.inj hp]
        exact Or.inl ⟨rfl, rfl⟩
      · rw [← Option.some.inj hp]
        exact hcontinue _ k .inline
      · cases hp
  | callbackExchange k =>
      rcases Option.ite_none_right_eq_some.mp hp with ⟨-, heq⟩
      rw [← Option.some.inj heq]
      exact Or.inl (htouch _ k)
  | callbackEnds k =>
      simp only [PoolAwaiter.step] at hp
      split at hp
      · rw [← Option.some.inj hp]
        exact Or.inl ⟨rfl, rfl⟩
      · rw [← Option.some.inj hp]
        left
        show (s.parent.promise k).position = _ ∧ (s.parent.promise k).running = _
        unfold PoolAwaiter.State.promise
        split <;> exact ⟨rfl, rfl⟩
      · cases hp
  | run k =>
      rcases Option.ite_none_right_eq_some.mp hp with ⟨-, heq⟩
      rw [← Option.some.inj heq]
      unfold PoolAwaiter.State.threadpoolCallback
      split
      · exact hcontinue _ k .pool
      · exact Or.inl ⟨rfl, rfl⟩

/-- Nothing that the awaiter sees changes. -/
structure SameChild (c c' : WinRTPromise.State α) : Prop where
  accepted : c'.accepted = c.accepted
  invocations : c'.invocations = c.invocations
  results : c'.results = c.results
  early : c'.early = c.early
  first : ∀ b : Holder, c.holders[0]? = some b → c'.holders[0]? = some b
  invoking : ∀ (i h : ℕ) (status : AsyncStatus), c'.holders[i]? = some (Holder.invoking h status) →
    c.holders[i]? = some (Holder.invoking h status)

/-- The awaiter does not see what the others do. -/
theorem child_frame {s : State n α} {k : Fin n} {e : WinRTPromise.Event α} {kind : Kind α}
    {c : WinRTPromise.State α} (hallowed : s.allowsChild k e = true)
    (hc : WinRTPromise.step kind (s.children k) e = some c) : SameChild (s.children k) c := by
  cases e with
  | completed i handler => cases hallowed
  | getResults i => cases hallowed
  | invoke i => cases hallowed
  | invokeCompleted =>
      simp only [WinRTPromise.step] at hc
      split at hc
      · rename_i h status hbody
        simp [State.allowsChild, hbody, WinRTPromise.Body.owed] at hallowed
      · rw [← Option.some.inj hc]
        exact ⟨rfl, rfl, rfl, rfl, fun _ => id, fun _ _ _ => id⟩
      · cases hc
  | cancel i =>
      rcases Option.ite_none_right_eq_some.mp hc with ⟨-, heq⟩
      rw [← Option.some.inj heq]
      unfold WinRTPromise.State.cancel
      split
      · exact ⟨rfl, rfl, rfl, rfl, fun _ => id, fun _ _ _ => id⟩
      · exact ⟨rfl, rfl, rfl, rfl, fun _ => id, fun _ _ _ => id⟩
  | addRef i =>
      rcases Option.ite_none_right_eq_some.mp hc with ⟨-, heq⟩
      rw [← Option.some.inj heq]
      refine ⟨rfl, rfl, rfl, rfl, ?_, ?_⟩
      · intro b hb
        exact (List.getElem?_append_left (List.getElem?_eq_some_iff.mp hb).1).trans hb
      · intro j h status hj
        rcases lt_trichotomy j (s.children k).holders.length with hlt | rfl | hgt
        · rwa [List.getElem?_append_left hlt] at hj
        · rw [List.getElem?_concat_length] at hj
          cases hj
        · rw [List.getElem?_eq_none
            (by rw [List.length_append, List.length_singleton]; omega)] at hj
          cases hj
  | release i =>
      rcases Option.ite_none_right_eq_some.mp hc with ⟨hidle, heq⟩
      rw [← Option.some.inj heq]
      have hne : i ≠ 0 := bne_iff_ne.mp hallowed
      refine ⟨rfl, rfl, rfl, rfl, ?_, ?_⟩
      · intro b hb
        exact (List.getElem?_set_ne hne).trans hb
      · intro j h status hj
        rcases eq_or_ne i j with rfl | hij
        · rw [List.getElem?_set_self', hidle] at hj
          cases hj
        · exact (List.getElem?_set_ne hij).symm.trans hj
  | _ =>
      rcases Option.ite_none_right_eq_some.mp hc with ⟨-, heq⟩
      rw [← Option.some.inj heq]
      exact ⟨rfl, rfl, rfl, rfl, fun _ => id, fun _ _ _ => id⟩

end Frames

/-! ## An awaiter and its operation -/

/-- The handler is registered as the awaiter is entered and invoked as its callback begins, with
the status that the awaiter keeps; and the results are asked for once and not too early, unless
that status says that the operation was cancelled. -/
structure Linked (a : PoolAwaiter.Await) (c : WinRTPromise.State α) (o : Option (Got α)) :
    Prop where
  accepted : c.accepted = none ↔ a.caller = .idle
  ours : ∀ x, c.accepted = some x → x.1 = some 0
  invoked : c.invocations = [] ↔ a.callback = .idle
  reported : ∀ v ∈ c.invocations, a.status = v.status
  invoking : ∀ (i h : ℕ) (status : AsyncStatus),
    c.holders[i]? = some (Holder.invoking h status) → i = 0
  reference : o = none → ∃ b : Holder, c.holders[0]? = some b ∧ b ≠ .gone
  unasked : o = none → c.results = []
  asked : ∀ g, o = some g → c.results = [g] ∨ g = .thrown .canceled ∧ a.status = .canceled
  early : c.early = 0

theorem linked_new (kind : Kind α) :
    Linked PoolAwaiter.Await.new (WinRTPromise.State.new kind) none where
  accepted := ⟨fun _ => rfl, fun _ => rfl⟩
  ours := by
    intro x hx
    cases hx
  invoked := ⟨fun _ => rfl, fun _ => rfl⟩
  reported := by
    intro v hv
    cases hv
  invoking := by
    intro i h status hi
    cases i with
    | zero => rfl
    | succ i => cases hi
  reference _ := ⟨.idle, rfl, by decide⟩
  unasked _ := rfl
  asked := by
    intro g hg
    cases hg
  early := rfl

section Linked

variable {a a' : PoolAwaiter.Await} {c c' : WinRTPromise.State α} {o : Option (Got α)}
  {kind : Kind α}

theorem Linked.parent (h : Linked a c o) (ha : SameAwait a a') : Linked a' c o where
  accepted := h.accepted.trans ha.caller.symm
  ours := h.ours
  invoked := h.invoked.trans ha.callback.symm
  reported v hv := ha.status.trans (h.reported v hv)
  invoking := h.invoking
  reference := h.reference
  unasked := h.unasked
  asked g hg := by
    rw [ha.status]
    exact h.asked g hg
  early := h.early

theorem Linked.child (h : Linked a c o) (hc : SameChild c c') : Linked a c' o where
  accepted := by rw [hc.accepted]; exact h.accepted
  ours x hx := h.ours x (hc.accepted ▸ hx)
  invoked := by rw [hc.invocations]; exact h.invoked
  reported v hv := h.reported v (hc.invocations ▸ hv)
  invoking i h' status hi := h.invoking i h' status (hc.invoking i h' status hi)
  reference ho := by
    rcases h.reference ho with ⟨b, hb, hne⟩
    exact ⟨b, hc.first b hb, hne⟩
  unasked ho := hc.results.trans (h.unasked ho)
  asked g hg := by
    rw [hc.results]
    exact h.asked g hg
  early := hc.early.trans h.early

/-- The registration; the promise stores the handler, or is to invoke it at once. -/
theorem Linked.await (h : Linked a c none) (hh : WinRTPromise.HandlerInv c)
    (hcaller : a.caller = .idle)
    (hc : WinRTPromise.step kind c (.completed 0 (some 0)) = some c') :
    Linked { a with caller := .registering } c' none := by
  rcases Option.ite_none_right_eq_some.mp hc with ⟨hidle, heq⟩
  have hnone := h.accepted.mpr hcaller
  have hassigned : ¬ c.promise.completedAssigned = true := by
    rw [hh.assigned, hnone]
    exact Bool.false_ne_true
  have hcompleted : ∃ status, c'.accepted = some (some 0, status) ∧
      c'.invocations = c.invocations ∧ c'.results = c.results ∧ c'.early = c.early ∧
      (c'.holders = c.holders ∨ c'.holders = c.holders.set 0 (.invoking 0 status)) := by
    rw [← Option.some.inj heq]
    unfold WinRTPromise.State.completed
    rw [if_neg hassigned]
    split
    · exact ⟨_, rfl, rfl, rfl, rfl, Or.inl rfl⟩
    · exact ⟨_, rfl, rfl, rfl, rfl, Or.inr rfl⟩
  rcases hcompleted with ⟨status, haccepted, hinvocations, hresults, hearly, hholders⟩
  constructor
  · rw [haccepted]
    exact iff_of_false (fun h => by cases h) (fun h => by cases h)
  · intro x hx
    rw [haccepted] at hx
    rw [← Option.some.inj hx]
  · rw [hinvocations]
    exact h.invoked
  · rw [hinvocations]
    exact h.reported
  · intro i h' status' hi
    rcases hholders with hsame | hset
    · rw [hsame] at hi
      exact h.invoking i h' status' hi
    · rcases eq_or_ne 0 i with rfl | hne
      · rfl
      · rw [hset, List.getElem?_set_ne hne] at hi
        exact h.invoking i h' status' hi
  · intro _
    rcases hholders with hsame | hset
    · rw [hsame]
      exact h.reference rfl
    · refine ⟨.invoking 0 status, ?_, fun heq => by cases heq⟩
      rw [hset, List.getElem?_set_self', hidle]
      rfl
  · intro _
    exact hresults.trans (h.unasked rfl)
  · intro g hg
    cases hg
  · exact hearly.trans h.early

/-- The invocation. -/
theorem Linked.told (h : Linked a c none) (hcallback : a.callback = .idle) {status : AsyncStatus}
    {e : WinRTPromise.Event α} {h' : ℕ} (hc : WinRTPromise.step kind c e = some c')
    (he : e = .invoke 0 ∧ c.holders[0]? = some (Holder.invoking h' status) ∨
      e = .invokeCompleted ∧ c.body = .invoking (some h') status) :
    Linked { a with status := status, reported := some status, callback := .updated } c' none := by
  have hnone := h.invoked.mpr hcallback
  have htold : c'.accepted = c.accepted ∧ c'.results = c.results ∧ c'.early = c.early ∧
      (∃ v : WinRTPromise.Invocation, c'.invocations = [v] ∧ v.status = status) ∧
      (c'.holders = c.holders ∨
        c.holders[0]? = some (Holder.invoking h' status) ∧ c'.holders = c.holders.set 0 .idle) := by
    rcases he with ⟨rfl, hholder⟩ | ⟨rfl, hbody⟩
    · simp only [WinRTPromise.step, hholder] at hc
      rw [← Option.some.inj hc]
      refine ⟨rfl, rfl, rfl, ⟨⟨h', status, false, c.ending.isSome⟩, ?_, rfl⟩, Or.inr ⟨hholder, rfl⟩⟩
      exact congrArg (· ++ [_]) hnone
    · simp only [WinRTPromise.step, hbody] at hc
      rw [← Option.some.inj hc]
      refine ⟨rfl, rfl, rfl, ⟨⟨h', status, true, c.ending.isSome⟩, ?_, rfl⟩, Or.inl rfl⟩
      exact congrArg (· ++ [_]) hnone
  rcases htold with ⟨haccepted, hresults, hearly, ⟨v, hv, hstatus⟩, hholders⟩
  constructor
  · rw [haccepted]
    exact h.accepted
  · rw [haccepted]
    exact h.ours
  · rw [hv]
    exact iff_of_false (fun h => by cases h) (fun h => by cases h)
  · intro w hw
    rw [hv] at hw
    rw [List.mem_singleton.mp hw, hstatus]
  · intro i h'' status' hi
    rcases hholders with hsame | ⟨-, hset⟩
    · rw [hsame] at hi
      exact h.invoking i h'' status' hi
    · rcases eq_or_ne 0 i with rfl | hne
      · rfl
      · rw [hset, List.getElem?_set_ne hne] at hi
        exact h.invoking i h'' status' hi
  · intro _
    rcases hholders with hsame | ⟨hholder, hset⟩
    · rw [hsame]
      exact h.reference rfl
    · refine ⟨.idle, ?_, fun heq => by cases heq⟩
      rw [hset, List.getElem?_set_self', hholder]
      rfl
  · intro _
    exact hresults.trans (h.unasked rfl)
  · intro g hg
    cases hg
  · exact hearly.trans h.early

/-- `await_resume` throws because of the status. -/
theorem Linked.canceled (h : Linked a c none) (hstatus : a.status = .canceled) :
    Linked a c (some (.thrown .canceled)) where
  accepted := h.accepted
  ours := h.ours
  invoked := h.invoked
  reported := h.reported
  invoking := h.invoking
  reference ho := by cases ho
  unasked ho := by cases ho
  asked g hg := by
    rw [← Option.some.inj hg]
    exact Or.inr ⟨rfl, hstatus⟩
  early := h.early

/-- `await_resume` asks for the results, after the handler has been invoked. -/
theorem Linked.answered (h : Linked a c none) (hs : WinRTPromise.StatusInv c)
    (hh : WinRTPromise.HandlerInv c) (hcallback : a.callback ≠ .idle)
    (hc : WinRTPromise.step kind c (.getResults 0) = some c') :
    Linked a c' (some (c.answer kind)) := by
  rcases Option.ite_none_right_eq_some.mp hc with ⟨-, heq⟩
  rw [← Option.some.inj heq]
  have hended : c.promise.status ≠ .started := by
    rcases List.exists_mem_of_ne_nil _ (mt h.invoked.mp hcallback) with ⟨v, hv⟩
    exact (hh.invoked v hv).not_started hs
  refine ⟨h.accepted, h.ours, h.invoked, h.reported, h.invoking,
    fun ho => absurd ho (Option.some_ne_none _), fun ho => absurd ho (Option.some_ne_none _), ?_,
    (if_neg hended).trans h.early⟩
  intro g hg
  rw [← Option.some.inj hg]
  left
  show c.results ++ [c.answer kind] = [c.answer kind]
  rw [h.unasked rfl]
  rfl

/-- The reference is given up. -/
theorem Linked.release (h : Linked a c o) (hsome : o.isSome = true)
    (hc : WinRTPromise.step kind c (.release 0) = some c') : Linked a c' o := by
  rcases Option.ite_none_right_eq_some.mp hc with ⟨hidle, heq⟩
  rw [← Option.some.inj heq]
  refine ⟨h.accepted, h.ours, h.invoked, h.reported, ?_, ?_, h.unasked, h.asked, h.early⟩
  · intro i h' status hi
    rcases eq_or_ne 0 i with rfl | hne
    · rfl
    · exact h.invoking i h' status ((List.getElem?_set_ne hne).symm.trans hi)
  · intro ho
    rw [ho] at hsome
    cases hsome

end Linked

end CppCoroutines.WinRTAwait
