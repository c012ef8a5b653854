import CppCoroutines.Coroutine

/-!
# Awaiters that poll

A coroutine may await the future of its operation instead of a handler: it tests the future
and, as long as that is not ready, lets a timer test it again. The operation leaves its result
in the future at any time. Such a coroutine does what it would do if the completions resumed it
at once.
-/

universe u v w x

namespace Coroutine

/-- How far the awaiter of a coroutine is. -/
inductive Phase where
  /-- the future is about to be tested for the first time -/
  | testing
  /-- the coroutine is suspended, and the future is tested again when a timer expires -/
  | waiting
  /-- the future was ready: the coroutine goes on -/
  | ready
deriving DecidableEq, Repr

/-- A coroutine, the future of the operation it awaits, and the awaiter. -/
structure Polling (σ : Type u) (Op : Type v) (Reply : Type x) (Out : Type w) where
  frame : Frame σ Op Out
  future : Option Reply
  phase : Phase
  /-- history: how often it has been suspended -/
  suspensions : ℕ
  /-- history: how often a timer has resumed it -/
  resumptions : ℕ

/-- What can happen to a coroutine that polls. -/
inductive PollEvent (Reply : Type x) where
  /-- the operation completes -/
  | complete (reply : Reply)
  /-- the test before the suspension -/
  | test
  /-- the timer -/
  | tick
  /-- the coroutine takes the result and runs to its next suspension -/
  | go
deriving DecidableEq, Repr

variable {σ : Type u} {Op : Type v} {Reply : Type x} {Out : Type w}

namespace Program

/-- A step of a coroutine that polls; a finished one has none. -/
def pollStep (P : Program σ Op Reply Out) (c : Polling σ Op Reply Out) :
    PollEvent Reply → Option (Polling σ Op Reply Out)
  | .complete reply =>
      match c.frame.point, c.future with
      | .awaiting op, none =>
          (P.complete c.frame.locals op reply).map fun l =>
            { c with frame := ⟨l, .awaiting op⟩, future := some reply }
      | _, _ => none
  | .test =>
      match c.frame.point, c.phase with
      | .awaiting _, .testing =>
          if c.future.isSome then some { c with phase := .ready }
          else some { c with phase := .waiting, suspensions := c.suspensions + 1 }
      | _, _ => none
  | .tick =>
      match c.frame.point, c.phase with
      | .awaiting _, .waiting =>
          if c.future.isSome then
            some { c with phase := .ready, resumptions := c.resumptions + 1 }
          -- the timer is armed again
          else some c
      | _, _ => none
  | .go =>
      match c.frame.point, c.phase, c.future with
      | .awaiting op, .ready, some reply =>
          some { c with
            frame := P.resume c.frame.locals op reply
            future := none
            phase := .testing }
      | _, _, _ => none

/-- The coroutine that polls, from one of its starting frames on. -/
def pollMachine (P : Program σ Op Reply Out) (start : Frame σ Op Out → Prop) :
    Machine (Polling σ Op Reply Out) (PollEvent Reply) where
  init c := ∃ f, start f ∧ c = ⟨f, none, .testing, 0, 0⟩
  step := P.pollStep

/-- Where the coroutine would be if the completion had resumed it at once. -/
def shown (P : Program σ Op Reply Out) (c : Polling σ Op Reply Out) : Frame σ Op Out :=
  match c.frame.point, c.future with
  | .awaiting op, some reply => P.resume c.frame.locals op reply
  | _, _ => c.frame

variable {P : Program σ Op Reply Out} {start : Frame σ Op Out → Prop}
  {c c' : Polling σ Op Reply Out}

theorem shown_of_none (h : c.future = none) : P.shown c = c.frame := by
  unfold shown
  rw [h]
  cases c.frame.point <;> rfl

theorem shown_of_some {op : Op} {reply : Reply} (hpoint : c.frame.point = .awaiting op)
    (h : c.future = some reply) : P.shown c = P.resume c.frame.locals op reply := by
  unfold shown
  rw [hpoint, h]

/-! ## Steps -/

/-- What a step does. -/
inductive PollStep (P : Program σ Op Reply Out) (c : Polling σ Op Reply Out) :
    PollEvent Reply → Polling σ Op Reply Out → Prop where
  | complete {op : Op} {reply : Reply} {l : σ} : c.frame.point = .awaiting op → c.future = none →
      P.complete c.frame.locals op reply = some l →
      PollStep P c (.complete reply) { c with frame := ⟨l, .awaiting op⟩, future := some reply }
  | pass {op : Op} : c.frame.point = .awaiting op → c.phase = .testing → c.future.isSome = true →
      PollStep P c .test { c with phase := .ready }
  | suspend {op : Op} : c.frame.point = .awaiting op → c.phase = .testing → c.future = none →
      PollStep P c .test { c with phase := .waiting, suspensions := c.suspensions + 1 }
  | resume {op : Op} : c.frame.point = .awaiting op → c.phase = .waiting → c.future.isSome = true →
      PollStep P c .tick { c with phase := .ready, resumptions := c.resumptions + 1 }
  | again {op : Op} : c.frame.point = .awaiting op → c.phase = .waiting → c.future = none →
      PollStep P c .tick c
  | go {op : Op} {reply : Reply} : c.frame.point = .awaiting op → c.phase = .ready →
      c.future = some reply →
      PollStep P c .go { c with
        frame := P.resume c.frame.locals op reply
        future := none
        phase := .testing }

theorem pollStep_cases {e : PollEvent Reply} (hstep : P.pollStep c e = some c') :
    PollStep P c e c' := by
  cases e with
  | complete reply =>
      simp only [pollStep] at hstep
      split at hstep
      · rename_i op hpoint hnone
        rcases Option.map_eq_some_iff.mp hstep with ⟨l, hl, rfl⟩
        exact .complete hpoint hnone hl
      · cases hstep
  | test =>
      simp only [pollStep] at hstep
      split at hstep
      · rename_i op hpoint hphase
        split at hstep
        · rename_i hsome
          rw [← Option.some.inj hstep]
          exact .pass hpoint hphase hsome
        · rename_i hnot
          rw [← Option.some.inj hstep]
          exact .suspend hpoint hphase (Option.not_isSome_iff_eq_none.mp hnot)
      · cases hstep
  | tick =>
      simp only [pollStep] at hstep
      split at hstep
      · rename_i op hpoint hphase
        split at hstep
        · rename_i hsome
          rw [← Option.some.inj hstep]
          exact .resume hpoint hphase hsome
        · rename_i hnot
          rw [← Option.some.inj hstep]
          exact .again hpoint hphase (Option.not_isSome_iff_eq_none.mp hnot)
      · cases hstep
  | go =>
      simp only [pollStep] at hstep
      split at hstep
      · rename_i op reply hpoint hphase hfuture
        rw [← Option.some.inj hstep]
        exact .go hpoint hphase hfuture
      · cases hstep

/-! ## The same coroutine without the polling -/

/-- A step of the coroutine that polls is the completion of its operation or is not seen. -/
theorem shown_step {e : PollEvent Reply} (hstep : P.pollStep c e = some c') :
    P.shown c' = P.shown c ∨ ∃ reply, P.step (P.shown c) reply = some (P.shown c') := by
  cases pollStep_cases hstep with
  | @complete op reply l hpoint hnone hl =>
      right
      refine ⟨reply, ?_⟩
      rw [shown_of_none hnone, step_eq_some]
      exact ⟨op, l, hpoint, hl, rfl⟩
  | go hpoint hphase hfuture =>
      left
      rw [shown_of_some hpoint hfuture]
      exact shown_of_none rfl
  | _ => exact Or.inl rfl

theorem poll_projection (P : Program σ Op Reply Out) (start : Frame σ Op Out → Prop) :
    (P.pollMachine start).Projection (P.machine start) P.shown := by
  constructor
  · rintro c ⟨f, hf, rfl⟩
    rw [shown_of_none rfl]
    exact hf
  · exact fun c e c' hstep => shown_step hstep

/-- One completion, then the test that finds the future ready. -/
theorem exists_poll_step (start : Frame σ Op Out → Prop) {f : Frame σ Op Out} {reply : Reply} {f' : Frame σ Op Out}
    (hf : c.frame = f) (hnone : c.future = none) (htesting : c.phase = .testing)
    (hstep : P.step f reply = some f') :
    ∃ c', (P.pollMachine start).run c [.complete reply, .test, .go] = some c' ∧ c'.frame = f' ∧
      c'.future = none ∧ c'.phase = .testing := by
  rcases step_eq_some.mp hstep with ⟨op, l, hpoint, hl, rfl⟩
  subst hf
  refine ⟨⟨P.resume l op reply, none, .testing, c.suspensions, c.resumptions⟩, ?_, rfl, rfl, rfl⟩
  simp [Machine.run_cons, pollMachine, pollStep, hpoint, hnone, hl, htesting]

/-- With and without the polling the coroutine gets to the same frames. -/
theorem exists_shown_iff {f : Frame σ Op Out} :
    (∃ c, (P.pollMachine start).Reachable c ∧ P.shown c = f) ↔ (P.machine start).Reachable f := by
  constructor
  · rintro ⟨c, hc, rfl⟩
    exact (poll_projection P start).reachable hc
  · intro hf
    suffices h : ∃ c, (P.pollMachine start).Reachable c ∧ c.frame = f ∧ c.future = none ∧
        c.phase = .testing by
      rcases h with ⟨c, hc, hframe, hnone, -⟩
      exact ⟨c, hc, (shown_of_none hnone).trans hframe⟩
    induction hf with
    | @init f hinit => exact ⟨_, .init ⟨f, hinit, rfl⟩, rfl, rfl, rfl⟩
    | step reply _ hstep ih =>
        rcases ih with ⟨c, hc, hframe, hnone, htesting⟩
        rcases exists_poll_step start hframe hnone htesting hstep
          with ⟨c', hrun, hframe', hnone', htesting'⟩
        exact ⟨c', hc.run hrun, hframe', hnone', htesting'⟩

/-! ## Suspensions and progress -/

/-- The coroutine is suspended between the test that fails and the timer that resumes it. -/
structure Polls (c : Polling σ Op Reply Out) : Prop where
  waiting : c.suspensions = c.resumptions + if c.phase = .waiting then 1 else 0
  awaited : c.future.isSome = true → ∃ op, c.frame.point = .awaiting op
  ready : c.phase = .ready → c.future.isSome = true

theorem polls_step {e : PollEvent Reply} (h : Polls c) (hstep : P.pollStep c e = some c') :
    Polls c' := by
  cases pollStep_cases hstep with
  | complete hpoint hnone hl => exact ⟨h.waiting, fun _ => ⟨_, rfl⟩, fun _ => rfl⟩
  | pass hpoint hphase hsome =>
      refine ⟨?_, h.awaited, fun _ => hsome⟩
      rw [h.waiting, hphase]
      rfl
  | suspend hpoint hphase hnone =>
      refine ⟨?_, h.awaited, nofun⟩
      show c.suspensions + 1 = _
      rw [h.waiting, hphase]
      rfl
  | resume hpoint hphase hsome =>
      refine ⟨?_, h.awaited, fun _ => hsome⟩
      show c.suspensions = c.resumptions + 1 + 0
      rw [h.waiting, hphase]
      rfl
  | again => exact h
  | go hpoint hphase hfuture =>
      refine ⟨?_, nofun, nofun⟩
      rw [h.waiting, hphase]
      rfl

theorem polls_reachable (hc : (P.pollMachine start).Reachable c) : Polls c := by
  refine Machine.Inductive.reachable ⟨?_, ?_⟩ hc
  · rintro c ⟨f, -, rfl⟩
    exact ⟨rfl, nofun, nofun⟩
  · exact fun c e c' h hstep => polls_step h hstep

/-- Once the operation has completed, the next test takes the coroutine on. -/
theorem Polls.exists_go (start : Frame σ Op Out → Prop) (h : Polls c) (hsome : c.future.isSome = true) :
    ∃ es c', es.length ≤ 2 ∧ (P.pollMachine start).run c es = some c' ∧ c'.frame = P.shown c ∧
      c'.future = none := by
  rcases h.awaited hsome with ⟨op, hpoint⟩
  rcases Option.isSome_iff_exists.mp hsome with ⟨reply, hfuture⟩
  rw [shown_of_some hpoint hfuture]
  cases hphase : c.phase with
  | testing =>
      refine ⟨[.test, .go], ⟨P.resume c.frame.locals op reply, none, .testing, c.suspensions,
        c.resumptions⟩, Nat.le_refl 2, ?_, rfl, rfl⟩
      simp [Machine.run_cons, pollMachine, pollStep, hpoint, hfuture, hphase]
  | waiting =>
      refine ⟨[.tick, .go], ⟨P.resume c.frame.locals op reply, none, .testing, c.suspensions,
        c.resumptions + 1⟩, Nat.le_refl 2, ?_, rfl, rfl⟩
      simp [Machine.run_cons, pollMachine, pollStep, hpoint, hfuture, hphase]
  | ready =>
      refine ⟨[.go], ⟨P.resume c.frame.locals op reply, none, .testing, c.suspensions,
        c.resumptions⟩, Nat.le_succ 1, ?_, rfl, rfl⟩
      simp [Machine.run_cons, pollMachine, pollStep, hpoint, hfuture, hphase]

end Program

end Coroutine
