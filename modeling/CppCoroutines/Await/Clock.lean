import CppCoroutines.Executor.Release
import CppCoroutines.Await.Callback

/-!
# `noisy_clock`

The coroutine of `stop1.cpp`, on `better_async_wait`. `main` stops the `io_service` while the
clock is waiting; the destructor of the `Callback` resumes it, so that it ends.
-/

namespace CppCoroutines.NoisyClock

open Executor (Dropping)

/-- What is written to `cout`. -/
inductive Line where
  | tick
  | tock
  /-- `"caught: "` and what the `system_error` of this error code says -/
  | caught (ec : ErrorCode)
deriving DecidableEq, Repr

/-- `better_async_wait(timer, 1s)`. -/
inductive Wait where
  | second
deriving DecidableEq, Repr

/-- Which of the two `co_await`s it is in, and what has been printed. -/
structure Clock where
  odd : Bool
  cout : List Line
deriving DecidableEq, Repr

/-- A call of `noisy_clock`. -/
def Clock.new : Clock := ⟨false, []⟩

/-- The line after the `co_await`. -/
def Clock.line (c : Clock) : Line := if c.odd then .tock else .tick

/-- `noisy_clock`, which waits for a second, so that `await_ready` is false. -/
def noisyClock : Executor.Code Clock Wait (Option ErrorCode) Unit Unit where
  -- the call operator writes to the awaiter only
  complete c _ _ := some c
  start c _ := .await c .second
  resume c _ ec _ :=
    match ec with
    | none => .await ⟨!c.odd, c.cout ++ [c.line]⟩ .second
    -- `await_resume` throws, and the handler of the function is executed
    | some ec => .finish { c with cout := c.cout ++ [.caught ec] } ()
  -- a clock calls no coroutine
  proceed c _ := .await c .second

/-- What the destructor of the `Callback` does that has the coroutine. -/
def onDrop (_ : Wait) : Executor.OnDrop (Option ErrorCode) :=
  match (BetterAsyncWait.step .start (.destroy 0)).map BetterAsyncWait.State.resumptions with
  | some [ec] => .resume ec
  | _ => .nothing

abbrev ClocksState := Executor.State Clock Wait (Option ErrorCode) Unit

/-- Clocks, each with its timer, on an `io_service`. -/
def clocks (count : ℕ) : Machine ClocksState (Executor.Event Wait (Option ErrorCode) Unit) :=
  Executor.machine noisyClock (List.replicate count Clock.new)

/-- The `io_service` has been stopped in `s₀` and is destroyed. -/
def stopped (s₀ : ClocksState) : Machine ClocksState (Executor.DropEvent Wait Unit) :=
  Executor.dropMachine noisyClock onDrop s₀

/-! ## What a clock prints -/

/-- The lines of `k` seconds. -/
def ticks (k : ℕ) : List Line := (List.range k).map fun i => if i % 2 = 1 then .tock else .tick

theorem ticks_succ (k : ℕ) :
    ticks (k + 1) = ticks k ++ [if k % 2 = 1 then .tock else .tick] := by
  simp [ticks, List.range_succ]

/-- A clock that has ended has printed the lines of the waits that came off, and the error of
the one that did not. -/
def Ticking (c : Clock) (replies : List (Option ErrorCode)) (ended : Bool) : Prop :=
  ∃ k, c.odd = decide (k % 2 = 1) ∧
    if ended then ∃ ec, replies = List.replicate k none ++ [some ec] ∧
      c.cout = ticks k ++ [.caught ec]
    else replies = List.replicate k none ∧ c.cout = ticks k

theorem ticking_new : Ticking Clock.new [] false := ⟨0, rfl, rfl, rfl⟩

theorem ticking_keeps : noisyClock.Keeps Ticking := by
  constructor
  · intro c op reply c' replies h hcomplete
    obtain rfl : c = c' := Option.some.inj hcomplete
    exact h
  · intro c env h
    exact h
  · rintro c op reply env replies ⟨k, hodd, hreplies, hcout⟩
    cases reply with
    | none =>
        refine ⟨k + 1, ?_, ?_, ?_⟩
        · show (!c.odd) = _
          rw [hodd, ← decide_not, decide_eq_decide]
          omega
        · rw [hreplies, List.replicate_succ']
        · show c.cout ++ [c.line] = _
          rw [ticks_succ, hcout, Clock.line, hodd]
          simp
    | some ec => exact ⟨k, hodd, ec, congrArg (· ++ [some ec]) hreplies, congrArg (· ++ _) hcout⟩

theorem ends_with (ec : ErrorCode) : noisyClock.EndsWith (some ec) :=
  fun _ _ _ => ⟨_, _, rfl⟩

theorem calls_nothing : noisyClock.CallsNothing := by
  constructor
  · nofun
  · intro c op ec env c' child
    cases ec with
    | none => nofun
    | some ec => nofun
  · nofun

/-! ## The end of a clock -/

/-- A clock has ended and its promise has been set, once: the lines of the waits that came off
are followed by the error of the one that did not. -/
structure Caught (s : ClocksState) (i : ℕ) (ec : ErrorCode) : Prop where
  finished : s.status i = some (.finished ())
  promise : s.promises.filter (fun p => p.1 = i) = [(i, ())]
  printed : ∃ c k, s.tasks[i]?.map Executor.Task.locals = some c ∧
    s.repliesOf i = List.replicate k none ++ [some ec] ∧ c.cout = ticks k ++ [.caught ec]

section Clocks

variable {count : ℕ} {s₀ s : ClocksState}

theorem stands (hs₀ : (clocks count).Reachable s₀) : s₀.AllStand Ticking := by
  refine Executor.stands_reachable ticking_keeps ?_ hs₀
  intro c hc
  rw [List.eq_of_mem_replicate hc]
  exact ticking_new

theorem caught_of_finished (h : s.AllStand Ticking)
    (hd : Dropping (some .operationAborted) s₀ s) {i : ℕ}
    (hst : s.status i = some (.finished ())) : ∃ ec, Caught s i ec := by
  obtain ⟨t, ht, hstatus⟩ := Executor.State.status_eq_some.mp hst
  rcases (h i t ht).holds with ⟨ended, hended, k, -, hticking⟩
  rw [hstatus] at hended
  obtain rfl : true = ended := Option.some.inj hended
  rcases hticking with ⟨ec, hreplies, hcout⟩
  refine ⟨ec, hst, ?_, t.locals, k, by rw [ht, Option.map_some], hreplies, hcout⟩
  rw [hd.settled, Executor.State.outcome, hst]

/-- Where nothing is left to do. -/
theorem caught_of_stuck (hs₀ : (clocks count).Reachable s₀) (hidle : s₀.Idle noisyClock)
    (h : s.AllStand Ticking) (hd : Dropping (some .operationAborted) s₀ s)
    (hstuck : (stopped s₀).Stuck s) {i : ℕ} (hi : i < count) :
    ∃ ec, Caught s i ec ∧
      ((∃ number op, s₀.status i = some (.suspended number op)) → ec = .operationAborted) := by
  have hlength : s₀.tasks.length = count := by
    rw [Executor.length_reachable calls_nothing hs₀, List.length_replicate]
  have hst₀ : s₀.status i = some s₀.tasks[i].status := by
    rw [Executor.State.status, List.getElem?_eq_getElem, Option.map_some]
  rcases (Executor.inv_reachable hs₀).rest () hidle hst₀ with ⟨number, op, heq⟩ | ⟨out, heq⟩
  · -- it was waiting, and has found the error last
    rw [heq] at hst₀
    obtain ⟨out, hended, hreplies⟩ := hd.ended_of_stuck hstuck hst₀
    rcases caught_of_finished h hd hended with ⟨ec, hcaught⟩
    refine ⟨ec, hcaught, fun _ => ?_⟩
    rcases hcaught.printed with ⟨c, k, -, hreplies', -⟩
    rw [hreplies] at hreplies'
    have hlast := (List.append_inj' hreplies' rfl).2
    simpa using hlast.symm
  · -- it had ended before
    rw [heq] at hst₀
    have hst : s.status i = some (.finished ()) := by
      cases hd.follows i with
      | same hsame _ => exact hsame.trans hst₀
      | resumed hsuspended _ _ => cases hst₀.symm.trans hsuspended
      | ended hsuspended _ _ => cases hst₀.symm.trans hsuspended
    rcases caught_of_finished h hd hst with ⟨ec, hcaught⟩
    refine ⟨ec, hcaught, ?_⟩
    rintro ⟨number, op, hsuspended⟩
    cases hst₀.symm.trans hsuspended

end Clocks

/-- The `io_service` is stopped at any moment at which no code is being executed, and its
handlers are destroyed in any order: after two steps for each clock that was waiting, and not
before, there is nothing left to do. Then every clock has ended, those that were waiting with
`operation_aborted`. -/
theorem clocks_end (count : ℕ) {s₀ s : ClocksState} (hs₀ : (clocks count).Reachable s₀)
    (hidle : s₀.Idle noisyClock) {es : List (Executor.DropEvent Wait Unit)}
    (hrun : (stopped s₀).run s₀ es = some s) :
    es.length ≤ 2 * s₀.pending.length ∧
      ((stopped s₀).Stuck s ↔ es.length = 2 * s₀.pending.length) ∧
      ((stopped s₀).Stuck s → s.pending = [] ∧ s.faults = [] ∧
        ∀ i, i < count → ∃ ec, Caught s i ec ∧
          ((∃ number op, s₀.status i = some (.suspended number op)) →
            ec = .operationAborted)) := by
  obtain ⟨hd, hlength⟩ := Executor.dropping_run (ends_with .operationAborted) hs₀ hidle hrun
  have hstands := Executor.stands_dropped ticking_keeps (stands hs₀) hrun
  have hstuck_iff : (stopped s₀).Stuck s ↔ s.dropsLeft = 0 :=
    hd.stuck_iff (ends_with .operationAborted) hs₀ hidle
  refine ⟨by omega, ?_, ?_⟩
  · rw [hstuck_iff]
    omega
  · intro hstuck
    exact ⟨Executor.pending_of_dropsLeft (hstuck_iff.mp hstuck), hd.faults,
      fun i hi => caught_of_stuck hs₀ hidle hstands hd hstuck hi⟩

/-- The clock of `main`: one tick, and the loop is stopped in the second wait. -/
def tickRun : List (Executor.Event Wait (Option ErrorCode) Unit) :=
  [.advance 0 (), .invoke ⟨0, 0, .second⟩ none, .advance 0 ()]

theorem clocks_end_main : ∃ s₀ s, (clocks 1).Reachable s₀ ∧
    (stopped s₀).run s₀ [.drop ⟨1, 0, .second⟩, .advance 0 ()] = some s ∧ (stopped s₀).Stuck s ∧
      ∃ ec, Caught s 0 ec := by
  have hrun : ∃ s₀ s, (clocks 1).run (Executor.State.new [.new]) tickRun = some s₀ ∧
      (stopped s₀).run s₀ [.drop ⟨1, 0, .second⟩, .advance 0 ()] = some s ∧
      s₀.pending.length = 1 ∧ s₀.tasks.length = 1 ∧
      s₀.status 0 = some (.suspended 1 .second) :=
    ⟨_, _, rfl, rfl, rfl, rfl, rfl⟩
  obtain ⟨s₀, s, hrun, hdrop, hpending, hlength, hst⟩ := hrun
  have hs₀ : (clocks 1).Reachable s₀ := (Machine.Reachable.init rfl).run hrun
  have hidle : s₀.Idle noisyClock := by
    rintro (- | i) env
    · obtain ⟨t, ht, hstatus⟩ := Executor.State.status_eq_some.mp hst
      simp [Executor.step, ht, Executor.Task.turn, hstatus]
    · simp [Executor.step, hlength]
  obtain ⟨-, hstuck, hend⟩ := clocks_end 1 hs₀ hidle hdrop
  have hs : (stopped s₀).Stuck s := hstuck.mpr (by rw [hpending]; rfl)
  rcases (hend hs).2.2 0 Nat.one_pos with ⟨ec, hcaught, -⟩
  exact ⟨s₀, s, hs₀, hdrop, hs, ec, hcaught⟩

end CppCoroutines.NoisyClock
