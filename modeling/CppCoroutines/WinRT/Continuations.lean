import CppCoroutines.WinRT.PoolAwaiter
import Mathlib.Algebra.BigOperators.Fin

/-!
# One continuation for each `co_await`

The invariants of the single `co_await`s, put together along a coroutine: it is never
continued while it runs, no awaiter is used after its coroutine has gone on, and no
order of steps leaves it suspended.
-/

namespace CppCoroutines.PoolAwaiter

/-! ## The whole coroutine -/

variable {n : ℕ} {s s' : State n} {k : Fin n}

/-- Where a coroutine at `position` stands with respect to `co_await` number `k`. -/
def whereIs (position : ℕ) (running : Bool) (k : ℕ) : Where :=
  if k < position then .after
  else if position = k ∧ running = false then .within
  else .before

theorem whereIs_within {position : ℕ} {running : Bool} {k : ℕ} :
    whereIs position running k = .within ↔ position = k ∧ running = false := by
  unfold whereIs
  constructor
  · intro h
    split at h
    · cases h
    · split at h
      · assumption
      · cases h
  · intro h
    rw [if_neg (by omega), if_pos h]

theorem whereIs_running {position : ℕ} {k : ℕ} (h : position = k) :
    whereIs position true k = .before := by
  unfold whereIs
  rw [if_neg (by omega), if_neg (by simp)]

theorem whereIs_of_lt {position : ℕ} {running : Bool} {k : ℕ} (h : k < position) :
    whereIs position running k = .after :=
  if_pos h

/-- The other `co_await`s do not see the coroutine enter one. -/
theorem whereIs_enter {position : ℕ} {j : ℕ} (h : j ≠ position) :
    whereIs position false j = whereIs position true j := by
  unfold whereIs
  rw [if_neg (show ¬(position = j ∧ false = false) by omega),
    if_neg (show ¬(position = j ∧ true = false) by simp)]

/-- The other `co_await`s do not see the coroutine leave one. -/
theorem whereIs_leave {position : ℕ} {j : ℕ} (h : j ≠ position) :
    whereIs (position + 1) true j = whereIs position false j := by
  rw [whereIs_enter h]
  unfold whereIs
  by_cases hlt : j < position
  · rw [if_pos hlt, if_pos (by omega)]
  · rw [if_neg hlt, if_neg (by omega), if_neg (by simp), if_neg (by simp)]

/-- The invariant of the coroutine. -/
structure Inv (s : State n) : Prop where
  each : ∀ k, AwaitInv (s.awaits k) (whereIs s.position s.running k) (s.pool.count k)
  bounded : s.position ≤ n
  suspended : s.running = false → s.position < n
  faults : s.faults = []

theorem inv_init : Inv (State.new : State n) where
  each k := by
    have hbefore : whereIs 0 true k = .before := by
      unfold whereIs
      rw [if_neg (by omega), if_neg (by simp)]
    show AwaitInv Await.new (whereIs 0 true k) (List.count k [])
    rw [hbefore]
    exact awaitInv_new
  bounded := Nat.zero_le n
  suspended := nofun
  faults := rfl

/-- One `co_await` changes; the others and the coroutine stay where they are. -/
theorem Inv.setAwait (h : Inv s) {a : Await}
    (ha : AwaitInv a (whereIs s.position s.running k) (s.pool.count k)) :
    Inv (s.setAwait k a) := by
  refine ⟨?_, h.bounded, h.suspended, h.faults⟩
  intro j
  show AwaitInv (Function.update s.awaits k a j) _ _
  by_cases hj : j = k
  · subst hj
    rw [Function.update_self]
    exact ha
  · rw [Function.update_of_ne hj]
    exact h.each j

theorem touch_of_within (h : whereIs s.position s.running k = .within) : s.touch k = s := by
  have hposition := (whereIs_within.mp h).1
  unfold State.touch
  rw [if_pos (by omega)]

theorem promise_of_within (h : whereIs s.position s.running k = .within) : s.promise k = s := by
  unfold State.promise
  rw [if_pos (whereIs_within.mp h)]

/-- The coroutine goes on where it is suspended, from a `co_await` that allows it. -/
theorem Inv.continueFrom {awaits : Fin n → Await} {pool : List (Fin n)} {how : How}
    (hothers : ∀ j, j ≠ k → AwaitInv (awaits j) (whereIs s.position s.running j) (pool.count j))
    (hposition : s.position = k ∧ s.running = false) (hfaults : s.faults = [])
    (hk : AwaitInv { awaits k with
      continuations := (awaits k).continuations ++ [⟨how, (awaits k).status⟩] } .after
      (pool.count k)) :
    Inv ({ s with awaits := awaits, pool := pool }.continueFrom k how) := by
  unfold State.continueFrom
  rw [if_pos hposition]
  refine ⟨?_, ?_, nofun, hfaults⟩
  · intro j
    show AwaitInv (Function.update awaits k _ j) (whereIs (k + 1) true j) (pool.count j)
    by_cases hj : j = k
    · subst hj
      rw [Function.update_self, whereIs_of_lt (Nat.lt_succ_self _)]
      exact hk
    · have hne : (j : ℕ) ≠ k := fun heq => hj (Fin.ext heq)
      rw [Function.update_of_ne hj, whereIs_leave hne]
      have hother := hothers j hj
      rw [hposition.1, hposition.2] at hother
      exact hother
  · show (k : ℕ) + 1 ≤ n
    exact k.isLt

/-- Every step keeps the invariant. -/
theorem inv_step {e : Event n} (h : Inv s) (hstep : step s e = some s') : Inv s' := by
  cases e with
  | await k =>
      rcases Option.ite_none_right_eq_some.mp hstep with ⟨⟨hrunning, hposition, -⟩, heq⟩
      cases heq
      refine ⟨?_, h.bounded, ?_, h.faults⟩
      · intro j
        show AwaitInv (Function.update s.awaits k _ j) (whereIs s.position false j) (s.pool.count j)
        have hj := h.each j
        rw [hrunning] at hj
        by_cases hjk : j = k
        · subst hjk
          rw [Function.update_self, whereIs_within.mpr ⟨hposition, rfl⟩]
          rw [whereIs_running hposition] at hj
          exact hj.await
        · have hne : (j : ℕ) ≠ s.position := fun heq => hjk (Fin.ext (heq.trans hposition))
          rw [Function.update_of_ne hjk, whereIs_enter hne]
          exact hj
      · intro _
        show s.position < n
        rw [hposition]
        exact k.isLt
  | completedReturns k =>
      rcases Option.ite_none_right_eq_some.mp hstep with ⟨hcaller, heq⟩
      cases heq
      exact h.setAwait ((h.each k).completedReturns hcaller)
  | exchange k =>
      rcases Option.ite_none_right_eq_some.mp hstep with ⟨hcaller, heq⟩
      cases heq
      -- `await_suspend` has not decided, so its awaiter lives
      have hw := (h.each k).within_of_caller (by rw [hcaller]; exact nofun) (by rw [hcaller]; rfl)
      rw [touch_of_within hw]
      exact h.setAwait ((h.each k).exchange hcaller)
  | returns k =>
      unfold step at hstep
      cases hcaller : (s.awaits k).caller with
      | exchanged suspend =>
          cases suspend with
          | true =>
              simp only [hcaller] at hstep
              cases hstep
              exact h.setAwait ((h.each k).returnsTrue hcaller)
          | false =>
              simp only [hcaller] at hstep
              cases hstep
              have hw := (h.each k).within_of_inline hcaller
              have hk := h.each k
              rw [hw] at hk
              apply Inv.continueFrom (s := s) _ (whereIs_within.mp hw) h.faults
              · rw [Function.update_self]
                exact hk.returnsFalse hcaller
              · intro j hj
                rw [Function.update_of_ne hj]
                exact h.each j
      | idle => simp [hcaller] at hstep
      | registering => simp [hcaller] at hstep
      | registered => simp [hcaller] at hstep
      | returned suspend => simp [hcaller] at hstep
  | invoke k status =>
      rcases Option.ite_none_right_eq_some.mp hstep with ⟨⟨hcaller, hcallback⟩, heq⟩
      cases heq
      -- the operation invokes its handler for the first time
      have hw := (h.each k).within_of_callback hcaller (by rw [hcallback]; rfl)
      rw [touch_of_within hw]
      exact h.setAwait ((h.each k).invoke hcaller hcallback status)
  | callbackExchange k =>
      rcases Option.ite_none_right_eq_some.mp hstep with ⟨hcallback, heq⟩
      cases heq
      have hcaller := (h.each k).registered (by rw [hcallback]; exact nofun)
      have hw := (h.each k).within_of_callback hcaller (by rw [hcallback]; rfl)
      rw [touch_of_within hw]
      exact h.setAwait ((h.each k).callbackExchange hcallback)
  | callbackEnds k =>
      unfold step at hstep
      cases hcallback : (s.awaits k).callback with
      | exchanged found =>
          cases found with
          | true =>
              simp only [hcallback] at hstep
              cases hstep
              exact h.setAwait ((h.each k).callbackEndsTrue hcallback)
          | false =>
              simp only [hcallback] at hstep
              cases hstep
              have hw := (h.each k).within_of_exchanged hcallback
              have hk := h.each k
              rw [hw] at hk
              rw [promise_of_within hw]
              refine ⟨?_, h.bounded, h.suspended, h.faults⟩
              intro j
              show AwaitInv (Function.update s.awaits k _ j) (whereIs s.position s.running j)
                ((s.pool ++ [k]).count j)
              rw [List.count_append]
              by_cases hj : j = k
              · subst hj
                rw [Function.update_self, hw, List.count_singleton_self]
                exact hk.callbackEndsFalse hcallback
              · have hnone : [k].count j = 0 := List.count_eq_zero.mpr (by simpa using hj)
                rw [Function.update_of_ne hj, hnone, Nat.add_zero]
                exact h.each j
      | idle => simp [hcallback] at hstep
      | updated => simp [hcallback] at hstep
      | done found => simp [hcallback] at hstep
  | run k =>
      rcases Option.ite_none_right_eq_some.mp hstep with ⟨hmem, heq⟩
      cases heq
      have hk := h.each k
      have hqueued : 0 < s.pool.count k := List.count_pos_iff.mpr hmem
      rcases hk.of_queued hqueued with ⟨hw, -, hfound, -⟩
      unfold State.threadpoolCallback
      rw [if_pos hfound]
      apply Inv.continueFrom (s := s) _ (whereIs_within.mp hw) h.faults
      · rw [List.count_erase_self]
        exact hk.run hqueued
      · intro j hj
        rw [List.count_erase_of_ne hj]
        exact h.each j

theorem inv_reachable (h : (machine n).Reachable s) : Inv s := by
  have hinductive : (machine n).Inductive Inv := by
    constructor
    · rintro s rfl
      exact inv_init
    · intro s e s' hs hstep
      exact inv_step hs hstep
  exact hinductive.reachable h

/-! ## Progress -/

/-- The steps `await_suspend` still has before it. -/
def Caller.left : Caller → ℕ
  | .idle => 4
  | .registering => 3
  | .registered => 2
  | .exchanged _ => 1
  | .returned _ => 0

/-- The steps the callback still has before it, with the one of the pool. -/
def Callback.left : Callback → ℕ
  | .idle => 4
  | .updated => 3
  | .exchanged _ => 2
  | .done _ => 0

def Await.left (a : Await) : ℕ := a.caller.left + a.callback.left

def State.left (s : State n) : ℕ := ∑ k, (s.awaits k).left + s.pool.length

theorem sum_left_update (awaits : Fin n → Await) (k : Fin n) (a : Await) :
    ∑ j, (Function.update awaits k a j).left + (awaits k).left =
      ∑ j, (awaits j).left + a.left := by
  have hothers : ∑ j ∈ Finset.univ.erase k, (Function.update awaits k a j).left =
      ∑ j ∈ Finset.univ.erase k, (awaits j).left := by
    apply Finset.sum_congr rfl
    intro j hj
    rw [Function.update_of_ne (Finset.ne_of_mem_erase hj)]
  rw [← Finset.add_sum_erase _ _ (Finset.mem_univ k),
    ← Finset.add_sum_erase _ (fun j => (awaits j).left) (Finset.mem_univ k), hothers,
    Function.update_self]
  omega

theorem left_setAwait (s : State n) (k : Fin n) (a : Await) :
    (s.setAwait k a).left + (s.awaits k).left = s.left + a.left := by
  have hsum := sum_left_update s.awaits k a
  show ∑ j, (Function.update s.awaits k a j).left + s.pool.length + _ = _
  unfold State.left
  omega

@[simp] theorem awaits_touch (s : State n) (k : Fin n) : (s.touch k).awaits = s.awaits := by
  unfold State.touch
  split <;> rfl

@[simp] theorem left_touch (s : State n) (k : Fin n) : (s.touch k).left = s.left := by
  unfold State.touch
  split <;> rfl

@[simp] theorem awaits_promise (s : State n) (k : Fin n) : (s.promise k).awaits = s.awaits := by
  unfold State.promise
  split <;> rfl

theorem left_setAwait_lt {a : Await} (h : a.left < (s.awaits k).left) :
    (s.setAwait k a).left < s.left := by
  have hset := left_setAwait s k a
  omega

theorem left_touch_setAwait_lt {a : Await} (h : a.left < (s.awaits k).left) :
    ((s.touch k).setAwait k a).left < s.left := by
  rw [← awaits_touch s k] at h
  have hlt := left_setAwait_lt h
  rw [left_touch] at hlt
  exact hlt

/-- The continuation of the coroutine is no step of `await_suspend` or of a callback. -/
theorem left_continueFrom (s : State n) (k : Fin n) (how : How) :
    (s.continueFrom k how).left = s.left := by
  unfold State.continueFrom
  split
  · have hset := left_setAwait s k { s.awaits k with
      continuations := (s.awaits k).continuations ++ [⟨how, (s.awaits k).status⟩] }
    exact Nat.add_right_cancel hset
  · rfl

theorem left_threadpoolCallback (s : State n) (k : Fin n) :
    (s.threadpoolCallback k).left = s.left := by
  unfold State.threadpoolCallback
  split
  · exact left_continueFrom s k .pool
  · rfl

/-- `await_suspend` moves on. -/
theorem left_lt_of_caller {a a' : Await} {c c' : Caller} (hc : a.caller = c)
    (hc' : a'.caller = c') (hlt : c'.left < c.left) (hcallback : a'.callback = a.callback) :
    a'.left < a.left := by
  unfold Await.left
  rw [hc, hc', hcallback]
  exact Nat.add_lt_add_right hlt _

/-- The callback moves on. -/
theorem left_lt_of_callback {a a' : Await} {c c' : Callback} (hc : a.callback = c)
    (hc' : a'.callback = c') (hlt : c'.left < c.left) (hcaller : a'.caller = a.caller) :
    a'.left < a.left := by
  unfold Await.left
  rw [hc, hc', hcaller]
  exact Nat.add_lt_add_left hlt _

/-- Every step is one of finitely many. -/
theorem left_decreases : (machine n).Decreases State.left := by
  intro s e s' hstep
  cases e with
  | await k =>
      rcases Option.ite_none_right_eq_some.mp hstep with ⟨⟨-, -, hcaller⟩, heq⟩
      cases heq
      exact left_setAwait_lt (left_lt_of_caller hcaller rfl (Nat.lt_add_one _) rfl)
  | completedReturns k =>
      rcases Option.ite_none_right_eq_some.mp hstep with ⟨hcaller, heq⟩
      cases heq
      exact left_setAwait_lt (left_lt_of_caller hcaller rfl (Nat.lt_add_one _) rfl)
  | exchange k =>
      rcases Option.ite_none_right_eq_some.mp hstep with ⟨hcaller, heq⟩
      cases heq
      exact left_touch_setAwait_lt (left_lt_of_caller hcaller rfl (Nat.lt_add_one _) rfl)
  | returns k =>
      unfold machine step at hstep
      cases hcaller : (s.awaits k).caller with
      | exchanged suspend =>
          cases suspend with
          | true =>
              simp only [hcaller] at hstep
              cases hstep
              exact left_setAwait_lt (left_lt_of_caller hcaller rfl (Nat.lt_add_one _) rfl)
          | false =>
              simp only [hcaller] at hstep
              cases hstep
              rw [left_continueFrom]
              exact left_setAwait_lt (left_lt_of_caller hcaller rfl (Nat.lt_add_one _) rfl)
      | idle => simp [hcaller] at hstep
      | registering => simp [hcaller] at hstep
      | registered => simp [hcaller] at hstep
      | returned suspend => simp [hcaller] at hstep
  | invoke k status =>
      rcases Option.ite_none_right_eq_some.mp hstep with ⟨⟨-, hcallback⟩, heq⟩
      cases heq
      exact left_touch_setAwait_lt (left_lt_of_callback hcallback rfl (Nat.lt_add_one _) rfl)
  | callbackExchange k =>
      rcases Option.ite_none_right_eq_some.mp hstep with ⟨hcallback, heq⟩
      cases heq
      exact left_touch_setAwait_lt
        (left_lt_of_callback hcallback rfl (Nat.lt_add_one _) rfl)
  | callbackEnds k =>
      unfold machine step at hstep
      cases hcallback : (s.awaits k).callback with
      | exchanged found =>
          cases found with
          | true =>
              simp only [hcallback] at hstep
              cases hstep
              exact left_setAwait_lt (left_lt_of_callback hcallback rfl Nat.two_pos rfl)
          | false =>
              simp only [hcallback] at hstep
              cases hstep
              -- two of the callback's steps for the one of the pool
              have hleft : (s.awaits k).left = (s.awaits k).caller.left + 2 := by
                unfold Await.left
                rw [hcallback]
                rfl
              have hlt : ∑ j, (Function.update s.awaits k { s.awaits k with
                  callback := .done false
                  submissions := (s.awaits k).submissions + 1 } j).left + 1 <
                  ∑ j, (s.awaits j).left := by
                have hsum := sum_left_update s.awaits k { s.awaits k with
                  callback := .done false
                  submissions := (s.awaits k).submissions + 1 }
                have hdone : ({ s.awaits k with
                    callback := .done false
                    submissions := (s.awaits k).submissions + 1 } : Await).left =
                    (s.awaits k).caller.left := rfl
                omega
              show ∑ j, (Function.update (s.promise k).awaits k _ j).left +
                (s.pool ++ [k]).length < _
              rw [awaits_promise, List.length_append, List.length_singleton, ← Nat.add_assoc,
                Nat.add_right_comm]
              exact Nat.add_lt_add_right hlt _
      | idle => simp [hcallback] at hstep
      | updated => simp [hcallback] at hstep
      | done found => simp [hcallback] at hstep
  | run k =>
      rcases Option.ite_none_right_eq_some.mp hstep with ⟨hmem, heq⟩
      cases heq
      rw [left_threadpoolCallback]
      have hlength := List.length_erase_add_one hmem
      show ∑ j, (s.awaits j).left + (s.pool.erase k).length < _
      unfold State.left
      omega

/-- `await_suspend` and the callback have come to their ends. -/
def Await.Ended (a : Await) : Prop :=
  (∃ suspend, a.caller = .returned suspend) ∧ ∃ found, a.callback = .done found

/-- A suspended coroutine whose two threads have come to their ends is in the pool. -/
theorem AwaitInv.queued_of_ended (h : AwaitInv a .within queued) (hended : a.Ended) :
    0 < queued := by
  rcases hended with ⟨⟨suspend, hcaller⟩, found, hcallback⟩
  rcases h.within rfl with ⟨-, hreturned, -, hqueued⟩
  rcases h.flag with ⟨r, -, hwaiter, hwaker⟩
  rw [hcaller] at hwaiter
  rw [hcallback] at hwaker
  cases suspend with
  | false => exact absurd hcaller hreturned
  | true =>
      have hfound : found = false := Rendezvous.found_eq_not hwaiter.symm hwaker.symm
      rw [hqueued, h.submissions, hcallback, hfound]
      exact Nat.one_pos

/-- Where nothing is left to happen, the threads of the `co_await` the coroutine is in have
come to their ends. -/
theorem ended_of_stuck (hstuck : (machine n).Stuck s)
    (hk : AwaitInv (s.awaits k) .within queued) : (s.awaits k).Ended := by
  have hidle := (hk.within rfl).1
  constructor
  · cases hcaller : (s.awaits k).caller with
    | returned suspend => exact ⟨suspend, rfl⟩
    | idle => exact absurd hcaller hidle
    | registering =>
        have hnext : step s (.completedReturns k) = none := hstuck (.completedReturns k)
        simp [step, hcaller] at hnext
    | registered =>
        have hnext : step s (.exchange k) = none := hstuck (.exchange k)
        simp [step, hcaller] at hnext
    | exchanged suspend =>
        have hnext : step s (.returns k) = none := hstuck (.returns k)
        cases suspend <;> simp [step, hcaller] at hnext
  · cases hcallback : (s.awaits k).callback with
    | done found => exact ⟨found, rfl⟩
    | idle =>
        have hnext : step s (.invoke k .completed) = none := hstuck (.invoke k .completed)
        simp [step, hidle, hcallback] at hnext
    | updated =>
        have hnext : step s (.callbackExchange k) = none := hstuck (.callbackExchange k)
        simp [step, hcallback] at hnext
    | exchanged found =>
        have hnext : step s (.callbackEnds k) = none := hstuck (.callbackEnds k)
        cases found <;> simp [step, hcallback] at hnext

/-- Where nothing is left to happen, the coroutine has passed all its `co_await`s. -/
theorem Inv.of_stuck (h : Inv s) (hstuck : (machine n).Stuck s) :
    s.position = n ∧ s.running = true := by
  rcases Nat.lt_or_ge s.position n with hlt | hge
  · exfalso
    have hk := h.each ⟨s.position, hlt⟩
    generalize hkdef : (⟨s.position, hlt⟩ : Fin n) = k at hk
    have hposition : s.position = k := by rw [← hkdef]
    cases hrunning : s.running with
    | true =>
        -- it enters the `co_await` it stands before
        rw [hrunning, whereIs_running hposition] at hk
        have hidle := (hk.before rfl).1
        have hawait : step s (.await k) = none := hstuck (.await k)
        simp [step, hrunning, hposition, hidle] at hawait
    | false =>
        -- its two threads have come to their ends, so its callback is in the pool
        rw [whereIs_within.mpr ⟨hposition, hrunning⟩] at hk
        have hmem := hk.queued_of_ended (ended_of_stuck hstuck hk)
        have hrun : step s (.run k) = none := hstuck (.run k)
        simp [step, List.count_pos_iff.mp hmem] at hrun
  · have heq : s.position = n := Nat.le_antisymm h.bounded hge
    constructor
    · exact heq
    · cases hrunning : s.running with
      | true => rfl
      | false => exact absurd (h.suspended hrunning) (by omega)

/-! ## Exactly one continuation -/

/-- The coroutine was continued once: inline, because `await_suspend` returned false and
nothing was submitted, or from the pool, by the only submission; and `await_resume` read
the status that the operation reported. -/
def Await.ContinuedOnce (a : Await) : Prop :=
  ∃ c, a.continuations = [c] ∧ a.reported = some c.status ∧
    match c.how with
    | .inline => a.caller = .returned false ∧ a.submissions = 0
    | .pool => a.caller.found = some true ∧ a.submissions = 1

/-- The coroutine has not been continued, and is submitted once at most. -/
def Await.NotContinued (a : Await) : Prop := a.continuations = [] ∧ a.submissions ≤ 1

theorem AwaitInv.submissions_le (h : AwaitInv a w queued) : a.submissions ≤ 1 := by
  rw [h.submissions]
  split <;> omega

/-- A coroutine that has left a `co_await` was continued there once. -/
theorem AwaitInv.continuedOnce (h : AwaitInv a .after queued) : a.ContinuedOnce := by
  rcases (h.after rfl).2 with ⟨hreturned, hinline⟩ | ⟨hfound, hdone, hpool⟩
  · -- the callback was there before `await_suspend`
    rcases h.flag with ⟨r, -, hwaiter, hwaker⟩
    rw [hreturned] at hwaiter
    rw [Rendezvous.waker_of_waiter_false hwaiter.symm] at hwaker
    have hcallback : a.callback ≠ .idle := by
      intro hidle
      rw [hidle] at hwaker
      cases hwaker
    have hnotDone : a.callback ≠ .done false := by
      intro hdone
      rw [hdone] at hwaker
      cases hwaker
    refine ⟨_, hinline, h.reported hcallback, hreturned, ?_⟩
    rw [h.submissions, if_neg hnotDone]
  · have hcallback : a.callback ≠ .idle := by
      rw [hdone]
      exact nofun
    refine ⟨_, hpool, h.reported hcallback, hfound, ?_⟩
    rw [h.submissions, if_pos hdone]

theorem AwaitInv.notContinued (h : AwaitInv a w queued) (hw : w ≠ .after) : a.NotContinued := by
  refine ⟨?_, h.submissions_le⟩
  cases w with
  | before => exact (h.before rfl).2.1
  | within => exact (h.within rfl).2.2.1
  | after => exact absurd rfl hw

/-- Each `co_await` takes eight steps at most. -/
theorem left_new : (State.new : State n).left = 8 * n := by
  show ∑ _ : Fin n, Await.new.left + 0 = 8 * n
  rw [Fin.sum_const, smul_eq_mul]
  exact Nat.mul_comm n 8

/-- Along every order of the steps the coroutine is continued exactly once for each
`co_await` it leaves and never while it runs; and every order comes, within `8 * n`
steps, to the end of the coroutine's last `co_await`. -/
theorem continued_exactly_once {events : List (Event n)}
    (hrun : (machine n).run State.new events = some s) :
    s.faults = [] ∧
      (∀ k : Fin n, (k < s.position → (s.awaits k).ContinuedOnce) ∧
        (s.position ≤ k → (s.awaits k).NotContinued)) ∧
      events.length ≤ 8 * n ∧
      ((machine n).Stuck s → s.running = true ∧ ∀ k, (s.awaits k).ContinuedOnce) := by
  have hreachable : (machine n).Reachable s := (Machine.Reachable.init rfl).run hrun
  have hinv := inv_reachable hreachable
  have honce : ∀ k : Fin n, k < s.position → (s.awaits k).ContinuedOnce := by
    intro k hk
    have hafter := hinv.each k
    rw [whereIs_of_lt hk] at hafter
    exact hafter.continuedOnce
  refine ⟨hinv.faults, ?_, ?_, ?_⟩
  · intro k
    constructor
    · exact honce k
    · intro hk
      apply (hinv.each k).notContinued
      unfold whereIs
      rw [if_neg (by omega)]
      split <;> exact nofun
  · have hlength := left_decreases.length_le hrun
    rw [left_new] at hlength
    omega
  · intro hstuck
    rcases hinv.of_stuck hstuck with ⟨hposition, hrunning⟩
    constructor
    · exact hrunning
    · intro k
      apply honce
      rw [hposition]
      exact k.isLt

/-- The first operation completes while its handler is being registered, the second one
fails after `await_suspend` has returned. -/
theorem continued_exactly_once_inline_pool :
    ∃ s, (machine 2).run State.new
        [.await 0, .invoke 0 .completed, .callbackExchange 0, .callbackEnds 0,
          .completedReturns 0, .exchange 0, .returns 0,
          .await 1, .completedReturns 1, .exchange 1, .returns 1,
          .invoke 1 .error, .callbackExchange 1, .callbackEnds 1, .run 1] = some s ∧
      (s.awaits 0).continuations = [⟨.inline, .completed⟩] ∧
      (s.awaits 1).continuations = [⟨.pool, .error⟩] ∧ s.faults = [] ∧
      (s.awaits 0).ContinuedOnce ∧ (s.awaits 1).ContinuedOnce := by
  have hrun : ∃ s, (machine 2).run State.new
      [.await 0, .invoke 0 .completed, .callbackExchange 0, .callbackEnds 0,
        .completedReturns 0, .exchange 0, .returns 0,
        .await 1, .completedReturns 1, .exchange 1, .returns 1,
        .invoke 1 .error, .callbackExchange 1, .callbackEnds 1, .run 1] = some s ∧
      (s.awaits 0).continuations = [⟨.inline, .completed⟩] ∧
      (s.awaits 1).continuations = [⟨.pool, .error⟩] ∧ s.position = 2 :=
    ⟨_, rfl, rfl, rfl, rfl⟩
  rcases hrun with ⟨s, hrun, hinline, hpool, hposition⟩
  rcases continued_exactly_once hrun with ⟨hfaults, heach, -, -⟩
  refine ⟨s, hrun, hinline, hpool, hfaults, (heach 0).1 ?_, (heach 1).1 ?_⟩
  · rw [hposition]
    decide
  · rw [hposition]
    decide

end CppCoroutines.PoolAwaiter
