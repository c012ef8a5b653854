import CppCoroutines.WinRT.Awaiting

/-!
# What a coroutine that awaits coroutines comes to

The handler that the awaiter has registered is invoked once, with the status that the promise
has by then; so the results are there when `await_resume` asks for them.
-/

namespace CppCoroutines.WinRTAwait

open PoolAwaiter (AsyncStatus)
open WinRTPromise (Exn Got Holder Kind)

variable {n : ℕ} {α : Type}

/-! ## The invariant -/

/-- Each operation is linked to its awaiter, and a `co_await` comes to something after it has been
left and before the next one is entered. -/
structure Inv (s : State n α) : Prop where
  linked : ∀ k, Linked (s.parent.awaits k) (s.children k) (s.outcomes k)
  passed : ∀ k : Fin n, (s.outcomes k).isSome = true → (k : ℕ) < s.parent.position
  resumed : ∀ k : Fin n, (k : ℕ) + 1 < s.parent.position ∨
    (k : ℕ) + 1 = s.parent.position ∧ s.parent.running = false → (s.outcomes k).isSome = true

section Invariant

variable {kind : Kind α} {s s' : State n α} {k : Fin n}

theorem inv_new (n : ℕ) (kind : Kind α) : Inv (State.new n kind) where
  linked _ := linked_new kind
  passed _ h := by cases h
  resumed k h := by
    rcases h with h | ⟨h, -⟩
    · cases h
    · cases h

/-- One `co_await` and its operation change. -/
theorem Inv.linked_of (h : Inv s)
    (hothers : ∀ j, j ≠ k → s'.parent.awaits j = s.parent.awaits j ∧
      s'.children j = s.children j ∧ s'.outcomes j = s.outcomes j)
    (hk : Linked (s'.parent.awaits k) (s'.children k) (s'.outcomes k)) (j : Fin n) :
    Linked (s'.parent.awaits j) (s'.children j) (s'.outcomes j) := by
  by_cases hj : j = k
  · rw [hj]
    exact hk
  · rcases hothers j hj with ⟨hawaits, hchildren, houtcomes⟩
    rw [hawaits, hchildren, houtcomes]
    exact h.linked j

theorem Inv.outcome_eq_none (h : Inv s) (hk : ¬ (k : ℕ) < s.parent.position) :
    s.outcomes k = none := by
  have hnone := mt (h.passed k) hk
  rwa [Bool.not_eq_true, Option.isSome_eq_false_iff, Option.isNone_iff_eq_none] at hnone

/-- The last `co_await` that has been left comes to something. -/
theorem Inv.setOutcome (h : Inv s) (hposition : s.parent.position = k + 1) (g : Got α) :
    (∀ j : Fin n, ((s.setOutcome k g).outcomes j).isSome = true → (j : ℕ) < s.parent.position) ∧
      ∀ j : Fin n, (j : ℕ) + 1 < s.parent.position ∨
        (j : ℕ) + 1 = s.parent.position ∧ s.parent.running = false →
          ((s.setOutcome k g).outcomes j).isSome = true := by
  constructor
  · intro j hj
    rcases eq_or_ne j k with rfl | hne
    · omega
    · have hsame : (s.setOutcome k g).outcomes j = s.outcomes j := Function.update_of_ne hne _ _
      rw [hsame] at hj
      exact h.passed j hj
  · intro j hj
    rcases eq_or_ne j k with rfl | hne
    · have hset : (s.setOutcome j g).outcomes j = some g := Function.update_self _ _ _
      rw [hset]
      rfl
    · have hsame : (s.setOutcome k g).outcomes j = s.outcomes j := Function.update_of_ne hne _ _
      rw [hsame]
      exact h.resumed j hj

/-- The handler of a `co_await` that has been left has been invoked. -/
theorem callback_of_passed {p : PoolAwaiter.State n} (hp : PoolAwaiter.Inv p)
    (hk : (k : ℕ) < p.position) : (p.awaits k).callback ≠ .idle := by
  have hafter := hp.each k
  rw [PoolAwaiter.whereIs_of_lt hk] at hafter
  intro hidle
  rcases (hafter.after rfl).2 with ⟨hreturned, -⟩ | ⟨-, hdone, -⟩
  · rcases hafter.flag with ⟨r, -, hwaiter, hwaker⟩
    rw [hreturned] at hwaiter
    rw [hidle, Rendezvous.waker_of_waiter_false hwaiter.symm] at hwaker
    cases hwaker
  · rw [hidle] at hdone
    cases hdone

theorem step_inv (hs : (machine n kind).Reachable s) (h : Inv s) {e : Event n α}
    (hstep : step kind s e = some s') : Inv s' := by
  have hp := PoolAwaiter.inv_reachable ((parent_projection n kind).reachable hs)
  have hc := fun k => WinRTPromise.reachable_inv ((child_projection n kind k).reachable hs)
  cases step_cases hstep with
  | @await k p c hresumed hpstep hcstep =>
      rcases Option.ite_none_right_eq_some.mp hpstep with ⟨⟨hrunning, hposition, hcaller⟩, heq⟩
      rw [← Option.some.inj heq]
      have hnone := h.outcome_eq_none (k := k) (by omega)
      refine ⟨h.linked_of (k := k) ?_ ?_, h.passed, ?_⟩
      · intro j hj
        exact ⟨Function.update_of_ne hj _ _, Function.update_of_ne hj _ _, rfl⟩
      · have hk := h.linked k
        rw [hnone] at hk
        show Linked (Function.update s.parent.awaits k _ k) (Function.update s.children k c k)
          (s.outcomes k)
        rw [Function.update_self, Function.update_self, hnone]
        exact hk.await (hc k).2 hcaller hcstep
      · rintro j (hlt | ⟨heq, -⟩)
        · exact h.resumed j (Or.inl hlt)
        · refine hresumed j (Fin.lt_def.mpr ?_)
          have heq : (j : ℕ) + 1 = s.parent.position := heq
          omega
  | @parent e p hallowed hpstep =>
      refine ⟨fun j => (h.linked j).parent (parent_frame hallowed hpstep j), ?_, ?_⟩
      · intro j hj
        have hlt := h.passed j hj
        show (j : ℕ) < p.position
        rcases parent_moves hallowed hpstep with ⟨hposition, -⟩ | ⟨hposition, -, -⟩
        · omega
        · omega
      · intro j hj
        rcases parent_moves hallowed hpstep with ⟨hposition, hrunning⟩ | ⟨hposition, hrunning, hwas⟩
        · refine h.resumed j ?_
          rw [← hposition, ← hrunning]
          exact hj
        · rcases hj with hlt | ⟨-, hnot⟩
          · refine h.resumed j ?_
            have hlt : (j : ℕ) + 1 < p.position := hlt
            rcases Nat.lt_or_ge (j + 1) s.parent.position with hold | hge
            · exact Or.inl hold
            · exact Or.inr ⟨by omega, hwas⟩
          · cases hnot.symm.trans hrunning
  | @told k status p c e h' hpstep hcstep he =>
      rcases Option.ite_none_right_eq_some.mp hpstep with ⟨⟨-, hcallback⟩, heq⟩
      rw [← Option.some.inj heq]
      have hnone : s.outcomes k = none :=
        h.outcome_eq_none fun hlt => callback_of_passed hp hlt hcallback
      have htouch : (s.parent.touch k).position = s.parent.position ∧
          (s.parent.touch k).running = s.parent.running := by
        unfold PoolAwaiter.State.touch
        split <;> exact ⟨rfl, rfl⟩
      refine ⟨h.linked_of (k := k) ?_ ?_, ?_, ?_⟩
      · intro j hj
        refine ⟨?_, Function.update_of_ne hj _ _, rfl⟩
        exact (Function.update_of_ne hj _ _).trans
          (congrFun (PoolAwaiter.awaits_touch s.parent k) j)
      · have hk := h.linked k
        rw [hnone] at hk
        show Linked (Function.update (s.parent.touch k).awaits k _ k)
          (Function.update s.children k c k) (s.outcomes k)
        rw [Function.update_self, Function.update_self, hnone]
        exact hk.told hcallback hcstep he
      · intro j hj
        show (j : ℕ) < (s.parent.touch k).position
        rw [htouch.1]
        exact h.passed j hj
      · intro j hj
        refine h.resumed j ?_
        rw [← htouch.1, ← htouch.2]
        exact hj
  | @canceled k hrunning hposition hnone hstatus =>
      refine ⟨h.linked_of (k := k) ?_ ?_, ?_, ?_⟩
      · intro j hj
        exact ⟨rfl, rfl, Function.update_of_ne hj _ _⟩
      · have hk := h.linked k
        rw [hnone] at hk
        show Linked _ _ (Function.update s.outcomes k _ k)
        rw [Function.update_self]
        exact hk.canceled hstatus
      · exact (h.setOutcome hposition _).1
      · exact (h.setOutcome hposition _).2
  | @answered k c hrunning hposition hnone hstatus hcstep =>
      refine ⟨h.linked_of (k := k) ?_ ?_, ?_, ?_⟩
      · intro j hj
        exact ⟨rfl, Function.update_of_ne hj _ _, Function.update_of_ne hj _ _⟩
      · have hk := h.linked k
        rw [hnone] at hk
        show Linked _ (Function.update s.children k c k) (Function.update s.outcomes k _ k)
        rw [Function.update_self, Function.update_self]
        exact hk.answered (hc k).1 (hc k).2 (callback_of_passed hp (by omega)) hcstep
      · exact (h.setOutcome hposition _).1
      · exact (h.setOutcome hposition _).2
  | @release k c hsome hcstep =>
      refine ⟨h.linked_of (k := k) ?_ ?_, h.passed, h.resumed⟩
      · intro j hj
        exact ⟨rfl, Function.update_of_ne hj _ _, rfl⟩
      · show Linked _ (Function.update s.children k c k) _
        rw [Function.update_self]
        exact (h.linked k).release hsome hcstep
  | @child k e c hallowed hcstep =>
      refine ⟨h.linked_of (k := k) ?_ ?_, h.passed, h.resumed⟩
      · intro j hj
        exact ⟨rfl, Function.update_of_ne hj _ _, rfl⟩
      · show Linked _ (Function.update s.children k c k) _
        rw [Function.update_self]
        exact (h.linked k).child (child_frame hallowed hcstep)

theorem inv_reachable (hs : (machine n kind).Reachable s) : Inv s := by
  induction hs with
  | init hs =>
      rw [hs]
      exact inv_new n kind
  | step e hs hstep ih => exact step_inv hs ih hstep

end Invariant

/-! ## What a `co_await` comes to -/

/-- What the body of the coroutine that is awaited comes to, or `hresult_canceled` if it has been
cancelled. -/
def Comes (c : WinRTPromise.State α) (g : Got α) : Prop :=
  (∃ v, g = .value v ∧ c.ending = some (.ok v) ∧ c.cancelled = false) ∨
    (∃ ex, g = .thrown ex ∧ c.ending = some (.error ex)) ∨
    g = .thrown .canceled ∧ c.cancelled = true

section Outcomes

variable {kind : Kind α}

/-- The only answer, and not one that came too early. -/
theorem comes_of_results {c : WinRTPromise.State α} {g : Got α} (hs : WinRTPromise.StatusInv c)
    (ha : WinRTPromise.Answers kind c) (hresults : c.results = [g]) (hearly : c.early = 0) :
    Comes c g := by
  rcases ha with ⟨early, rest, hlist, hlength, -, h⟩
  obtain rfl : early = [] := List.length_eq_zero_iff.mp (hlength.trans hearly)
  rw [hresults, List.nil_append] at hlist
  cases h with
  | started _ _ _ => cases hlist
  | completed v k hstatus hending _ =>
      cases k with
      | zero => cases hlist
      | succ k =>
          exact Or.inl ⟨v, (List.cons.inj hlist).1, hending, hs.not_cancelled hstatus hending⟩
  | failed ex k l _ _ hex hk =>
      right
      cases k with
      | zero =>
          cases l with
          | zero => cases hlist
          | succ l =>
              obtain rfl : g = .thrown ex := (List.cons.inj hlist).1
              rcases hs.exception_cases hex with hending | ⟨hcancelled, rfl⟩
              · exact Or.inl ⟨ex, rfl, hending⟩
              · exact Or.inr ⟨rfl, hcancelled⟩
      | succ k =>
          rw [List.replicate_succ, List.cons_append] at hlist
          exact Or.inr ⟨(List.cons.inj hlist).1, hk (Nat.succ_ne_zero k)⟩

/-- Whichever way `await_resume` has gone. -/
theorem Linked.comes {a : PoolAwaiter.Await} {c : WinRTPromise.State α} {o : Option (Got α)}
    (h : Linked a c o) (hs : WinRTPromise.StatusInv c) (hh : WinRTPromise.HandlerInv c)
    (ha : WinRTPromise.Answers kind c) (hcallback : a.callback ≠ .idle) {g : Got α}
    (hg : o = some g) : Comes c g := by
  rcases h.asked g hg with hresults | ⟨rfl, hstatus⟩
  · exact comes_of_results hs ha hresults h.early
  · -- the status is the one that the handler was told
    rcases List.exists_mem_of_ne_nil _ (mt h.invoked.mp hcallback) with ⟨v, hv⟩
    have htold := h.reported v hv
    rw [hstatus] at htold
    rcases (hh.invoked v hv).canceled htold.symm with hcancelled | hending
    · exact Or.inr (Or.inr ⟨rfl, hcancelled⟩)
    · exact Or.inr (Or.inl ⟨.canceled, rfl, hending⟩)

end Outcomes

/-! ## Progress -/

section Progress

variable {kind : Kind α} {s : State n α} {k : Fin n}

theorem childStep_isSome {e : WinRTPromise.Event α}
    (h : (WinRTPromise.step kind (s.children k) e).isSome = true) :
    s.childStep kind k e ≠ none := by
  unfold State.childStep
  rw [ne_eq, Option.map_eq_none_iff]
  exact Option.isSome_iff_ne_none.mp h

theorem bothStep_isSome {e : PoolAwaiter.Event n} {e' : WinRTPromise.Event α}
    (hp : (PoolAwaiter.step s.parent e).isSome = true)
    (hc : (WinRTPromise.step kind (s.children k) e').isSome = true) :
    s.bothStep kind k e e' ≠ none := by
  rcases Option.isSome_iff_exists.mp hp with ⟨p, hp⟩
  unfold State.bothStep
  rw [hp, Option.bind_some]
  exact childStep_isSome (s := { s with parent := p }) hc

/-- A step of the awaiter that nothing holds up. -/
theorem parent_of_stuck (hstuck : (machine n kind).Stuck s) {e : PoolAwaiter.Event n}
    (hallowed : s.allowsParent e = true) : PoolAwaiter.step s.parent e = none := by
  have hnext : step kind s (.parent e) = none := hstuck (.parent e)
  simp only [step] at hnext
  rw [if_pos hallowed, Option.map_eq_none_iff] at hnext
  exact hnext

theorem child_of_stuck (hstuck : (machine n kind).Stuck s) {e : WinRTPromise.Event α}
    (hallowed : s.allowsChild k e = true) : WinRTPromise.step kind (s.children k) e = none := by
  have hnext : step kind s (.child k e) = none := hstuck (.child k e)
  simp only [step] at hnext
  rw [if_pos hallowed] at hnext
  exact Option.map_eq_none_iff.mp hnext

/-- No handler is running. -/
theorem active_of_stuck (hstuck : (machine n kind).Stuck s) (k : Fin n) :
    active (s.parent.awaits k).callback = false := by
  cases hcallback : (s.parent.awaits k).callback with
  | idle => rfl
  | done found => rfl
  | updated =>
      have hnext := parent_of_stuck hstuck (e := .callbackExchange k) rfl
      simp [PoolAwaiter.step, hcallback] at hnext
  | exchanged found =>
      have hnext := parent_of_stuck hstuck (e := .callbackEnds k) rfl
      cases found <;> simp [PoolAwaiter.step, hcallback] at hnext

/-- As long as somebody owes the invocation of the handler, the awaiter expects it. -/
theorem invoke_isSome (h : Inv s) (hh : WinRTPromise.HandlerInv (s.children k))
    (howed : 0 < (s.children k).owed) (haccepted : (s.children k).accepted ≠ none)
    (status : AsyncStatus) : (PoolAwaiter.step s.parent (.invoke k status)).isSome = true := by
  have hdue : (s.children k).due ≤ 1 := by
    unfold WinRTPromise.State.due
    split
    · rfl
    · exact Nat.zero_le 1
  have hnone : (s.children k).invocations = [] := by
    have hcount := hh.count
    exact List.eq_nil_of_length_eq_zero (by omega)
  have hcallback := (h.linked k).invoked.mp hnone
  have hcaller := mt (h.linked k).accepted.mpr haccepted
  simp [PoolAwaiter.step, hcallback, hcaller]

/-- Nobody is about to invoke a handler in `Completed`. -/
theorem holders_of_stuck (h : Inv s) (hh : WinRTPromise.HandlerInv (s.children k))
    (hstuck : (machine n kind).Stuck s) (i h' : ℕ) (status : AsyncStatus) :
    (s.children k).holders[i]? ≠ some (Holder.invoking h' status) := by
  intro hi
  obtain rfl : i = 0 := (h.linked k).invoking i h' status hi
  have haccepted : (s.children k).accepted ≠ none := by
    rw [(hh.holding 0 h' status hi).1]
    exact Option.some_ne_none _
  have howed : 0 < (s.children k).owed := by
    have hmem : 1 ∈ (s.children k).holders.map WinRTPromise.Holder.owed :=
      List.mem_map.mpr ⟨_, List.mem_of_getElem? hi, rfl⟩
    have hle := List.le_sum_of_mem hmem
    unfold WinRTPromise.State.owed
    omega
  have hnext : step kind s (.invoke k) = none := hstuck (.invoke k)
  simp only [step, hi] at hnext
  refine bothStep_isSome (invoke_isSome h hh howed haccepted status) ?_ hnext
  simp [WinRTPromise.step, hi]

/-- The coroutine that is awaited has ended. -/
theorem body_of_stuck (h : Inv s) (hh : WinRTPromise.HandlerInv (s.children k))
    (hstuck : (machine n kind).Stuck s) : (s.children k).body = .finished := by
  cases hbody : (s.children k).body with
  | finished => rfl
  | running =>
      have hnext := child_of_stuck hstuck (k := k) (e := .throws .canceled) rfl
      simp [WinRTPromise.step, hbody] at hnext
  | ended =>
      have hnext := child_of_stuck hstuck (k := k) (e := .setCompleted) rfl
      simp [WinRTPromise.step, hbody] at hnext
  | releasing =>
      have hallowed : s.allowsChild k .finalRelease = true := by
        unfold State.allowsChild State.handlerRuns
        rw [active_of_stuck hstuck k]
        rfl
      have hnext := child_of_stuck hstuck hallowed
      simp [WinRTPromise.step, hbody] at hnext
  | invoking handler status =>
      cases handler with
      | none =>
          have hallowed : s.allowsChild k .invokeCompleted = true := by
            unfold State.allowsChild
            rw [hbody]
            rfl
          have hnext := child_of_stuck hstuck hallowed
          simp [WinRTPromise.step, hbody] at hnext
      | some handler =>
          have haccepted : (s.children k).accepted ≠ none := by
            rw [(hh.taken handler status hbody).1]
            exact Option.some_ne_none _
          have howed : 0 < (s.children k).owed := by
            unfold WinRTPromise.State.owed
            rw [hbody]
            simp only [WinRTPromise.Body.owed]
            omega
          have hnext : step kind s (.invokeCompleted k) = none := hstuck (.invokeCompleted k)
          simp only [step, hbody] at hnext
          refine absurd hnext (bothStep_isSome (invoke_isSome h hh howed haccepted status) ?_)
          simp [WinRTPromise.step, hbody]

/-- The awaiter's reference is not in use. -/
theorem idle_of_stuck (h : Inv s) (hh : WinRTPromise.HandlerInv (s.children k))
    (hstuck : (machine n kind).Stuck s) (hnone : s.outcomes k = none) :
    (s.children k).Idle 0 := by
  rcases (h.linked k).reference hnone with ⟨b, hb, hne⟩
  cases b with
  | idle => exact hb
  | invoking h' status => exact absurd hb (holders_of_stuck h hh hstuck 0 h' status)
  | gone => exact absurd rfl hne

/-- What has been left has come to something. -/
theorem outcome_of_stuck (h : Inv s) (hh : WinRTPromise.HandlerInv (s.children k))
    (hstuck : (machine n kind).Stuck s) (hk : (k : ℕ) < s.parent.position) :
    (s.outcomes k).isSome = true := by
  rcases Nat.lt_or_ge (k + 1) s.parent.position with hlt | hge
  · exact h.resumed k (Or.inl hlt)
  · have hposition : s.parent.position = k + 1 := by omega
    cases hrunning : s.parent.running with
    | false => exact h.resumed k (Or.inr ⟨hposition.symm, hrunning⟩)
    | true =>
        by_contra hnot
        have hnone : s.outcomes k = none := by
          rwa [Bool.not_eq_true, Option.isSome_eq_false_iff, Option.isNone_iff_eq_none] at hnot
        have hnext : step kind s (.resume k) = none := hstuck (.resume k)
        simp only [step, hrunning, hposition, hnone, Option.isNone_none, and_self, if_true] at hnext
        unfold State.awaitResume at hnext
        split at hnext
        · cases hnext
        · refine childStep_isSome (s := s.setOutcome k ((s.children k).answer kind)) ?_ hnext
          have hidle := idle_of_stuck h hh hstuck hnone
          show (WinRTPromise.step kind (s.children k) (.getResults 0)).isSome = true
          simp [WinRTPromise.step, hidle]

/-- No step is left to the awaiter. -/
theorem parent_stuck (h : Inv s) (hp : PoolAwaiter.Inv s.parent)
    (hh : ∀ k, WinRTPromise.HandlerInv (s.children k)) (hstuck : (machine n kind).Stuck s) :
    (PoolAwaiter.machine n).Stuck s.parent := by
  intro e
  show PoolAwaiter.step s.parent e = none
  cases e with
  | await k =>
      by_contra hne
      rcases Option.ne_none_iff_exists'.mp hne with ⟨p, hstep⟩
      rcases Option.ite_none_right_eq_some.mp hstep with ⟨⟨hrunning, hposition, hcaller⟩, -⟩
      have hresumed : ∀ j, j < k → (s.outcomes j).isSome = true := by
        intro j hj
        exact outcome_of_stuck h (hh j) hstuck (by have := Fin.lt_def.mp hj; omega)
      have hnext : step kind s (.await k) = none := hstuck (.await k)
      simp only [step] at hnext
      rw [if_pos hresumed] at hnext
      have hidle := idle_of_stuck h (hh k) hstuck (h.outcome_eq_none (by omega))
      refine bothStep_isSome ?_ ?_ hnext
      · rw [hstep]
        rfl
      · simp [WinRTPromise.step, hidle]
  | invoke k status =>
      -- the handler has been invoked, if it was registered
      by_contra hne
      rcases Option.ne_none_iff_exists'.mp hne with ⟨p, hstep⟩
      rcases Option.ite_none_right_eq_some.mp hstep with ⟨⟨hcaller, hcallback⟩, -⟩
      rcases Option.ne_none_iff_exists'.mp (mt (h.linked k).accepted.mp hcaller) with ⟨x, hx⟩
      have haccepted : (s.children k).accepted.map Prod.fst = some (some 0) := by
        rw [hx, Option.map_some, (h.linked k).ours x hx]
      have hsettled : WinRTPromise.Settled (s.children k) :=
        ⟨Or.inr (body_of_stuck h (hh k) hstuck), holders_of_stuck h (hh k) hstuck⟩
      rcases (hh k).invoked_of_settled hsettled haccepted with ⟨v, hv, -⟩
      have hnone := (h.linked k).invoked.mpr hcallback
      rw [hv] at hnone
      cases hnone
  | completedReturns k =>
      by_contra hne
      rcases Option.ne_none_iff_exists'.mp hne with ⟨p, hstep⟩
      rcases Option.ite_none_right_eq_some.mp hstep with ⟨hcaller, -⟩
      -- the coroutine is still in this `co_await`
      have hwithin := (hp.each k).within_of_caller (fun heq => by rw [hcaller] at heq; cases heq)
        (by rw [hcaller]; rfl)
      have hposition := (PoolAwaiter.whereIs_within.mp hwithin).1
      have hidle := idle_of_stuck h (hh k) hstuck (h.outcome_eq_none (by omega))
      have hallowed : s.allowsParent (.completedReturns k) = true := by
        show (decide ((s.children k).holders[0]? = some .idle) && !s.handlerRuns k false) = true
        unfold State.handlerRuns
        rw [active_of_stuck hstuck k, Bool.false_and, Bool.not_false, Bool.and_true,
          decide_eq_true_eq]
        exact hidle
      exact hne (parent_of_stuck hstuck hallowed)
  | exchange k => exact parent_of_stuck hstuck rfl
  | returns k => exact parent_of_stuck hstuck rfl
  | callbackExchange k => exact parent_of_stuck hstuck rfl
  | callbackEnds k => exact parent_of_stuck hstuck rfl
  | run k => exact parent_of_stuck hstuck rfl

/-- All references are gone, and with them the frame. -/
theorem destroyed_of_stuck (h : Inv s) (hh : WinRTPromise.HandlerInv (s.children k))
    (hf : WinRTPromise.FrameInv (s.children k)) (hstuck : (machine n kind).Stuck s)
    (hk : (k : ℕ) < s.parent.position) : (s.children k).destroyed = 1 := by
  have hgone : ∀ b ∈ (s.children k).holders, b = .gone := by
    intro b hb
    rcases List.getElem?_of_mem hb with ⟨i, hi⟩
    cases b with
    | gone => rfl
    | invoking h' status => exact absurd hi (holders_of_stuck h hh hstuck i h' status)
    | idle =>
        have hidle : (s.children k).Idle i := hi
        rcases Nat.eq_zero_or_pos i with rfl | hpos
        · have hnext : step kind s (.release k) = none := hstuck (.release k)
          simp only [step] at hnext
          rw [if_pos (outcome_of_stuck h hh hstuck hk)] at hnext
          refine absurd hnext (childStep_isSome ?_)
          simp [WinRTPromise.step, hidle]
        · have hallowed : s.allowsChild k (.release i) = true := bne_iff_ne.mpr (by omega)
          have hnext := child_of_stuck hstuck hallowed
          simp [WinRTPromise.step, hidle] at hnext
  have hheld := WinRTPromise.held_eq_zero_iff.mpr ⟨body_of_stuck h hh hstuck, hgone⟩
  rw [hf.destroyed, if_pos hheld]

end Progress

/-- In every run, whatever the holders of other references do: the coroutine is never continued
while it runs and no awaiter is used after it has gone on; each `co_await` comes to what the body
of the coroutine that is awaited comes to, unless that one has been cancelled; and where nothing
is left to do the coroutine has been continued once for each `co_await`, each has come to
something, and the frames of the others have been destroyed, once each. -/
theorem awaits_what_body_comes_to {es : List (Event n α)} {kind : Kind α} {s : State n α}
    (hrun : (machine n kind).run (State.new n kind) es = some s) :
    s.parent.faults = [] ∧
      (∀ k g, s.outcomes k = some g → Comes (s.children k) g) ∧
      ((machine n kind).Stuck s → s.parent.running = true ∧ ∀ k,
        (s.parent.awaits k).ContinuedOnce ∧ (∃ g, s.outcomes k = some g) ∧
          (s.children k).body = .finished ∧ (s.children k).destroyed = 1) := by
  have hs : (machine n kind).Reachable s := (Machine.Reachable.init rfl).run hrun
  have h := inv_reachable hs
  have hp := PoolAwaiter.inv_reachable ((parent_projection n kind).reachable hs)
  have hchild := fun k => (child_projection n kind k).reachable hs
  have hc := fun k => WinRTPromise.reachable_inv (hchild k)
  refine ⟨hp.faults, ?_, ?_⟩
  · intro k g hg
    have hpassed := h.passed k (by rw [hg]; rfl)
    exact (h.linked k).comes (hc k).1 (hc k).2 (WinRTPromise.answers_reachable (hchild k))
      (callback_of_passed hp hpassed) hg
  · intro hstuck
    obtain ⟨hposition, hrunning⟩ := hp.of_stuck (parent_stuck h hp (fun k => (hc k).2) hstuck)
    refine ⟨hrunning, fun k => ?_⟩
    have hk : (k : ℕ) < s.parent.position := by
      rw [hposition]
      exact k.isLt
    have hafter := hp.each k
    rw [PoolAwaiter.whereIs_of_lt hk] at hafter
    exact ⟨hafter.continuedOnce,
      Option.isSome_iff_exists.mp (outcome_of_stuck h (hc k).2 hstuck hk),
      body_of_stuck h (hc k).2 hstuck,
      destroyed_of_stuck h (hc k).2 (WinRTPromise.frameInv_reachable (hchild k)) hstuck hk⟩

/-- The first one returns after it has been awaited; the second one has been cancelled before, by
another holder of a reference. -/
def bothRun : List (Event 2 ℕ) :=
  [.await 0, .parent (.completedReturns 0), .parent (.exchange 0), .parent (.returns 0),
    .child 0 (.returns 5), .child 0 .setCompleted, .invokeCompleted 0,
    .parent (.callbackExchange 0), .parent (.callbackEnds 0), .child 0 .finalRelease,
    .parent (.run 0), .resume 0, .release 0,
    .child 1 (.addRef 0), .child 1 (.cancel 1), .await 1, .invoke 1,
    .parent (.callbackExchange 1), .parent (.callbackEnds 1), .parent (.completedReturns 1),
    .parent (.exchange 1), .parent (.returns 1), .resume 1]

theorem awaits_what_body_comes_to_both :
    ∃ s, (machine 2 (.scalar 0)).run (State.new 2 (.scalar 0)) bothRun = some s ∧
      s.outcomes 0 = some (.value 5) ∧ s.outcomes 1 = some (.thrown .canceled) ∧
      s.parent.faults = [] ∧ Comes (s.children 0) (.value 5) ∧
      Comes (s.children 1) (.thrown .canceled) := by
  have hrun : ∃ s, (machine 2 (.scalar 0)).run (State.new 2 (.scalar 0)) bothRun = some s ∧
      s.outcomes 0 = some (.value 5) ∧ s.outcomes 1 = some (.thrown .canceled) :=
    ⟨_, rfl, rfl, rfl⟩
  obtain ⟨s, hrun, hfirst, hsecond⟩ := hrun
  obtain ⟨hfaults, hcomes, -⟩ := awaits_what_body_comes_to hrun
  exact ⟨s, hrun, hfirst, hsecond, hfaults, hcomes 0 _ hfirst, hcomes 1 _ hsecond⟩

end CppCoroutines.WinRTAwait
