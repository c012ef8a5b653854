import CppCoroutines.Basics.FutureRuns

/-!
# The end of the futures

The coroutines of futures end: none waits for ever, because each awaits only tasks and the
coroutines that it has called, and `main` gets what the body comes to.
-/

namespace CppCoroutines.Future

variable {ε α : Type}

/-! ## A rank -/

/-- The steps that a call of the body takes, those of its tasks and its callees included. -/
def Body.cost : Body ε α → ℕ
  | .done _ => 1
  | .async _ r next => (next r).cost + 4
  | .call callee next => callee.cost + (next callee.eval).cost + 6

/-- What a body still costs after a `co_await` of the future. -/
def State.costAfter (s : State ε α) (fut : Fut) (next : Except ε α → Body ε α) : ℕ :=
  ((s.denote fut).map fun x => (next x).cost).getD 0

def Code.left (s : State ε α) : Code ε α → ℕ
  | .running b => b.cost
  | .calling m next => s.costAfter (.coroutine m) next + 3
  | .awaiting fut next => s.costAfter fut next + 2
  | .suspended fut next => s.costAfter fut next + 1
  | .finished => 0

def Control.left : Control → ℕ
  | .within => 2
  | .leaving => 1
  | .returned => 0

def Coroutine.left (s : State ε α) (c : Coroutine ε α) : ℕ := c.code.left s + c.control.left

def Task.left (x : Task ε α) : ℕ := if x.deferred || x.ready then 0 else 1

/-- The steps that all the threads may still take. -/
def State.left (s : State ε α) : ℕ :=
  (s.coroutines.map (Coroutine.left s)).sum + (s.tasks.map Task.left).sum +
    if s.got = none then 1 else 0

section Rank

variable {b : Body ε α} {s s' : State ε α} {j : ℕ} {c c' : Coroutine ε α}

theorem costAfter_eq {fut : Fut} {x : Except ε α} (next : Except ε α → Body ε α)
    (hx : s.denote fut = some x) : s.costAfter fut next = (next x).cost := by
  unfold State.costAfter
  rw [hx]
  rfl

/-- What is left of a coroutine does not depend on the others. -/
theorem CoroutineInv.left_congr (h : CoroutineInv s j c) (hgrows : Grows s s') :
    c.left s' = c.left s := by
  have hcomes := h.comes
  unfold Coroutine.left
  cases hcode : c.code with
  | running b => rfl
  | finished => rfl
  | calling m next =>
      rw [hcode] at hcomes
      rcases hcomes with ⟨-, x, hx, -⟩
      simp only [Code.left, costAfter_eq next hx, costAfter_eq next (hgrows _ _ hx)]
  | awaiting fut next =>
      rw [hcode] at hcomes
      rcases hcomes with ⟨-, x, hx, -⟩
      simp only [Code.left, costAfter_eq next hx, costAfter_eq next (hgrows _ _ hx)]
  | suspended fut next =>
      rw [hcode] at hcomes
      rcases hcomes with ⟨-, x, hx, -⟩
      simp only [Code.left, costAfter_eq next hx, costAfter_eq next (hgrows _ _ hx)]

theorem Inv.sum_congr (h : Inv b s) (hgrows : Grows s s') :
    (s.coroutines.map (Coroutine.left s')).sum = (s.coroutines.map (Coroutine.left s)).sum := by
  congr 1
  apply List.map_congr_left
  intro c hc
  rcases List.getElem?_of_mem hc with ⟨j, hj⟩
  exact (h.coroutines j c hj).left_congr hgrows

/-- One coroutine changes: what it leaves decides. -/
theorem Inv.sum_set (h : Inv b s) (hj : s.coroutines[j]? = some c)
    (hcoroutines : s'.coroutines = s.coroutines.set j c') (hgrows : Grows s s') :
    (s'.coroutines.map (Coroutine.left s')).sum + c.left s =
      (s.coroutines.map (Coroutine.left s)).sum + c'.left s' := by
  rw [hcoroutines, ← h.sum_congr hgrows, ← (h.coroutines j c hj).left_congr hgrows]
  exact Executor.sum_map_set (Coroutine.left s') hj c'

theorem Inv.left_set_lt (h : Inv b s) (hj : s.coroutines[j]? = some c)
    (hcoroutines : s'.coroutines = s.coroutines.set j c') (hbody : c'.body = c.body)
    (htasks : s'.tasks = s.tasks) (hgot : s'.got = s.got) (hlt : c'.left s' < c.left s) :
    s'.left < s.left := by
  have hsum := h.sum_set hj hcoroutines (grows_set hj hcoroutines hbody htasks)
  unfold State.left
  rw [htasks, hgot]
  omega

theorem Control.left_leave_le (c : Control) : c.leave.left ≤ c.left := by
  cases c <;> decide

theorem Inv.left_finish_lt (h : Inv b s) (hj : s.coroutines[j]? = some c) {r : Except ε α}
    (hcode : c.code = .running (.done r)) : (s.finish j c r).left < s.left := by
  have hvalue : c.value = none := by rw [(h.coroutines j c hj).value, hcode]; rfl
  unfold State.finish
  rw [hvalue]
  refine h.left_set_lt hj rfl rfl rfl rfl ?_
  show 0 + c.control.leave.left < c.code.left s + c.control.left
  rw [hcode]
  have hle := c.control.left_leave_le
  simp only [Code.left, Body.cost]
  omega

theorem Inv.left_go_lt (h : Inv b s) (hj : s.coroutines[j]? = some c) {body : Body ε α}
    (hcode : c.code = .running body) : (s.go j c body).left < s.left := by
  have hleft : c.left s = body.cost + c.control.left := by
    unfold Coroutine.left
    rw [hcode]
    rfl
  cases body with
  | done r => exact h.left_finish_lt hj hcode
  | async deferred r next =>
      have hgrows : Grows s (s.go j c (.async deferred r next)) := by
        intro fut x hx
        have hpushed := grows_pushTask s ⟨deferred, r, false⟩ fut x hx
        have hset : (s.go j c (.async deferred r next)).coroutines = s.coroutines.set j
            { c with code := .awaiting (.task s.tasks.length) next } := rfl
        exact grows_set (s := { s with tasks := s.tasks ++ [⟨deferred, r, false⟩] }) hj hset rfl rfl
          fut x hpushed
      have hset : (s.go j c (.async deferred r next)).coroutines = s.coroutines.set j
          { c with code := .awaiting (.task s.tasks.length) next } := rfl
      have hsum := h.sum_set hj hset hgrows
      have hdenote : (s.go j c (.async deferred r next)).denote (.task s.tasks.length) =
          some r := by
        show (s.tasks ++ [_])[s.tasks.length]?.map Task.result = some r
        rw [List.getElem?_concat_length]
        rfl
      have htask : Task.left (⟨deferred, r, false⟩ : Task ε α) ≤ 1 := by
        unfold Task.left
        split <;> decide
      simp only [Coroutine.left, Code.left, costAfter_eq next hdenote] at hsum
      simp only [Coroutine.left, Code.left, Body.cost] at hleft
      show (List.map _ _).sum + ((s.tasks ++ [_]).map Task.left).sum + _ < _
      rw [List.map_append, List.sum_append, List.map_singleton, List.sum_singleton]
      unfold State.left
      show _ + ((s.tasks.map Task.left).sum + _) + (if s.got = none then 1 else 0) < _
      omega
  | call callee next =>
      have hj' := push_of_lt callee hj
      have hset : (s.go j c (.call callee next)).coroutines =
          (s.push callee).coroutines.set j { c with code := .calling s.coroutines.length next } :=
        (List.set_append_left j _ (List.getElem?_eq_some_iff.mp hj).1).symm
      have hgrows : Grows (s.push callee) (s.go j c (.call callee next)) :=
        grows_set hj' hset rfl rfl
      have hsum := (h.push callee).sum_set hj' hset hgrows
      have hpush : ((s.push callee).coroutines.map (Coroutine.left (s.push callee))).sum =
          (s.coroutines.map (Coroutine.left s)).sum + (callee.cost + 2) := by
        rw [← h.sum_congr (grows_push s callee)]
        show ((s.coroutines ++ [_]).map _).sum = _
        rw [List.map_append, List.sum_append]
        rfl
      have hdenote : (s.go j c (.call callee next)).denote (.coroutine s.coroutines.length) =
          some callee.eval := by
        apply hgrows
        show (s.coroutines ++ [_])[s.coroutines.length]?.map _ = _
        rw [List.getElem?_concat_length]
        rfl
      have hleft' := (h.coroutines j c hj).left_congr (grows_push s callee)
      simp only [Coroutine.left, Code.left, costAfter_eq next hdenote] at hsum
      simp only [Coroutine.left, Code.left, Body.cost] at hleft hleft'
      unfold State.left
      show _ + (s.tasks.map Task.left).sum + (if s.got = none then 1 else 0) < _
      omega

theorem step_left_lt {e : Event} (h : Inv b s) (hstep : step s e = some s') :
    s'.left < s.left := by
  cases step_cases hstep with
  | go hj hcode => exact h.left_go_lt hj hcode
  | @proceed j m c g next hj hcode hg hreturned =>
      have hcomes := (h.coroutines j c hj).comes
      rw [hcode] at hcomes
      rcases hcomes with ⟨-, x, hx, -⟩
      refine h.left_set_lt hj rfl rfl rfl rfl ?_
      have hgrows : Grows s (s.setCoroutine j { c with code := .awaiting (.coroutine m) next }) :=
        grows_setCoroutine hj rfl
      simp only [Coroutine.left, hcode, Code.left, costAfter_eq next hx,
        costAfter_eq next (hgrows _ _ hx)]
      omega
  | @ready j c fut next r hj hcode hr =>
      refine h.left_set_lt hj rfl rfl rfl rfl ?_
      simp only [Coroutine.left, hcode, Code.left, costAfter_eq next (h.denote_of_fetch hr)]
      omega
  | @suspend j c fut next hj hcode _ =>
      have hcomes := (h.coroutines j c hj).comes
      rw [hcode] at hcomes
      rcases hcomes with ⟨-, x, hx, -⟩
      refine h.left_set_lt hj rfl rfl rfl rfl ?_
      have hgrows : Grows s (s.suspend j c fut next) := grows_set hj rfl rfl rfl
      have hle := c.control.left_leave_le
      simp only [Coroutine.left, hcode, Code.left, costAfter_eq next hx,
        costAfter_eq next (hgrows _ _ hx)]
      omega
  | @leave j c hj hleaving =>
      refine h.left_set_lt hj rfl rfl rfl rfl ?_
      have hgrows : Grows s (s.setCoroutine j { c with control := .returned }) :=
        grows_setCoroutine hj rfl
      have hsame := (h.coroutines j c hj).left_congr hgrows
      simp only [Coroutine.left, hleaving, Control.left] at hsame ⊢
      omega
  | @work t x hx hdeferred hready =>
      have hsum := Executor.sum_map_set Task.left hx { x with ready := true }
      have hold : x.left = 1 := by
        unfold Task.left
        rw [hdeferred, hready]
        rfl
      have hnew : Task.left { x with ready := true } = 0 := by
        unfold Task.left
        rw [hdeferred]
        rfl
      have hcoroutines := h.sum_congr (grows_work hx)
      unfold State.left
      show (s.coroutines.map _).sum + ((s.tasks.set t _).map Task.left).sum +
        (if s.got = none then 1 else 0) < _
      rw [hcoroutines]
      omega
  | @resume i w r hw hr =>
      rcases h.resume hw hr with ⟨c, next, hj, hcode, heq⟩
      rw [heq]
      refine h.left_set_lt hj rfl rfl rfl rfl ?_
      simp only [Coroutine.left, hcode, Code.left, costAfter_eq next (h.denote_of_fetch hr)]
      omega
  | @get c r hnone _ _ _ =>
      have hgrows : Grows s { s with got := some r } := by
        intro fut x hx
        cases fut <;> exact hx
      have hsum := h.sum_congr hgrows
      unfold State.left
      show (s.coroutines.map _).sum + _ + (if some r = none then 1 else 0) < _
      rw [hsum, hnone]
      simp

end Rank

/-! ## Nobody waits for ever -/

section Stuck

variable {b : Body ε α} {s s' : State ε α} {j : ℕ} {c : Coroutine ε α}

/-- A coroutine that has ended and whose caller has gone on. -/
def Coroutine.Gone (c : Coroutine ε α) : Prop := c.code.isOver = true ∧ c.control = .returned

/-- What a coroutine awaits is ready, once nothing can be done any more and the younger ones
are gone. -/
theorem exists_fetch (h : Inv b s) (hstuck : (machine b).Stuck s) {fut : Fut} {r : Except ε α}
    (hafter : fut.After j) (hdenote : s.denote fut = some r)
    (hyounger : ∀ (i : ℕ) (c : Coroutine ε α), j < i → s.coroutines[i]? = some c → c.Gone) : s.fetch fut = some r := by
  cases fut with
  | task t =>
      rcases Option.map_eq_some_iff.mp hdenote with ⟨x, hx, rfl⟩
      have hready : (x.deferred || x.ready) = true := by
        by_contra hnot
        have hwork := hstuck (.work t)
        simp only [Bool.not_eq_true, Bool.or_eq_false_iff] at hnot
        simp [machine, step, hx, hnot] at hwork
      show s.tasks[t]?.bind _ = _
      rw [hx]
      exact if_pos hready
  | coroutine m =>
      rcases Option.map_eq_some_iff.mp hdenote with ⟨g, hg, rfl⟩
      have hover := (hyounger m g hafter hg).1
      show s.coroutines[m]?.bind _ = _
      rw [hg]
      show g.value = _
      rw [(h.coroutines m g hg).value, if_pos hover]

/-- If the younger coroutines are gone, so is this one. -/
theorem gone_of_younger (h : Inv b s) (hstuck : (machine b).Stuck s)
    (hj : s.coroutines[j]? = some c)
    (hyounger : ∀ (i : ℕ) (c : Coroutine ε α), j < i → s.coroutines[i]? = some c → c.Gone) : c.Gone := by
  have hc := h.coroutines j c hj
  have hcomes := hc.comes
  have hover : c.code.isOver = true := by
    cases hcode : c.code with
    | running body =>
        have hgo := hstuck (.go j)
        simp [machine, step, hj, hcode] at hgo
    | calling m next =>
        rw [hcode] at hcomes
        rcases hcomes with ⟨hlt, x, hx, -⟩
        rcases Option.map_eq_some_iff.mp hx with ⟨g, hg, -⟩
        have hproceed := hstuck (.proceed j)
        simp [machine, step, hj, hcode, hg, (hyounger m g hlt hg).2] at hproceed
    | awaiting fut next =>
        have hawait := hstuck (.await j)
        simp only [machine, step, hj, hcode] at hawait
        split at hawait <;> cases hawait
    | suspended fut next =>
        rw [hcode] at hcomes
        rcases hcomes with ⟨hafter, x, hx, -⟩
        have hfetch := exists_fetch h hstuck hafter hx hyounger
        have hon : s.suspendedOn j = some fut := by
          unfold State.suspendedOn
          rw [hj]
          show c.code.suspendedOn = _
          rw [hcode]
          rfl
        rcases List.getElem?_of_mem ((h.waits.mem ⟨j, fut⟩).mpr hon) with ⟨i, hi⟩
        have hresume := hstuck (.resume i)
        simp [machine, step, hi, hfetch] at hresume
    | finished => rfl
  refine ⟨hover, ?_⟩
  cases hcontrol : c.control with
  | returned => rfl
  | within =>
      have hnot := (hc.control hcontrol).2
      rw [hover] at hnot
      cases hnot
  | leaving =>
      have hleave := hstuck (.leave j)
      simp [machine, step, hj, hcontrol] at hleave

/-- Where nothing can be done any more all coroutines are gone, from the youngest to the one
that `main` has called. -/
theorem gone_of_stuck (h : Inv b s) (hstuck : (machine b).Stuck s)
    (hj : s.coroutines[j]? = some c) : c.Gone := by
  induction hleft : s.coroutines.length - j using Nat.strongRecOn generalizing j c with
  | ind n ih =>
      refine gone_of_younger h hstuck hj fun i g hlt hg => ih (s.coroutines.length - i) ?_ hg rfl
      have hi := (List.getElem?_eq_some_iff.mp hg).1
      omega

theorem got_of_stuck (h : Inv b s) (hstuck : (machine b).Stuck s) : s.got = some b.eval := by
  cases hgot : s.got with
  | some r => rw [h.got r hgot]
  | none =>
      rcases h.root with ⟨c, hc, -⟩
      rcases gone_of_stuck h hstuck hc with ⟨hover, hreturned⟩
      have hvalue := (h.coroutines 0 c hc).value
      rw [if_pos hover] at hvalue
      have hget := hstuck .get
      simp [machine, step, State.fetch, hgot, hc, hreturned, hvalue] at hget

theorem waiters_of_stuck (h : Inv b s) (hstuck : (machine b).Stuck s) : s.waiters = [] := by
  apply List.eq_nil_iff_forall_not_mem.mpr
  intro w hw
  rcases Option.bind_eq_some_iff.mp ((h.waits.mem w).mp hw) with ⟨c, hc, hon⟩
  have hover := (gone_of_stuck h hstuck hc).1
  cases hcode : c.code with
  | finished =>
      rw [hcode] at hon
      cases hon
  | _ =>
      rw [hcode] at hover
      cases hover

end Stuck

/-! ## What the program computes -/

section Runs

variable {b : Body ε α} {s : State ε α}

theorem inv_reachable (hs : (machine b).Reachable s) : Inv b s := by
  have hinv : (machine b).Inductive (Inv b) := by
    constructor
    · rintro s rfl
      exact inv_start b
    · intro s e s' h hstep
      exact step_inv h hstep
  exact hinv.reachable hs

theorem left_start (b : Body ε α) : (State.start b).left = b.cost + 3 := rfl

/-- Whatever its body awaits, in whatever order the threads run: `main` gets nothing but what
the body comes to when every `co_await` is a call, no promise is set twice, and where no thread
can go on `main` has got it, all coroutines have ended and all threads that were spawned too.
No run goes on for more steps than the body costs. -/
theorem future_gets_eval {es : List Event} (hrun : (machine b).run (State.start b) es = some s) :
    s.faults = [] ∧ (∀ r, s.got = some r → r = b.eval) ∧
      ((machine b).Stuck s → s.got = some b.eval ∧ s.waiters = [] ∧
        ∀ (j : ℕ) (c : Coroutine ε α), s.coroutines[j]? = some c → c.Gone) ∧
      es.length ≤ b.cost + 3 := by
  have h : Inv b s := inv_reachable (Machine.Reachable.run (.init rfl) hrun)
  refine ⟨h.faults, h.got, fun hstuck => ⟨got_of_stuck h hstuck, waiters_of_stuck h hstuck,
    fun j c hj => gone_of_stuck h hstuck hj⟩, ?_⟩
  have hstep : ∀ s e s', Inv b s → (machine b).step s e = some s' → Inv b s' ∧ s'.left < s.left :=
    fun s e s' hs hstep => ⟨step_inv hs hstep, step_left_lt hs hstep⟩
  have hlength := Machine.length_le_of_inv hstep (inv_start b) hrun
  rw [left_start] at hlength
  omega

/-- `compute`, where `std::async` may defer its tasks. -/
def compute (first second : Bool) : Body String ℤ :=
  .async first (.ok 6) (Body.propagate fun a =>
    .async second (.ok 7) (Body.propagate fun b => .done (.ok (a * b))))

example : (compute false true).eval = .ok 42 := rfl

/-- `fail`. -/
def fail : Body String Unit := .done (.error "bleah")

example : fail.eval = .error "bleah" := rfl

/-- `f` of `first.cpp`, whose promise type is the same. -/
def f : Body String ℤ := .done (.ok 42)

example : f.eval = .ok 42 := rfl

/-- A run of `compute`: the first task is late, so that a thread is spawned for it, and the
second one is deferred. -/
theorem future_gets_eval_compute : ∃ s : State String ℤ,
    (machine (compute false true)).run (State.start (compute false true))
      [.go 0, .await 0, .work 0, .leave 0, .resume 0, .go 0, .await 0, .go 0, .get] = some s ∧
    s.got = some (.ok 42) ∧ s.faults = [] := by
  have hrun : ∃ s : State String ℤ,
      (machine (compute false true)).run (State.start (compute false true))
        [.go 0, .await 0, .work 0, .leave 0, .resume 0, .go 0, .await 0, .go 0, .get] = some s ∧
      s.got = some (.ok 42) := ⟨_, rfl, rfl⟩
  obtain ⟨s, hrun, hgot⟩ := hrun
  exact ⟨s, hrun, hgot, (future_gets_eval hrun).1⟩

/-- The threads that wait for a coroutine. -/
theorem Waits.filter_length (h : Waits s) (j : ℕ) :
    (s.waiters.filter fun w => w.coro = j).length = (s.suspendedOn j).toList.length := by
  cases hon : s.suspendedOn j with
  | none =>
      rw [List.filter_eq_nil_iff.mpr]
      · rfl
      · intro w hw
        have hsuspended := (h.mem w).mp hw
        rw [decide_eq_true_eq]
        rintro rfl
        rw [hon] at hsuspended
        cases hsuspended
  | some fut =>
      have hmem : (⟨j, fut⟩ : Waiter) ∈ s.waiters := (h.mem ⟨j, fut⟩).mpr hon
      have hsame : (s.waiters.filter fun w => w.coro = j) =
          s.waiters.filter fun w => w = ⟨j, fut⟩ := by
        apply List.filter_congr
        intro w hw
        rw [decide_eq_decide]
        refine ⟨fun hcoro => ?_, fun heq => by rw [heq]⟩
        have hsuspended := (h.mem w).mp hw
        rw [hcoro, hon] at hsuspended
        rw [← hcoro, Option.some.inj hsuspended]
      rw [hsame, List.filter_eq, List.length_replicate,
        List.count_eq_one_of_mem h.nodup hmem]
      rfl

/-- In every run a coroutine has been resumed once for every time it was suspended, but for the
last time if it still is; and then there is one thread that is to resume it, and no other. -/
theorem resumed_per_suspension (hs : (machine b).Reachable s) {j : ℕ} {c : Coroutine ε α}
    (hj : s.coroutines[j]? = some c) :
    c.suspensions = c.resumptions + (s.waiters.filter fun w => w.coro = j).length ∧
      ((s.waiters.filter fun w => w.coro = j).length = if c.code.suspendedOn.isSome then 1 else 0) := by
  have h := inv_reachable hs
  have hon : s.suspendedOn j = c.code.suspendedOn := by
    unfold State.suspendedOn
    rw [hj]
    rfl
  rw [h.waits.filter_length, hon]
  refine ⟨(h.coroutines j c hj).resumptions, ?_⟩
  cases c.code.suspendedOn with
  | none => rfl
  | some fut => rfl

/-- `compute` in its first suspension. -/
theorem resumed_per_suspension_compute : ∃ (s : State String ℤ) (c : Coroutine String ℤ),
    (machine (compute false true)).Reachable s ∧ s.coroutines[0]? = some c ∧ c.suspensions = 1 ∧
    c.suspensions = c.resumptions + (s.waiters.filter fun w => w.coro = 0).length := by
  have hrun : ∃ (s : State String ℤ) (c : Coroutine String ℤ),
      (machine (compute false true)).run (State.start (compute false true)) [.go 0, .await 0] =
        some s ∧ s.coroutines[0]? = some c ∧ c.suspensions = 1 := ⟨_, _, rfl, rfl, rfl⟩
  obtain ⟨s, c, hrun, hc, hsuspensions⟩ := hrun
  have hs : (machine (compute false true)).Reachable s := (Machine.Reachable.init rfl).run hrun
  exact ⟨s, c, hs, hc, hsuspensions, (resumed_per_suspension hs hc).1⟩

end Runs

end CppCoroutines.Future
