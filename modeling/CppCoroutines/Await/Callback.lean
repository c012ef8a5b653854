import CppCoroutines.Asio
import CppCoroutines.Machine

/-!
# The handler of `better_async_wait`

`Awaiter::Callback` of `stop1.cpp`, the handler of one `co_await better_async_wait(t, d)`.
A library that holds the handler copies, moves, invokes and destroys such objects in
its own order. The call operator and the destructor both resume the coroutine, if the
object still has its handle; only the move constructor and the call operator clear it.
-/

namespace CppCoroutines.BetterAsyncWait

/-- `Callback`: all of them point to the one awaiter. -/
structure Callback where
  /-- `coro` is not null -/
  coro : Bool
  destroyed : Bool
deriving DecidableEq, Repr

/-- The object can still resume the coroutine. -/
def Callback.carries (c : Callback) : Bool := c.coro && !c.destroyed

/-- The awaiter, the objects made from the one `await_suspend` creates, and the history. -/
structure State where
  /-- `me->ec` -/
  ec : Option ErrorCode
  callbacks : List Callback
  /-- history: the error code of the invocation -/
  invoked : Option (Option ErrorCode)
  /-- history: what `await_resume` finds in `ec`, for each resumption of the coroutine -/
  resumptions : List (Option ErrorCode)
  /-- history: the writes into the awaiter after its coroutine has been resumed -/
  lateWrites : ℕ
deriving DecidableEq, Repr

namespace State

/-- `t.async_wait(Callback{this, coro})`. -/
def start : State where
  ec := none
  callbacks := [⟨true, false⟩]
  invoked := none
  resumptions := []
  lateWrites := 0

/-- The object with this number, while it exists. -/
def callback (s : State) (i : ℕ) : Option Callback := s.callbacks[i]?.filter fun c => !c.destroyed

def add (s : State) (c : Callback) : State := { s with callbacks := s.callbacks ++ [c] }

def put (s : State) (i : ℕ) (c : Callback) : State := { s with callbacks := s.callbacks.set i c }

/-- `me->ec = ec; coro.resume()`: the awaiter is gone once its coroutine has been resumed. -/
def resume (s : State) (ec : Option ErrorCode) : State :=
  { s with
    ec := ec
    lateWrites := if s.resumptions = [] then s.lateWrites else s.lateWrites + 1
    resumptions := s.resumptions ++ [ec] }

end State

/-- What is done with the objects; a new one gets the next number. -/
inductive Event where
  | copy (i : ℕ)
  | move (i : ℕ)
  | invoke (i : ℕ) (ec : Option ErrorCode)
  | destroy (i : ℕ)
deriving DecidableEq, Repr

/-- The special members and the call operator. -/
def step (s : State) : Event → Option State
  | .copy i => (s.callback i).map fun c => s.add ⟨c.coro, false⟩
  | .move i => (s.callback i).map fun c => (s.put i { c with coro := false }).add ⟨c.coro, false⟩
  | .invoke i ec => (s.callback i).bind fun c =>
      -- the one invocation is that of an object that still has the coroutine
      if c.coro = true ∧ s.invoked = none then
        some { (s.put i { c with coro := false }).resume ec with invoked := some ec }
      else none
  | .destroy i => (s.callback i).map fun c =>
      let s := s.put i { c with destroyed := true }
      if c.coro then s.resume (some .operationAborted) else s

/-- Every sequence of operations on the objects that come from `await_suspend`. -/
def machine : Machine State Event where
  init s := s = State.start
  step := step

/-- All objects have been destroyed. -/
def State.AllDestroyed (s : State) : Prop := ∀ c ∈ s.callbacks, c.destroyed = true

/-- The coroutine has been resumed once, with the error code of the invocation or with
`operation_aborted`, and nothing touched the awaiter afterwards. -/
def State.ResumedOnce (s : State) : Prop :=
  s.resumptions = [s.invoked.getD (some .operationAborted)] ∧ s.lateWrites = 0

/-- A copy is made only of an object that no longer has the coroutine. -/
def CopiesIdle (s : State) (e : Event) : Prop :=
  ∀ i c, e = .copy i → s.callback i = some c → c.coro = false

/-! ## What can resume the coroutine -/

/-- The objects that can still resume the coroutine. -/
def State.carriers (s : State) : ℕ := s.callbacks.countP Callback.carries

namespace State

variable {s : State} {i : ℕ} {c d : Callback}

theorem callback_eq_some : s.callback i = some c ↔ s.callbacks[i]? = some c ∧ c.destroyed = false := by
  simp [callback, Option.filter_eq_some_iff]

theorem carries_of_callback (h : s.callback i = some c) : c.carries = c.coro := by
  simp [Callback.carries, (callback_eq_some.mp h).2]

@[simp] theorem carriers_resume (ec : Option ErrorCode) : (s.resume ec).carriers = s.carriers := rfl

@[simp] theorem resumptions_resume (ec : Option ErrorCode) :
    (s.resume ec).resumptions = s.resumptions ++ [ec] := rfl

@[simp] theorem carriers_add : (s.add c).carriers = s.carriers + c.carries.toNat := by
  cases h : c.carries <;> simp [add, carriers, h]

/-- Replacing an object replaces what it carries. -/
theorem carriers_put (h : s.callback i = some c) :
    (s.put i d).carriers + c.coro.toNat = s.carriers + d.carries.toNat := by
  have hc := carries_of_callback h
  rcases List.getElem?_eq_some_iff.mp (callback_eq_some.mp h).1 with ⟨hi, hget⟩
  have hpos : c.carries = true → 0 < s.callbacks.countP Callback.carries := by
    intro hcarries
    exact List.countP_pos_iff.mpr ⟨c, hget ▸ List.getElem_mem hi, hcarries⟩
  rw [carriers, carriers, put, List.countP_set hi, hget, ← hc]
  cases hcarries : c.carries
  · cases d.carries <;> simp
  · have := hpos hcarries
    cases d.carries <;> simp <;> omega

/-- An object that carries the coroutine is one of those that do. -/
theorem carriers_pos (h : s.callback i = some c) (hcoro : c.coro = true) : 0 < s.carriers := by
  have hput := carriers_put (d := { c with coro := false }) h
  rw [hcoro] at hput
  simp [Callback.carries] at hput
  omega

end State

/-- Nothing is left to resume the coroutine when all objects are gone. -/
theorem carriers_of_allDestroyed {s : State} (h : s.AllDestroyed) : s.carriers = 0 := by
  apply List.countP_eq_zero.mpr
  intro c hc
  simp [Callback.carries, h c hc]

/-! ## Runs -/

/-- As long as no carrier is copied, exactly one object can resume the coroutine until
it has been resumed. -/
def Single (s : State) : Prop :=
  (s.resumptions = [] ∧ s.invoked = none ∧ s.carriers = 1 ∧ s.lateWrites = 0) ∨
    (s.ResumedOnce ∧ s.carriers = 0)

/-- The coroutine has been resumed, or can still be resumed, more than once. -/
def Doubled (s : State) : Prop := 2 ≤ s.resumptions.length + s.carriers

theorem single_start : Single State.start := by
  refine Or.inl ⟨rfl, rfl, rfl, rfl⟩

/-- No operation takes away a resumption that is due. -/
theorem step_mass {s s' : State} {e : Event} (h : step s e = some s') :
    s.resumptions.length + s.carriers ≤ s'.resumptions.length + s'.carriers := by
  cases e with
  | copy i =>
      obtain ⟨c, hc, rfl⟩ := Option.map_eq_some_iff.mp h
      rw [State.carriers_add]
      show s.resumptions.length + _ ≤ s.resumptions.length + _
      omega
  | move i =>
      obtain ⟨c, hc, rfl⟩ := Option.map_eq_some_iff.mp h
      have hput := State.carriers_put (d := { c with coro := false }) hc
      rw [State.carriers_add]
      show s.resumptions.length + _ ≤ s.resumptions.length + _
      simp [Callback.carries] at hput ⊢
      omega
  | invoke i ec =>
      obtain ⟨c, hc, hif⟩ := Option.bind_eq_some_iff.mp h
      obtain ⟨⟨hcoro, -⟩, heq⟩ := Option.ite_none_right_eq_some.mp hif
      obtain rfl := Option.some.inj heq
      have hput := State.carriers_put (d := { c with coro := false }) hc
      show _ ≤ ((s.put i _).resume ec).resumptions.length + ((s.put i _).resume ec).carriers
      simp [Callback.carries, hcoro] at hput
      rw [State.resumptions_resume, State.carriers_resume, List.length_append]
      show _ ≤ s.resumptions.length + 1 + _
      omega
  | destroy i =>
      obtain ⟨c, hc, rfl⟩ := Option.map_eq_some_iff.mp h
      have hput := State.carriers_put (d := { c with destroyed := true }) hc
      simp [Callback.carries] at hput
      cases hcoro : c.coro with
      | true =>
          simp only [if_true, State.resumptions_resume, State.carriers_resume, List.length_append]
          show _ ≤ s.resumptions.length + 1 + _
          simp [hcoro] at hput
          omega
      | false =>
          show _ ≤ s.resumptions.length + _
          simp [hcoro] at hput ⊢
          omega

/-- Every operation keeps to a single resumption, except copying a carrier. -/
theorem step_single {s s' : State} {e : Event} (hs : Single s) (h : step s e = some s')
    (hidle : CopiesIdle s e) : Single s' := by
  cases e with
  | copy i =>
      obtain ⟨c, hc, rfl⟩ := Option.map_eq_some_iff.mp h
      have hcoro := hidle i c rfl hc
      have hadd : (s.add ⟨c.coro, false⟩).carriers = s.carriers := by
        rw [State.carriers_add, hcoro]
        rfl
      unfold Single
      rw [hadd]
      exact hs
  | move i =>
      obtain ⟨c, hc, rfl⟩ := Option.map_eq_some_iff.mp h
      have hadd : ((s.put i { c with coro := false }).add ⟨c.coro, false⟩).carriers =
          s.carriers := by
        have hput := State.carriers_put (d := { c with coro := false }) hc
        rw [State.carriers_add]
        simp [Callback.carries] at hput ⊢
        omega
      unfold Single
      rw [hadd]
      exact hs
  | invoke i ec =>
      obtain ⟨c, hc, hif⟩ := Option.bind_eq_some_iff.mp h
      obtain ⟨⟨hcoro, -⟩, heq⟩ := Option.ite_none_right_eq_some.mp hif
      obtain rfl := Option.some.inj heq
      have hput := State.carriers_put (d := { c with coro := false }) hc
      simp [Callback.carries, hcoro] at hput
      rcases hs with ⟨hres, -, hone, hlate⟩ | ⟨-, hzero⟩
      · -- the invocation is the resumption
        refine Or.inr ⟨⟨?_, ?_⟩, ?_⟩
        · show s.resumptions ++ [ec] = [ec]
          rw [hres, List.nil_append]
        · show (if s.resumptions = [] then s.lateWrites else s.lateWrites + 1) = 0
          rw [if_pos hres, hlate]
        · show (s.put i _).carriers = 0
          omega
      · omega
  | destroy i =>
      obtain ⟨c, hc, rfl⟩ := Option.map_eq_some_iff.mp h
      have hput := State.carriers_put (d := { c with destroyed := true }) hc
      simp [Callback.carries] at hput
      cases hcoro : c.coro with
      | true =>
          have hpos := State.carriers_pos hc hcoro
          simp [hcoro] at hput
          rcases hs with ⟨hres, hinv, hone, hlate⟩ | ⟨-, hzero⟩
          · -- the destructor of the last carrier is the resumption
            refine Or.inr ⟨⟨?_, ?_⟩, ?_⟩
            · show s.resumptions ++ [_] = [s.invoked.getD _]
              rw [hres, hinv]
              rfl
            · show (if s.resumptions = [] then s.lateWrites else s.lateWrites + 1) = 0
              rw [if_pos hres, hlate]
            · show (s.put i _).carriers = 0
              omega
          · omega
      | false =>
          simp [hcoro] at hput
          unfold Single
          show _ ∧ _ ∧ (s.put i _).carriers = 1 ∧ _ ∨ _ ∧ (s.put i _).carriers = 0
          rw [hput]
          exact hs

/-- Copying a carrier makes a second resumption due. -/
theorem step_copies_carrier {s s' : State} {e : Event} (h : step s e = some s')
    (hidle : ¬ CopiesIdle s e) : Doubled s' := by
  simp only [CopiesIdle, not_forall] at hidle
  rcases hidle with ⟨i, c, rfl, hc, hcoro⟩
  rw [Bool.not_eq_false] at hcoro
  obtain ⟨c', hc', rfl⟩ := Option.map_eq_some_iff.mp h
  obtain rfl : c = c' := by
    rw [hc, Option.some.injEq] at hc'
    exact hc'
  have hpos := State.carriers_pos hc hcoro
  have hadd : (s.add ⟨c.coro, false⟩).carriers = s.carriers + 1 := by
    rw [State.carriers_add, hcoro]
    rfl
  unfold Doubled
  rw [hadd]
  show 2 ≤ s.resumptions.length + _
  omega

/-- Once a second resumption is due it stays due. -/
theorem step_doubled {s s' : State} {e : Event} (hs : Doubled s) (h : step s e = some s') :
    Doubled s' := Nat.le_trans hs (step_mass h)

/-- Over every sequence of copies, moves, destructions and at most one invocation that ends
with all objects destroyed: the coroutine is resumed exactly once, with the error code of the
invocation or with `operation_aborted`, if and only if no copy is made of an object that
still has the coroutine. -/
theorem resumed_once_iff {es : List Event} {s : State} (hrun : machine.run State.start es = some s)
    (hend : s.AllDestroyed) : s.ResumedOnce ↔ machine.Along CopiesIdle State.start es := by
  have hcarriers := carriers_of_allDestroyed hend
  have hcases : machine.Along CopiesIdle State.start es ∧ Single s ∨
      ¬ machine.Along CopiesIdle State.start es ∧ Doubled s :=
    Machine.run_good_or_bad (fun _ _ _ => step_single) (fun _ _ _ _ => step_copies_carrier)
      (fun _ _ _ => step_doubled) single_start hrun
  rcases hcases with ⟨halong, hsingle⟩ | ⟨hnot, hdoubled⟩
  · rcases hsingle with ⟨-, -, hone, -⟩ | ⟨honce, -⟩
    · omega
    · exact ⟨fun _ => halong, fun _ => honce⟩
  · constructor
    · rintro ⟨hres, -⟩
      rw [Doubled, hres, List.length_singleton] at hdoubled
      omega
    · intro halong
      exact absurd halong hnot

/-- A handler that is moved, invoked with success through the second object, and destroyed. -/
theorem resumed_once_iff_moved :
    ∃ s, machine.run State.start [.move 0, .destroy 0, .invoke 1 none, .destroy 1] = some s ∧
      (s.ResumedOnce ↔ machine.Along CopiesIdle State.start
        [.move 0, .destroy 0, .invoke 1 none, .destroy 1]) := by
  have hrun : ∃ s, machine.run State.start [.move 0, .destroy 0, .invoke 1 none, .destroy 1] =
      some s ∧ s.AllDestroyed := by
    refine ⟨_, rfl, ?_⟩
    intro c hc
    revert c
    decide
  rcases hrun with ⟨s, hrun, hend⟩
  exact ⟨s, hrun, resumed_once_iff hrun hend⟩

/-- A handler is copied before the timer runs out: the copy that is invoked resumes the
coroutine, and so does the destructor of the other. -/
theorem copied_resumes_twice :
    ¬ ∀ es s, machine.run State.start es = some s → s.AllDestroyed → s.ResumedOnce := by
  intro h
  have hrun : ∃ s, machine.run State.start [.copy 0, .invoke 1 none, .destroy 1, .destroy 0] =
      some s ∧ s.AllDestroyed ∧ s.resumptions = [none, some .operationAborted] := by
    refine ⟨_, rfl, ?_, rfl⟩
    intro c hc
    revert c
    decide
  rcases hrun with ⟨s, hrun, hend, hres⟩
  have honce := (h _ s hrun hend).1
  rw [hres] at honce
  simp at honce

end CppCoroutines.BetterAsyncWait
