import CppCoroutines.Machine
import CppCoroutines.WinRT.PoolAwaiter

/-!
# The promise of a WinRT coroutine

`promise_base`, which `pool_promise` derives from, is two objects in one: the promise of a
coroutine and the `IAsyncOperation` that its callers hold references to. The coroutine sets
its result and completes; the callers, on any thread, register the one `Completed` handler,
cancel, ask for the results, and release their references. What happens under `m_lock` is one
step; a handler is invoked after the lock has been released.
-/

namespace CppCoroutines.WinRTPromise

open PoolAwaiter (AsyncStatus)

/-- The type of the operation. -/
structure Kind (α : Type) where
  /-- `empty_value<TResult>()` -/
  empty : α
  /-- what `std::move` leaves of a result -/
  moved : α → α
  /-- `TProgress` is not `void` -/
  progress : Bool

/-- A scalar result and no progress. -/
def Kind.scalar {α : Type} (zero : α) : Kind α := ⟨zero, id, false⟩

/-- What `GetResults` leaves of the result: `get_return_value` moves it, `copy_return_value` does
not. -/
def Kind.leaves {α : Type} (kind : Kind α) (result : α) : α :=
  if kind.progress then result else kind.moved result

/-- A `std::exception_ptr`: to an `hresult_canceled`, or to another exception. -/
inductive Exn where
  | canceled
  | other (code : ℕ)
deriving DecidableEq, Repr

/-- The members of the promise. -/
structure Promise (α : Type) where
  status : AsyncStatus
  exception : Option Exn
  /-- `m_completed`, the handler by its number -/
  completed : Option ℕ
  completedAssigned : Bool
  result : α
  references : ℕ
deriving DecidableEq, Repr

/-- How far the coroutine is. -/
inductive Body where
  /-- its body has not ended -/
  | running
  /-- at `final_suspend`, before `set_completed` -/
  | ended
  /-- in `set_completed`, with the handler it has taken and the status -/
  | invoking (handler : Option ℕ) (status : AsyncStatus)
  /-- after `set_completed` -/
  | releasing
  /-- its own reference has been released -/
  | finished
deriving DecidableEq, Repr

/-- What the holder of a reference is doing with it. -/
inductive Holder where
  | idle
  /-- in `Completed`, about to invoke the handler itself -/
  | invoking (handler : ℕ) (status : AsyncStatus)
  /-- the reference has been released -/
  | gone
deriving DecidableEq, Repr

/-- An invocation of a handler. -/
structure Invocation where
  handler : ℕ
  status : AsyncStatus
  /-- by the coroutine, in `set_completed` -/
  byCoroutine : Bool
  /-- the body had ended -/
  bodyEnded : Bool
deriving DecidableEq, Repr

/-- What `GetResults` comes to. -/
inductive Got (α : Type) where
  | value (a : α)
  | thrown (e : Exn)
  /-- `hresult_illegal_method_call` -/
  | illegal
  /-- the behaviour is undefined: a null `exception_ptr` is rethrown -/
  | undefined
deriving DecidableEq, Repr

/-- The promise, the coroutine and the holders of references, with their history. -/
structure State (α : Type) where
  promise : Promise α
  body : Body
  holders : List Holder
  /-- history: what the body has come to -/
  ending : Option (Except Exn α)
  /-- history: a call of `Cancel` has found the operation started -/
  cancelled : Bool
  /-- history: the handler of the call of `Completed` that was not refused, and the status it
  found -/
  accepted : Option (Option ℕ × AsyncStatus)
  invocations : List Invocation
  results : List (Got α)
  /-- history: how many of the results were asked for while the operation was started -/
  early : ℕ
  /-- history: how often the frame has been destroyed -/
  destroyed : ℕ

inductive Event (α : Type) where
  /-- `return_value`, then `final_suspend` -/
  | returns (value : α)
  /-- `unhandled_exception`, then `final_suspend` -/
  | throws (e : Exn)
  | setCompleted
  | invokeCompleted
  /-- `subtract_reference` in `final_suspend` -/
  | finalRelease
  /-- `Completed(handler)`; the handler may be null -/
  | completed (i : ℕ) (handler : Option ℕ)
  | invoke (i : ℕ)
  | cancel (i : ℕ)
  | getResults (i : ℕ)
  | addRef (i : ℕ)
  | release (i : ℕ)
deriving DecidableEq, Repr

namespace State

variable {α : Type}

/-- The coroutine has been called: one reference is its own, one its caller's. -/
def new (kind : Kind α) : State α where
  promise := ⟨.started, none, none, false, kind.empty, 2⟩
  body := .running
  holders := [.idle]
  ending := none
  cancelled := false
  accepted := none
  invocations := []
  results := []
  early := 0
  destroyed := 0

/-- `return_value`. -/
def returns (s : State α) (value : α) : State α :=
  { s with
    promise := { s.promise with result := value }
    body := .ended
    ending := some (.ok value) }

/-- `unhandled_exception`. -/
def throws (s : State α) (e : Exn) : State α :=
  { s with
    promise := { s.promise with
      exception := some e
      status := match e with
        | .canceled => .canceled
        | .other _ => .error }
    body := .ended
    ending := some (.error e) }

/-- The first half of `set_completed`, under the lock. -/
def setCompleted (s : State α) : State α :=
  let status := if s.promise.status = .started then .completed else s.promise.status
  { s with
    promise := { s.promise with status := status, completed := none }
    body := .invoking s.promise.completed status }

/-- A handler is invoked. -/
def record (s : State α) (handler : ℕ) (status : AsyncStatus) (byCoroutine : Bool) : State α :=
  { s with invocations := s.invocations ++ [⟨handler, status, byCoroutine, s.ending.isSome⟩] }

/-- `subtract_reference`; the frame is destroyed with the last one. -/
def subtractReference (s : State α) : State α :=
  { s with
    promise := { s.promise with references := s.promise.references - 1 }
    destroyed := if s.promise.references - 1 = 0 then s.destroyed + 1 else s.destroyed }

/-- `Completed(handler)`, called with reference `i`. -/
def completed (s : State α) (i : ℕ) (handler : Option ℕ) : State α :=
  -- `hresult_illegal_delegate_assignment`
  if s.promise.completedAssigned = true then s
  else if s.promise.status = .started then
    { s with
      promise := { s.promise with completedAssigned := true, completed := handler }
      accepted := some (handler, .started) }
  else
    { s with
      promise := { s.promise with completedAssigned := true }
      accepted := some (handler, s.promise.status)
      holders := match handler with
        | some h => s.holders.set i (.invoking h s.promise.status)
        | none => s.holders }

/-- `Cancel`. -/
def cancel (s : State α) : State α :=
  if s.promise.status = .started then
    { s with
      promise := { s.promise with status := .canceled, exception := some .canceled }
      cancelled := true }
  else s

/-- What `GetResults` comes to. -/
def answer (kind : Kind α) (s : State α) : Got α :=
  match s.promise.status, s.promise.exception with
  | .completed, _ => .value s.promise.result
  | .started, _ => if kind.progress then .value s.promise.result else .illegal
  | _, some e => .thrown e
  | _, none => .undefined

/-- `GetResults`. -/
def getResults (kind : Kind α) (s : State α) : State α :=
  { s with
    promise := { s.promise with
      result :=
        if s.promise.status = .completed then kind.leaves s.promise.result else s.promise.result }
    results := s.results ++ [s.answer kind]
    early := if s.promise.status = .started then s.early + 1 else s.early }

/-- Reference `i` is held and not in use. -/
def Idle (s : State α) (i : ℕ) : Prop := s.holders[i]? = some .idle

instance (s : State α) (i : ℕ) : Decidable (s.Idle i) := inferInstanceAs (Decidable (_ = _))

end State

variable {α : Type}

/-- One step of the coroutine or of a holder. -/
def step (kind : Kind α) (s : State α) : Event α → Option (State α)
  | .returns value => if s.body = .running then some (s.returns value) else none
  | .throws e => if s.body = .running then some (s.throws e) else none
  | .setCompleted => if s.body = .ended then some s.setCompleted else none
  | .invokeCompleted =>
      match s.body with
      | .invoking (some h) status => some { s.record h status true with body := .releasing }
      | .invoking none _ => some { s with body := .releasing }
      | _ => none
  | .finalRelease =>
      if s.body = .releasing then some { s.subtractReference with body := .finished } else none
  | .completed i handler => if s.Idle i then some (s.completed i handler) else none
  | .invoke i =>
      match s.holders[i]? with
      | some (.invoking h status) =>
          some { s.record h status false with holders := s.holders.set i .idle }
      | _ => none
  | .cancel i => if s.Idle i then some s.cancel else none
  | .getResults i => if s.Idle i then some (s.getResults kind) else none
  | .addRef i =>
      if s.Idle i then
        some { s with
          promise := { s.promise with references := s.promise.references + 1 }
          holders := s.holders ++ [.idle] }
      else none
  | .release i =>
      if s.Idle i then
        some { s.subtractReference with holders := s.holders.set i .gone }
      else none

/-- A coroutine with this promise, from its call on. -/
def machine (kind : Kind α) : Machine (State α) (Event α) where
  init s := s = State.new kind
  step := step kind

/-! ## The status -/

/-- `set_completed` has taken the handler. -/
def Body.settled : Body → Bool
  | .running => false
  | .ended => false
  | _ => true

/-- The status, by who has been there: `Cancel`, the body, `set_completed`. -/
def statusOf (cancelled : Bool) (ending : Option (Except Exn α)) (settled : Bool) : AsyncStatus :=
  match ending with
  | some (.error .canceled) => .canceled
  | some (.error (.other _)) => .error
  | some (.ok _) => if cancelled then .canceled else if settled then .completed else .started
  | none => if cancelled then .canceled else .started

/-- The exception: that of the body, or that of `Cancel`. -/
def exceptionOf (cancelled : Bool) : Option (Except Exn α) → Option Exn
  | some (.error e) => some e
  | _ => if cancelled then some .canceled else none

/-- What the status says of `Cancel`, of the body and of `set_completed`. -/
structure Justified (cancelled : Bool) (ending : Option (Except Exn α)) (settled : Bool)
    (status : AsyncStatus) : Prop where
  started : status ≠ .started
  completed : status = .completed → settled = true ∧ ∃ v, ending = some (.ok v)
  error : status = .error → ∃ code, ending = some (.error (.other code))
  canceled : status = .canceled → cancelled = true ∨ ending = some (.error .canceled)

structure StatusInv (s : State α) : Prop where
  ending : s.ending = none ↔ s.body = .running
  status : s.promise.status = statusOf s.cancelled s.ending s.body.settled
  exception : s.promise.exception = exceptionOf s.cancelled s.ending

section Status

variable {kind : Kind α} {s s' : State α} {e : Event α}

theorem statusInv_new (kind : Kind α) : StatusInv (State.new kind) where
  ending := ⟨fun _ => rfl, fun _ => rfl⟩
  status := rfl
  exception := rfl

/-- Neither the status nor the body changes. -/
theorem StatusInv.congr (h : StatusInv s) (hending : s'.ending = s.ending)
    (hcancelled : s'.cancelled = s.cancelled) (hstatus : s'.promise.status = s.promise.status)
    (hexception : s'.promise.exception = s.promise.exception)
    (hrunning : s'.body = .running ↔ s.body = .running)
    (hsettled : s'.body.settled = s.body.settled) : StatusInv s' where
  ending := by rw [hending, hrunning]; exact h.ending
  status := by rw [hstatus, hcancelled, hending, hsettled]; exact h.status
  exception := by rw [hexception, hcancelled, hending]; exact h.exception

/-- While the body runs the operation is started or cancelled. -/
theorem StatusInv.running (h : StatusInv s) (hbody : s.body = .running) :
    s.promise.status = if s.cancelled then .canceled else .started := by
  rw [h.status, h.ending.mpr hbody]
  rfl

/-- The call of `Completed` changes neither. -/
theorem completed_frame (s : State α) (i : ℕ) (handler : Option ℕ) :
    (s.completed i handler).ending = s.ending ∧ (s.completed i handler).cancelled = s.cancelled ∧
      (s.completed i handler).promise.status = s.promise.status ∧
      (s.completed i handler).promise.exception = s.promise.exception ∧
      (s.completed i handler).body = s.body := by
  unfold State.completed
  split
  · exact ⟨rfl, rfl, rfl, rfl, rfl⟩
  · split <;> exact ⟨rfl, rfl, rfl, rfl, rfl⟩

/-- `Cancel` finds the operation started before its body or `set_completed` has come to it. -/
theorem StatusInv.cancel (h : StatusInv s) : StatusInv s.cancel := by
  unfold State.cancel
  split
  · rename_i hstarted
    have hstatus := h.status
    rw [hstarted] at hstatus
    refine ⟨h.ending, ?_, ?_⟩
    · show AsyncStatus.canceled = statusOf true s.ending s.body.settled
      rcases hending : s.ending with - | e | v
      · rfl
      · rw [hending] at hstatus
        cases e with
        | canceled => cases hstatus
        | other code => cases hstatus
      · rfl
    · show some Exn.canceled = exceptionOf true s.ending
      rcases hending : s.ending with - | e | v
      · rfl
      · rw [hending] at hstatus
        cases e with
        | canceled => cases hstatus
        | other code => cases hstatus
      · rfl
  · exact h

/-- `set_completed` leaves a status that only a body which has ended can have. -/
theorem StatusInv.setCompleted (h : StatusInv s) (hbody : s.body = .ended) :
    StatusInv s.setCompleted := by
  have hrunning : s.body ≠ .running := by rw [hbody]; nofun
  have hstatus := h.status
  rw [hbody] at hstatus
  refine ⟨?_, ?_, h.exception⟩
  · exact iff_of_false (fun hnone => hrunning (h.ending.mp hnone)) nofun
  · show (if s.promise.status = .started then AsyncStatus.completed else s.promise.status) =
      statusOf s.cancelled s.ending true
    rw [hstatus]
    rcases hending : s.ending with - | e | v
    · exact absurd (h.ending.mp hending) hrunning
    · cases e with
      | canceled => rfl
      | other code => rfl
    · cases s.cancelled with
      | true => rfl
      | false => rfl

theorem step_statusInv (h : StatusInv s) (hstep : step kind s e = some s') : StatusInv s' := by
  cases e with
  | returns value =>
      rcases Option.ite_none_right_eq_some.mp hstep with ⟨hbody, heq⟩
      rw [← Option.some.inj heq]
      have hstatus := h.running hbody
      refine ⟨⟨nofun, nofun⟩, ?_, ?_⟩
      · show s.promise.status = statusOf s.cancelled (some (.ok value)) false
        rw [hstatus]
        rfl
      · show s.promise.exception = exceptionOf s.cancelled (some (.ok value))
        rw [h.exception, h.ending.mpr hbody]
        rfl
  | throws ex =>
      rcases Option.ite_none_right_eq_some.mp hstep with ⟨hbody, heq⟩
      rw [← Option.some.inj heq]
      refine ⟨⟨nofun, nofun⟩, ?_, rfl⟩
      cases ex with
      | canceled => rfl
      | other code => rfl
  | setCompleted =>
      rcases Option.ite_none_right_eq_some.mp hstep with ⟨hbody, heq⟩
      rw [← Option.some.inj heq]
      exact h.setCompleted hbody
  | invokeCompleted =>
      cases hbody : s.body with
      | invoking handler status =>
          have hcongr : ∀ s' : State α, s'.ending = s.ending → s'.cancelled = s.cancelled →
              s'.promise = s.promise → s'.body = .releasing → StatusInv s' := by
            intro s' hending hcancelled hpromise hbody'
            refine h.congr hending hcancelled (by rw [hpromise]) (by rw [hpromise]) ?_ ?_
            · rw [hbody, hbody']
              exact iff_of_false nofun nofun
            · rw [hbody, hbody']
              rfl
          cases handler with
          | none =>
              simp only [step, hbody] at hstep
              rw [← Option.some.inj hstep]
              exact hcongr _ rfl rfl rfl rfl
          | some handler =>
              simp only [step, hbody] at hstep
              rw [← Option.some.inj hstep]
              exact hcongr _ rfl rfl rfl rfl
      | _ =>
          simp only [step, hbody] at hstep
          cases hstep
  | finalRelease =>
      rcases Option.ite_none_right_eq_some.mp hstep with ⟨hbody, heq⟩
      rw [← Option.some.inj heq]
      refine h.congr rfl rfl rfl rfl ?_ ?_
      · rw [hbody]
        exact iff_of_false nofun nofun
      · rw [hbody]
        rfl
  | completed i handler =>
      rcases Option.ite_none_right_eq_some.mp hstep with ⟨-, heq⟩
      rw [← Option.some.inj heq]
      rcases completed_frame s i handler with ⟨hending, hcancelled, hstatus, hexception, hbody⟩
      exact h.congr hending hcancelled hstatus hexception (by rw [hbody]) (by rw [hbody])
  | invoke i =>
      simp only [step] at hstep
      split at hstep
      · rw [← Option.some.inj hstep]
        exact h.congr rfl rfl rfl rfl Iff.rfl rfl
      · cases hstep
  | cancel i =>
      rcases Option.ite_none_right_eq_some.mp hstep with ⟨-, heq⟩
      rw [← Option.some.inj heq]
      exact h.cancel
  | getResults i =>
      rcases Option.ite_none_right_eq_some.mp hstep with ⟨-, heq⟩
      rw [← Option.some.inj heq]
      exact h.congr rfl rfl rfl rfl Iff.rfl rfl
  | addRef i =>
      rcases Option.ite_none_right_eq_some.mp hstep with ⟨-, heq⟩
      rw [← Option.some.inj heq]
      exact h.congr rfl rfl rfl rfl Iff.rfl rfl
  | release i =>
      rcases Option.ite_none_right_eq_some.mp hstep with ⟨-, heq⟩
      rw [← Option.some.inj heq]
      exact h.congr rfl rfl rfl rfl Iff.rfl rfl

end Status

end CppCoroutines.WinRTPromise
