import CppCoroutines.Machine

/-!
# Stackless coroutines

A coroutine that suspends in awaiters is a frame: its local variables and the
point where it stands. It moves only when the operation it waits for completes;
then it runs up to its next suspension or to its end. A program says what a
completed operation leaves in the frame and what the code between two suspensions
does; the rules below turn facts about single resumptions into facts about runs.
-/

universe u v w x

namespace Coroutine

/-- Where a coroutine stands. -/
inductive Point (Op : Type u) (Out : Type v) where
  | awaiting (op : Op)
  | finished (out : Out)
deriving DecidableEq, Repr

/-- The frame of a coroutine. -/
structure Frame (σ : Type u) (Op : Type v) (Out : Type w) where
  locals : σ
  point : Point Op Out

/-- The code of a coroutine. -/
structure Program (σ : Type u) (Op : Type v) (Reply : Type x) (Out : Type w) where
  /-- What the completion leaves in the frame, if the operation can complete that way. -/
  complete : σ → Op → Reply → Option σ
  /-- From the resumption to the next suspension. -/
  resume : σ → Op → Reply → Frame σ Op Out

variable {σ : Type u} {Op : Type v} {Reply : Type x} {Out : Type w}

namespace Program

/-- The operation a coroutine waits for completes; a finished one has none. -/
def step (P : Program σ Op Reply Out) (f : Frame σ Op Out) (reply : Reply) :
    Option (Frame σ Op Out) :=
  match f.point with
  | .awaiting op => (P.complete f.locals op reply).map fun l => P.resume l op reply
  | .finished _ => none

/-- The coroutine from one of its starting frames on. -/
def machine (P : Program σ Op Reply Out) (start : Frame σ Op Out → Prop) :
    Machine (Frame σ Op Out) Reply where
  init := start
  step := P.step

variable {P : Program σ Op Reply Out} {start : Frame σ Op Out → Prop}

/-- Every step resumes the coroutine after the operation it waited for. -/
theorem step_eq_some {f f' : Frame σ Op Out} {reply : Reply} :
    P.step f reply = some f' ↔
      ∃ op l, f.point = .awaiting op ∧ P.complete f.locals op reply = some l ∧
        P.resume l op reply = f' := by
  unfold step
  cases hpoint : f.point with
  | awaiting op => simp
  | finished out => simp

/-- One completion that is possible, then the rest of the run. -/
theorem run_awaiting {l l' : σ} {op : Op} {reply : Reply} {replies : List Reply}
    (h : P.complete l op reply = some l') :
    (P.machine start).run ⟨l, .awaiting op⟩ (reply :: replies) =
      (P.machine start).run (P.resume l' op reply) replies := by
  have hstep : (P.machine start).step ⟨l, .awaiting op⟩ reply = some (P.resume l' op reply) := by
    show (P.complete l op reply).map _ = _
    rw [h]
    rfl
  rw [Machine.run_cons, hstep, Option.bind_some]

/-- A completion leads on from a reachable frame. -/
theorem reachable_resume {l l' : σ} {op : Op} {reply : Reply}
    (hl : (P.machine start).Reachable ⟨l, .awaiting op⟩) (h : P.complete l op reply = some l') :
    (P.machine start).Reachable (P.resume l' op reply) := by
  have hstep : P.step ⟨l, .awaiting op⟩ reply = some (P.resume l' op reply) :=
    step_eq_some.mpr ⟨op, l', rfl, h, rfl⟩
  exact hl.step reply hstep

/-- Resumption induction: a property that holds of the starting frames and is carried
from one suspension to the next holds of every reachable frame. -/
theorem inductive_of_resume {inv : Frame σ Op Out → Prop} (hstart : ∀ f, start f → inv f)
    (hresume : ∀ l op reply l', inv ⟨l, .awaiting op⟩ → P.complete l op reply = some l' →
      inv (P.resume l' op reply)) :
    (P.machine start).Inductive inv := by
  constructor
  · exact hstart
  · intro f reply f' hf hstep
    rcases step_eq_some.mp hstep with ⟨op, l, hpoint, hcomplete, rfl⟩
    rcases f with ⟨locals, point⟩
    cases hpoint
    exact hresume locals op reply l hf hcomplete

end Program

end Coroutine
