import CppCoroutines.Coroutine
import CppCoroutines.Executor.Ledger

/-!
# Each coroutine for itself

What the others do is nothing to a coroutine of the loop. What its code carries from one
suspension to the next, for every result that its operations can have, holds of it in every
run, whatever the coroutines are that it is executed with.
-/

universe u v w x y

namespace Executor

variable {σ : Type u} {Op : Type v} {Reply : Type w} {Env : Type x} {Out : Type y}

/-- A piece of code leads to a frame with the property, or calls a coroutine from a point that
the call may return to. -/
def Turn.Leads (fresh calling : σ → Prop) (F : Coroutine.Frame σ Op Out → Prop) :
    Turn σ Op Out → Prop
  | .await l op => F ⟨l, .awaiting op⟩
  | .call l child => calling l ∧ fresh child
  | .finish l out => F ⟨l, .finished out⟩

/-- The code carries a property of the frames. -/
structure Code.Carries (code : Code σ Op Reply Env Out) (fresh calling : σ → Prop)
    (F : Coroutine.Frame σ Op Out → Prop) : Prop where
  start : ∀ l env, fresh l → (code.start l env).Leads fresh calling F
  resume : ∀ l op reply l' env, F ⟨l, .awaiting op⟩ → code.complete l op reply = some l' →
    (code.resume l' op reply env).Leads fresh calling F
  proceed : ∀ l env, calling l → (code.proceed l env).Leads fresh calling F

/-- A coroutine wherever it is. The frame is not destroyed before the body has ended. -/
def Task.At (code : Code σ Op Reply Env Out) (fresh calling : σ → Prop)
    (F : Coroutine.Frame σ Op Out → Prop) (t : Task σ Op Reply Out) : Prop :=
  match t.status with
  | .starting => fresh t.locals
  | .running | .calling _ => calling t.locals
  | .suspended _ op => F ⟨t.locals, .awaiting op⟩
  | .resumed _ op reply => ∃ l, F ⟨l, .awaiting op⟩ ∧ code.complete l op reply = some t.locals
  | .finished out => F ⟨t.locals, .finished out⟩
  | .destroyed => False

section Alone

variable {code : Code σ Op Reply Env Out} {fresh calling : σ → Prop}
  {F : Coroutine.Frame σ Op Out → Prop} {s s' : State σ Op Reply Out} {roots : List σ}

theorem Task.At.suspended {t : Task σ Op Reply Out} (h : t.At code fresh calling F) {number : ℕ}
    {op : Op} (hstatus : t.status = .suspended number op) : F ⟨t.locals, .awaiting op⟩ := by
  unfold Task.At at h
  rw [hstatus] at h
  exact h

/-- What holds of the local variables at each point of the code holds of them anywhere. -/
theorem Task.At.locals {D : σ → Prop} {t : Task σ Op Reply Out} (h : t.At code fresh calling F)
    (hfresh : ∀ l, fresh l → D l) (hcalling : ∀ l, calling l → D l)
    (hframe : ∀ f, F f → D f.locals)
    (hcomplete : ∀ l op reply l', F ⟨l, .awaiting op⟩ → code.complete l op reply = some l' → D l') :
    D t.locals := by
  unfold Task.At at h
  split at h
  · exact hfresh _ h
  · exact hcalling _ h
  · exact hcalling _ h
  · exact hframe _ h
  · rcases h with ⟨l, hl, hl'⟩
    exact hcomplete _ _ _ _ hl hl'
  · exact hframe _ h
  · exact h.elim

/-- The next piece of code of a coroutine. -/
theorem Code.Carries.leads (h : code.Carries fresh calling F) {t : Task σ Op Reply Out}
    (ht : t.At code fresh calling F) {env : Env} {turn : Turn σ Op Out}
    (hturn : t.turn code env = some turn) : turn.Leads fresh calling F := by
  unfold Task.At at ht
  rcases t.turn_cases hturn with ⟨hstatus, rfl⟩ | ⟨hstatus, rfl⟩ | ⟨number, op, reply, hstatus, rfl⟩
  · rw [hstatus] at ht
    exact h.start _ _ ht
  · rw [hstatus] at ht
    exact h.proceed _ _ ht
  · rw [hstatus] at ht
    rcases ht with ⟨l, hl, hcomplete⟩
    exact h.resume _ _ _ _ _ hl hcomplete

/-- One coroutine is replaced. -/
theorem at_set {tasks : List (Task σ Op Reply Out)} {i : ℕ} {t' : Task σ Op Reply Out}
    (h : ∀ t ∈ tasks, t.At code fresh calling F) (ht' : t'.At code fresh calling F) :
    ∀ t ∈ tasks.set i t', t.At code fresh calling F := by
  intro t ht
  rcases List.mem_or_eq_of_mem_set ht with hmem | rfl
  · exact h t hmem
  · exact ht'

/-- A call returns to a coroutine that has called. -/
theorem at_ret {c : Option ℕ} (hcaller : ∀ p, c = some p → ∃ j, s.status p = some (.calling j))
    (h : ∀ t ∈ s.tasks, t.At code fresh calling F) :
    ∀ t ∈ (s.ret c).tasks, t.At code fresh calling F := by
  cases c with
  | none => exact h
  | some p =>
      rcases hcaller p rfl with ⟨j, hj⟩
      rcases State.status_eq_some.mp hj with ⟨t, ht, hstatus⟩
      have htasks : (s.ret (some p)).tasks = s.tasks.set p { t with status := .running } := by
        show s.tasks.modify p _ = _
        rw [List.modify_eq_set_getElem?, ht]
        rfl
      rw [htasks]
      apply at_set h
      have hat := h t (List.mem_of_getElem? ht)
      unfold Task.At at hat
      rw [hstatus] at hat
      exact hat

theorem at_invoke [DecidableEq Op] (h : ∀ t ∈ s.tasks, t.At code fresh calling F)
    {hd : Handler Op} {reply : Reply} (hstep : s.invoke code hd reply = some s') :
    ∀ t ∈ s'.tasks, t.At code fresh calling F := by
  unfold State.invoke at hstep
  split at hstep
  · rename_i locals number op caller ht
    split at hstep
    · rcases Option.map_eq_some_iff.mp hstep with ⟨l, hl, rfl⟩
      exact at_set h ⟨locals, h _ (List.mem_of_getElem? ht), hl⟩
    · rw [← Option.some.inj hstep]
      exact h
  · rw [← Option.some.inj hstep]
    exact h

theorem at_advance [DecidableEq Op] (hcarries : code.Carries fresh calling F) (hinv : Inv s)
    (h : ∀ t ∈ s.tasks, t.At code fresh calling F) {i : ℕ} {env : Env}
    (hstep : step code s (.advance i env) = some s') :
    ∀ t ∈ s'.tasks, t.At code fresh calling F := by
  rcases Option.bind_eq_some_iff.mp hstep with ⟨t, ht, hmap⟩
  rcases Option.map_eq_some_iff.mp hmap with ⟨turn, hturn, rfl⟩
  have hleads := hcarries.leads (h t (List.mem_of_getElem? ht)) hturn
  -- the caller has called this one, so that it is another coroutine
  have hcaller : ∀ p, t.caller = some p → p ≠ i ∧ s.status p = some (.calling i) := by
    intro p hp
    have hcalling : s.status p = some (.calling i) := by
      apply hinv.stacked.caller
      unfold State.caller
      rw [ht]
      exact hp
    refine ⟨?_, hcalling⟩
    rintro rfl
    exact absurd (hinv.stacked.calling p p hcalling).2.1 (lt_irrefl p)
  have hset : ∀ (t' : Task σ Op Reply Out) (s₁ : State σ Op Reply Out),
      s₁.tasks = s.tasks.set i t' → t'.At code fresh calling F →
        ∀ u ∈ (s₁.ret t.caller).tasks, u.At code fresh calling F := by
    intro t' s₁ htasks ht'
    apply at_ret
    · intro p hp
      rcases hcaller p hp with ⟨hne, hcalling⟩
      refine ⟨i, ?_⟩
      unfold State.status
      rw [htasks, List.getElem?_set_ne hne.symm]
      exact hcalling
    · rw [htasks]
      exact at_set h ht'
  cases turn with
  | await l op =>
      exact hset ⟨l, .suspended (s.goOn i t).started.length op, none⟩
        ((s.goOn i t).suspend i l op) (List.set_set ..) hleads
  | finish l out =>
      exact hset ⟨l, .finished out, none⟩ ((s.goOn i t).finish i l out) (List.set_set ..) hleads
  | call l child =>
      intro t' ht'
      have hmem : t' ∈ s.tasks.set i ⟨l, .calling (s.goOn i t).tasks.length, t.caller⟩ ++
          [⟨child, .starting, some i⟩] := by
        rw [← List.set_set]
        exact ht'
      have hcalling : Task.At code fresh calling F
          ⟨l, .calling (s.goOn i t).tasks.length, t.caller⟩ := hleads.1
      rcases List.mem_append.mp hmem with hmem | hmem
      · exact at_set h hcalling t' hmem
      · rw [List.mem_singleton.mp hmem]
        exact hleads.2

/-- Resumption induction on the loop: what the code carries holds of every coroutine. -/
theorem at_reachable [DecidableEq Op] (hcarries : code.Carries fresh calling F)
    (hroots : ∀ l ∈ roots, fresh l) (hs : (machine code roots).Reachable s) :
    ∀ t ∈ s.tasks, t.At code fresh calling F := by
  induction hs with
  | init hinit =>
      obtain rfl : _ = State.new roots := hinit
      intro t ht
      rcases List.mem_map.mp ht with ⟨l, hl, rfl⟩
      exact hroots l hl
  | step e hs hstep ih =>
      cases e with
      | invoke hd reply => exact at_invoke ih (Option.ite_none_right_eq_some.mp hstep).2
      | advance i env => exact at_advance hcarries (inv_reachable hs) ih hstep

end Alone

end Executor
