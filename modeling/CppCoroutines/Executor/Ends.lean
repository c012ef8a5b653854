import CppCoroutines.Executor.Ledger
import Mathlib.Algebra.Order.BigOperators.Group.List
import Mathlib.Algebra.Order.Ring.Nat

/-!
# The ends of the handlers

Between two completions the coroutines execute the code that the last ones have set off. A
rank over the coroutines bounds it, if a coroutine calls others only when it has been resumed:
without a further completion all of them come to rest.
-/

universe u v w x y

namespace Executor

variable {σ : Type u} {Op : Type v} {Reply : Type w} {Env : Type x} {Out : Type y}

/-- Only a coroutine that has just been resumed calls another one. -/
structure Code.Flat (code : Code σ Op Reply Env Out) : Prop where
  start : ∀ l env locals child, code.start l env ≠ .call locals child
  proceed : ∀ l env locals child, code.proceed l env ≠ .call locals child

/-- What the code being executed may still do before it suspends or ends. -/
def Status.left : Status Op Reply Out → ℕ
  | .starting | .running | .calling _ => 1
  | .resumed _ _ _ => 3
  | .suspended _ _ | .finished _ | .destroyed => 0

def State.left (s : State σ Op Reply Out) : ℕ := (s.tasks.map fun t => t.status.left).sum

theorem sum_map_set {α : Type u} (f : α → ℕ) {l : List α} {i : ℕ} {a : α} (h : l[i]? = some a)
    (b : α) : ((l.set i b).map f).sum + f a = (l.map f).sum + f b := by
  induction l generalizing i with
  | nil => cases h
  | cons x l ih =>
      cases i with
      | zero =>
          obtain rfl : x = a := Option.some.inj h
          simp only [List.set_cons_zero, List.map_cons, List.sum_cons]
          omega
      | succ i =>
          have hrest := ih (i := i) h
          simp only [List.set_cons_succ, List.map_cons, List.sum_cons]
          omega

section Ends

variable {s s' : State σ Op Reply Out}

theorem State.left_set {i : ℕ} {t : Task σ Op Reply Out} {locals : σ}
    {st : Status Op Reply Out} {c : Option ℕ} (h : s.tasks[i]? = some t)
    (hs' : s'.tasks = s.tasks.set i ⟨locals, st, c⟩) :
    s'.left + t.status.left = s.left + st.left := by
  unfold State.left
  rw [hs']
  exact sum_map_set (fun t => t.status.left) h ⟨locals, st, c⟩

/-- A call that returns leaves as much to do. -/
theorem State.left_ret {c : Option ℕ}
    (h : ∀ p, c = some p → ∃ j, s.status p = some (.calling j)) : (s.ret c).left = s.left := by
  cases c with
  | none => rfl
  | some p =>
      obtain ⟨j, hcalling⟩ := h p rfl
      obtain ⟨t, ht, hstatus⟩ := State.status_eq_some.mp hcalling
      have htasks : (s.ret (some p)).tasks = s.tasks.set p { t with status := .running } := by
        show s.tasks.modify p _ = _
        rw [List.modify_eq_set_getElem?, ht]
        rfl
      have hleft := State.left_set ht htasks
      rw [hstatus] at hleft
      exact Nat.add_right_cancel hleft

/-- Every piece of code leaves less to do. -/
theorem Inv.advance_left [DecidableEq Op] {code : Code σ Op Reply Env Out} (h : Inv s)
    (hflat : code.Flat) {i : ℕ} {env : Env} (hstep : step code s (.advance i env) = some s') :
    s'.left < s.left := by
  obtain ⟨t, ht, hnext⟩ := Option.bind_eq_some_iff.mp hstep
  obtain ⟨turn, hturn, rfl⟩ := Option.map_eq_some_iff.mp hnext
  have htasks : (s.goOn i t).tasks = s.tasks.set i { t with status := .running } := rfl
  -- first `await_resume`, after which the coroutine counts as one that is running
  have hgoOn : (s.goOn i t).left + t.status.left = s.left + 1 := State.left_set ht htasks
  have ht' : (s.goOn i t).tasks[i]? = some { t with status := .running } := by
    rw [htasks, List.getElem?_set_self (List.getElem?_eq_some_iff.mp ht).1]
  have hinv := h.goOn ht hturn
  have hpos : 1 ≤ t.status.left := by
    rcases Task.turn_cases hturn with ⟨hst, -⟩ | ⟨hst, -⟩ | ⟨number, op, reply, hst, -⟩
    all_goals simp [hst, Status.left]
  -- the caller, if there is one, waits for this coroutine
  have hcaller : ∀ {locals : σ} {st : Status Op Reply Out} {s₁ : State σ Op Reply Out},
      s₁.tasks = (s.goOn i t).tasks.set i ⟨locals, st, none⟩ →
        ∀ p, t.caller = some p → ∃ j, s₁.status p = some (.calling j) := by
    intro locals st s₁ hs₁ p hp
    have hcaller : (s.goOn i t).caller i = some p := by
      rw [State.caller, ht']
      exact hp
    have hcalling := hinv.stacked.caller i p hcaller
    have hpi : p ≠ i := by
      rintro rfl
      rw [State.status, ht'] at hcalling
      cases hcalling
    exact ⟨i, by rw [State.status_set ht' hs₁, if_neg hpi, hcalling]⟩
  -- then what its code comes to
  cases turn with
  | await locals op =>
      have htasks' : ((s.goOn i t).suspend i locals op).tasks =
          (s.goOn i t).tasks.set i ⟨locals, .suspended (s.goOn i t).started.length op, none⟩ := rfl
      have hset : ((s.goOn i t).suspend i locals op).left + 1 = (s.goOn i t).left + 0 :=
        State.left_set ht' htasks'
      show (((s.goOn i t).suspend i locals op).ret t.caller).left < _
      rw [State.left_ret (hcaller htasks')]
      omega
  | finish locals out =>
      have htasks' : ((s.goOn i t).finish i locals out).tasks =
          (s.goOn i t).tasks.set i ⟨locals, .finished out, none⟩ := rfl
      have hset : ((s.goOn i t).finish i locals out).left + 1 = (s.goOn i t).left + 0 :=
        State.left_set ht' htasks'
      show (((s.goOn i t).finish i locals out).ret t.caller).left < _
      rw [State.left_ret (hcaller htasks')]
      omega
  | call locals child =>
      have hresumed : t.status.left = 3 := by
        rcases Task.turn_cases hturn with ⟨-, hcall⟩ | ⟨-, hcall⟩ | ⟨number, op, reply, hst, -⟩
        · exact absurd hcall (hflat.start _ _ _ _)
        · exact absurd hcall (hflat.proceed _ _ _ _)
        · rw [hst]
          rfl
      -- the frame of the caller first, then the new one
      have hset := sum_map_set (fun t => t.status.left) ht'
        ⟨locals, .calling (s.goOn i t).tasks.length, t.caller⟩
      have hchild : ((s.goOn i t).call i t.caller locals child).left = (s.goOn i t).left + 1 := by
        show (List.map _ (_ ++ [_])).sum = _
        rw [List.map_append, List.sum_append]
        exact congrArg (· + 1) (Nat.add_right_cancel hset)
      show ((s.goOn i t).call i t.caller locals child).left < _
      omega

/-- Without a further completion the coroutines come to rest. -/
theorem Inv.length_le [DecidableEq Op] {code : Code σ Op Reply Env Out} (h : Inv s)
    (hflat : code.Flat) {es : List (Event Op Reply Env)}
    (hadvance : ∀ e ∈ es, ∃ i env, e = .advance i env) {roots : List σ}
    (hrun : (machine code roots).run s es = some s') : es.length ≤ s.left := by
  induction es generalizing s with
  | nil => exact Nat.zero_le _
  | cons e es ih =>
      obtain ⟨s₁, hstep, hrest⟩ := Machine.run_cons_eq_some.mp hrun
      obtain ⟨i, env, rfl⟩ := hadvance e List.mem_cons_self
      have hstep : step code s (.advance i env) = some s₁ := hstep
      have hlt := h.advance_left hflat hstep
      have hle := ih (step_inv h hstep) (fun e he => hadvance e (List.mem_cons_of_mem _ he)) hrest
      rw [List.length_cons]
      omega

/-- There is little left to do in each coroutine. -/
theorem State.left_le (s : State σ Op Reply Out) : s.left ≤ 3 * s.tasks.length := by
  unfold State.left
  induction s.tasks with
  | nil => exact Nat.le_refl 0
  | cons t tasks ih =>
      have hle : t.status.left ≤ 3 := by
        cases t.status with
        | _ => simp [Status.left]
      rw [List.map_cons, List.sum_cons, List.length_cons]
      omega

end Ends

end Executor
