import CppCoroutines.Executor
import Mathlib.Data.List.Nodup
import Mathlib.Data.List.Range

/-!
# The handlers of an event loop

Whatever the code of the coroutines, the handlers that wait are those of the suspended
coroutines, one for each; every other coroutine has ended or is being executed. So no handler
finds its awaiter gone or its coroutine running.
-/

universe u v w x y

namespace Executor

variable {σ : Type u} {Op : Type v} {Reply : Type w} {Env : Type x} {Out : Type y}

/-! ## The handlers and the history -/

/-- A coroutine has a handler for the awaiter that it is suspended in, and no other; what the
invocations have stored for it is what it has found or is about to find; and its promise is
set if it has ended. -/
structure Sees (s : State σ Op Reply Out) (i : ℕ) : Prop where
  pending : ∀ number op,
    ⟨number, i, op⟩ ∈ s.pending ↔ s.visible i = some (.suspended number op)
  invoked : ∀ number reply, ⟨number, i, reply⟩ ∈ s.invoked ↔
    ⟨number, i, reply⟩ ∈ s.yielded ∨ ∃ op, s.visible i = some (.resumed number op reply)
  fresh : ∀ number op reply, s.visible i = some (.resumed number op reply) →
    ⟨number, i, reply⟩ ∉ s.yielded
  promises : s.promises.filter (fun p => p.1 = i) =
    match s.visible i with
    | some (.finished out) => [(i, out)]
    | _ => []
  kept : s.visible i ≠ some .destroyed

/-- Every coroutine is seen as it is, and every operation started is outstanding or has
completed, once. -/
structure Ledger (s : State σ Op Reply Out) : Prop where
  sees : ∀ i, Sees s i
  pendingStarted : ∀ h ∈ s.pending, s.started[h.number]? = some h
  invokedStarted : ∀ d ∈ s.invoked, ∃ op, s.started[d.number]? = some ⟨d.number, d.coro, op⟩
  numbers : (s.pending.map Handler.number ++ s.invoked.map Delivery.number).Perm
    (List.range s.started.length)
  yielded : (s.yielded.map Delivery.number).Nodup
  faults : s.faults = []

section Ledger

variable {s s' : State σ Op Reply Out}

/-- What happens to the other coroutines does not matter. -/
theorem Sees.frame {i : ℕ} (h : Sees s i) (hvisible : s'.visible i = s.visible i)
    (hpending : ∀ number op, ⟨number, i, op⟩ ∈ s'.pending ↔ ⟨number, i, op⟩ ∈ s.pending)
    (hinvoked : ∀ number reply,
      ⟨number, i, reply⟩ ∈ s'.invoked ↔ ⟨number, i, reply⟩ ∈ s.invoked)
    (hyielded : ∀ number reply,
      ⟨number, i, reply⟩ ∈ s'.yielded ↔ ⟨number, i, reply⟩ ∈ s.yielded)
    (hpromises : s'.promises.filter (fun p => p.1 = i) = s.promises.filter (fun p => p.1 = i)) :
    Sees s' i := by
  constructor
  · intro number op
    rw [hpending, hvisible]
    exact h.pending number op
  · intro number reply
    rw [hinvoked, hyielded, hvisible]
    exact h.invoked number reply
  · intro number op reply hresumed
    rw [hvisible] at hresumed
    rw [hyielded]
    exact h.fresh number op reply hresumed
  · rw [hpromises, hvisible]
    exact h.promises
  · rw [hvisible]
    exact h.kept

namespace Ledger

theorem nodup (h : Ledger s) :
    (s.pending.map Handler.number).Nodup ∧ (s.invoked.map Delivery.number).Nodup := by
  have hnodup := h.numbers.nodup_iff.mpr List.nodup_range
  exact ⟨(List.nodup_append.mp hnodup).1, (List.nodup_append.mp hnodup).2.1⟩

/-- The handlers are those of the suspended coroutines. -/
theorem mem_pending (h : Ledger s) {hd : Handler Op} :
    hd ∈ s.pending ↔ s.status hd.coro = some (.suspended hd.number hd.op) := by
  rw [← State.visible_eq_suspended]
  exact (h.sees hd.coro).pending hd.number hd.op

/-- What has been stored has been found, or is about to be. -/
theorem mem_invoked (h : Ledger s) {d : Delivery Reply} :
    d ∈ s.invoked ↔
      d ∈ s.yielded ∨ ∃ op, s.status d.coro = some (.resumed d.number op d.reply) := by
  simp only [← State.visible_eq_resumed]
  exact (h.sees d.coro).invoked d.number d.reply

/-- A change that is not seen. -/
theorem congr (h : Ledger s) (hvisible : ∀ j, s'.visible j = s.visible j)
    (hpending : s'.pending = s.pending) (hstarted : s'.started = s.started)
    (hinvoked : s'.invoked = s.invoked) (hyielded : s'.yielded = s.yielded)
    (hpromises : s'.promises = s.promises) (hfaults : s'.faults = s.faults) : Ledger s' := by
  constructor
  · intro j
    refine (h.sees j).frame (hvisible j) ?_ ?_ ?_ ?_
    · rw [hpending]
      exact fun _ _ => Iff.rfl
    · rw [hinvoked]
      exact fun _ _ => Iff.rfl
    · rw [hyielded]
      exact fun _ _ => Iff.rfl
    · rw [hpromises]
  · rw [hpending, hstarted]
    exact h.pendingStarted
  · rw [hinvoked, hstarted]
    exact h.invokedStarted
  · rw [hpending, hinvoked, hstarted]
    exact h.numbers
  · rw [hyielded]
    exact h.yielded
  · rw [hfaults]
    exact h.faults

/-- The handler of an awaiter is invoked. -/
theorem invoke [DecidableEq Op] (h : Ledger s) {hd : Handler Op} {reply : Reply}
    (hmem : hd ∈ s.pending)
    (hvisible : ∀ j, s'.visible j =
      if j = hd.coro then some (.resumed hd.number hd.op reply) else s.visible j)
    (hpending : s'.pending = s.pending.erase hd) (hstarted : s'.started = s.started)
    (hinvoked : s'.invoked = s.invoked ++ [⟨hd.number, hd.coro, reply⟩])
    (hyielded : s'.yielded = s.yielded) (hpromises : s'.promises = s.promises)
    (hfaults : s'.faults = s.faults) : Ledger s' := by
  have hsees := h.sees hd.coro
  -- the handler waits, so that its coroutine is suspended where it points to
  have hsuspended := (hsees.pending hd.number hd.op).mp hmem
  have hnodup : s.pending.Nodup := h.nodup.1.of_map
  -- the awaiter has not been resumed before
  have hnew : hd.number ∉ s.invoked.map Delivery.number := by
    have hall := h.numbers.nodup_iff.mpr List.nodup_range
    exact fun hold => (List.nodup_append.mp hall).2.2 _ (List.mem_map_of_mem hmem) _ hold rfl
  constructor
  · intro j
    by_cases hj : j = hd.coro
    · subst hj
      have hnow := hvisible hd.coro
      rw [if_pos rfl] at hnow
      constructor
      · intro number op
        rw [hpending, hnodup.mem_erase_iff, hnow, hsees.pending, hsuspended]
        obtain ⟨number', coro, op'⟩ := hd
        simp [eq_comm]
      · intro number reply'
        rw [hinvoked, hyielded, List.mem_append, List.mem_singleton, hsees.invoked, hsuspended,
          hnow]
        simp [eq_comm]
      · intro number op reply' hresumed hfound
        rw [hnow] at hresumed
        cases hresumed
        rw [hyielded] at hfound
        exact hnew (List.mem_map_of_mem ((hsees.invoked hd.number reply).mpr (Or.inl hfound)))
      · rw [hpromises, hnow, hsees.promises, hsuspended]
      · rw [hnow]
        exact nofun
    · refine (h.sees j).frame ?_ ?_ ?_ ?_ ?_
      · rw [hvisible, if_neg hj]
      · intro number op
        rw [hpending]
        apply List.mem_erase_of_ne
        rintro rfl
        exact hj rfl
      · intro number reply'
        rw [hinvoked]
        simp [hj]
      · intro number reply'
        rw [hyielded]
      · rw [hpromises]
  · rw [hpending, hstarted]
    exact fun hd' hmem' => h.pendingStarted hd' (List.mem_of_mem_erase hmem')
  · rw [hinvoked, hstarted]
    intro d hd'
    rcases List.mem_append.mp hd' with hold | hlast
    · exact h.invokedStarted d hold
    · rw [List.mem_singleton.mp hlast]
      exact ⟨hd.op, h.pendingStarted hd hmem⟩
  · -- the number moves from the outstanding operations to those that have completed
    rw [hpending, hinvoked, hstarted, List.map_append, List.map_singleton]
    have herase : (s.pending.map Handler.number).Perm
        (hd.number :: (s.pending.erase hd).map Handler.number) :=
      (List.perm_cons_erase hmem).map Handler.number
    refine List.Perm.trans ?_ h.numbers
    rw [← List.append_assoc]
    refine (List.perm_append_singleton _ _).trans ?_
    rw [← List.cons_append]
    exact (herase.append_right _).symm
  · rw [hyielded]
    exact h.yielded
  · rw [hfaults]
    exact h.faults

/-- A coroutine that has been resumed finds the result in its awaiter. -/
theorem await_resume (h : Ledger s) {i number : ℕ} {op : Op} {reply : Reply}
    (hresumed : s.visible i = some (.resumed number op reply))
    (hvisible : ∀ j, s'.visible j = if j = i then none else s.visible j)
    (hpending : s'.pending = s.pending) (hstarted : s'.started = s.started)
    (hinvoked : s'.invoked = s.invoked)
    (hyielded : s'.yielded = s.yielded ++ [⟨number, i, reply⟩])
    (hpromises : s'.promises = s.promises) (hfaults : s'.faults = s.faults) : Ledger s' := by
  have hsees := h.sees i
  have hinvokedNow : ⟨number, i, reply⟩ ∈ s.invoked :=
    (hsees.invoked number reply).mpr (Or.inr ⟨op, hresumed⟩)
  -- a result is found once: the invocations have different numbers
  have hnew : number ∉ s.yielded.map Delivery.number := by
    intro hold
    obtain ⟨d, hd, hnumber⟩ := List.mem_map.mp hold
    have hdInvoked := h.mem_invoked.mpr (Or.inl hd)
    have heq : d = ⟨number, i, reply⟩ :=
      List.inj_on_of_nodup_map h.nodup.2 hdInvoked hinvokedNow hnumber
    rw [heq] at hd
    exact hsees.fresh number op reply hresumed hd
  constructor
  · intro j
    by_cases hj : j = i
    · subst hj
      have hnow := hvisible j
      rw [if_pos rfl] at hnow
      constructor
      · intro number' op'
        rw [hpending, hsees.pending, hnow, hresumed]
        simp
      · intro number' reply'
        rw [hinvoked, hyielded, hsees.invoked, List.mem_append, List.mem_singleton, hresumed, hnow]
        simp [eq_comm]
      · intro number' op' reply' hresumed'
        rw [hnow] at hresumed'
        cases hresumed'
      · rw [hpromises, hnow, hsees.promises, hresumed]
      · rw [hnow]
        exact nofun
    · refine (h.sees j).frame ?_ ?_ ?_ ?_ ?_
      · rw [hvisible, if_neg hj]
      · intro number' op'
        rw [hpending]
      · intro number' reply'
        rw [hinvoked]
      · intro number' reply'
        rw [hyielded]
        simp [hj]
      · rw [hpromises]
  · rw [hpending, hstarted]
    exact h.pendingStarted
  · rw [hinvoked, hstarted]
    exact h.invokedStarted
  · rw [hpending, hinvoked, hstarted]
    exact h.numbers
  · rw [hyielded, List.map_append, List.map_singleton]
    refine List.nodup_append.mpr ⟨h.yielded, List.nodup_singleton _, ?_⟩
    rintro k hk k' hk' rfl
    rw [List.mem_singleton.mp hk'] at hk
    exact hnew hk
  · rw [hfaults]
    exact h.faults

/-- A running coroutine suspends. -/
theorem await (h : Ledger s) {i : ℕ} {op : Op} (hnone : s.visible i = none)
    (hvisible : ∀ j, s'.visible j =
      if j = i then some (.suspended s.started.length op) else s.visible j)
    (hpending : s'.pending = s.pending ++ [⟨s.started.length, i, op⟩])
    (hstarted : s'.started = s.started ++ [⟨s.started.length, i, op⟩])
    (hinvoked : s'.invoked = s.invoked) (hyielded : s'.yielded = s.yielded)
    (hpromises : s'.promises = s.promises) (hfaults : s'.faults = s.faults) : Ledger s' := by
  have hsees := h.sees i
  -- the history grows at its end: what was recorded stays where it was
  have hold : ∀ {k : ℕ} {hd : Handler Op}, s.started[k]? = some hd →
      (s.started ++ [⟨s.started.length, i, op⟩])[k]? = some hd := by
    intro k hd hk
    rw [List.getElem?_append_left (List.getElem?_eq_some_iff.mp hk).1]
    exact hk
  constructor
  · intro j
    by_cases hj : j = i
    · subst hj
      have hnow := hvisible j
      rw [if_pos rfl] at hnow
      constructor
      · intro number op'
        rw [hpending, List.mem_append, List.mem_singleton, hsees.pending, hnone, hnow]
        simp [eq_comm]
      · intro number reply
        rw [hinvoked, hyielded, hsees.invoked, hnone, hnow]
        simp
      · intro number op' reply hresumed
        rw [hnow] at hresumed
        cases hresumed
      · rw [hpromises, hnow, hsees.promises, hnone]
      · rw [hnow]
        exact nofun
    · refine (h.sees j).frame ?_ ?_ ?_ ?_ ?_
      · rw [hvisible, if_neg hj]
      · intro number op'
        rw [hpending]
        simp [hj]
      · intro number reply
        rw [hinvoked]
      · intro number reply
        rw [hyielded]
      · rw [hpromises]
  · rw [hpending, hstarted]
    intro hd hmem
    rcases List.mem_append.mp hmem with hmem | hlast
    · exact hold (h.pendingStarted hd hmem)
    · rw [List.mem_singleton.mp hlast]
      simp
  · rw [hinvoked, hstarted]
    intro d hd
    obtain ⟨op', hop'⟩ := h.invokedStarted d hd
    exact ⟨op', hold hop'⟩
  · rw [hpending, hinvoked, hstarted, List.map_append, List.map_singleton, List.length_append,
      List.length_singleton, List.range_succ, List.append_assoc]
    have hswap : (s.pending.map Handler.number ++
        ([s.started.length] ++ s.invoked.map Delivery.number)).Perm
        ((s.pending.map Handler.number ++ s.invoked.map Delivery.number) ++
          [s.started.length]) := by
      rw [List.append_assoc]
      exact List.perm_append_comm.append_left _
    exact hswap.trans (h.numbers.append_right _)
  · rw [hyielded]
    exact h.yielded
  · rw [hfaults]
    exact h.faults

/-- The body of a running coroutine ends. -/
theorem finish (h : Ledger s) {i : ℕ} {out : Out} (hnone : s.visible i = none)
    (hvisible : ∀ j, s'.visible j = if j = i then some (.finished out) else s.visible j)
    (hpending : s'.pending = s.pending) (hstarted : s'.started = s.started)
    (hinvoked : s'.invoked = s.invoked) (hyielded : s'.yielded = s.yielded)
    (hpromises : s'.promises = s.promises ++ [(i, out)]) (hfaults : s'.faults = s.faults) :
    Ledger s' := by
  have hsees := h.sees i
  constructor
  · intro j
    by_cases hj : j = i
    · subst hj
      have hnow := hvisible j
      rw [if_pos rfl] at hnow
      constructor
      · intro number op
        rw [hpending, hsees.pending, hnone, hnow]
        simp
      · intro number reply
        rw [hinvoked, hyielded, hsees.invoked, hnone, hnow]
        simp
      · intro number op reply hresumed
        rw [hnow] at hresumed
        cases hresumed
      · -- it was not set before
        rw [hpromises, List.filter_append, hsees.promises, hnone, hnow]
        simp
      · rw [hnow]
        exact nofun
    · refine (h.sees j).frame ?_ ?_ ?_ ?_ ?_
      · rw [hvisible, if_neg hj]
      · intro number op
        rw [hpending]
      · intro number reply
        rw [hinvoked]
      · intro number reply
        rw [hyielded]
      · rw [hpromises, List.filter_append]
        simp [Ne.symm hj]
  · rw [hpending, hstarted]
    exact h.pendingStarted
  · rw [hinvoked, hstarted]
    exact h.invokedStarted
  · rw [hpending, hinvoked, hstarted]
    exact h.numbers
  · rw [hyielded]
    exact h.yielded
  · rw [hfaults]
    exact h.faults

end Ledger

end Ledger

/-! ## The calls -/

/-- A coroutine that waits for a call to return is the caller of the coroutine it called, which
is being executed. -/
structure Stacked (s : State σ Op Reply Out) : Prop where
  caller : ∀ i p, s.caller i = some p → s.status p = some (.calling i)
  calling : ∀ p i, s.status p = some (.calling i) →
    s.caller i = some p ∧ p < i ∧ ∃ st, s.status i = some st ∧ st.active = true

namespace Stacked

variable {s s' : State σ Op Reply Out}

/-- A coroutine that has called nothing goes from one point of its code to another. -/
theorem update (h : Stacked s) {i : ℕ} {st st' : Status Op Reply Out}
    (hst : s.status i = some st)
    (hstatus : ∀ j, s'.status j = if j = i then some st' else s.status j)
    (hcaller : ∀ j, s'.caller j = s.caller j) (hidle : ∀ j, st ≠ .calling j)
    (hidle' : ∀ j, st' ≠ .calling j) (hactive : st.active = true → st'.active = true) :
    Stacked s' := by
  constructor
  · intro j p hp
    rw [hcaller] at hp
    have hcalling := h.caller j p hp
    have hne : p ≠ i := by
      rintro rfl
      rw [hst, Option.some.injEq] at hcalling
      exact hidle j hcalling
    rw [hstatus, if_neg hne]
    exact hcalling
  · intro p j hp
    rw [hstatus] at hp
    by_cases hpi : p = i
    · rw [if_pos hpi, Option.some.injEq] at hp
      exact absurd hp (hidle' j)
    · rw [if_neg hpi] at hp
      obtain ⟨hcallerOld, hlt, stj, hstj, hactivej⟩ := h.calling p j hp
      rw [hcaller, hstatus]
      refine ⟨hcallerOld, hlt, ?_⟩
      by_cases hj : j = i
      · rw [hj, hst, Option.some.injEq] at hstj
        exact ⟨st', if_pos hj, hactive (hstj ▸ hactivej)⟩
      · exact ⟨stj, by rw [if_neg hj]; exact hstj, hactivej⟩

/-- A running coroutine calls another one. -/
theorem call (h : Stacked s) {i k : ℕ} (hst : s.status i = some .running)
    (hnew : s.status k = none) (hlt : i < k)
    (hstatus : ∀ j, s'.status j =
      if j = k then some .starting else if j = i then some (.calling k) else s.status j)
    (hcaller : ∀ j, s'.caller j = if j = k then some i else s.caller j) : Stacked s' := by
  have hik : i ≠ k := Nat.ne_of_lt hlt
  constructor
  · intro j p hp
    rw [hcaller] at hp
    by_cases hj : j = k
    · rw [if_pos hj, Option.some.injEq] at hp
      rw [← hp, hstatus, if_neg hik, if_pos rfl, hj]
    · rw [if_neg hj] at hp
      have hcalling := h.caller j p hp
      have hpk : p ≠ k := by
        rintro rfl
        rw [hnew] at hcalling
        cases hcalling
      have hpi : p ≠ i := by
        rintro rfl
        rw [hst] at hcalling
        cases hcalling
      rw [hstatus, if_neg hpk, if_neg hpi]
      exact hcalling
  · intro p j hp
    rw [hstatus] at hp
    by_cases hpk : p = k
    · rw [if_pos hpk] at hp
      cases hp
    · rw [if_neg hpk] at hp
      by_cases hpi : p = i
      · rw [if_pos hpi] at hp
        cases hp
        rw [hcaller, hstatus, if_pos rfl, if_pos rfl]
        exact ⟨by rw [hpi], hpi ▸ hlt, .starting, rfl, rfl⟩
      · rw [if_neg hpi] at hp
        obtain ⟨hcallerOld, hltj, st, hstj, hactive⟩ := h.calling p j hp
        have hjk : j ≠ k := by
          rintro rfl
          rw [hnew] at hstj
          cases hstj
        rw [hcaller, hstatus, if_neg hjk, if_neg hjk]
        refine ⟨hcallerOld, hltj, ?_⟩
        by_cases hji : j = i
        · exact ⟨.calling k, if_pos hji, rfl⟩
        · exact ⟨st, by rw [if_neg hji]; exact hstj, hactive⟩

/-- A running coroutine suspends or ends, and the call of it returns. -/
theorem leave (h : Stacked s) {i : ℕ} {st : Status Op Reply Out}
    (hst : s.status i = some .running) (hidle : ∀ j, st ≠ .calling j)
    (hstatus : ∀ j, s'.status j = if s.caller i = some j then some .running
      else if j = i then some st else s.status j)
    (hcaller : ∀ j, s'.caller j = if j = i then none else s.caller j) : Stacked s' := by
  -- the callers are different coroutines
  have hinj : ∀ {j p : ℕ}, s.caller j = some p → s.caller i = some p → j = i := by
    intro j p hj hi
    have heq := (h.caller j p hj).symm.trans (h.caller i p hi)
    rw [Option.some.injEq, Status.calling.injEq] at heq
    exact heq
  constructor
  · intro j p hp
    rw [hcaller] at hp
    by_cases hj : j = i
    · rw [if_pos hj] at hp
      cases hp
    · rw [if_neg hj] at hp
      have hcalling := h.caller j p hp
      have hpi : p ≠ i := by
        rintro rfl
        rw [hst] at hcalling
        cases hcalling
      rw [hstatus, if_neg fun hi => hj (hinj hp hi), if_neg hpi]
      exact hcalling
  · intro p j hp
    rw [hstatus] at hp
    by_cases hret : s.caller i = some p
    · rw [if_pos hret] at hp
      cases hp
    · rw [if_neg hret] at hp
      by_cases hpi : p = i
      · rw [if_pos hpi, Option.some.injEq] at hp
        exact absurd hp (hidle j)
      · rw [if_neg hpi] at hp
        obtain ⟨hcallerOld, hltj, stj, hstj, hactive⟩ := h.calling p j hp
        have hji : j ≠ i := by
          rintro rfl
          exact hret hcallerOld
        rw [hcaller, hstatus, if_neg hji, if_neg hji]
        refine ⟨hcallerOld, hltj, ?_⟩
        by_cases hreturn : s.caller i = some j
        · exact ⟨.running, if_pos hreturn, rfl⟩
        · exact ⟨stj, by rw [if_neg hreturn]; exact hstj, hactive⟩

end Stacked

/-! ## Every run -/

/-- The handlers are those of the suspended coroutines, and the calls are nested. -/
structure Inv (s : State σ Op Reply Out) : Prop where
  ledger : Ledger s
  stacked : Stacked s

section Steps

variable {s s' : State σ Op Reply Out}

/-- A status that changes is seen to change. -/
theorem State.visible_of_status {i : ℕ} {st : Status Op Reply Out}
    (h : ∀ j, s'.status j = if j = i then some st else s.status j) (j : ℕ) :
    s'.visible j = if j = i then st.visible else s.visible j := by
  unfold State.visible
  rw [h]
  by_cases hj : j = i
  · rw [if_pos hj, if_pos hj, Option.bind_some]
  · rw [if_neg hj, if_neg hj]

/-- That a call returns is not seen. -/
theorem State.visible_ret {c : Option ℕ} (h : ∀ p, c = some p → s.visible p = none) (j : ℕ) :
    (s.ret c).visible j = s.visible j := by
  unfold State.visible
  rw [State.status_ret]
  by_cases hc : c = some j
  · have hnone := h j hc
    unfold State.visible at hnone
    rw [if_pos hc, hnone]
    cases s.status j with
    | none => rfl
    | some st => rfl
  · rw [if_neg hc]

theorem inv_new (roots : List σ) : Inv (State.new roots : State σ Op Reply Out) := by
  have htask : ∀ {i : ℕ} {t : Task σ Op Reply Out},
      (State.new roots : State σ Op Reply Out).tasks[i]? = some t →
        t.status = .starting ∧ t.caller = none := by
    intro i t ht
    obtain ⟨locals, -, rfl⟩ := List.mem_map.mp (List.mem_of_getElem? ht)
    exact ⟨rfl, rfl⟩
  have hstatus : ∀ {i : ℕ} {st : Status Op Reply Out},
      (State.new roots : State σ Op Reply Out).status i = some st → st = .starting := by
    intro i st hst
    obtain ⟨t, ht, rfl⟩ := State.status_eq_some.mp hst
    exact (htask ht).1
  have hvisible : ∀ i, (State.new roots : State σ Op Reply Out).visible i = none := by
    intro i
    unfold State.visible
    cases hst : (State.new roots : State σ Op Reply Out).status i with
    | none => rfl
    | some st =>
        rw [hstatus hst]
        rfl
  constructor
  · constructor
    · intro i
      constructor
      · intro number op
        rw [hvisible]
        simp [State.new]
      · intro number reply
        rw [hvisible]
        simp [State.new]
      · intro number op reply hresumed
        rw [hvisible] at hresumed
        cases hresumed
      · rw [hvisible]
        rfl
      · rw [hvisible]
        exact nofun
    · exact nofun
    · exact nofun
    · exact List.Perm.refl _
    · exact List.nodup_nil
    · rfl
  · constructor
    · intro i p hp
      obtain ⟨t, ht, hcaller⟩ := Option.bind_eq_some_iff.mp hp
      rw [(htask ht).2] at hcaller
      cases hcaller
    · intro p i hp
      cases hstatus hp

/-- A handler is invoked. -/
theorem Inv.invoke [DecidableEq Op] {code : Code σ Op Reply Env Out} (h : Inv s)
    {hd : Handler Op} {reply : Reply} (hmem : hd ∈ s.pending)
    (hstep : s.invoke code hd reply = some s') : Inv s' := by
  have hsuspended := h.ledger.mem_pending.mp hmem
  obtain ⟨⟨locals, st, caller⟩, ht, hst⟩ := State.status_eq_some.mp hsuspended
  -- neither of the faults of a handler can occur
  obtain rfl : st = .suspended hd.number hd.op := hst
  rw [State.invoke, ht] at hstep
  simp only [if_true] at hstep
  obtain ⟨locals', -, rfl⟩ := Option.map_eq_some_iff.mp hstep
  have htasks : (s.deliver hd reply ⟨locals', .resumed hd.number hd.op reply, caller⟩).tasks =
      s.tasks.set hd.coro ⟨locals', .resumed hd.number hd.op reply, caller⟩ := rfl
  have hstatus := State.status_set ht htasks
  constructor
  · exact h.ledger.invoke hmem (State.visible_of_status hstatus) rfl rfl rfl rfl rfl rfl
  · refine h.stacked.update hsuspended hstatus ?_ (fun _ => nofun) (fun _ => nofun) nofun
    intro j
    rw [State.caller_set ht htasks]
    by_cases hj : j = hd.coro
    · rw [if_pos hj, hj, State.caller, ht]
      rfl
    · rw [if_neg hj]

/-- A coroutine whose turn it is goes on. -/
theorem Inv.goOn {code : Code σ Op Reply Env Out} (h : Inv s) {i : ℕ} {t : Task σ Op Reply Out}
    {env : Env} {turn : Turn σ Op Out} (ht : s.tasks[i]? = some t)
    (hturn : t.turn code env = some turn) : Inv (s.goOn i t) := by
  have hst : s.status i = some t.status := State.status_eq_some.mpr ⟨t, ht, rfl⟩
  have htasks : (s.goOn i t).tasks = s.tasks.set i { t with status := .running } := rfl
  have hstatus : ∀ j, (s.goOn i t).status j = if j = i then some .running else s.status j :=
    State.status_set ht htasks
  have hvisible := State.visible_of_status hstatus
  have hcaller : ∀ j, (s.goOn i t).caller j = s.caller j := by
    intro j
    rw [State.caller_set ht htasks]
    by_cases hj : j = i
    · rw [if_pos hj, hj, State.caller, ht]
      rfl
    · rw [if_neg hj]
  -- unless it is resumed nobody sees that it goes on
  have hsame : t.status.visible = none → Ledger { s.goOn i t with yielded := s.yielded } := by
    intro hnone
    refine h.ledger.congr ?_ rfl rfl rfl rfl rfl rfl
    intro j
    show (s.goOn i t).visible j = s.visible j
    rw [hvisible]
    by_cases hj : j = i
    · rw [if_pos hj, hj]
      show none = (s.status i).bind _
      rw [hst, Option.bind_some, hnone]
    · rw [if_neg hj]
  obtain ⟨locals, st, caller⟩ := t
  cases st with
  | starting =>
      have hst : s.status i = some .starting := hst
      refine ⟨hsame rfl, ?_⟩
      exact h.stacked.update hst hstatus hcaller (fun _ => nofun) (fun _ => nofun) fun _ => rfl
  | running =>
      have hst : s.status i = some .running := hst
      refine ⟨hsame rfl, ?_⟩
      exact h.stacked.update hst hstatus hcaller (fun _ => nofun) (fun _ => nofun) fun _ => rfl
  | resumed number op reply =>
      have hst : s.status i = some (.resumed number op reply) := hst
      refine ⟨?_, h.stacked.update hst hstatus hcaller (fun _ => nofun) (fun _ => nofun)
        fun _ => rfl⟩
      exact h.ledger.await_resume (State.visible_eq_resumed.mpr hst) hvisible rfl rfl rfl rfl
        rfl rfl
  | calling child => cases hturn
  | suspended number op => cases hturn
  | finished out => cases hturn
  | destroyed => cases hturn

/-- A coroutine leaves its caller's stack: the call returns. -/
theorem Inv.leave (h : Inv s) {i : ℕ} {t : Task σ Op Reply Out} {locals : σ}
    {st : Status Op Reply Out} (ht : s.tasks[i]? = some t) (hrunning : t.status = .running)
    (hs' : s'.tasks = s.tasks.set i ⟨locals, st, none⟩) (hidle : ∀ j, st ≠ .calling j)
    (hledger : Ledger s') : Inv (s'.ret t.caller) := by
  have hst : s.status i = some .running := State.status_eq_some.mpr ⟨t, ht, hrunning⟩
  have hcaller : s.caller i = t.caller := by
    rw [State.caller, ht]
    rfl
  have hstatus := State.status_set ht hs'
  constructor
  · refine hledger.congr (State.visible_ret ?_) ?_ ?_ ?_ ?_ ?_ ?_
    · intro p hp
      -- the caller waits for this call: it is seen neither before nor after it returns
      have hcalling := h.stacked.caller i p (hcaller.trans hp)
      have hpi : p ≠ i := by
        rintro rfl
        rw [hst] at hcalling
        cases hcalling
      unfold State.visible
      rw [hstatus, if_neg hpi, hcalling]
      rfl
    all_goals cases t.caller <;> rfl
  · refine h.stacked.leave hst hidle ?_ ?_
    · intro j
      rw [State.status_ret, hcaller]
      by_cases hc : t.caller = some j
      · have hcalling := h.stacked.caller i j (hcaller.trans hc)
        have hji : j ≠ i := by
          rintro rfl
          rw [hst] at hcalling
          cases hcalling
        rw [if_pos hc, if_pos hc, hstatus, if_neg hji, hcalling]
        rfl
      · rw [if_neg hc, if_neg hc]
        exact hstatus j
    · intro j
      rw [State.caller_ret, State.caller_set ht hs']

/-- A running coroutine executes a piece of its code. -/
theorem Inv.perform (h : Inv s) {i : ℕ} {t : Task σ Op Reply Out}
    (ht : s.tasks[i]? = some t) (hrunning : t.status = .running) (turn : Turn σ Op Out) :
    Inv (s.perform i t.caller turn) := by
  have hst : s.status i = some .running := State.status_eq_some.mpr ⟨t, ht, hrunning⟩
  have hnone : s.visible i = none := by
    unfold State.visible
    rw [hst]
    rfl
  cases turn with
  | await locals op =>
      have htasks : (s.suspend i locals op).tasks =
          s.tasks.set i ⟨locals, .suspended s.started.length op, none⟩ := rfl
      refine h.leave ht hrunning htasks (fun _ => nofun) ?_
      exact h.ledger.await hnone (State.visible_of_status (State.status_set ht htasks))
        rfl rfl rfl rfl rfl rfl
  | finish locals out =>
      have htasks : (s.finish i locals out).tasks =
          s.tasks.set i ⟨locals, .finished out, none⟩ := rfl
      refine h.leave ht hrunning htasks (fun _ => nofun) ?_
      exact h.ledger.finish hnone (State.visible_of_status (State.status_set ht htasks))
        rfl rfl rfl rfl rfl rfl
  | call locals child =>
      have hlt := (List.getElem?_eq_some_iff.mp ht).1
      -- the number of the new coroutine is that of none so far
      have hnew : s.status s.tasks.length = none := by
        unfold State.status
        rw [List.getElem?_eq_none (Nat.le_refl _)]
        rfl
      have hstatus : ∀ j, (s.call i t.caller locals child).status j = _ := State.status_call ht
      constructor
      · refine h.ledger.congr ?_ rfl rfl rfl rfl rfl rfl
        intro j
        show ((s.call i t.caller locals child).status j).bind _ = (s.status j).bind _
        rw [hstatus]
        by_cases hj : j = s.tasks.length
        · rw [if_pos hj, hj, hnew]
          rfl
        · rw [if_neg hj]
          by_cases hji : j = i
          · rw [if_pos hji, hji, hst]
            rfl
          · rw [if_neg hji]
      · apply h.stacked.call hst hnew hlt hstatus
        intro j
        show (s.call i t.caller locals child).caller j = _
        rw [State.caller_call ht]
        by_cases hj : j = s.tasks.length
        · rw [if_pos hj, if_pos hj]
        · rw [if_neg hj, if_neg hj]
          by_cases hji : j = i
          · rw [if_pos hji, hji, State.caller, ht]
            rfl
          · rw [if_neg hji]

theorem step_inv [DecidableEq Op] {code : Code σ Op Reply Env Out} {e : Event Op Reply Env}
    (h : Inv s) (hstep : step code s e = some s') : Inv s' := by
  cases e with
  | invoke hd reply =>
      obtain ⟨hmem, hinvoke⟩ := Option.ite_none_right_eq_some.mp hstep
      exact h.invoke hmem hinvoke
  | advance i env =>
      obtain ⟨t, ht, hnext⟩ := Option.bind_eq_some_iff.mp hstep
      obtain ⟨turn, hturn, rfl⟩ := Option.map_eq_some_iff.mp hnext
      have hlt := (List.getElem?_eq_some_iff.mp ht).1
      have ht' : (s.goOn i t).tasks[i]? = some { t with status := .running } := by
        show (s.tasks.set i _)[i]? = _
        rw [List.getElem?_set_self hlt]
      exact (h.goOn ht hturn).perform ht' rfl turn

theorem inv_reachable [DecidableEq Op] {code : Code σ Op Reply Env Out} {roots : List σ}
    (h : (machine code roots).Reachable s) : Inv s := by
  refine Machine.Inductive.reachable ⟨?_, ?_⟩ h
  · rintro s rfl
    exact inv_new roots
  · intro s e s' hs hstep
    exact step_inv hs hstep

end Steps

/-! ## What holds of every coroutine -/

/-- The handler of the awaiter that a coroutine is suspended in. -/
def State.awaited (s : State σ Op Reply Out) (i : ℕ) : List (Handler Op) :=
  match s.status i with
  | some (.suspended number op) => [⟨number, i, op⟩]
  | _ => []

/-- What a coroutine has ended with. -/
def State.outcome (s : State σ Op Reply Out) (i : ℕ) : List (ℕ × Out) :=
  match s.status i with
  | some (.finished out) => [(i, out)]
  | _ => []

section Results

variable {s s' : State σ Op Reply Out}

/-- A suspended coroutine has one handler, that of the awaiter it is suspended in; any other
coroutine has none. -/
theorem Inv.handlers (h : Inv s) (i : ℕ) :
    s.pending.filter (fun hd => hd.coro = i) = s.awaited i := by
  have hmem : ∀ hd, hd ∈ s.pending.filter (fun hd => hd.coro = i) ↔
      hd.coro = i ∧ s.status i = some (.suspended hd.number hd.op) := by
    intro hd
    rw [List.mem_filter, h.ledger.mem_pending, decide_eq_true_eq]
    constructor
    · rintro ⟨hst, rfl⟩
      exact ⟨rfl, hst⟩
    · rintro ⟨rfl, hst⟩
      exact ⟨hst, rfl⟩
  have hnone : (∀ number op, s.status i ≠ some (.suspended number op)) →
      s.pending.filter (fun hd => hd.coro = i) = [] := by
    intro hother
    apply List.eq_nil_iff_forall_not_mem.mpr
    intro hd hhd
    exact hother _ _ ((hmem hd).mp hhd).2
  unfold State.awaited
  split
  · rename_i number op hst
    have hnodup : (s.pending.filter (fun hd => hd.coro = i)).Nodup :=
      h.ledger.nodup.1.of_map.filter _
    refine List.perm_singleton.mp
      ((List.perm_ext_iff_of_nodup hnodup (List.nodup_singleton _)).mpr fun hd => ?_)
    rw [hmem, hst, List.mem_singleton]
    obtain ⟨number', coro, op'⟩ := hd
    simp only [Option.some.injEq, Status.suspended.injEq, Handler.mk.injEq]
    constructor
    · rintro ⟨rfl, rfl, rfl⟩
      exact ⟨rfl, rfl, rfl⟩
    · rintro ⟨rfl, rfl, rfl⟩
      exact ⟨rfl, rfl, rfl⟩
  · rename_i hother
    exact hnone fun number op hst => hother number op hst

/-- A promise is set when its coroutine ends, and only then. -/
theorem Inv.settled (h : Inv s) (i : ℕ) :
    s.promises.filter (fun p => p.1 = i) = s.outcome i := by
  rw [(h.ledger.sees i).promises]
  unfold State.outcome State.visible
  rcases s.status i with - | st
  · rfl
  · cases st <;> rfl

/-- A coroutine is suspended, or it has ended, or it is being executed. -/
theorem Inv.stands (h : Inv s) {i : ℕ} {st : Status Op Reply Out} (hst : s.status i = some st) :
    (∃ number op, st = .suspended number op) ∨ (∃ out, st = .finished out) ∨
      st.active = true := by
  cases st with
  | suspended number op => exact Or.inl ⟨number, op, rfl⟩
  | finished out => exact Or.inr (Or.inl ⟨out, rfl⟩)
  | destroyed =>
      refine absurd ?_ (h.ledger.sees i).kept
      unfold State.visible
      rw [hst]
      rfl
  | _ => exact Or.inr (Or.inr rfl)

/-- Where no code is being executed every coroutine is suspended or has ended. -/
theorem Inv.rest [DecidableEq Op] {code : Code σ Op Reply Env Out} (h : Inv s) (env : Env)
    (hidle : ∀ i env, step code s (.advance i env) = none) {i : ℕ} {st : Status Op Reply Out}
    (hst : s.status i = some st) :
    (∃ number op, st = .suspended number op) ∨ ∃ out, st = .finished out := by
  -- the last of the coroutines being executed has called nothing, so that its turn has come
  have hactive : ∀ k j st, s.tasks.length - j = k → s.status j = some st → st.active = false := by
    intro k
    induction k using Nat.strongRecOn with
    | _ k ih =>
      intro j st hk hstj
      obtain ⟨⟨locals, st', caller⟩, ht, rfl⟩ := State.status_eq_some.mp hstj
      have hnext := hidle j env
      simp only [step, ht, Option.bind_some, Option.map_eq_none_iff] at hnext
      cases st' with
      | starting => cases hnext
      | running => cases hnext
      | resumed number op reply => cases hnext
      | calling child =>
          obtain ⟨-, hlt, st, hchild, hchildActive⟩ := h.stacked.calling j child hstj
          obtain ⟨t, htask, -⟩ := State.status_eq_some.mp hchild
          have hlength := (List.getElem?_eq_some_iff.mp htask).1
          have hless : s.tasks.length - child < k := by omega
          have hinactive := ih _ hless child st rfl hchild
          rw [hchildActive] at hinactive
          cases hinactive
      | suspended number op => rfl
      | finished out => rfl
      | destroyed => rfl
  rcases h.stands hst with hsuspended | hfinished | hrunning
  · exact Or.inl hsuspended
  · exact Or.inr hfinished
  · rw [hactive _ i st rfl hst] at hrunning
    cases hrunning

end Results

end Executor
