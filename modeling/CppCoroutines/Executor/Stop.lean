import CppCoroutines.Executor.Ledger

/-!
# Stopping an event loop

When the loop is stopped its handlers are destroyed without having been invoked. A
handler may leave its coroutine alone, destroy it, or resume it with an error. The main
result says for which handlers no coroutine is left suspended with nothing to resume it.
-/

universe u v w x y

namespace Executor

/-- What the destructor of a handler that has not been invoked does to its coroutine. -/
inductive OnDrop (Reply : Type w) where
  | nothing
  | destroy
  | resume (reply : Reply)
deriving DecidableEq, Repr

variable {σ : Type u} {Op : Type v} {Reply : Type w} {Env : Type x} {Out : Type y}

namespace OnDrop

/-- The coroutine is not left as it is. -/
def releases : OnDrop Reply → Bool
  | .nothing => false
  | .destroy | .resume _ => true

/-- What becomes of a coroutine suspended in this awaiter. -/
def status (number : ℕ) (op : Op) : OnDrop Reply → Status Op Reply Out
  | .nothing => .suspended number op
  | .destroy => .destroyed
  | .resume reply => .resumed number op reply

end OnDrop

namespace State

/-- The coroutine of a handler is taken out of its awaiter. -/
def release (s : State σ Op Reply Out) (h : Handler Op) (st : Status Op Reply Out) :
    State σ Op Reply Out :=
  match s.tasks[h.coro]? with
  | some ⟨locals, .suspended _ _, caller⟩ =>
      { s with
        tasks := s.tasks.set h.coro ⟨locals, st, caller⟩
        released := s.released ++ [h.coro] }
  | _ => s.fault .notSuspended

/-- A handler is destroyed. -/
def drop [DecidableEq Op] (onDrop : Op → OnDrop Reply) (s : State σ Op Reply Out)
    (h : Handler Op) : State σ Op Reply Out :=
  let s : State σ Op Reply Out := { s with pending := s.pending.erase h }
  match onDrop h.op with
  | .nothing => s
  | .destroy => s.release h .destroyed
  | .resume reply => s.release h (.resumed h.number h.op reply)

/-- The handlers are destroyed one after the other. -/
def shutdown [DecidableEq Op] (onDrop : Op → OnDrop Reply) (s : State σ Op Reply Out)
    (order : List (Handler Op)) : State σ Op Reply Out := order.foldl (drop onDrop) s

variable {s : State σ Op Reply Out}

theorem release_pending (h : Handler Op) (st : Status Op Reply Out) :
    (s.release h st).pending = s.pending := by
  unfold release
  split
  · rfl
  · rfl

/-- A suspended coroutine is released. -/
theorem release_of_suspended {h : Handler Op} (st : Status Op Reply Out)
    (hsuspended : s.status h.coro = some (.suspended h.number h.op)) :
    (∀ j, (s.release h st).status j = if j = h.coro then some st else s.status j) ∧
      (s.release h st).released = s.released ++ [h.coro] := by
  obtain ⟨⟨locals, st', caller⟩, ht, hst⟩ := status_eq_some.mp hsuspended
  obtain rfl : st' = .suspended h.number h.op := hst
  have hrelease : s.release h st = { s with
      tasks := s.tasks.set h.coro ⟨locals, st, caller⟩
      released := s.released ++ [h.coro] } := by
    simp only [release, ht]
  rw [hrelease]
  exact ⟨fun j => status_set ht rfl j, rfl⟩

end State

/-- Every coroutine that was suspended in `s` has been resumed or destroyed once, and none is
suspended any more. -/
structure Released (s s' : State σ Op Reply Out) : Prop where
  once : ∀ i number op, s.status i = some (.suspended number op) →
    s'.released.count i = s.released.count i + 1
  resolved : ∀ i number op, s'.status i ≠ some (.suspended number op)

section Shutdown

variable [DecidableEq Op] {onDrop : Op → OnDrop Reply} {s : State σ Op Reply Out}

theorem State.drop_pending (h : Handler Op) :
    (s.drop onDrop h).pending = s.pending.erase h := by
  unfold State.drop
  cases onDrop h.op with
  | nothing => rfl
  | destroy => exact State.release_pending _ _
  | resume reply => exact State.release_pending _ _

/-- A handler that finds its coroutine suspended does to it what it is to do. -/
theorem State.drop_of_suspended {h : Handler Op}
    (hsuspended : s.status h.coro = some (.suspended h.number h.op)) :
    (∀ j, (s.drop onDrop h).status j =
      if j = h.coro then some ((onDrop h.op).status h.number h.op) else s.status j) ∧
      (s.drop onDrop h).released =
        s.released ++ if (onDrop h.op).releases then [h.coro] else [] := by
  have hsuspended' : State.status { s with pending := s.pending.erase h } h.coro =
      some (.suspended h.number h.op) := hsuspended
  unfold State.drop
  cases onDrop h.op with
  | nothing =>
      refine ⟨?_, (List.append_nil _).symm⟩
      intro j
      by_cases hj : j = h.coro
      · rw [if_pos hj, hj]
        exact hsuspended
      · rw [if_neg hj]
        rfl
  | destroy => exact State.release_of_suspended .destroyed hsuspended'
  | resume reply => exact State.release_of_suspended (.resumed h.number h.op reply) hsuspended'

/-- What the destruction of handlers of different suspended coroutines does to these. -/
theorem State.shutdown_spec {order : List (Handler Op)}
    (hdistinct : (order.map Handler.coro).Nodup)
    (hsuspended : ∀ h ∈ order, s.status h.coro = some (.suspended h.number h.op)) :
    (∀ j, j ∉ order.map Handler.coro → (s.shutdown onDrop order).status j = s.status j) ∧
      (∀ h ∈ order,
        (s.shutdown onDrop order).status h.coro = some ((onDrop h.op).status h.number h.op)) ∧
      (s.shutdown onDrop order).released = s.released ++
        (order.filter fun h => (onDrop h.op).releases).map Handler.coro := by
  induction order generalizing s with
  | nil =>
      refine ⟨fun _ _ => rfl, nofun, ?_⟩
      exact (List.append_nil _).symm
  | cons h order ih =>
      rw [List.map_cons, List.nodup_cons] at hdistinct
      obtain ⟨hstatus, hreleasedOne⟩ : (∀ j, (s.drop onDrop h).status j = _) ∧ _ :=
        State.drop_of_suspended (hsuspended h List.mem_cons_self)
      -- the handlers that are left are those of other coroutines
      have hrest : ∀ h' ∈ order,
          (s.drop onDrop h).status h'.coro = some (.suspended h'.number h'.op) := by
        intro h' hh'
        have hne : h'.coro ≠ h.coro := by
          intro heq
          exact hdistinct.1 (heq ▸ List.mem_map_of_mem hh')
        rw [hstatus, if_neg hne]
        exact hsuspended h' (List.mem_cons_of_mem _ hh')
      obtain ⟨hothers, hdropped, hreleased⟩ := ih hdistinct.2 hrest
      refine ⟨?_, ?_, ?_⟩
      · intro j hj
        rw [List.map_cons, List.mem_cons, not_or] at hj
        refine (hothers j hj.2).trans ?_
        rw [hstatus, if_neg hj.1]
      · intro h' hh'
        rcases List.mem_cons.mp hh' with rfl | hh'
        · refine (hothers _ hdistinct.1).trans ?_
          rw [hstatus, if_pos rfl]
        · exact hdropped h' hh'
      · refine hreleased.trans ?_
        rw [hreleasedOne, List.append_assoc, List.filter_cons]
        cases (onDrop h.op).releases with
        | true => rfl
        | false => rfl

/-- No handler is left. -/
theorem State.shutdown_pending {order : List (Handler Op)} (horder : order.Perm s.pending) :
    (s.shutdown onDrop order).pending = [] := by
  induction order generalizing s with
  | nil => exact List.nil_perm.mp horder
  | cons h order ih =>
      apply ih
      rw [State.drop_pending]
      exact (List.cons_perm_iff_perm_erase.mp horder).2

/-- In whatever order the handlers are destroyed, the coroutines are released if and only if
each handler releases its own. -/
theorem Inv.released_iff (h : Inv s) {order : List (Handler Op)} (horder : order.Perm s.pending) :
    Released s (s.shutdown onDrop order) ↔
      ∀ hd ∈ s.pending, (onDrop hd.op).releases = true := by
  have hsuspended : ∀ hd ∈ order, s.status hd.coro = some (.suspended hd.number hd.op) :=
    fun hd hmem => h.ledger.mem_pending.mp (horder.subset hmem)
  have hdistinct : (order.map Handler.coro).Nodup := by
    refine List.Nodup.map_on ?_ (horder.nodup_iff.mpr h.ledger.nodup.1.of_map)
    intro hd hmem hd' hmem' hcoro
    have hst := hsuspended hd hmem
    rw [hcoro, hsuspended hd' hmem', Option.some.injEq, Status.suspended.injEq] at hst
    obtain ⟨number, coro, op⟩ := hd
    obtain ⟨number', coro', op'⟩ := hd'
    simp_all
  obtain ⟨hothers, hdropped, hreleased⟩ :
      (∀ j, j ∉ order.map Handler.coro → (s.shutdown onDrop order).status j = s.status j) ∧ _ :=
    State.shutdown_spec hdistinct hsuspended
  have hmem : ∀ {i number : ℕ} {op : Op}, s.status i = some (.suspended number op) →
      ⟨number, i, op⟩ ∈ order := by
    intro i number op hst
    exact horder.symm.subset (h.ledger.mem_pending.mpr hst)
  constructor
  · intro hall hd hpending
    -- a handler that does nothing leaves its coroutine suspended
    have hst := hdropped hd (horder.symm.subset hpending)
    cases hdrop : onDrop hd.op with
    | nothing =>
        rw [hdrop] at hst
        exact absurd hst (hall.resolved _ _ _)
    | destroy => rfl
    | resume reply => rfl
  · intro hall
    constructor
    · intro i number op hst
      rw [hreleased, List.count_append, List.filter_eq_self.mpr]
      · rw [List.count_eq_one_of_mem hdistinct (List.mem_map_of_mem (hmem hst))]
      · exact fun hd hd' => hall hd (horder.subset hd')
    · intro i number op hst
      -- a coroutine without a handler was not suspended before
      by_cases hi : i ∈ order.map Handler.coro
      · obtain ⟨hd, hhd, rfl⟩ := List.mem_map.mp hi
        rw [hdropped hd hhd] at hst
        have hreleases := hall hd (horder.subset hhd)
        cases hdrop : onDrop hd.op with
        | nothing =>
            rw [hdrop] at hreleases
            cases hreleases
        | destroy =>
            rw [hdrop] at hst
            cases hst
        | resume reply =>
            rw [hdrop] at hst
            cases hst
      · rw [hothers i hi] at hst
        exact hi (List.mem_map_of_mem (hmem hst))

end Shutdown

end Executor
