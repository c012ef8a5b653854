import CppCoroutines.Executor.Ends
import CppCoroutines.WinRT.Promise

/-!
# The completed handler

Of the calls of `Completed` the first is accepted, its handler is invoked once, by the
coroutine or by the caller, and what it is told of the operation is so.
-/

namespace CppCoroutines.WinRTPromise

open PoolAwaiter (AsyncStatus)

variable {α : Type}

/-! ## The handler -/

/-- An invocation that the coroutine still owes. -/
def Body.owed : Body → ℕ
  | .invoking (some _) _ => 1
  | _ => 0

/-- An invocation that the holder of a reference still owes. -/
def Holder.owed : Holder → ℕ
  | .invoking _ _ => 1
  | _ => 0

/-- The invocations still owed: for the handler that is stored, or by whoever has taken it. -/
def State.owed (s : State α) : ℕ :=
  s.promise.completed.toList.length + s.body.owed + (s.holders.map Holder.owed).sum

/-- A handler that is not null has been accepted. -/
def State.due (s : State α) : ℕ :=
  match s.accepted with
  | some (some _, _) => 1
  | _ => 0

structure HandlerInv (s : State α) : Prop where
  assigned : s.promise.completedAssigned = s.accepted.isSome
  count : s.owed + s.invocations.length = s.due
  stored : ∀ h, s.promise.completed = some h →
    s.accepted = some (some h, .started) ∧ s.body.settled = false
  taken : ∀ h status, s.body = Body.invoking (some h) status →
    s.accepted = some (some h, .started) ∧ Justified s.cancelled s.ending s.body.settled status
  holding : ∀ (i h : ℕ) (status : AsyncStatus), s.holders[i]? = some (Holder.invoking h status) →
    s.accepted = some (some h, status) ∧ Justified s.cancelled s.ending s.body.settled status
  invoked : ∀ v ∈ s.invocations, Justified s.cancelled s.ending s.body.settled v.status
  byCoroutine : ∀ v ∈ s.invocations, v.byCoroutine = true →
    s.accepted = some (some v.handler, .started) ∧ v.bodyEnded = true
  byHolder : ∀ v ∈ s.invocations, v.byCoroutine = false →
    s.accepted = some (some v.handler, v.status) ∧
      (v.bodyEnded = false → v.status = .canceled ∧ s.cancelled = true)

section Handler

variable {kind : Kind α} {s s' : State α} {e : Event α}

theorem Justified.mono {cancelled cancelled' settled settled' : Bool}
    {ending ending' : Option (Except Exn α)} {status : AsyncStatus}
    (h : Justified cancelled ending settled status)
    (hending : ∀ x, ending = some x → ending' = some x)
    (hcancelled : cancelled = true → cancelled' = true)
    (hsettled : settled = true → settled' = true) :
    Justified cancelled' ending' settled' status where
  started := h.started
  completed hstatus := by
    rcases h.completed hstatus with ⟨hset, v, hv⟩
    exact ⟨hsettled hset, v, hending _ hv⟩
  error hstatus := by
    rcases h.error hstatus with ⟨code, hcode⟩
    exact ⟨code, hending _ hcode⟩
  canceled hstatus := (h.canceled hstatus).imp hcancelled (hending _)

/-- `set_completed` has taken the handler, and nothing else changes. -/
theorem Justified.settle {cancelled settled : Bool} {ending : Option (Except Exn α)}
    {status : AsyncStatus} (h : Justified cancelled ending settled status) :
    Justified cancelled ending true status :=
  h.mono (fun _ => id) id (fun _ => rfl)

/-- A status that the promise has and that is not `Started` is justified. -/
theorem StatusInv.justified (h : StatusInv s) (hstarted : s.promise.status ≠ .started) :
    Justified s.cancelled s.ending s.body.settled s.promise.status := by
  rw [h.status] at hstarted ⊢
  rcases hending : s.ending with - | e | v
  · rw [hending] at hstarted
    cases hcancelled : s.cancelled with
    | false => simp [statusOf, hcancelled] at hstarted
    | true => exact ⟨nofun, nofun, nofun, fun _ => Or.inl rfl⟩
  · cases e with
    | canceled => exact ⟨nofun, nofun, nofun, fun _ => Or.inr rfl⟩
    | other code => exact ⟨nofun, nofun, fun _ => ⟨code, rfl⟩, nofun⟩
  · rw [hending] at hstarted
    cases hcancelled : s.cancelled with
    | false =>
        cases hsettled : s.body.settled with
        | false => simp [statusOf, hcancelled, hsettled] at hstarted
        | true => exact ⟨nofun, fun _ => ⟨rfl, v, rfl⟩, nofun, nofun⟩
    | true => exact ⟨nofun, nofun, nofun, fun _ => Or.inl rfl⟩

theorem handlerInv_new (kind : Kind α) : HandlerInv (State.new kind) where
  assigned := rfl
  count := rfl
  stored := nofun
  taken := nofun
  holding := by
    intro i h status hi
    cases i with
    | zero => cases hi
    | succ i => cases hi
  invoked := nofun
  byCoroutine := nofun
  byHolder := nofun

theorem Body.owed_of_not_settled {b : Body} (h : b.settled = false) : b.owed = 0 := by
  cases b with
  | invoking handler status => cases h
  | _ => rfl

theorem settled_of_settled {b b' : Body} (h : b' = b ∨ b.settled = false ∧ b'.settled = false)
    (hsettled : b.settled = true) : b'.settled = true := by
  rcases h with rfl | ⟨hnot, -⟩
  · exact hsettled
  · rw [hnot] at hsettled
    cases hsettled

/-- The handler stays where it is. -/
theorem HandlerInv.congr (h : HandlerInv s) (hcompleted : s'.promise.completed = s.promise.completed)
    (hassigned : s'.promise.completedAssigned = s.promise.completedAssigned)
    (haccepted : s'.accepted = s.accepted) (hinvocations : s'.invocations = s.invocations)
    (hholders : s'.holders = s.holders)
    (hbody : s'.body = s.body ∨ s.body.settled = false ∧ s'.body.settled = false)
    (hending : ∀ x, s.ending = some x → s'.ending = some x)
    (hcancelled : s.cancelled = true → s'.cancelled = true) : HandlerInv s' where
  assigned := by rw [hassigned, haccepted]; exact h.assigned
  count := by
    have howed : s'.body.owed = s.body.owed := by
      rcases hbody with hsame | ⟨hold, hnew⟩
      · rw [hsame]
      · rw [Body.owed_of_not_settled hold, Body.owed_of_not_settled hnew]
    have hcount := h.count
    unfold State.owed State.due at hcount ⊢
    rw [hcompleted, hinvocations, hholders, haccepted, howed]
    exact hcount
  stored := by
    intro handler hstored
    rw [hcompleted] at hstored
    rcases h.stored handler hstored with ⟨hacc, hsettled⟩
    refine ⟨haccepted.trans hacc, ?_⟩
    rcases hbody with hsame | ⟨-, hnew⟩
    · rw [hsame]
      exact hsettled
    · exact hnew
  taken := by
    intro handler status htaken
    rcases hbody with hsame | ⟨-, hnew⟩
    · rw [hsame] at htaken
      rcases h.taken handler status htaken with ⟨hacc, hjust⟩
      exact ⟨haccepted.trans hacc, hjust.mono hending hcancelled (settled_of_settled (Or.inl hsame))⟩
    · rw [htaken] at hnew
      cases hnew
  holding := by
    intro i handler status hi
    rw [hholders] at hi
    rcases h.holding i handler status hi with ⟨hacc, hjust⟩
    exact ⟨haccepted.trans hacc, hjust.mono hending hcancelled (settled_of_settled hbody)⟩
  invoked := by
    rw [hinvocations]
    exact fun v hv => (h.invoked v hv).mono hending hcancelled (settled_of_settled hbody)
  byCoroutine := by
    rw [hinvocations, haccepted]
    exact h.byCoroutine
  byHolder := by
    rw [hinvocations, haccepted]
    intro v hv hby
    rcases h.byHolder v hv hby with ⟨hacc, hearly⟩
    exact ⟨hacc, fun hended => (hearly hended).imp_right hcancelled⟩

/-- `set_completed` takes the handler that is stored. -/
theorem HandlerInv.setCompleted (h : HandlerInv s) (hs : StatusInv s) (hbody : s.body = .ended) :
    HandlerInv s.setCompleted where
  assigned := h.assigned
  count := by
    have hcount := h.count
    have howed : (Body.invoking s.promise.completed
        (if s.promise.status = .started then .completed else s.promise.status)).owed =
          s.promise.completed.toList.length := by
      cases s.promise.completed with
      | none => rfl
      | some handler => rfl
    unfold State.owed at hcount
    rw [hbody] at hcount
    show [].length + Body.owed (.invoking _ _) + _ + _ = _
    rw [howed, List.length_nil, Nat.zero_add]
    exact hcount
  stored := nofun
  taken := by
    intro handler status htaken
    simp only [State.setCompleted, Body.invoking.injEq] at htaken
    rcases htaken with ⟨hstored, rfl⟩
    refine ⟨(h.stored handler hstored).1, ?_⟩
    apply (hs.setCompleted hbody).justified
    show (if s.promise.status = .started then AsyncStatus.completed else s.promise.status) ≠ _
    split
    · nofun
    · assumption
  holding i handler status hi := (h.holding i handler status hi).imp_right Justified.settle
  invoked v hv := (h.invoked v hv).settle
  byCoroutine := h.byCoroutine
  byHolder := h.byHolder

/-- The coroutine has invoked the handler, if there was one. -/
theorem HandlerInv.invokeCompleted (h : HandlerInv s) (hs : StatusInv s) {handler : Option ℕ}
    {status : AsyncStatus} (hbody : s.body = .invoking handler status)
    (hstep : step kind s .invokeCompleted = some s') : HandlerInv s' := by
  have hcount := h.count
  unfold State.owed at hcount
  rw [hbody] at hcount
  cases handler with
  | none =>
      simp only [step, hbody] at hstep
      rw [← Option.some.inj hstep]
      refine { h with
        count := hcount
        stored := ?_
        taken := fun handler status htaken => by cases htaken
        holding := fun i h' st hi => (h.holding i h' st hi).imp_right Justified.settle
        invoked := fun v hv => (h.invoked v hv).settle }
      intro handler hstored
      have hsettled := (h.stored handler hstored).2
      rw [hbody] at hsettled
      cases hsettled
  | some handler =>
      simp only [step, hbody] at hstep
      rw [← Option.some.inj hstep]
      rcases h.taken handler status hbody with ⟨hacc, hjust⟩
      have hended : s.ending.isSome = true := by
        apply Option.isSome_iff_ne_none.mpr
        intro hnone
        have hrunning := hs.ending.mp hnone
        rw [hbody] at hrunning
        cases hrunning
      constructor
      · exact h.assigned
      · show s.promise.completed.toList.length + 0 + (s.holders.map Holder.owed).sum +
          (s.invocations ++ [_]).length = s.due
        simp only [Body.owed] at hcount
        rw [List.length_append, List.length_singleton]
        omega
      · intro handler' hstored
        have hsettled := (h.stored handler' hstored).2
        rw [hbody] at hsettled
        cases hsettled
      · intro handler' status' htaken
        cases htaken
      · exact fun i h' st hi => (h.holding i h' st hi).imp_right Justified.settle
      · intro v hv
        rcases List.mem_append.mp hv with hold | hnew
        · exact (h.invoked v hold).settle
        · rw [List.mem_singleton.mp hnew]
          exact hjust.settle
      · intro v hv hby
        rcases List.mem_append.mp hv with hold | hnew
        · exact h.byCoroutine v hold hby
        · rw [List.mem_singleton.mp hnew]
          exact ⟨hacc, hended⟩
      · intro v hv hby
        rcases List.mem_append.mp hv with hold | hnew
        · exact h.byHolder v hold hby
        · rw [List.mem_singleton.mp hnew] at hby
          cases hby

/-- No call of `Completed` has been accepted, so there is no handler anywhere. -/
theorem HandlerInv.unassigned (h : HandlerInv s) (hassigned : ¬ s.promise.completedAssigned = true) :
    s.accepted = none ∧ s.promise.completed.toList.length = 0 ∧ s.body.owed = 0 ∧
      (s.holders.map Holder.owed).sum = 0 ∧ s.invocations = [] := by
  have haccepted : s.accepted = none := by
    rw [h.assigned, Option.isSome_iff_ne_none, not_not] at hassigned
    exact hassigned
  have hcount := h.count
  unfold State.owed State.due at hcount
  rw [haccepted] at hcount
  simp only [Nat.add_eq_zero_iff] at hcount
  rcases hcount with ⟨⟨⟨hstored, hbody⟩, hholders⟩, hinvocations⟩
  exact ⟨haccepted, hstored, hbody, hholders, List.length_eq_zero_iff.mp hinvocations⟩

/-- As long as the operation is started, `set_completed` has not taken the handler. -/
theorem StatusInv.not_settled (h : StatusInv s) (hstarted : s.promise.status = .started) :
    s.body.settled = false := by
  have hstatus := h.status
  rw [hstarted] at hstatus
  rcases hending : s.ending with - | e | v
  · rw [h.ending.mp hending]
    rfl
  · rw [hending] at hstatus
    cases e with
    | canceled => cases hstatus
    | other code => cases hstatus
  · rw [hending] at hstatus
    cases hsettled : s.body.settled with
    | false => rfl
    | true =>
        rw [hsettled] at hstatus
        cases hcancelled : s.cancelled with
        | false =>
            rw [hcancelled] at hstatus
            cases hstatus
        | true =>
            rw [hcancelled] at hstatus
            cases hstatus

/-- What `Completed` leaves when the operation is not started any more. -/
theorem owed_set_invoking {l : List Holder} {i : ℕ} (hidle : l[i]? = some .idle) (handler : ℕ)
    (status : AsyncStatus) :
    ((l.set i (.invoking handler status)).map Holder.owed).sum = (l.map Holder.owed).sum + 1 :=
  Executor.sum_map_set Holder.owed hidle (.invoking handler status)

theorem HandlerInv.completed (h : HandlerInv s) (hs : StatusInv s) {i : ℕ} (hidle : s.Idle i)
    (handler : Option ℕ) : HandlerInv (s.completed i handler) := by
  unfold State.completed
  split
  · exact h
  · rename_i hassigned
    rcases h.unassigned hassigned with ⟨haccepted, hstored, hbody, hholders, hinvocations⟩
    have hnobody : ∀ h' status, s.body ≠ .invoking (some h') status := by
      intro h' status htaken
      rw [htaken] at hbody
      cases hbody
    have hnoholder : ∀ (j h' : ℕ) (status : AsyncStatus), s.holders[j]? ≠ some (Holder.invoking h' status) := by
      intro j h' status hj
      have hacc := (h.holding j h' status hj).1
      rw [haccepted] at hacc
      cases hacc
    split
    · -- the handler is stored, and `set_completed` will find it
      rename_i hstarted
      constructor
      · rfl
      · show handler.toList.length + s.body.owed + (s.holders.map Holder.owed).sum +
          s.invocations.length = _
        rw [hbody, hholders, hinvocations]
        cases handler with
        | none => rfl
        | some handler => rfl
      · intro h' hh'
        obtain rfl : handler = some h' := hh'
        exact ⟨rfl, hs.not_settled hstarted⟩
      · exact fun h' status htaken => absurd htaken (hnobody h' status)
      · exact fun j h' status hj => absurd hj (hnoholder j h' status)
      · rw [hinvocations]
        nofun
      · rw [hinvocations]
        nofun
      · rw [hinvocations]
        nofun
    · -- the caller is to invoke it
      rename_i hstarted
      constructor
      · rfl
      · cases handler with
        | none =>
            show s.promise.completed.toList.length + s.body.owed +
              (s.holders.map Holder.owed).sum + s.invocations.length = 0
            rw [hstored, hbody, hholders, hinvocations]
            rfl
        | some handler =>
            show s.promise.completed.toList.length + s.body.owed +
              ((s.holders.set i _).map Holder.owed).sum + s.invocations.length = 1
            rw [hstored, hbody, owed_set_invoking hidle, hholders, hinvocations]
            rfl
      · intro h' hh'
        have hnone : s.promise.completed = none :=
          Option.toList_eq_nil_iff.mp (List.length_eq_zero_iff.mp hstored)
        exact absurd (hnone.symm.trans hh') nofun
      · exact fun h' status htaken => absurd htaken (hnobody h' status)
      · intro j h' status hj
        cases handler with
        | none => exact absurd hj (hnoholder j h' status)
        | some handler =>
            rcases eq_or_ne i j with rfl | hne
            · rw [List.getElem?_set_self' , hidle] at hj
              obtain ⟨rfl, rfl⟩ := Holder.invoking.inj (Option.some.inj hj)
              exact ⟨rfl, hs.justified hstarted⟩
            · rw [List.getElem?_set_ne hne] at hj
              exact absurd hj (hnoholder j h' status)
      · rw [hinvocations]
        nofun
      · rw [hinvocations]
        nofun
      · rw [hinvocations]
        nofun

/-- The holder of reference `i` invokes the handler it came with. -/
theorem HandlerInv.invoke (h : HandlerInv s) {i handler : ℕ}
    {status : AsyncStatus} (hi : s.holders[i]? = some (.invoking handler status)) :
    HandlerInv { s.record handler status false with holders := s.holders.set i .idle } := by
  rcases h.holding i handler status hi with ⟨hacc, hjust⟩
  constructor
  · exact h.assigned
  · have hset := Executor.sum_map_set Holder.owed hi .idle
    have hcount := h.count
    unfold State.owed at hcount
    show s.promise.completed.toList.length + s.body.owed +
      ((s.holders.set i .idle).map Holder.owed).sum + (s.invocations ++ [_]).length = s.due
    rw [List.length_append, List.length_singleton]
    simp only [Holder.owed] at hset
    omega
  · exact h.stored
  · exact h.taken
  · intro j handler' status' hj
    rcases eq_or_ne i j with rfl | hne
    · rw [List.getElem?_set_self', hi] at hj
      cases hj
    · exact h.holding j handler' status' ((List.getElem?_set_ne hne).symm.trans hj)
  · intro v hv
    rcases List.mem_append.mp hv with hold | hnew
    · exact h.invoked v hold
    · rw [List.mem_singleton.mp hnew]
      exact hjust
  · intro v hv hby
    rcases List.mem_append.mp hv with hold | hnew
    · exact h.byCoroutine v hold hby
    · rw [List.mem_singleton.mp hnew] at hby
      cases hby
  · intro v hv hby
    rcases List.mem_append.mp hv with hold | hnew
    · exact h.byHolder v hold hby
    · rw [List.mem_singleton.mp hnew]
      refine ⟨hacc, fun hended => ?_⟩
      -- the body runs, so only `Cancel` can have ended the operation
      have hnone : s.ending = none := by
        rw [← Option.not_isSome_iff_eq_none]
        simp only [Bool.not_eq_true]
        exact hended
      cases hstatus : status with
      | started => exact absurd hstatus hjust.started
      | completed =>
          rcases hjust.completed hstatus with ⟨-, v, hv⟩
          rw [hnone] at hv
          cases hv
      | error =>
          rcases hjust.error hstatus with ⟨code, hcode⟩
          rw [hnone] at hcode
          cases hcode
      | canceled =>
          rcases hjust.canceled hstatus with hcancelled | hcanceled
          · exact ⟨rfl, hcancelled⟩
          · rw [hnone] at hcanceled
            cases hcanceled

/-- Which references are held changes, no handler is on its way. -/
theorem HandlerInv.hold (h : HandlerInv s) {holders : List Holder} (promise : Promise α)
    (hcompleted : promise.completed = s.promise.completed)
    (hassigned : promise.completedAssigned = s.promise.completedAssigned) (destroyed : ℕ)
    (howed : (holders.map Holder.owed).sum = (s.holders.map Holder.owed).sum)
    (hholding : ∀ (j handler : ℕ) (status : AsyncStatus), holders[j]? = some (Holder.invoking handler status) →
      s.holders[j]? = some (Holder.invoking handler status)) :
    HandlerInv { s with promise := promise, holders := holders, destroyed := destroyed } where
  assigned := hassigned.trans h.assigned
  count := by
    show promise.completed.toList.length + s.body.owed + (holders.map Holder.owed).sum +
      s.invocations.length = s.due
    rw [hcompleted, howed]
    exact h.count
  stored := by
    intro handler hstored
    exact h.stored handler (hcompleted.symm.trans hstored)
  taken := h.taken
  holding j handler status hj := h.holding j handler status (hholding j handler status hj)
  invoked := h.invoked
  byCoroutine := h.byCoroutine
  byHolder := h.byHolder

theorem step_handlerInv (hs : StatusInv s) (h : HandlerInv s)
    (hstep : step kind s e = some s') : HandlerInv s' := by
  cases e with
  | returns value =>
      rcases Option.ite_none_right_eq_some.mp hstep with ⟨hbody, heq⟩
      rw [← Option.some.inj heq]
      have hnone := hs.ending.mpr hbody
      refine h.congr rfl rfl rfl rfl rfl (Or.inr ⟨by rw [hbody]; rfl, rfl⟩) ?_ id
      rw [hnone]
      nofun
  | throws ex =>
      rcases Option.ite_none_right_eq_some.mp hstep with ⟨hbody, heq⟩
      rw [← Option.some.inj heq]
      have hnone := hs.ending.mpr hbody
      refine h.congr rfl rfl rfl rfl rfl (Or.inr ⟨by rw [hbody]; rfl, rfl⟩) ?_ id
      rw [hnone]
      nofun
  | setCompleted =>
      rcases Option.ite_none_right_eq_some.mp hstep with ⟨hbody, heq⟩
      rw [← Option.some.inj heq]
      exact h.setCompleted hs hbody
  | invokeCompleted =>
      cases hbody : s.body with
      | invoking handler status => exact h.invokeCompleted hs hbody hstep
      | _ =>
          simp only [step, hbody] at hstep
          cases hstep
  | finalRelease =>
      rcases Option.ite_none_right_eq_some.mp hstep with ⟨hbody, heq⟩
      rw [← Option.some.inj heq]
      have hcount := h.count
      unfold State.owed at hcount
      rw [hbody] at hcount
      refine { h with
        count := hcount
        stored := ?_
        taken := fun handler status htaken => by cases htaken
        holding := fun i h' st hi => (h.holding i h' st hi).imp_right Justified.settle
        invoked := fun v hv => (h.invoked v hv).settle }
      intro handler hstored
      have hsettled := (h.stored handler hstored).2
      rw [hbody] at hsettled
      cases hsettled
  | completed i handler =>
      rcases Option.ite_none_right_eq_some.mp hstep with ⟨hidle, heq⟩
      rw [← Option.some.inj heq]
      exact h.completed hs hidle handler
  | invoke i =>
      simp only [step] at hstep
      split at hstep
      · rename_i hi
        rw [← Option.some.inj hstep]
        exact h.invoke hi
      · cases hstep
  | cancel i =>
      rcases Option.ite_none_right_eq_some.mp hstep with ⟨-, heq⟩
      rw [← Option.some.inj heq]
      unfold State.cancel
      split
      · exact h.congr rfl rfl rfl rfl rfl (Or.inl rfl) (fun _ => id) (fun _ => rfl)
      · exact h
  | getResults i =>
      rcases Option.ite_none_right_eq_some.mp hstep with ⟨-, heq⟩
      rw [← Option.some.inj heq]
      exact h.congr rfl rfl rfl rfl rfl (Or.inl rfl) (fun _ => id) id
  | addRef i =>
      rcases Option.ite_none_right_eq_some.mp hstep with ⟨-, heq⟩
      rw [← Option.some.inj heq]
      refine h.hold { s.promise with references := s.promise.references + 1 } rfl rfl
        s.destroyed ?_ ?_
      · rw [List.map_append, List.sum_append]
        rfl
      · intro j handler status hj
        rcases lt_trichotomy j s.holders.length with hlt | rfl | hgt
        · rw [List.getElem?_append_left hlt] at hj
          exact hj
        · rw [List.getElem?_concat_length] at hj
          cases hj
        · rw [List.getElem?_append_right hgt.le] at hj
          rw [List.getElem?_eq_none (by rw [List.length_singleton]; omega)] at hj
          cases hj
  | release i =>
      rcases Option.ite_none_right_eq_some.mp hstep with ⟨hidle, heq⟩
      rw [← Option.some.inj heq]
      refine h.hold s.subtractReference.promise rfl rfl s.subtractReference.destroyed ?_ ?_
      · exact Executor.sum_map_set Holder.owed hidle .gone
      · intro j handler status hj
        rcases eq_or_ne i j with rfl | hne
        · rw [List.getElem?_set_self', hidle] at hj
          cases hj
        · exact (List.getElem?_set_ne hne).symm.trans hj

/-- Both invariants hold in every state of every run. -/
theorem reachable_inv (hs : (machine kind).Reachable s) : StatusInv s ∧ HandlerInv s := by
  have hinv : (machine kind).Inductive fun s => StatusInv s ∧ HandlerInv s := by
    constructor
    · rintro s rfl
      exact ⟨statusInv_new kind, handlerInv_new kind⟩
    · rintro s e s' ⟨hs, hh⟩ hstep
      exact ⟨step_statusInv hs hstep, step_handlerInv hs hh hstep⟩
  exact hinv.reachable hs

end Handler


/-! ## Once -/

/-- The handler that a step registers. -/
def Event.handler : Event α → Option (Option ℕ)
  | .completed _ handler => some handler
  | _ => none

/-- The handler of the first call of `Completed`; the later calls are refused. -/
def firstHandler (es : List (Event α)) : Option (Option ℕ) := es.findSome? Event.handler

/-- `set_completed` is over, and nobody is about to invoke a handler. -/
def Settled (s : State α) : Prop :=
  (s.body = .releasing ∨ s.body = .finished) ∧
    ∀ (i h : ℕ) (status : AsyncStatus), s.holders[i]? ≠ some (Holder.invoking h status)

section Once

variable {kind : Kind α} {s s' : State α}

theorem accepted_completed (h : HandlerInv s) (i : ℕ) (handler : Option ℕ) :
    (s.completed i handler).accepted.map Prod.fst =
      (s.accepted.map Prod.fst).or (some handler) := by
  unfold State.completed
  split
  · rename_i hassigned
    rw [h.assigned] at hassigned
    rcases Option.isSome_iff_exists.mp hassigned with ⟨a, ha⟩
    rw [ha]
    rfl
  · rename_i hassigned
    rw [(h.unassigned hassigned).1]
    split <;> rfl

/-- The handler that is accepted stays so. -/
theorem step_accepted {e : Event α} (h : HandlerInv s) (hstep : step kind s e = some s') :
    s'.accepted.map Prod.fst = (s.accepted.map Prod.fst).or e.handler := by
  cases e with
  | completed i handler =>
      rcases Option.ite_none_right_eq_some.mp hstep with ⟨-, heq⟩
      rw [← Option.some.inj heq]
      exact accepted_completed h i handler
  | invokeCompleted =>
      simp only [step] at hstep
      split at hstep
      · rw [← Option.some.inj hstep]
        exact Option.or_none.symm
      · rw [← Option.some.inj hstep]
        exact Option.or_none.symm
      · cases hstep
  | invoke i =>
      simp only [step] at hstep
      split at hstep
      · rw [← Option.some.inj hstep]
        exact Option.or_none.symm
      · cases hstep
  | cancel i =>
      rcases Option.ite_none_right_eq_some.mp hstep with ⟨-, heq⟩
      rw [← Option.some.inj heq]
      unfold State.cancel
      split <;> exact Option.or_none.symm
  | _ =>
      rcases Option.ite_none_right_eq_some.mp hstep with ⟨-, heq⟩
      rw [← Option.some.inj heq]
      exact Option.or_none.symm

theorem run_accepted {es : List (Event α)} (hs : StatusInv s) (h : HandlerInv s)
    (hrun : (machine kind).run s es = some s') :
    s'.accepted.map Prod.fst = (s.accepted.map Prod.fst).or (firstHandler es) := by
  induction es generalizing s with
  | nil =>
      rw [Machine.run_nil, Option.some.injEq] at hrun
      rw [hrun]
      exact Option.or_none.symm
  | cons e es ih =>
      rcases Machine.run_cons_eq_some.mp hrun with ⟨t, hstep, hrest⟩
      rw [ih (step_statusInv hs hstep) (step_handlerInv hs h hstep) hrest, step_accepted h hstep,
        Option.or_assoc]
      congr 1
      cases hhandler : e.handler with
      | none => simp [firstHandler, hhandler]
      | some handler => simp [firstHandler, hhandler]

theorem HandlerInv.length_le (h : HandlerInv s) : s.invocations.length ≤ 1 := by
  have hcount := h.count
  have hdue : s.due ≤ 1 := by
    unfold State.due
    split
    · rfl
    · exact Nat.zero_le 1
  omega

/-- Whoever invokes it, it is the handler that was accepted. -/
theorem HandlerInv.handler_of_mem (h : HandlerInv s) {v : Invocation} (hv : v ∈ s.invocations) :
    s.accepted.map Prod.fst = some (some v.handler) := by
  cases hby : v.byCoroutine with
  | true => rw [(h.byCoroutine v hv hby).1]; rfl
  | false => rw [(h.byHolder v hv hby).1]; rfl

/-- A handler that was accepted is with nobody once everything is settled: it has been invoked. -/
theorem HandlerInv.invoked_of_settled (h : HandlerInv s) (hsettled : Settled s) {handler : ℕ}
    (haccepted : s.accepted.map Prod.fst = some (some handler)) :
    ∃ v, s.invocations = [v] ∧ v.handler = handler := by
  rcases hsettled with ⟨hbody, hholders⟩
  have hstored : s.promise.completed = none := by
    rw [Option.eq_none_iff_forall_ne_some]
    intro h' hh'
    have hnot := (h.stored h' hh').2
    rcases hbody with hbody | hbody
    · rw [hbody] at hnot
      cases hnot
    · rw [hbody] at hnot
      cases hnot
  have howed : s.body.owed = 0 := by
    rcases hbody with hbody | hbody
    · rw [hbody]
      rfl
    · rw [hbody]
      rfl
  have hsum : (s.holders.map Holder.owed).sum = 0 := by
    rw [List.sum_eq_zero_iff]
    intro n hn
    rcases List.mem_map.mp hn with ⟨holder, hmem, rfl⟩
    cases holder with
    | invoking h' status =>
        rcases List.getElem?_of_mem hmem with ⟨i, hi⟩
        exact absurd hi (hholders i h' status)
    | _ => rfl
  have hdue : s.due = 1 := by
    rcases Option.map_eq_some_iff.mp haccepted with ⟨⟨x, status⟩, hacc, rfl⟩
    unfold State.due
    rw [hacc]
  have hcount := h.count
  unfold State.owed at hcount
  rw [hstored, howed, hsum, hdue] at hcount
  have hone : s.invocations.length = 1 := by simpa using hcount
  rcases List.length_eq_one_iff.mp hone with ⟨v, hv⟩
  have hmem := h.handler_of_mem (v := v) (by rw [hv]; exact List.mem_singleton_self v)
  rw [haccepted] at hmem
  exact ⟨v, hv, (Option.some.inj (Option.some.inj hmem)).symm⟩

/-- In every run the completed handler is invoked at most once, it is the one of the first call
of `Completed`, its status is what has become of the operation, and it is invoked before the
body has ended only with `Canceled`, after a `Cancel`. Once `set_completed` is over and nobody
is about to invoke it, a handler that was registered has been invoked. -/
theorem completed_invoked_once {es : List (Event α)}
    (hrun : (machine kind).run (State.new kind) es = some s) :
    s.invocations.length ≤ 1 ∧
      (∀ v ∈ s.invocations, firstHandler es = some (some v.handler) ∧
        Justified s.cancelled s.ending s.body.settled v.status ∧
        (v.bodyEnded = false → v.status = .canceled ∧ s.cancelled = true)) ∧
      ∀ handler, firstHandler es = some (some handler) → Settled s →
        ∃ v, s.invocations = [v] ∧ v.handler = handler := by
  have hreachable : (machine kind).Reachable s := Machine.Reachable.run (.init rfl) hrun
  rcases reachable_inv hreachable with ⟨-, h⟩
  have hfirst : s.accepted.map Prod.fst = firstHandler es := by
    rw [run_accepted (statusInv_new kind) (handlerInv_new kind) hrun]
    rfl
  refine ⟨h.length_le, fun v hv => ⟨?_, h.invoked v hv, fun hended => ?_⟩, ?_⟩
  · rw [← hfirst]
    exact h.handler_of_mem hv
  · cases hby : v.byCoroutine with
    | true =>
        have hyes := (h.byCoroutine v hv hby).2
        rw [hended] at hyes
        cases hyes
    | false => exact (h.byHolder v hv hby).2 hended
  · intro handler hhandler hsettled
    exact h.invoked_of_settled hsettled (hfirst.trans hhandler)

/-- The caller cancels while the body runs and registers two handlers: the first is invoked with
`Canceled`, while the body goes on, and not a second time when the body returns. -/
theorem completed_invoked_once_canceled : ∃ s : State ℕ,
    (machine (.scalar 0)).run (State.new (.scalar 0)) [.cancel 0, .completed 0 (some 7),
      .invoke 0, .completed 0 (some 8), .returns 5, .setCompleted, .invokeCompleted] = some s ∧
    s.invocations = [⟨7, .canceled, false, false⟩] ∧ s.invocations.length ≤ 1 := by
  have hrun : ∃ s : State ℕ,
      (machine (.scalar 0)).run (State.new (.scalar 0)) [.cancel 0, .completed 0 (some 7),
        .invoke 0, .completed 0 (some 8), .returns 5, .setCompleted, .invokeCompleted] = some s ∧
      s.invocations = [⟨7, .canceled, false, false⟩] := ⟨_, rfl, rfl⟩
  obtain ⟨s, hrun, hinvocations⟩ := hrun
  exact ⟨s, hrun, hinvocations, (completed_invoked_once hrun).1⟩

end Once

end CppCoroutines.WinRTPromise
