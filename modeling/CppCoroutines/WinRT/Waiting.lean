import CppCoroutines.WinRT.Awaited

/-!
# A thread that waits for a coroutine

`wait_get`, which `main` of `winrt_client.cpp` waits for `client` with, and `wait_for`, which `main`
of `winrt_server.cpp` waits for its sessions with. Both register a handler that sets an event, and
the thread waits for the event; `wait_get` asks for the status before and for the results after.
-/

namespace CppCoroutines.WinRTWait

open PoolAwaiter (AsyncStatus)
open WinRTPromise (Got Holder Justified Kind)
open WinRTAwait (Comes)

inductive Call where
  | waitGet
  | waitFor
deriving DecidableEq, Repr

/-- How far the call is. -/
inductive Phase where
  | calling
  /-- in `wait_for_completed`, before `Completed` -/
  | registering
  /-- in `Completed`, or waiting for the event -/
  | waiting
  /-- the status is known -/
  | returned
  /-- `wait_get` has come to something -/
  | ended
  /-- the thread has released its reference -/
  | released
deriving DecidableEq, Repr

/-- The coroutine, with the holders of references to it, and the thread, which holds the first
one. -/
structure State (α : Type) where
  async : WinRTPromise.State α
  phase : Phase
  /-- `status` of `wait_get`, and what `wait_for` returns -/
  status : AsyncStatus
  timedOut : Bool
  /-- what `wait_get` has come to -/
  outcome : Option (Got α)

inductive Event (α : Type) where
  | enter
  /-- `async.Completed(delegate)` -/
  | register
  /-- the event has been set -/
  | wake
  | timeout
  /-- `check_status_canceled` and `async.GetResults()` -/
  | results
  | release
  /-- a step of the coroutine, or of the holder of another reference -/
  | async (e : WinRTPromise.Event α)
deriving DecidableEq, Repr

/-- Where the thread has done with its reference. -/
def Call.last : Call → Phase
  | .waitGet => .ended
  | .waitFor => .returned

namespace State

variable {α : Type}

def new (kind : Kind α) : State α where
  async := WinRTPromise.State.new kind
  phase := .calling
  status := .started
  timedOut := false
  outcome := none

def enter (call : Call) (s : State α) : State α :=
  match call with
  | .waitGet =>
      -- `async.Status()`
      if s.async.promise.status = .started then { s with phase := .registering }
      else { s with status := s.async.promise.status, phase := .returned }
  | .waitFor => { s with phase := .registering }

/-- `status` of the state that the handler shares with the thread; the handler sets it, and then
the event. -/
def shared (s : State α) : AsyncStatus :=
  match s.async.invocations with
  | v :: _ => v.status
  | [] => .started

def asyncStep (kind : Kind α) (s : State α) (e : WinRTPromise.Event α) : Option (State α) :=
  (WinRTPromise.step kind s.async e).map fun c => { s with async := c }

def results (kind : Kind α) (s : State α) : Option (State α) :=
  -- `check_status_canceled`
  if s.status = .canceled then
    some { s with phase := .ended, outcome := some (.thrown .canceled) }
  else
    asyncStep kind { s with phase := .ended, outcome := some (s.async.answer kind) } (.getResults 0)

end State

variable {α : Type}

/-- Only this thread registers a handler and asks for the results. -/
def allows : WinRTPromise.Event α → Bool
  | .completed _ _ | .getResults _ => false
  | .release i => i != 0
  | _ => true

def step (call : Call) (kind : Kind α) (s : State α) : Event α → Option (State α)
  | .enter => if s.phase = .calling then some (s.enter call) else none
  | .register =>
      if s.phase = .registering then
        State.asyncStep kind { s with phase := .waiting } (.completed 0 (some 0))
      else none
  | .wake =>
      -- `Completed` has returned, and the handler has been invoked
      if s.phase = .waiting ∧ s.async.Idle 0 ∧ s.async.invocations.isEmpty = false then
        some { s with status := s.shared, phase := .returned }
      else none
  | .timeout =>
      if call = .waitFor ∧ s.phase = .waiting ∧ s.async.Idle 0 then
        some { s with status := s.shared, phase := .returned, timedOut := true }
      else none
  | .results => if call = .waitGet ∧ s.phase = .returned then s.results kind else none
  | .release =>
      if s.phase = call.last then
        State.asyncStep kind { s with phase := .released } (.release 0)
      else none
  | .async e => if allows e then s.asyncStep kind e else none

/-- A thread that has called the coroutine and waits for it. -/
def machine (call : Call) (kind : Kind α) : Machine (State α) (Event α) where
  init s := s = State.new kind
  step := step call kind

theorem State.asyncStep_eq_some {kind : Kind α} {s s' : State α} {e : WinRTPromise.Event α} :
    s.asyncStep kind e = some s' ↔
      ∃ c, WinRTPromise.step kind s.async e = some c ∧ { s with async := c } = s' :=
  Option.map_eq_some_iff

/-! ## The steps -/

section Steps

variable {call : Call} {kind : Kind α} {s s' : State α}

/-- What a step is. -/
inductive Steps (call : Call) (kind : Kind α) (s : State α) : State α → Prop where
  | enter (hphase : s.phase = .calling) : Steps call kind s { s with phase := .registering }
  /-- the coroutine has completed before -/
  | known (hcall : call = .waitGet) (hphase : s.phase = .calling)
      (hstatus : s.async.promise.status ≠ .started) :
      Steps call kind s { s with status := s.async.promise.status, phase := .returned }
  | register {c : WinRTPromise.State α} (hphase : s.phase = .registering)
      (hc : WinRTPromise.step kind s.async (.completed 0 (some 0)) = some c) :
      Steps call kind s { s with async := c, phase := .waiting }
  | wake (hphase : s.phase = .waiting) (hinvoked : s.async.invocations ≠ []) :
      Steps call kind s { s with status := s.shared, phase := .returned }
  | timeout (hcall : call = .waitFor) (hphase : s.phase = .waiting) :
      Steps call kind s { s with status := s.shared, phase := .returned, timedOut := true }
  | canceled (hcall : call = .waitGet) (hphase : s.phase = .returned)
      (hstatus : s.status = .canceled) :
      Steps call kind s { s with phase := .ended, outcome := some (.thrown .canceled) }
  | answered {c : WinRTPromise.State α} (hcall : call = .waitGet) (hphase : s.phase = .returned)
      (hc : WinRTPromise.step kind s.async (.getResults 0) = some c) :
      Steps call kind s
        { s with async := c, phase := .ended, outcome := some (s.async.answer kind) }
  | release {c : WinRTPromise.State α} (hphase : s.phase = call.last)
      (hc : WinRTPromise.step kind s.async (.release 0) = some c) :
      Steps call kind s { s with async := c, phase := .released }
  | async {e : WinRTPromise.Event α} {c : WinRTPromise.State α} (hallows : allows e = true)
      (hc : WinRTPromise.step kind s.async e = some c) : Steps call kind s { s with async := c }

theorem step_cases {e : Event α} (hstep : step call kind s e = some s') :
    Steps call kind s s' := by
  cases e with
  | enter =>
      rcases Option.ite_none_right_eq_some.mp hstep with ⟨hphase, heq⟩
      rw [← Option.some.inj heq]
      cases call with
      | waitGet =>
          show Steps _ _ _ (if s.async.promise.status = .started then
            { s with phase := .registering }
            else { s with status := s.async.promise.status, phase := .returned })
          split
          · exact .enter hphase
          · rename_i hstatus
            exact .known rfl hphase hstatus
      | waitFor => exact .enter hphase
  | register =>
      rcases Option.ite_none_right_eq_some.mp hstep with ⟨hphase, hasync⟩
      rcases State.asyncStep_eq_some.mp hasync with ⟨c, hc, rfl⟩
      exact .register hphase hc
  | wake =>
      rcases Option.ite_none_right_eq_some.mp hstep with ⟨⟨hphase, -, hinvoked⟩, heq⟩
      rw [← Option.some.inj heq]
      refine .wake hphase fun hnil => ?_
      rw [hnil] at hinvoked
      cases hinvoked
  | timeout =>
      rcases Option.ite_none_right_eq_some.mp hstep with ⟨⟨hcall, hphase, -⟩, heq⟩
      rw [← Option.some.inj heq]
      exact .timeout hcall hphase
  | results =>
      rcases Option.ite_none_right_eq_some.mp hstep with ⟨⟨hcall, hphase⟩, hresults⟩
      unfold State.results at hresults
      split at hresults
      · rename_i hstatus
        rw [← Option.some.inj hresults]
        exact .canceled hcall hphase hstatus
      · rcases State.asyncStep_eq_some.mp hresults with ⟨c, hc, rfl⟩
        exact .answered hcall hphase hc
  | release =>
      rcases Option.ite_none_right_eq_some.mp hstep with ⟨hphase, hasync⟩
      rcases State.asyncStep_eq_some.mp hasync with ⟨c, hc, rfl⟩
      exact .release hphase hc
  | async e =>
      rcases Option.ite_none_right_eq_some.mp hstep with ⟨hallows, hasync⟩
      rcases State.asyncStep_eq_some.mp hasync with ⟨c, hc, rfl⟩
      exact .async hallows hc

/-- The promise sees the holder of a reference. -/
theorem async_projection (call : Call) (kind : Kind α) :
    (machine call kind).Projection (WinRTPromise.machine kind) State.async := by
  constructor
  · rintro s rfl
    rfl
  · intro s e s' hstep
    cases step_cases hstep with
    | register _ hc => exact Or.inr ⟨.completed 0 (some 0), hc⟩
    | answered _ _ hc => exact Or.inr ⟨.getResults 0, hc⟩
    | release _ hc => exact Or.inr ⟨.release 0, hc⟩
    | @async e _ _ hc => exact Or.inr ⟨e, hc⟩
    | _ => exact Or.inl rfl

end Steps

/-! ## What the others do -/

section Frames

variable {kind : Kind α} {c c' : WinRTPromise.State α}

/-- A status that is justified remains so. -/
theorem justified_step {e : WinRTPromise.Event α} (hs : WinRTPromise.StatusInv c)
    (hstep : WinRTPromise.step kind c e = some c') {status : AsyncStatus}
    (h : Justified c.cancelled c.ending c.body.settled status) :
    Justified c'.cancelled c'.ending c'.body.settled status := by
  cases e with
  | returns value =>
      rcases Option.ite_none_right_eq_some.mp hstep with ⟨hbody, heq⟩
      rw [← Option.some.inj heq]
      refine h.mono ?_ id ?_
      · rw [hs.ending.mpr hbody]
        intro x hx
        cases hx
      · rw [hbody]
        exact id
  | throws ex =>
      rcases Option.ite_none_right_eq_some.mp hstep with ⟨hbody, heq⟩
      rw [← Option.some.inj heq]
      refine h.mono ?_ id ?_
      · rw [hs.ending.mpr hbody]
        intro x hx
        cases hx
      · rw [hbody]
        exact id
  | setCompleted =>
      rcases Option.ite_none_right_eq_some.mp hstep with ⟨-, heq⟩
      rw [← Option.some.inj heq]
      exact h.settle
  | invokeCompleted =>
      simp only [WinRTPromise.step] at hstep
      split at hstep
      · rw [← Option.some.inj hstep]
        exact h.settle
      · rw [← Option.some.inj hstep]
        exact h.settle
      · cases hstep
  | finalRelease =>
      rcases Option.ite_none_right_eq_some.mp hstep with ⟨-, heq⟩
      rw [← Option.some.inj heq]
      exact h.settle
  | completed i handler =>
      rcases Option.ite_none_right_eq_some.mp hstep with ⟨-, heq⟩
      rw [← Option.some.inj heq]
      rcases WinRTPromise.completed_frame c i handler with ⟨hending, hcancelled, -, -, hbody⟩
      rw [hending, hcancelled, hbody]
      exact h
  | invoke i =>
      simp only [WinRTPromise.step] at hstep
      split at hstep
      · rw [← Option.some.inj hstep]
        exact h
      · cases hstep
  | cancel i =>
      rcases Option.ite_none_right_eq_some.mp hstep with ⟨-, heq⟩
      rw [← Option.some.inj heq]
      unfold WinRTPromise.State.cancel
      split
      · exact h.mono (fun _ => id) (fun _ => rfl) id
      · exact h
  | getResults i =>
      rcases Option.ite_none_right_eq_some.mp hstep with ⟨-, heq⟩
      rw [← Option.some.inj heq]
      exact h
  | addRef i =>
      rcases Option.ite_none_right_eq_some.mp hstep with ⟨-, heq⟩
      rw [← Option.some.inj heq]
      exact h
  | release i =>
      rcases Option.ite_none_right_eq_some.mp hstep with ⟨-, heq⟩
      rw [← Option.some.inj heq]
      exact h

/-- The thread does not see what they do. -/
structure Seen (c c' : WinRTPromise.State α) : Prop where
  accepted : c'.accepted = c.accepted
  results : c'.results = c.results
  early : c'.early = c.early
  reference : ∀ b : Holder, c.holders[0]? = some b →
    ∃ b' : Holder, c'.holders[0]? = some b' ∧ (b' = .gone ↔ b = .gone)

theorem Seen.of_same (haccepted : c'.accepted = c.accepted) (hresults : c'.results = c.results)
    (hearly : c'.early = c.early) (hholders : c'.holders[0]? = c.holders[0]?) : Seen c c' where
  accepted := haccepted
  results := hresults
  early := hearly
  reference b hb := ⟨b, hholders.trans hb, Iff.rfl⟩

theorem seen_of_allows {e : WinRTPromise.Event α} (hallows : allows e = true)
    (hstep : WinRTPromise.step kind c e = some c') : Seen c c' := by
  cases e with
  | completed i handler => cases hallows
  | getResults i => cases hallows
  | invokeCompleted =>
      simp only [WinRTPromise.step] at hstep
      split at hstep
      · rw [← Option.some.inj hstep]
        exact .of_same rfl rfl rfl rfl
      · rw [← Option.some.inj hstep]
        exact .of_same rfl rfl rfl rfl
      · cases hstep
  | invoke i =>
      simp only [WinRTPromise.step] at hstep
      split at hstep
      · rename_i h status hi
        rw [← Option.some.inj hstep]
        refine ⟨rfl, rfl, rfl, fun b hb => ?_⟩
        rcases eq_or_ne i 0 with rfl | hzero
        · obtain rfl := Option.some.inj (hi.symm.trans hb)
          refine ⟨.idle, ?_, iff_of_false (fun heq => by cases heq) (fun heq => by cases heq)⟩
          show (c.holders.set 0 .idle)[0]? = some .idle
          rw [List.getElem?_set_self', hi]
          rfl
        · exact ⟨b, (List.getElem?_set_ne hzero).trans hb, Iff.rfl⟩
      · cases hstep
  | cancel i =>
      rcases Option.ite_none_right_eq_some.mp hstep with ⟨-, heq⟩
      rw [← Option.some.inj heq]
      unfold WinRTPromise.State.cancel
      split
      · exact .of_same rfl rfl rfl rfl
      · exact .of_same rfl rfl rfl rfl
  | addRef i =>
      rcases Option.ite_none_right_eq_some.mp hstep with ⟨-, heq⟩
      rw [← Option.some.inj heq]
      refine ⟨rfl, rfl, rfl, fun b hb => ?_⟩
      exact ⟨b, (List.getElem?_append_left (List.getElem?_eq_some_iff.mp hb).1).trans hb, Iff.rfl⟩
  | release i =>
      rcases Option.ite_none_right_eq_some.mp hstep with ⟨-, heq⟩
      rw [← Option.some.inj heq]
      exact .of_same rfl rfl rfl (List.getElem?_set_ne (bne_iff_ne.mp hallows))
  | _ =>
      rcases Option.ite_none_right_eq_some.mp hstep with ⟨-, heq⟩
      rw [← Option.some.inj heq]
      exact .of_same rfl rfl rfl rfl

end Frames

/-! ## The invariant -/

/-- Where the call is, by the handler and by what has come of it. -/
def State.Stands (call : Call) (s : State α) : Prop :=
  match s.phase with
  | .calling | .registering => s.async.accepted = none ∧ s.outcome = none
  | .waiting => s.async.accepted.map Prod.fst = some (some 0) ∧ s.outcome = none
  | .returned => (s.status = .started → s.timedOut = true) ∧ s.outcome = none
  | .ended => call = .waitGet ∧ s.outcome.isSome = true
  | .released => (s.status = .started → s.timedOut = true) ∧
      (call = .waitGet → s.outcome.isSome = true)

/-- The thread holds its reference until it has done; the status it has got is what has become of
the operation, and the results are asked for once. -/
structure Inv (call : Call) (s : State α) : Prop where
  reference : ∃ b : Holder, s.async.holders[0]? = some b ∧ (b = .gone ↔ s.phase = .released)
  justified : s.status ≠ .started →
    Justified s.async.cancelled s.async.ending s.async.body.settled s.status
  timed : s.timedOut = true → call = .waitFor
  unanswered : s.outcome = none → s.async.results = []
  early : s.async.early = 0
  outcome : ∀ g, s.outcome = some g → s.status ≠ .started ∧
    (s.async.results = [g] ∨ g = .thrown .canceled ∧ s.status = .canceled)
  stands : s.Stands call

section Invariant

variable {call : Call} {kind : Kind α} {s s' : State α}

theorem inv_new (call : Call) (kind : Kind α) : Inv call (State.new kind) where
  reference := ⟨.idle, rfl, iff_of_false (fun h => by cases h) (fun h => by cases h)⟩
  justified h := absurd rfl h
  timed h := by cases h
  unanswered _ := rfl
  early := rfl
  outcome g hg := by cases hg
  stands := ⟨rfl, rfl⟩

/-- The status of the handler that has been invoked. -/
theorem shared_justified (hh : WinRTPromise.HandlerInv s.async)
    (hinvoked : s.async.invocations ≠ []) :
    Justified s.async.cancelled s.async.ending s.async.body.settled s.shared := by
  rcases List.exists_cons_of_ne_nil hinvoked with ⟨v, rest, hlist⟩
  have hv : v ∈ s.async.invocations := by
    rw [hlist]
    exact List.mem_cons_self
  unfold State.shared
  rw [hlist]
  exact hh.invoked v hv

theorem shared_of_nil (hnil : s.async.invocations = []) : s.shared = .started := by
  unfold State.shared
  rw [hnil]

/-- A step of the thread that the promise does not see. -/
theorem Inv.of_thread (h : Inv call s) (hasync : s'.async = s.async)
    (hreleased : s'.phase = .released ↔ s.phase = .released)
    (hjustified : s'.status ≠ .started →
      Justified s.async.cancelled s.async.ending s.async.body.settled s'.status)
    (htimed : s'.timedOut = true → call = .waitFor)
    (hunanswered : s'.outcome = none → s.async.results = [])
    (houtcome : ∀ g, s'.outcome = some g → s'.status ≠ .started ∧
      (s.async.results = [g] ∨ g = .thrown .canceled ∧ s'.status = .canceled))
    (hstands : s'.Stands call) : Inv call s' where
  reference := by
    rw [hasync, hreleased]
    exact h.reference
  justified := by
    rw [hasync]
    exact hjustified
  timed := htimed
  unanswered := by
    rw [hasync]
    exact hunanswered
  early := by
    rw [hasync]
    exact h.early
  outcome := by
    rw [hasync]
    exact houtcome
  stands := hstands

theorem Inv.register (h : Inv call s) (hs : WinRTPromise.StatusInv s.async)
    (hh : WinRTPromise.HandlerInv s.async) (hphase : s.phase = .registering)
    {c : WinRTPromise.State α}
    (hc : WinRTPromise.step kind s.async (.completed 0 (some 0)) = some c) :
    Inv call { s with async := c, phase := .waiting } := by
  have hstands := h.stands
  unfold State.Stands at hstands
  rw [hphase] at hstands
  obtain ⟨hnone, houtcome⟩ := hstands
  have haccepted := WinRTPromise.step_accepted hh hc
  rw [hnone] at haccepted
  obtain ⟨hidle, heq⟩ := Option.ite_none_right_eq_some.mp hc
  have hframe : c.results = s.async.results ∧ c.early = s.async.early ∧
      ∃ b : Holder, c.holders[0]? = some b ∧ b ≠ .gone := by
    rw [← Option.some.inj heq]
    unfold WinRTPromise.State.completed
    split
    · exact ⟨rfl, rfl, .idle, hidle, fun h => by cases h⟩
    · split
      · exact ⟨rfl, rfl, .idle, hidle, fun h => by cases h⟩
      · refine ⟨rfl, rfl, .invoking 0 s.async.promise.status, ?_, fun h => by cases h⟩
        show (s.async.holders.set 0 _)[0]? = _
        rw [List.getElem?_set_self', hidle]
        rfl
  obtain ⟨hresults, hearly, b, hb, hne⟩ := hframe
  constructor
  · exact ⟨b, hb, iff_of_false hne (fun h => by cases h)⟩
  · exact fun hstatus => justified_step hs hc (h.justified hstatus)
  · exact h.timed
  · exact fun hnone => hresults.trans (h.unanswered hnone)
  · exact hearly.trans h.early
  · intro g hg
    rw [show s.outcome = some g from hg] at houtcome
    cases houtcome
  · exact ⟨haccepted, houtcome⟩

/-- `GetResults`, after a status that is not `Started`. -/
theorem Inv.answered (h : Inv call s) (hs : WinRTPromise.StatusInv s.async)
    (hcall : call = .waitGet) (hphase : s.phase = .returned) {c : WinRTPromise.State α}
    (hc : WinRTPromise.step kind s.async (.getResults 0) = some c) :
    Inv call { s with async := c, phase := .ended, outcome := some (s.async.answer kind) } := by
  have hstands := h.stands
  unfold State.Stands at hstands
  rw [hphase] at hstands
  have hstatus : s.status ≠ .started := by
    intro hstarted
    have hfor := h.timed (hstands.1 hstarted)
    rw [hcall] at hfor
    cases hfor
  have hended := (h.justified hstatus).not_started hs
  have hjustified := justified_step hs hc (h.justified hstatus)
  obtain ⟨b, hb, hgone⟩ := h.reference
  obtain ⟨-, heq⟩ := Option.ite_none_right_eq_some.mp hc
  have hresults : c.results = [s.async.answer kind] := by
    rw [← Option.some.inj heq]
    show s.async.results ++ [s.async.answer kind] = _
    rw [h.unanswered hstands.2]
    rfl
  have hearly : c.early = 0 := by
    rw [← Option.some.inj heq]
    exact (if_neg hended).trans h.early
  have hholders : c.holders = s.async.holders := by
    rw [← Option.some.inj heq]
    rfl
  constructor
  · refine ⟨b, hholders ▸ hb, ?_⟩
    rw [hgone, hphase]
    exact iff_of_false (fun h => by cases h) (fun h => by cases h)
  · exact fun _ => hjustified
  · exact h.timed
  · intro hnone
    cases hnone
  · exact hearly
  · intro g hg
    obtain rfl := Option.some.inj hg
    exact ⟨hstatus, Or.inl hresults⟩
  · exact ⟨hcall, rfl⟩

/-- The reference is released. -/
theorem Inv.release (h : Inv call s) (hs : WinRTPromise.StatusInv s.async)
    (hphase : s.phase = call.last) {c : WinRTPromise.State α}
    (hc : WinRTPromise.step kind s.async (.release 0) = some c) :
    Inv call { s with async := c, phase := .released } := by
  have hjustified := fun hstatus => justified_step hs hc (h.justified hstatus)
  obtain ⟨hidle, heq⟩ := Option.ite_none_right_eq_some.mp hc
  have hresults : c.results = s.async.results := by
    rw [← Option.some.inj heq]
    rfl
  have hgone : c.holders[0]? = some .gone := by
    rw [← Option.some.inj heq]
    show (s.async.holders.set 0 .gone)[0]? = _
    rw [List.getElem?_set_self', hidle]
    rfl
  constructor
  · exact ⟨.gone, hgone, iff_of_true rfl rfl⟩
  · exact hjustified
  · exact h.timed
  · exact fun hnone => hresults.trans (h.unanswered hnone)
  · rw [← Option.some.inj heq]
    exact h.early
  · intro g hg
    rw [hresults]
    exact h.outcome g hg
  · have hstands := h.stands
    unfold State.Stands at hstands
    rw [hphase] at hstands
    cases call with
    | waitGet =>
        refine ⟨?_, fun _ => hstands.2⟩
        intro hstarted
        rcases Option.isSome_iff_exists.mp hstands.2 with ⟨g, hg⟩
        exact absurd hstarted (h.outcome g hg).1
    | waitFor => exact ⟨hstands.1, fun hcall => by cases hcall⟩

/-- A step of another one. -/
theorem Inv.async (h : Inv call s) (hs : WinRTPromise.StatusInv s.async)
    {e : WinRTPromise.Event α} {c : WinRTPromise.State α} (hallows : allows e = true)
    (hc : WinRTPromise.step kind s.async e = some c) : Inv call { s with async := c } := by
  have hseen := seen_of_allows hallows hc
  constructor
  · obtain ⟨b, hb, hgone⟩ := h.reference
    obtain ⟨b', hb', hiff⟩ := hseen.reference b hb
    exact ⟨b', hb', hiff.trans hgone⟩
  · exact fun hstatus => justified_step hs hc (h.justified hstatus)
  · exact h.timed
  · exact fun hnone => hseen.results.trans (h.unanswered hnone)
  · exact hseen.early.trans h.early
  · intro g hg
    rw [hseen.results]
    exact h.outcome g hg
  · have hstands := h.stands
    unfold State.Stands at hstands ⊢
    rw [hseen.accepted]
    exact hstands

theorem steps_inv (h : Inv call s) (hs : WinRTPromise.StatusInv s.async)
    (hh : WinRTPromise.HandlerInv s.async) (hsteps : Steps call kind s s') : Inv call s' := by
  have hstands := h.stands
  unfold State.Stands at hstands
  cases hsteps with
  | enter hphase =>
      rw [hphase] at hstands
      refine h.of_thread rfl ?_ h.justified h.timed h.unanswered h.outcome hstands
      rw [hphase]
      exact iff_of_false (fun h => by cases h) (fun h => by cases h)
  | known hcall hphase hstatus =>
      rw [hphase] at hstands
      refine h.of_thread rfl ?_ (fun _ => hs.justified hstatus) h.timed h.unanswered ?_ ?_
      · rw [hphase]
        exact iff_of_false (fun h => by cases h) (fun h => by cases h)
      · intro g hg
        exact absurd (hstands.2.symm.trans hg) (fun h => by cases h)
      · exact ⟨fun hstarted => absurd hstarted hstatus, hstands.2⟩
  | register hphase hc => exact h.register hs hh hphase hc
  | wake hphase hinvoked =>
      rw [hphase] at hstands
      have hjustified := shared_justified hh hinvoked
      refine h.of_thread rfl ?_ (fun _ => hjustified) h.timed h.unanswered ?_ ?_
      · rw [hphase]
        exact iff_of_false (fun h => by cases h) (fun h => by cases h)
      · intro g hg
        exact absurd (hstands.2.symm.trans hg) (fun h => by cases h)
      · exact ⟨fun hstarted => absurd hstarted hjustified.started, hstands.2⟩
  | timeout hcall hphase =>
      rw [hphase] at hstands
      refine h.of_thread rfl ?_ ?_ (fun _ => hcall) h.unanswered ?_ ?_
      · rw [hphase]
        exact iff_of_false (fun h => by cases h) (fun h => by cases h)
      · intro hstatus
        exact shared_justified hh fun hnil => hstatus (shared_of_nil hnil)
      · intro g hg
        exact absurd (hstands.2.symm.trans hg) (fun h => by cases h)
      · exact ⟨fun _ => rfl, hstands.2⟩
  | canceled hcall hphase hstatus =>
      refine h.of_thread rfl ?_ h.justified h.timed (fun h => by cases h) ?_ ⟨hcall, rfl⟩
      · rw [hphase]
        exact iff_of_false (fun h => by cases h) (fun h => by cases h)
      · intro g hg
        obtain rfl := Option.some.inj hg
        refine ⟨?_, Or.inr ⟨rfl, hstatus⟩⟩
        rw [hstatus]
        exact fun h => by cases h
  | answered hcall hphase hc => exact h.answered hs hcall hphase hc
  | release hphase hc => exact h.release hs hphase hc
  | async hallows hc => exact h.async hs hallows hc

theorem inv_reachable (hs : (machine call kind).Reachable s) : Inv call s := by
  induction hs with
  | init hs =>
      obtain rfl : _ = State.new kind := hs
      exact inv_new call kind
  | step e hs hstep ih =>
      have hasync := WinRTPromise.reachable_inv ((async_projection call kind).reachable hs)
      exact steps_inv ih hasync.1 hasync.2 (step_cases hstep)

end Invariant

/-! ## Where nothing is left to do -/

section Stuck

variable {call : Call} {kind : Kind α} {s : State α}

theorem async_of_stuck (hstuck : (machine call kind).Stuck s) {e : WinRTPromise.Event α}
    (hallows : allows e = true) : WinRTPromise.step kind s.async e = none := by
  have hnext : step call kind s (.async e) = none := hstuck (.async e)
  simp only [step] at hnext
  rw [if_pos hallows] at hnext
  exact Option.map_eq_none_iff.mp hnext

theorem holders_of_stuck (hstuck : (machine call kind).Stuck s) (i h : ℕ)
    (status : AsyncStatus) : s.async.holders[i]? ≠ some (Holder.invoking h status) := by
  intro hi
  have hnext := async_of_stuck hstuck (e := .invoke i) rfl
  simp [WinRTPromise.step, hi] at hnext

theorem body_of_stuck (hstuck : (machine call kind).Stuck s) : s.async.body = .finished := by
  cases hbody : s.async.body with
  | finished => rfl
  | running =>
      have hnext := async_of_stuck hstuck (e := .throws .canceled) rfl
      simp [WinRTPromise.step, hbody] at hnext
  | ended =>
      have hnext := async_of_stuck hstuck (e := .setCompleted) rfl
      simp [WinRTPromise.step, hbody] at hnext
  | invoking handler status =>
      have hnext := async_of_stuck hstuck (e := .invokeCompleted) rfl
      cases handler <;> simp [WinRTPromise.step, hbody] at hnext
  | releasing =>
      have hnext := async_of_stuck hstuck (e := .finalRelease) rfl
      simp [WinRTPromise.step, hbody] at hnext

/-- As long as the thread holds its reference, it is not in use. -/
theorem Inv.idle_of_stuck (h : Inv call s) (hstuck : (machine call kind).Stuck s)
    (hphase : s.phase ≠ .released) : s.async.Idle 0 := by
  obtain ⟨b, hb, hgone⟩ := h.reference
  cases b with
  | idle => exact hb
  | invoking h' status => exact absurd hb (holders_of_stuck hstuck 0 h' status)
  | gone => exact absurd (hgone.mp rfl) hphase

theorem asyncStep_isSome {e : WinRTPromise.Event α}
    (h : (WinRTPromise.step kind s.async e).isSome = true) : s.asyncStep kind e ≠ none := by
  unfold State.asyncStep
  rw [ne_eq, Option.map_eq_none_iff]
  exact Option.isSome_iff_ne_none.mp h

/-- The thread has gone through its call. -/
theorem Inv.released_of_stuck (h : Inv call s) (hh : WinRTPromise.HandlerInv s.async)
    (hstuck : (machine call kind).Stuck s) : s.phase = .released := by
  by_contra hphase
  have hidle := h.idle_of_stuck hstuck hphase
  have hstands := h.stands
  unfold State.Stands at hstands
  have hrelease : s.phase ≠ call.last := by
    intro hlast
    have hnext : step call kind s .release = none := hstuck .release
    simp only [step] at hnext
    rw [if_pos hlast] at hnext
    refine asyncStep_isSome (s := { s with phase := .released }) ?_ hnext
    simp [WinRTPromise.step, hidle]
  cases hcase : s.phase with
  | calling =>
      have hnext : step call kind s .enter = none := hstuck .enter
      simp [step, hcase] at hnext
  | registering =>
      have hnext : step call kind s .register = none := hstuck .register
      simp only [step] at hnext
      rw [if_pos hcase] at hnext
      refine asyncStep_isSome (s := { s with phase := .waiting }) ?_ hnext
      simp [WinRTPromise.step, hidle]
  | waiting =>
      rw [hcase] at hstands
      have hsettled : WinRTPromise.Settled s.async :=
        ⟨Or.inr (body_of_stuck hstuck), holders_of_stuck hstuck⟩
      rcases hh.invoked_of_settled hsettled hstands.1 with ⟨v, hv, -⟩
      have hnext : step call kind s .wake = none := hstuck .wake
      simp [step, hcase, hidle, hv] at hnext
  | returned =>
      cases call with
      | waitFor => exact hrelease hcase
      | waitGet =>
          have hnext : step .waitGet kind s .results = none := hstuck .results
          simp only [step, hcase, and_self, if_true] at hnext
          unfold State.results at hnext
          split at hnext
          · cases hnext
          · refine asyncStep_isSome
              (s := { s with phase := .ended, outcome := some (s.async.answer kind) }) ?_ hnext
            simp [WinRTPromise.step, hidle]
  | ended =>
      rw [hcase] at hstands
      obtain ⟨rfl, -⟩ := hstands
      exact hrelease hcase
  | released => exact hphase hcase

/-- All references are gone, and with them the frame. -/
theorem Inv.destroyed_of_stuck (h : Inv call s) (hh : WinRTPromise.HandlerInv s.async)
    (hf : WinRTPromise.FrameInv s.async) (hstuck : (machine call kind).Stuck s) :
    s.async.destroyed = 1 := by
  have hgone : ∀ b ∈ s.async.holders, b = .gone := by
    intro b hb
    rcases List.getElem?_of_mem hb with ⟨i, hi⟩
    cases b with
    | gone => rfl
    | invoking h' status => exact absurd hi (holders_of_stuck hstuck i h' status)
    | idle =>
        have hidle : s.async.Idle i := hi
        rcases Nat.eq_zero_or_pos i with rfl | hpos
        · obtain ⟨b, hb, hiff⟩ := h.reference
          obtain rfl := Option.some.inj (hi.symm.trans hb)
          cases hiff.mpr (h.released_of_stuck hh hstuck)
        · have hallows : allows (.release i : WinRTPromise.Event α) = true :=
            bne_iff_ne.mpr (by omega)
          have hnext := async_of_stuck hstuck hallows
          simp [WinRTPromise.step, hidle] at hnext
  have hheld := WinRTPromise.held_eq_zero_iff.mpr ⟨body_of_stuck hstuck, hgone⟩
  rw [hf.destroyed, if_pos hheld]

end Stuck

/-- In every run, whatever the other holders of references do: `wait_get` comes to what the body of
the coroutine comes to, or to the cancellation; and where nothing is left to do it has come to
something, and the frame of the coroutine has been destroyed, once. -/
theorem wait_get_gives {es : List (Event α)} {kind : Kind α} {s : State α}
    (hrun : (machine .waitGet kind).run (State.new kind) es = some s) :
    (∀ g, s.outcome = some g → Comes s.async g) ∧
      ((machine .waitGet kind).Stuck s → (∃ g, s.outcome = some g) ∧
        s.async.body = .finished ∧ s.async.destroyed = 1) := by
  have hs : (machine .waitGet kind).Reachable s := (Machine.Reachable.init rfl).run hrun
  have h := inv_reachable hs
  have hasync := (async_projection .waitGet kind).reachable hs
  have hinv := WinRTPromise.reachable_inv hasync
  constructor
  · intro g hg
    rcases h.outcome g hg with ⟨hstatus, hresults | ⟨rfl, hcanceled⟩⟩
    · exact WinRTAwait.comes_of_results hinv.1 (WinRTPromise.answers_reachable hasync) hresults
        h.early
    · rcases (h.justified hstatus).canceled hcanceled with hcancelled | hending
      · exact Or.inr (Or.inr ⟨rfl, hcancelled⟩)
      · exact Or.inr (Or.inl ⟨.canceled, rfl, hending⟩)
  · intro hstuck
    have hstands := h.stands
    unfold State.Stands at hstands
    rw [h.released_of_stuck hinv.2 hstuck] at hstands
    exact ⟨Option.isSome_iff_exists.mp (hstands.2 rfl), body_of_stuck hstuck,
      h.destroyed_of_stuck hinv.2 (WinRTPromise.frameInv_reachable hasync) hstuck⟩

/-- The coroutine returns while the thread waits. -/
theorem wait_get_gives_value : ∃ s, (machine .waitGet (.scalar 0)).run (State.new (.scalar 0))
    [.enter, .register, .async (.returns 5), .async .setCompleted, .async .invokeCompleted, .wake,
      .results] = some s ∧ s.outcome = some (.value 5) ∧ Comes s.async (.value 5) := by
  have hrun : ∃ s, (machine .waitGet (.scalar 0)).run (State.new (.scalar 0))
      [.enter, .register, .async (.returns 5), .async .setCompleted, .async .invokeCompleted,
        .wake, .results] = some s ∧ s.outcome = some (.value 5) := ⟨_, rfl, rfl⟩
  obtain ⟨s, hrun, houtcome⟩ := hrun
  exact ⟨s, hrun, houtcome, (wait_get_gives hrun).1 _ houtcome⟩

/-- In every run, whatever the other holders of references do: once `wait_for` has returned, it has
returned `Started` only if the time was up, and otherwise what has become of the operation; and
where nothing is left to do it has returned, and the frame of the coroutine has been destroyed,
once. -/
theorem wait_for_tells {es : List (Event α)} {kind : Kind α} {s : State α}
    (hrun : (machine .waitFor kind).run (State.new kind) es = some s) :
    (s.phase = .returned ∨ s.phase = .released →
      s.status = .started ∧ s.timedOut = true ∨
        Justified s.async.cancelled s.async.ending s.async.body.settled s.status) ∧
      ((machine .waitFor kind).Stuck s → s.phase = .released ∧ s.async.body = .finished ∧
        s.async.destroyed = 1) := by
  have hs : (machine .waitFor kind).Reachable s := (Machine.Reachable.init rfl).run hrun
  have h := inv_reachable hs
  have hasync := (async_projection .waitFor kind).reachable hs
  have hinv := WinRTPromise.reachable_inv hasync
  constructor
  · intro hphase
    by_cases hstatus : s.status = .started
    · have hstands := h.stands
      unfold State.Stands at hstands
      rcases hphase with hphase | hphase
      · rw [hphase] at hstands
        exact Or.inl ⟨hstatus, hstands.1 hstatus⟩
      · rw [hphase] at hstands
        exact Or.inl ⟨hstatus, hstands.1 hstatus⟩
    · exact Or.inr (h.justified hstatus)
  · intro hstuck
    exact ⟨h.released_of_stuck hinv.2 hstuck, body_of_stuck hstuck,
      h.destroyed_of_stuck hinv.2 (WinRTPromise.frameInv_reachable hasync) hstuck⟩

/-- The thread cancels the coroutine before it waits, and invokes the handler itself. -/
theorem wait_for_tells_canceled : ∃ s, (machine .waitFor (.scalar 0)).run (State.new (.scalar 0))
    [.async (.cancel 0), .enter, .register, .async (.invoke 0), .wake] = some s ∧
      s.status = .canceled ∧
      (s.status = .started ∧ s.timedOut = true ∨
        Justified s.async.cancelled s.async.ending s.async.body.settled s.status) := by
  have hrun : ∃ s, (machine .waitFor (.scalar 0)).run (State.new (.scalar 0))
      [.async (.cancel 0), .enter, .register, .async (.invoke 0), .wake] = some s ∧
      s.status = .canceled ∧ s.phase = .returned := ⟨_, rfl, rfl, rfl⟩
  obtain ⟨s, hrun, hstatus, hphase⟩ := hrun
  exact ⟨s, hrun, hstatus, (wait_for_tells hrun).1 (Or.inl hphase)⟩

/-! ## An operation that has ended -/

section Ended

variable {kind : Kind α} {s : State α}

/-- `wait_for` without a suspension: `Completed` invokes the handler itself. -/
def atOnce : List (Event α) := [.enter, .register, .async (.invoke 0), .wake]

/-- The thread that has not called yet holds a reference that is not in use, and has registered
nothing. -/
theorem Inv.fresh (h : Inv .waitFor s) (hh : WinRTPromise.HandlerInv s.async)
    (hphase : s.phase = .calling) :
    s.async.Idle 0 ∧ s.async.promise.completedAssigned = false ∧ s.async.invocations = [] := by
  have hstands := h.stands
  unfold State.Stands at hstands
  rw [hphase] at hstands
  have hnone := hstands.1
  refine ⟨?_, ?_, ?_⟩
  · obtain ⟨b, hb, hgone⟩ := h.reference
    cases b with
    | idle => exact hb
    | invoking h' status =>
        have hholding := (hh.holding 0 h' status hb).1
        rw [hnone] at hholding
        cases hholding
    | gone =>
        have hreleased := hgone.mp rfl
        rw [hphase] at hreleased
        cases hreleased
  · rw [hh.assigned, hnone]
    rfl
  · rw [List.eq_nil_iff_forall_not_mem]
    intro v hv
    have haccepted := hh.handler_of_mem hv
    rw [hnone] at haccepted
    cases haccepted

/-- `wait_for` returns at once if and only if the operation has ended or has been cancelled, and
then with what has become of it, wherever the coroutine is. -/
theorem wait_for_at_once_iff (hs : (machine .waitFor kind).Reachable s)
    (hphase : s.phase = .calling) :
    s.async.promise.status ≠ .started ↔
      ∃ s', (machine .waitFor kind).run s atOnce = some s' ∧ s'.phase = .returned ∧
        s'.status = s.async.promise.status ∧ s'.async.body = s.async.body := by
  have hasync := WinRTPromise.reachable_inv ((async_projection .waitFor kind).reachable hs)
  obtain ⟨hidle, hassigned, hinvocations⟩ := (inv_reachable hs).fresh hasync.2 hphase
  have hheld : s.async.holders[0]? = some .idle := hidle
  constructor
  · intro hended
    -- the status that `Completed` finds is the one that the handler is told
    have hset : (s.async.holders.set 0 (Holder.invoking 0 s.async.promise.status))[0]? =
        some (Holder.invoking 0 s.async.promise.status) := by
      rw [List.getElem?_set_self', hheld]
      rfl
    have hback : (s.async.holders.set 0 .idle)[0]? = some Holder.idle := by
      rw [List.getElem?_set_self', hheld]
      rfl
    have hrun : (machine .waitFor kind).run s atOnce = some { s with
        async := { s.async.completed 0 (some 0) with
          invocations := [⟨0, s.async.promise.status, false, s.async.ending.isSome⟩]
          holders := s.async.holders.set 0 .idle }
        status := s.async.promise.status
        phase := .returned } := by
      simp [atOnce, machine, Machine.run, step, State.enter, State.asyncStep, WinRTPromise.step,
        WinRTPromise.State.completed, WinRTPromise.State.Idle, WinRTPromise.State.record,
        State.shared, allows, hphase, hheld, hassigned, hended, hinvocations, hset, hback]
    refine ⟨_, hrun, rfl, rfl, ?_⟩
    exact (WinRTPromise.completed_frame s.async 0 (some 0)).2.2.2.2
  · rintro ⟨s', hrun, -⟩ hstarted
    -- the handler is stored, so that there is nothing to invoke
    simp [atOnce, machine, Machine.run, step, State.enter, State.asyncStep, WinRTPromise.step,
      WinRTPromise.State.completed, allows, hphase, hidle, hheld, hassigned, hstarted] at hrun

end Ended

end CppCoroutines.WinRTWait
