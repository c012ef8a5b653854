import CppCoroutines.Await.Server
import CppCoroutines.Classic.Lifetime

/-!
# The listeners

`server` of `server.cpp` and `server` of `hard2.cpp` accept connections in the same
endless loop; they differ in the session they start. A failed accept throws out of
the loop, while `handle_accept` of the classic server starts the next accept in any
case. The main result compares the three over sequences of accept outcomes.
-/

namespace CppCoroutines

/-- How an accept completes, and what `set_option` yields in the session it starts. -/
structure AcceptOutcome where
  err : Option ErrorCode
  setOptionErr : Option ErrorCode
deriving DecidableEq, Repr

/-- What a listener keeps in its frame; `σ` is the frame of a session. -/
structure Listener (σ : Type) where
  /-- history: how many accepts have completed -/
  accepts : ℕ
  /-- history: the sessions as they were started, with the number of their accept -/
  sessions : List (ℕ × σ)

namespace Listener

variable {σ : Type}

/-- The acceptor listens; nothing has been accepted. -/
def new : Listener σ := ⟨0, []⟩

/-- The body of the loop, from one `co_await async_accept(acceptor, socket)` to the next. -/
def resume (session : Option ErrorCode → σ) (s : Listener σ) (outcome : AcceptOutcome) :
    Coroutine.Frame (Listener σ) Unit (Outcome Unit) :=
  match awaitDone outcome.err with
  | .ok _ =>
      ⟨{ accepts := s.accepts + 1
         sessions := s.sessions ++ [(s.accepts, session outcome.setOptionErr)] }, .awaiting ()⟩
  -- nothing catches the exception: it goes to the promise, and the acceptor is destroyed
  | .error e => ⟨{ s with accepts := s.accepts + 1 }, .finished (.exception e)⟩

/-- The loop around `session`. -/
def program (session : Option ErrorCode → σ) :
    Coroutine.Program (Listener σ) Unit AcceptOutcome (Outcome Unit) where
  complete s _ _ := some s
  resume s _ outcome := resume session s outcome

/-- A listener from its first accept on. -/
def machine (session : Option ErrorCode → σ) :
    Machine (Coroutine.Frame (Listener σ) Unit (Outcome Unit)) AcceptOutcome :=
  (program session).machine fun f => f = ⟨new, .awaiting ()⟩

end Listener

/-- `server` of `server.cpp`. -/
def AwaitServer.server (n : ℕ) :=
  Listener.machine fun setOptionErr => (Session.start setOptionErr : Coroutine.Frame (Session n) _ _)

/-- `server` of `hard2.cpp`. -/
def Hard2.server (n : ℕ) :=
  Listener.machine fun setOptionErr => (Session.start setOptionErr : Coroutine.Frame (Session n) _ _)

/-! ## Sequences of outcomes -/

/-- The numbers of the accepts that succeed. -/
def accepted (outcomes : List AcceptOutcome) : List ℕ :=
  outcomes.zipIdx.filterMap fun o => if o.1.err = none then some o.2 else none

theorem accepted_concat (outcomes : List AcceptOutcome) (o : AcceptOutcome) :
    accepted (outcomes ++ [o]) =
      accepted outcomes ++ if o.err = none then [outcomes.length] else [] := by
  unfold accepted
  rw [List.zipIdx_append, List.filterMap_append]
  by_cases herr : o.err = none
  · simp [herr]
  · simp [herr]

/-- The same outcomes as events of the classic server: the accepts complete in turn. -/
def acceptEvents (outcomes : List AcceptOutcome) : List ClassicServer.ServerEvent :=
  outcomes.zipIdx.map fun o => .acceptDone o.2 o.1.err o.1.setOptionErr

theorem acceptEvents_concat (outcomes : List AcceptOutcome) (o : AcceptOutcome) :
    acceptEvents (outcomes ++ [o]) =
      acceptEvents outcomes ++ [.acceptDone outcomes.length o.err o.setOptionErr] := by
  simp [acceptEvents, List.zipIdx_append]

namespace ClassicServer

variable {n : ℕ}

/-- `start()` counts as started whether or not the socket accepts the option. -/
theorem started_start (s : Session n) (setOptionErr : Option ErrorCode) :
    (s.start setOptionErr).started = true := by
  cases setOptionErr <;> rfl

/-- The classic server starts a session for each accept that succeeds, and is left with
one accept. -/
theorem run_acceptEvents (heaps : ℕ → Slot → Block n) (outcomes : List AcceptOutcome) :
    ∃ s, (serverMachine n).run (Server.new heaps) (acceptEvents outcomes) = some s ∧
      s.accepts = [s.created - 1] ∧ s.created = outcomes.length + 1 ∧
      ∀ i, (s.sessions i).started = true ↔ i ∈ accepted outcomes := by
  induction outcomes using List.reverseRecOn with
  | nil =>
      refine ⟨_, rfl, rfl, rfl, ?_⟩
      intro i
      simp [accepted, Server.new, Server.startAccept, Session.new]
  | append_singleton outcomes o ih =>
      rcases ih with ⟨s, hrun, haccepts, hcreated, hstarted⟩
      have hmem : outcomes.length ∈ s.accepts := by
        rw [haccepts, hcreated]
        exact List.mem_singleton_self _
      have hstep : (serverMachine n).step s (.acceptDone outcomes.length o.err o.setOptionErr) =
          some ({ s with accepts := s.accepts.erase outcomes.length }.handleAccept outcomes.length
            o.err o.setOptionErr) := if_pos hmem
      have herase : s.accepts.erase outcomes.length = [] := by
        rw [haccepts, hcreated]
        simp
      refine ⟨{ s with accepts := [] }.handleAccept outcomes.length o.err o.setOptionErr,
        ?_, ?_, ?_, ?_⟩
      · rw [acceptEvents_concat, Machine.run_append, hrun, Option.bind_some, Machine.run_cons,
          hstep, herase]
        rfl
      · cases o.err <;> rfl
      · rw [List.length_append, List.length_singleton, ← hcreated]
        cases o.err <;> rfl
      · intro i
        rw [accepted_concat, List.mem_append, ← hstarted]
        cases herr : o.err with
        | none =>
            -- the session of this accept is started, the others are as they were
            have hsession : (({ s with accepts := [] }.handleAccept outcomes.length none
                o.setOptionErr).sessions i) =
                if i = outcomes.length then (s.sessions outcomes.length).start o.setOptionErr
                else s.sessions i := Function.update_apply _ _ _ _
            rw [hsession]
            by_cases hi : i = outcomes.length
            · simp [hi, started_start]
            · simp [hi]
        | some err =>
            have hsession : (({ s with accepts := [] }.handleAccept outcomes.length (some err)
                o.setOptionErr).sessions i) = s.sessions i := rfl
            rw [hsession]
            simp

end ClassicServer

/-! ## When the listeners keep accepting -/

namespace Listener

variable {σ : Type} {session : Option ErrorCode → σ}

/-- As long as every accept succeeds the listener starts its session and accepts again. -/
theorem run_success (session : Option ErrorCode → σ) {outcomes : List AcceptOutcome}
    (h : ∀ o ∈ outcomes, o.err = none) :
    ∃ sessions, (machine session).run ⟨new, .awaiting ()⟩ outcomes =
        some ⟨⟨outcomes.length, sessions⟩, .awaiting ()⟩ ∧
      sessions.map Prod.fst = accepted outcomes := by
  induction outcomes using List.reverseRecOn with
  | nil => exact ⟨[], rfl, rfl⟩
  | append_singleton outcomes o ih =>
      have ho : o.err = none := h o (List.mem_append_right _ (List.mem_singleton_self o))
      rcases ih fun o' ho' => h o' (List.mem_append_left _ ho') with ⟨sessions, hrun, hsessions⟩
      refine ⟨sessions ++ [(outcomes.length, session o.setOptionErr)], ?_, ?_⟩
      · rw [Machine.run_append, hrun, Option.bind_some, Machine.run_cons]
        simp [machine, Coroutine.Program.machine, Coroutine.Program.step, program, resume,
          awaitDone, ho]
      · rw [List.map_append, hsessions, accepted_concat, ho]
        rfl

/-- After a failed accept the listener is finished. -/
theorem success_of_run {outcomes : List AcceptOutcome} {s s' : Listener σ}
    (hrun : (machine session).run ⟨s, .awaiting ()⟩ outcomes = some ⟨s', .awaiting ()⟩) :
    ∀ o ∈ outcomes, o.err = none := by
  induction outcomes generalizing s with
  | nil => exact nofun
  | cons o outcomes ih =>
      rcases Machine.run_cons_eq_some.mp hrun with ⟨f, hstep, hrest⟩
      have hf : f = resume session s o := (Option.some.inj hstep).symm
      cases herr : o.err with
      | none =>
          rw [hf, resume, herr] at hrest
          intro o' ho'
          rcases List.mem_cons.mp ho' with rfl | ho'
          · exact herr
          · exact ih hrest o' ho'
      | some err =>
          -- the run cannot have gone on
          rw [hf, resume, herr] at hrest
          cases outcomes with
          | nil => cases hrest
          | cons o' rest => cases hrest

/-- After each of the outcomes the listener has exactly one accept outstanding and has
started the sessions of the accepts that succeeded, like the classic server. -/
def KeepsAccepting
    (listener : Machine (Coroutine.Frame (Listener σ) Unit (Outcome Unit)) AcceptOutcome)
    (outcomes : List AcceptOutcome) : Prop :=
  ∀ before, before <+: outcomes →
    ∃ s, listener.run ⟨new, .awaiting ()⟩ before = some ⟨s, .awaiting ()⟩ ∧
      s.sessions.map Prod.fst = accepted before ∧
      ∀ (n : ℕ) (heaps : ℕ → Slot → Block n), ∃ c,
        (ClassicServer.serverMachine n).run (ClassicServer.Server.new heaps)
          (acceptEvents before) = some c ∧
        c.accepts.length = 1 ∧
        ∀ i, (c.sessions i).started = true ↔ i ∈ s.sessions.map Prod.fst

theorem keepsAccepting_iff (outcomes : List AcceptOutcome) :
    KeepsAccepting (machine session) outcomes ↔ ∀ o ∈ outcomes, o.err = none := by
  constructor
  · intro h
    rcases h outcomes (List.prefix_refl outcomes) with ⟨s, hrun, -⟩
    exact success_of_run hrun
  · intro h before hbefore
    rcases run_success session fun o ho => h o (hbefore.subset ho)
      with ⟨sessions, hrun, hsessions⟩
    refine ⟨_, hrun, hsessions, ?_⟩
    intro n heaps
    rcases ClassicServer.run_acceptEvents heaps before with ⟨c, hc, haccepts, -, hstarted⟩
    refine ⟨c, hc, ?_, ?_⟩
    · rw [haccepts]
      rfl
    · intro i
      rw [hstarted, hsessions]

/-- Both coroutine listeners keep accepting, as the classic server does, exactly when no
accept fails. -/
theorem listeners_keep_accepting_iff (n : ℕ) (outcomes : List AcceptOutcome) :
    (KeepsAccepting (AwaitServer.server n) outcomes ↔ ∀ o ∈ outcomes, o.err = none) ∧
      (KeepsAccepting (Hard2.server n) outcomes ↔ ∀ o ∈ outcomes, o.err = none) :=
  ⟨keepsAccepting_iff outcomes, keepsAccepting_iff outcomes⟩

/-- A failed accept, then a client: the classic server starts its session, both coroutine
listeners have ended with an exception that nobody looks at. -/
theorem listeners_end_at_error :
    ¬ KeepsAccepting (AwaitServer.server 1) [⟨some (.other 24), none⟩, ⟨none, none⟩] ∧
      ¬ KeepsAccepting (Hard2.server 1) [⟨some (.other 24), none⟩, ⟨none, none⟩] ∧
      (∃ s, (AwaitServer.server 1).run ⟨new, .awaiting ()⟩ [⟨some (.other 24), none⟩] =
        some ⟨s, .finished (.exception (.system (.other 24)))⟩) ∧
      (∃ s, (Hard2.server 1).run ⟨new, .awaiting ()⟩ [⟨some (.other 24), none⟩] =
        some ⟨s, .finished (.exception (.system (.other 24)))⟩) ∧
      ∃ c, (ClassicServer.serverMachine 1).run
          (ClassicServer.Server.new fun _ _ => Block.zero 1)
          (acceptEvents [⟨some (.other 24), none⟩, ⟨none, none⟩]) = some c ∧
        (c.sessions 1).started = true ∧ c.accepts = [2] := by
  refine ⟨?_, ?_, ⟨_, rfl⟩, ⟨_, rfl⟩, _, rfl, rfl, rfl⟩
  · intro h
    have hsuccess := (keepsAccepting_iff _).mp h
    simp at hsuccess
  · intro h
    have hsuccess := (keepsAccepting_iff _).mp h
    simp at hsuccess

end Listener

end CppCoroutines
