import CppCoroutines.Await.Adapters
import CppCoroutines.Classic.Totals

/-!
# The client and its sessions

`client` of `client.cpp` launches the sessions, waits for its timer, and joins the
sessions one by one through `asio_future_awaiter`, which polls the future of a session:
once in `await_ready`, once within `await_suspend` and then every 100 ms. The sessions
run on other threads and end at any time; every test of a future is an event of its own.
-/

namespace CppCoroutines.AwaitClient

open ClassicClient (Stats)

/-- What the promise of a session is set to. -/
abbrev SessionOutcome := Outcome (UInt64 × UInt64)

/-- Where the coroutine `client` is. -/
inductive Control where
  /-- in the loop that starts the sessions -/
  | launching
  /-- suspended in `async_wait(stop_timer, ..)` -/
  | stopTimer
  /-- at `while (!sessions.empty())` -/
  | loopHead
  /-- about to call `await_ready` of the awaiter of the first session in the list -/
  | testing
  /-- within `await_suspend`, before its test of the future -/
  | suspending
  /-- suspended, `await_suspend` has returned -/
  | suspended
  /-- resumed, or not suspended at all: about to call `await_resume` -/
  | resuming
  /-- blocked in `f_.get()` -/
  | blocked
  | finished (out : Outcome Unit)
deriving DecidableEq, Repr

/-- What must not happen: an awaiter is used after its `co_await` is over, a coroutine is
resumed that is not suspended. -/
inductive JoinFault where
  | awaiterDead
  | notSuspended
deriving DecidableEq, Repr

/-- The locals of `client`, the sessions, the timers, and the history. The `co_await`s on
the sessions and their awaiters have the numbers of the sessions. -/
structure Client where
  control : Control
  /-- the sessions launched, with what their futures hold -/
  sessions : List (Option SessionOutcome)
  /-- how many have been removed from the front of the list -/
  joined : ℕ
  stop : Bool
  stats : Stats
  /-- the outstanding waits on the timers of the awaiters -/
  timers : List ℕ
  /-- the calls of `await_suspend` within which the coroutine was resumed, not yet returned -/
  onStack : List ℕ
  /-- history: the `co_await`s whose `await_suspend` has left the coroutine suspended -/
  suspensions : List ℕ
  /-- history: the `co_await`s the coroutine has gone on from -/
  resumptions : List ℕ
  /-- history: the calls of `f_.get()` -/
  gets : List ℕ
  faults : List JoinFault
deriving DecidableEq, Repr

namespace Client

/-- `client` is called. -/
def new : Client where
  control := .launching
  sessions := []
  joined := 0
  stop := false
  stats := Stats.new
  timers := []
  onStack := []
  suspensions := []
  resumptions := []
  gets := []
  faults := []

/-- What the future of a session holds. -/
def future (c : Client) (j : ℕ) : Option SessionOutcome := c.sessions[j]?.join

/-- `f_.wait_for(0s)` is `ready`. -/
def ready (c : Client) (j : ℕ) : Bool := (c.future j).isSome

/-- The awaiter of a session exists: it is a temporary of its `co_await`. -/
def alive (c : Client) (j : ℕ) : Bool :=
  j = c.joined && (c.control = .testing || c.control = .suspending || c.control = .suspended ||
    c.control = .resuming)

def fault (c : Client) (f : JoinFault) : Client := { c with faults := c.faults ++ [f] }

/-- The coroutine goes on to `await_resume`. -/
def goOn (c : Client) (j : ℕ) : Client :=
  { c with control := .resuming, resumptions := c.resumptions ++ [j] }

/-- `coro_()`. -/
def resume (c : Client) (j : ℕ) : Client :=
  if c.control = .suspending ∨ c.control = .suspended then c.goOn j else c.fault .notSuspended

/-- `resume_or_wait` of the awaiter of a session. -/
def resumeOrWait (c : Client) (j : ℕ) (err : Option ErrorCode) : Client :=
  match err with
  | some _ => c
  | none =>
      -- `this` is the awaiter, a temporary of the `co_await` of session `j`
      if c.alive j then
        if c.ready j then c.resume j else { c with timers := c.timers ++ [j] }
      else c.fault .awaiterDead

/-- `await_suspend`: the coroutine may have been resumed before it returns. -/
def awaitSuspend (c : Client) (j : ℕ) : Client :=
  let c := c.resumeOrWait j none
  if c.control = .suspending then
    { c with control := .suspended, suspensions := c.suspensions ++ [j] }
  else { c with onStack := c.onStack ++ [j] }

/-- `f_.get()` and what follows up to the head of the loop. -/
def get (c : Client) : Client :=
  let c := { c with gets := c.gets ++ [c.joined] }
  match c.future c.joined with
  | some (.value totals) =>
      { c with
        stats := c.stats.add totals.1 totals.2
        joined := c.joined + 1
        control := .loopHead }
  -- nothing in `client` catches it: the locals are destroyed
  | some (.exception e) => { c with control := .finished (.exception e) }
  | none => { c with control := .blocked }

/-- `co_await async_wait(stop_timer, ..)` is over. -/
def timedOut (c : Client) (err : Option ErrorCode) : Client :=
  match awaitDone err with
  | .ok _ => { c with stop := true, control := .loopHead }
  | .error e => { c with control := .finished (.exception e) }

end Client

/-- What can happen next to the client, its sessions and its timers. -/
inductive JoinEvent where
  /-- one more session is started; its future may be ready already -/
  | launch (outcome : Option SessionOutcome)
  /-- the coroutine comes to `co_await async_wait(stop_timer, ..)` -/
  | awaitTimer
  | stopTimer (err : Option ErrorCode)
  | sessionEnds (i : ℕ) (outcome : SessionOutcome)
  | loop
  | awaitReady
  | awaitSuspend
  /-- the handler of a timer wait is invoked -/
  | tick (j : ℕ) (err : Option ErrorCode)
  | get
  /-- a call of `await_suspend` returns to whoever resumed the coroutine before -/
  | unwind (j : ℕ)
deriving DecidableEq, Repr

/-- `client` with this `session_count` and `timeout`. -/
def clientStep (sessionCount : ℕ) (timeout : ℤ) (c : Client) : JoinEvent → Option Client
  | .launch outcome =>
      if c.control = .launching ∧ c.sessions.length < sessionCount then
        some { c with sessions := c.sessions ++ [outcome] }
      else none
  | .awaitTimer =>
      if c.control = .launching ∧ c.sessions.length = sessionCount then
        -- `await_ready`: a wait of no length does not suspend
        some (if timeout = 0 then c.timedOut none else { c with control := .stopTimer })
      else none
  | .stopTimer err => if c.control = .stopTimer then some (c.timedOut err) else none
  | .sessionEnds i outcome =>
      if c.sessions[i]? = some none then
        some { c with sessions := c.sessions.set i (some outcome) }
      else none
  | .loop =>
      if c.control = .loopHead then
        some { c with
          control := if c.joined < c.sessions.length then .testing else .finished (.value ()) }
      else none
  | .awaitReady =>
      if c.control = .testing then
        some (if c.ready c.joined then c.goOn c.joined else { c with control := .suspending })
      else none
  | .awaitSuspend => if c.control = .suspending then some (c.awaitSuspend c.joined) else none
  | .tick j err =>
      if j ∈ c.timers then some ({ c with timers := c.timers.erase j }.resumeOrWait j err) else none
  | .get => if c.control = .resuming then some c.get else none
  | .unwind j => if j ∈ c.onStack then some { c with onStack := c.onStack.erase j } else none

def clientMachine (sessionCount : ℕ) (timeout : ℤ) : Machine Client JoinEvent where
  init c := c = Client.new
  step := clientStep sessionCount timeout

/-! ## The client outlives its sessions -/

/-- Every session that was launched has ended. -/
def Client.AllEnded (c : Client) : Prop := ∀ o ∈ c.sessions, o.isSome = true

/-- The client has not finished before its sessions. -/
def Client.Outlives (c : Client) : Prop := ∀ out, c.control = .finished out → c.AllEnded

/-- The stop timer fails, or a session that ended with an exception is joined, only when all
sessions have ended. -/
def ThrowsLast (c : Client) (e : JoinEvent) : Prop :=
  (∀ err, e = .stopTimer (some err) → c.AllEnded) ∧
    (e = .get → ∀ ex, c.future c.joined = some (.exception ex) → c.AllEnded)

section Outlives

variable {sessionCount : ℕ} {timeout : ℤ} {c c' : Client}

/-- The sessions that have been joined have ended. -/
def Client.JoinedEnded (c : Client) : Prop :=
  c.joined ≤ c.sessions.length ∧ ∀ j, j < c.joined → c.ready j = true

theorem ready_eq_true {j : ℕ} : c.ready j = true ↔ ∃ o, c.sessions[j]? = some (some o) := by
  unfold Client.ready Client.future
  cases h : c.sessions[j]? with
  | none => simp
  | some o => cases o <;> simp

/-- A client all of whose sessions have been joined has outlived them. -/
theorem Client.JoinedEnded.allEnded (h : c.JoinedEnded) (hall : c.sessions.length ≤ c.joined) :
    c.AllEnded := by
  intro o ho
  obtain ⟨j, hj⟩ := List.mem_iff_getElem?.mp ho
  have hlt := (List.getElem?_eq_some_iff.mp hj).1
  obtain ⟨out, hout⟩ := ready_eq_true.mp (h.2 j (by omega))
  rw [hj, Option.some.injEq] at hout
  rw [hout]
  rfl

/-- A session more leaves those that have been joined as they are. -/
theorem Client.JoinedEnded.append (h : c.JoinedEnded) (o : Option SessionOutcome) :
    Client.JoinedEnded { c with sessions := c.sessions ++ [o] } := by
  constructor
  · show c.joined ≤ (c.sessions ++ [o]).length
    have hle := h.1
    rw [List.length_append]
    omega
  · intro j hj
    have hj : j < c.joined := hj
    have hlt := Nat.lt_of_lt_of_le hj h.1
    obtain ⟨out, hout⟩ := ready_eq_true.mp (h.2 j hj)
    refine ready_eq_true.mpr ⟨out, ?_⟩
    show (c.sessions ++ [o])[j]? = _
    rw [List.getElem?_append_left hlt]
    exact hout

/-- So does the end of another one. -/
theorem Client.JoinedEnded.set {i : ℕ} (h : c.JoinedEnded) (out : SessionOutcome)
    (hi : c.sessions[i]? = some none) :
    Client.JoinedEnded { c with sessions := c.sessions.set i (some out) } := by
  constructor
  · show c.joined ≤ (c.sessions.set i (some out)).length
    rw [List.length_set]
    exact h.1
  · intro j hj
    obtain ⟨o, ho⟩ := ready_eq_true.mp (h.2 j hj)
    have hij : i ≠ j := by
      rintro rfl
      rw [hi] at ho
      cases ho
    refine ready_eq_true.mpr ⟨o, ?_⟩
    show (c.sessions.set i (some out))[j]? = _
    rw [List.getElem?_set_ne hij]
    exact ho

/-- The next session is joined when it has ended. -/
theorem Client.JoinedEnded.succ (h : c.JoinedEnded) (hready : c.ready c.joined = true) :
    Client.JoinedEnded { c with joined := c.joined + 1 } := by
  constructor
  · obtain ⟨o, ho⟩ := ready_eq_true.mp hready
    exact (List.getElem?_eq_some_iff.mp ho).1
  · intro j hj
    show c.ready j = true
    by_cases hlast : j = c.joined
    · rw [hlast]
      exact hready
    · have hj : j < c.joined + 1 := hj
      exact h.2 j (by omega)

/-- A call of `resume_or_wait` waits on, resumes the coroutine, or does neither. -/
theorem resumeOrWait_cases (c : Client) (j : ℕ) (err : Option ErrorCode) :
    c.resumeOrWait j err = c ∨
      (c.alive j = true ∧ c.ready j = false ∧
        c.resumeOrWait j err = { c with timers := c.timers ++ [j] }) ∨
      (c.ready j = true ∧ (c.control = .suspending ∨ c.control = .suspended) ∧
        c.resumeOrWait j err = c.goOn j) ∨
      ∃ f, c.resumeOrWait j err = c.fault f := by
  cases err with
  | some err => exact Or.inl rfl
  | none =>
      unfold Client.resumeOrWait Client.resume
      cases halive : c.alive j with
      | false => exact Or.inr (Or.inr (Or.inr ⟨.awaiterDead, by simp⟩))
      | true =>
          cases hready : c.ready j with
          | false => exact Or.inr (Or.inl ⟨rfl, rfl, by simp⟩)
          | true =>
              by_cases hcontrol : c.control = .suspending ∨ c.control = .suspended
              · exact Or.inr (Or.inr (Or.inl ⟨rfl, hcontrol, by simp [hcontrol]⟩))
              · exact Or.inr (Or.inr (Or.inr ⟨.notSuspended, by simp [hcontrol]⟩))

/-- Polling neither touches the sessions nor ends the client. -/
theorem resumeOrWait_frame (c : Client) (j : ℕ) (err : Option ErrorCode) :
    (c.resumeOrWait j err).sessions = c.sessions ∧ (c.resumeOrWait j err).joined = c.joined ∧
      ((c.resumeOrWait j err).control = c.control ∨
        (c.resumeOrWait j err).control = .resuming) := by
  rcases resumeOrWait_cases c j err with h | ⟨-, -, h⟩ | ⟨-, -, h⟩ | ⟨f, h⟩
  · rw [h]
    exact ⟨rfl, rfl, Or.inl rfl⟩
  · rw [h]
    exact ⟨rfl, rfl, Or.inl rfl⟩
  · rw [h]
    exact ⟨rfl, rfl, Or.inr rfl⟩
  · rw [h]
    exact ⟨rfl, rfl, Or.inl rfl⟩

theorem awaitSuspend_of_waits {j : ℕ} (h : (c.resumeOrWait j none).control = .suspending) :
    c.awaitSuspend j = { c.resumeOrWait j none with
      control := .suspended
      suspensions := (c.resumeOrWait j none).suspensions ++ [j] } := if_pos h

theorem awaitSuspend_of_resumed {j : ℕ} (h : (c.resumeOrWait j none).control ≠ .suspending) :
    c.awaitSuspend j = { c.resumeOrWait j none with
      onStack := (c.resumeOrWait j none).onStack ++ [j] } := if_neg h

/-- The sessions joined have ended, and all have if the client has finished. -/
structure InOrder (c : Client) : Prop where
  joined : c.JoinedEnded
  outlives : c.Outlives

theorem inOrder_new : InOrder Client.new := by
  refine ⟨⟨Nat.le_refl 0, ?_⟩, nofun⟩
  intro j hj
  exact absurd hj (Nat.not_lt_zero j)

/-- The client goes on without ending. -/
theorem InOrder.of_same (h : InOrder c) (hsessions : c'.sessions = c.sessions)
    (hjoined : c'.joined = c.joined)
    (hcontrol : ∀ out, c'.control = .finished out → c.control = .finished out ∨ c.AllEnded) :
    InOrder c' := by
  constructor
  · unfold Client.JoinedEnded Client.ready Client.future
    rw [hsessions, hjoined]
    exact h.joined
  · intro out hout
    unfold Client.AllEnded
    rw [hsessions]
    rcases hcontrol out hout with hfinished | hended
    · exact h.outlives out hfinished
    · exact hended

/-- `f_.get()` on a future that has a value. -/
theorem get_of_value {totals : UInt64 × UInt64}
    (h : c.future c.joined = some (.value totals)) :
    c.get = { c with
      gets := c.gets ++ [c.joined]
      stats := c.stats.add totals.1 totals.2
      joined := c.joined + 1
      control := .loopHead } := by
  have h' : Client.future { c with gets := c.gets ++ [c.joined] } c.joined =
      some (.value totals) := h
  simp only [Client.get, h']

/-- `f_.get()` on a future that has an exception. -/
theorem get_of_exception {e : Thrown} (h : c.future c.joined = some (.exception e)) :
    c.get = { c with
      gets := c.gets ++ [c.joined]
      control := .finished (.exception e) } := by
  have h' : Client.future { c with gets := c.gets ++ [c.joined] } c.joined =
      some (.exception e) := h
  simp only [Client.get, h']

/-- `f_.get()` on a future that is not ready. -/
theorem get_of_none (h : c.future c.joined = none) :
    c.get = { c with gets := c.gets ++ [c.joined], control := .blocked } := by
  have h' : Client.future { c with gets := c.gets ++ [c.joined] } c.joined = none := h
  simp only [Client.get, h']

theorem InOrder.get (h : InOrder c)
    (hended : ∀ ex, c.future c.joined = some (.exception ex) → c.AllEnded) : InOrder c.get := by
  cases hfuture : c.future c.joined with
  | none =>
      rw [get_of_none hfuture]
      exact h.of_same rfl rfl nofun
  | some out =>
      cases out with
      | value totals =>
          rw [get_of_value hfuture]
          have hready : c.ready c.joined = true := by simp [Client.ready, hfuture]
          exact ⟨h.joined.succ hready, nofun⟩
      | exception e =>
          rw [get_of_exception hfuture]
          exact h.of_same rfl rfl fun _ _ => Or.inr (hended e hfuture)

theorem InOrder.timedOut {err : Option ErrorCode} (h : InOrder c)
    (hended : ∀ e, err = some e → c.AllEnded) : InOrder (c.timedOut err) := by
  cases err with
  | none => exact h.of_same rfl rfl nofun
  | some e => exact h.of_same rfl rfl fun _ _ => Or.inr (hended e rfl)

/-- Polling does not end the client. -/
theorem InOrder.resumeOrWait {j : ℕ} {err : Option ErrorCode} (h : InOrder c) :
    InOrder (c.resumeOrWait j err) := by
  obtain ⟨hsessions, hjoined, hcontrol⟩ := resumeOrWait_frame c j err
  apply h.of_same hsessions hjoined
  intro out hout
  rcases hcontrol with hsame | hresuming
  · exact Or.inl (hsame ▸ hout)
  · rw [hresuming] at hout
    cases hout

/-- A session more, or one that has ended, leaves the ones joined as they are. -/
theorem InOrder.launch {o : Option SessionOutcome} (h : InOrder c)
    (hcontrol : c.control = .launching) : InOrder { c with sessions := c.sessions ++ [o] } := by
  refine ⟨h.joined.append o, ?_⟩
  intro out hout
  have hout : c.control = .finished out := hout
  rw [hcontrol] at hout
  cases hout

theorem InOrder.sessionEnds {i : ℕ} {out : SessionOutcome} (h : InOrder c)
    (hi : c.sessions[i]? = some none) :
    InOrder { c with sessions := c.sessions.set i (some out) } := by
  refine ⟨h.joined.set out hi, ?_⟩
  -- the client has not finished: this session had not ended
  intro out' hfinished
  have hended := h.outlives out' hfinished none (List.mem_of_getElem? hi)
  cases hended

theorem step_inOrder {e : JoinEvent} (h : InOrder c)
    (hstep : clientStep sessionCount timeout c e = some c') (hlast : ThrowsLast c e) :
    InOrder c' := by
  cases e with
  | launch o =>
      obtain ⟨⟨hcontrol, -⟩, heq⟩ := Option.ite_none_right_eq_some.mp hstep
      obtain rfl := Option.some.inj heq
      exact h.launch hcontrol
  | awaitTimer =>
      obtain ⟨-, heq⟩ := Option.ite_none_right_eq_some.mp hstep
      obtain rfl := Option.some.inj heq
      by_cases htimeout : timeout = 0
      · rw [if_pos htimeout]
        exact h.timedOut nofun
      · rw [if_neg htimeout]
        exact h.of_same rfl rfl nofun
  | stopTimer err =>
      obtain ⟨-, heq⟩ := Option.ite_none_right_eq_some.mp hstep
      obtain rfl := Option.some.inj heq
      apply h.timedOut
      rintro e rfl
      exact hlast.1 e rfl
  | sessionEnds i out =>
      obtain ⟨hi, heq⟩ := Option.ite_none_right_eq_some.mp hstep
      obtain rfl := Option.some.inj heq
      exact h.sessionEnds hi
  | loop =>
      obtain ⟨-, heq⟩ := Option.ite_none_right_eq_some.mp hstep
      obtain rfl := Option.some.inj heq
      by_cases hlt : c.joined < c.sessions.length
      · rw [if_pos hlt]
        exact h.of_same rfl rfl nofun
      · rw [if_neg hlt]
        -- the list is empty: all sessions have been joined
        refine h.of_same rfl rfl fun _ _ => Or.inr ?_
        exact h.joined.allEnded (Nat.not_lt.mp hlt)
  | awaitReady =>
      obtain ⟨-, heq⟩ := Option.ite_none_right_eq_some.mp hstep
      obtain rfl := Option.some.inj heq
      cases hready : c.ready c.joined with
      | true =>
          rw [if_pos rfl]
          exact h.of_same rfl rfl nofun
      | false =>
          rw [if_neg (by simp)]
          exact h.of_same rfl rfl nofun
  | awaitSuspend =>
      obtain ⟨-, heq⟩ := Option.ite_none_right_eq_some.mp hstep
      obtain rfl := Option.some.inj heq
      -- the coroutine may have been resumed and be on its way to `await_resume`
      have hpoll : InOrder (c.resumeOrWait c.joined none) := h.resumeOrWait
      by_cases hwaits : (c.resumeOrWait c.joined none).control = .suspending
      · rw [awaitSuspend_of_waits hwaits]
        exact hpoll.of_same rfl rfl nofun
      · rw [awaitSuspend_of_resumed hwaits]
        exact hpoll.of_same rfl rfl fun _ => Or.inl
  | tick j err =>
      obtain ⟨-, heq⟩ := Option.ite_none_right_eq_some.mp hstep
      obtain rfl := Option.some.inj heq
      have herase : InOrder { c with timers := c.timers.erase j } :=
        h.of_same rfl rfl fun _ => Or.inl
      exact herase.resumeOrWait
  | get =>
      obtain ⟨-, heq⟩ := Option.ite_none_right_eq_some.mp hstep
      obtain rfl := Option.some.inj heq
      exact h.get (hlast.2 rfl)
  | unwind j =>
      obtain ⟨-, heq⟩ := Option.ite_none_right_eq_some.mp hstep
      obtain rfl := Option.some.inj heq
      exact h.of_same rfl rfl fun _ => Or.inl

/-- Where the stop timer fails, or an exception is joined, with a session still running, the
client is over before that session. -/
theorem step_overtakes {e : JoinEvent} (hstep : clientStep sessionCount timeout c e = some c')
    (hlast : ¬ ThrowsLast c e) : ¬ c'.Outlives := by
  intro houtlives
  -- the step ends the client with a session running
  rcases Classical.not_and_iff_not_or_not.mp hlast with htimer | hget
  · simp only [not_forall] at htimer
    obtain ⟨err, rfl, hrunning⟩ := htimer
    obtain ⟨-, heq⟩ := Option.ite_none_right_eq_some.mp hstep
    obtain rfl := Option.some.inj heq
    exact hrunning (houtlives _ rfl)
  · simp only [not_forall] at hget
    obtain ⟨rfl, ex, hfuture, hrunning⟩ := hget
    obtain ⟨-, heq⟩ := Option.ite_none_right_eq_some.mp hstep
    obtain rfl := Option.some.inj heq
    rw [get_of_exception hfuture] at houtlives
    exact hrunning (houtlives _ rfl)

/-- For every number of sessions, every time-out and every run: the client does not finish
before a session it has launched, throughout the run, if and only if its timer does not fail,
and it joins no session that has ended with an exception, while a session is running. -/
theorem outlives_throughout_iff {es : List JoinEvent}
    (hrun : (clientMachine sessionCount timeout).run Client.new es = some c) :
    (clientMachine sessionCount timeout).Throughout Client.Outlives Client.new es ↔
      (clientMachine sessionCount timeout).Along ThrowsLast Client.new es :=
  Machine.throughout_iff_along (fun _ h => h.outlives) (fun _ _ _ => step_inOrder)
    (fun _ _ _ _ => step_overtakes) inOrder_new hrun

end Outlives

/-- Two sessions; the first ends with an exception, but is joined after the second has ended. -/
def lateExceptionRun : List JoinEvent :=
  [.launch none, .launch none, .awaitTimer, .sessionEnds 0 (.exception (.runtime "bad allocation")),
    .stopTimer none, .loop, .awaitReady, .sessionEnds 1 (.value (8, 8)), .get]

theorem outlives_throughout_iff_two :
    ∃ c, (clientMachine 2 5).run Client.new lateExceptionRun = some c ∧
      ((clientMachine 2 5).Throughout Client.Outlives Client.new lateExceptionRun ↔
        (clientMachine 2 5).Along ThrowsLast Client.new lateExceptionRun) := by
  have hrun : ∃ c, (clientMachine 2 5).run Client.new lateExceptionRun = some c := ⟨_, rfl⟩
  obtain ⟨c, hrun⟩ := hrun
  exact ⟨c, hrun, outlives_throughout_iff hrun⟩

/-- The first of two sessions fails to close its socket; joining it ends the client while the
second is running. -/
theorem client_ends_first :
    ¬ ∀ sessionCount timeout es c,
      (clientMachine sessionCount timeout).run Client.new es = some c →
        (clientMachine sessionCount timeout).Throughout Client.Outlives Client.new es := by
  intro h
  have hrun : ∃ c, (clientMachine 2 5).run Client.new
      [.launch none, .launch none, .awaitTimer, .stopTimer none,
        .sessionEnds 0 (.exception (.system .badDescriptor)), .loop, .awaitReady, .get] = some c ∧
      c.control = .finished (.exception (.system .badDescriptor)) ∧
      none ∈ c.sessions := by
    refine ⟨_, rfl, rfl, ?_⟩
    exact List.mem_cons_of_mem _ List.mem_cons_self
  obtain ⟨c, hrun, hfinished, hrunning⟩ := hrun
  have houtlives := Machine.throughout_iff.mp (h 2 5 _ c hrun) _ List.prefix_rfl c hrun
  have hended := houtlives _ hfinished none hrunning
  cases hended

end CppCoroutines.AwaitClient
