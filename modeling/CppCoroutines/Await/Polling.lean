import CppCoroutines.Await.Join

/-!
# Joining by polling

The client where nothing fails: every session returns a pair and every timer wait ends
without an error. A session may end before, between or after the tests of its future, and
the coroutine may be resumed within `await_suspend`; the invariant below says at each point
of the loop which timer is waited on and how often the coroutine has been resumed.
-/

namespace CppCoroutines.AwaitClient

open ClassicClient (Stats)

/-- No timer wait ends with an error and no session with an exception. -/
def JoinEvent.clean : JoinEvent → Bool
  | .launch (some (.exception _)) => false
  | .sessionEnds _ (.exception _) => false
  | .stopTimer (some _) => false
  | .tick _ (some _) => false
  | _ => true

/-- `client` where nothing fails. -/
def pollingMachine (sessionCount : ℕ) (timeout : ℤ) : Machine Client JoinEvent :=
  (clientMachine sessionCount timeout).restrict JoinEvent.clean

/-- The pair a session has returned. -/
def returned : Option SessionOutcome → Option (UInt64 × UInt64)
  | some (.value totals) => some totals
  | _ => none

/-- The pairs that the sessions have returned. -/
def Client.results (c : Client) : List (UInt64 × UInt64) := c.sessions.filterMap returned

/-- The component-wise sums of pairs, in `size_t`. -/
def total (pairs : List (UInt64 × UInt64)) : Stats where
  totalBytesWritten := UInt64.ofNat (pairs.map fun p => p.1.toNat).sum
  totalBytesRead := UInt64.ofNat (pairs.map fun p => p.2.toNat).sum

theorem total_append (pairs : List (UInt64 × UInt64)) (p : UInt64 × UInt64) :
    total (pairs ++ [p]) = (total pairs).add p.1 p.2 := by
  unfold total Stats.add
  rw [List.map_append, List.map_append, List.map_singleton, List.map_singleton, ofNat_sum_append,
    ofNat_sum_append, UInt64.ofNat_toNat, UInt64.ofNat_toNat]

/-- The totals do not depend on the order of the pairs. -/
theorem total_perm {pairs pairs' : List (UInt64 × UInt64)} (h : pairs.Perm pairs') :
    total pairs = total pairs' := by
  unfold total
  rw [(h.map _).sum_nat, (h.map _).sum_nat]

/-! ## The loop -/

/-- The coroutine has gone on from the first `k` of its `co_await`s, and has been suspended
in no other. -/
def Client.Over (c : Client) (k : ℕ) : Prop :=
  c.resumptions = List.range k ∧ ∀ j ∈ c.suspensions, j < k

/-- The timers and the resumptions at each point of the coroutine. -/
def JoinPhase (sessionCount : ℕ) (c : Client) : Prop :=
  match c.control with
  | .launching => c.timers = [] ∧ c.Over c.joined
  | .stopTimer | .loopHead =>
      c.timers = [] ∧ c.Over c.joined ∧ c.sessions.length = sessionCount
  | .testing | .suspending =>
      c.timers = [] ∧ c.Over c.joined ∧ c.sessions.length = sessionCount ∧ c.joined < sessionCount
  | .suspended =>
      c.timers = [c.joined] ∧ c.resumptions = List.range c.joined ∧
        (∀ j ∈ c.suspensions, j < c.joined + 1) ∧ c.joined ∈ c.suspensions ∧
        c.sessions.length = sessionCount ∧ c.joined < sessionCount
  | .resuming =>
      c.timers = [] ∧ c.Over (c.joined + 1) ∧ c.sessions.length = sessionCount ∧
        c.ready c.joined = true
  | .blocked => False
  | .finished out =>
      c.timers = [] ∧ c.Over c.joined ∧ c.sessions.length = sessionCount ∧
        c.joined = sessionCount ∧ out = .value ()

/-- What holds wherever the coroutine is. -/
structure Kept (sessionCount : ℕ) (c : Client) : Prop where
  length : c.sessions.length ≤ sessionCount
  returned : ∀ o ∈ c.sessions, o.isSome = true → (returned o).isSome = true
  joined : c.JoinedEnded
  gets : c.gets = List.range c.joined
  stats : c.stats = total ((c.sessions.take c.joined).filterMap AwaitClient.returned)
  onStack : ∀ j ∈ c.onStack, j ∈ c.resumptions
  faults : c.faults = []

/-- The invariant of the loop. -/
structure Polls (sessionCount : ℕ) (c : Client) : Prop extends Kept sessionCount c where
  phase : JoinPhase sessionCount c

section Steps

variable {sessionCount : ℕ} {timeout : ℤ} {c c' : Client}

theorem polls_new : Polls sessionCount Client.new where
  length := Nat.zero_le _
  returned _ ho := nomatch ho
  joined := inOrder_new.joined
  gets := rfl
  stats := rfl
  onStack _ hj := nomatch hj
  faults := rfl
  phase := ⟨rfl, rfl, nofun⟩

/-- A session that has ended has returned a pair. -/
theorem Kept.value_of_ready (h : Kept sessionCount c) {j : ℕ} (hready : c.ready j = true) :
    ∃ totals, c.sessions[j]? = some (some (.value totals)) ∧
      c.future j = some (.value totals) := by
  obtain ⟨out, hout⟩ := ready_eq_true.mp hready
  have hreturned := h.returned _ (List.mem_of_getElem? hout) rfl
  cases out with
  | value totals =>
      refine ⟨totals, hout, ?_⟩
      unfold Client.future
      rw [hout]
      rfl
  | exception e => cases hreturned

/-- A session is launched. -/
theorem Polls.launch (h : Polls sessionCount c) {o : Option SessionOutcome}
    (hcontrol : c.control = .launching) (hlt : c.sessions.length < sessionCount)
    (ho : o.isSome = true → (AwaitClient.returned o).isSome = true) :
    Polls sessionCount { c with sessions := c.sessions ++ [o] } where
  length := by
    show (c.sessions ++ [o]).length ≤ sessionCount
    rw [List.length_append, List.length_singleton]
    exact hlt
  returned := by
    intro o' ho'
    rcases List.mem_append.mp ho' with hold | hnew
    · exact h.returned o' hold
    · rw [List.mem_singleton.mp hnew]
      exact ho
  joined := h.joined.append o
  gets := h.gets
  stats := by
    show c.stats = total (((c.sessions ++ [o]).take c.joined).filterMap AwaitClient.returned)
    rw [List.take_append_of_le_length h.joined.1]
    exact h.stats
  onStack := h.onStack
  faults := h.faults
  phase := by
    have hphase := h.phase
    simp only [JoinPhase, hcontrol] at hphase ⊢
    exact hphase

/-- A session ends: those that are joined have ended before. -/
theorem Polls.sessionEnds (h : Polls sessionCount c) {i : ℕ} {out : SessionOutcome}
    (hi : c.sessions[i]? = some none) (hout : (AwaitClient.returned (some out)).isSome = true) :
    Polls sessionCount { c with sessions := c.sessions.set i (some out) } where
  length := by
    show (c.sessions.set i (some out)).length ≤ sessionCount
    rw [List.length_set]
    exact h.length
  returned := by
    intro o ho hsome
    rcases List.mem_or_eq_of_mem_set ho with hold | rfl
    · exact h.returned o hold hsome
    · exact hout
  joined := h.joined.set out hi
  gets := h.gets
  stats := by
    -- a session that ends now has not been joined, so that the totals are those of before
    have hle : c.joined ≤ i := by
      by_contra hlt
      obtain ⟨o, ho⟩ := ready_eq_true.mp (h.joined.2 i (Nat.not_le.mp hlt))
      rw [hi] at ho
      cases ho
    show c.stats = total (((c.sessions.set i (some out)).take c.joined).filterMap _)
    rw [List.take_set_of_le hle]
    exact h.stats
  onStack := h.onStack
  faults := h.faults
  phase := by
    -- the one whose future is got next may be ready already, and stays so
    have hready : c.ready c.joined = true →
        Client.ready { c with sessions := c.sessions.set i (some out) } c.joined = true := by
      intro hready
      obtain ⟨o, ho⟩ := ready_eq_true.mp hready
      have hne : i ≠ c.joined := by
        rintro rfl
        rw [hi] at ho
        cases ho
      refine ready_eq_true.mpr ⟨o, ?_⟩
      show (c.sessions.set i (some out))[c.joined]? = _
      rw [List.getElem?_set_ne hne]
      exact ho
    have hphase := h.phase
    unfold JoinPhase at hphase ⊢
    simp only [List.length_set]
    cases hcontrol : c.control with
    | resuming =>
        simp only [hcontrol] at hphase ⊢
        obtain ⟨htimers, hresumptions, hlength, hr⟩ := hphase
        exact ⟨htimers, hresumptions, hlength, hready hr⟩
    | blocked => simp only [hcontrol] at hphase
    | _ =>
        simp only [hcontrol] at hphase ⊢
        exact hphase

/-- The timer of `client` has ended. -/
theorem Kept.timedOut (h : Kept sessionCount c) (htimers : c.timers = []) (hover : c.Over c.joined)
    (hlength : c.sessions.length = sessionCount) : Polls sessionCount (c.timedOut none) where
  toKept := { h with }
  phase := ⟨htimers, hover, hlength⟩

/-- The coroutine goes on from a `co_await` whose session has ended. -/
theorem Kept.goOn (h : Kept sessionCount c) (htimers : c.timers = [])
    (hresumptions : c.resumptions = List.range c.joined)
    (hsuspensions : ∀ j ∈ c.suspensions, j < c.joined + 1)
    (hlength : c.sessions.length = sessionCount) (hready : c.ready c.joined = true) :
    Polls sessionCount (c.goOn c.joined) where
  toKept :=
    { h with onStack := fun j hj => List.mem_append_left _ (h.onStack j hj) }
  phase := by
    refine ⟨htimers, ⟨?_, hsuspensions⟩, hlength, hready⟩
    show c.resumptions ++ [c.joined] = List.range (c.joined + 1)
    rw [hresumptions, List.range_succ]

/-- Control goes from the head of the loop into its body or to the end. -/
theorem Polls.loop (h : Polls sessionCount c) (hcontrol : c.control = .loopHead) :
    Polls sessionCount { c with
      control := if c.joined < c.sessions.length then .testing else .finished (.value ()) } := by
  have hphase := h.phase
  simp only [JoinPhase, hcontrol] at hphase
  obtain ⟨htimers, hover, hlength⟩ := hphase
  refine ⟨{ h.toKept with }, ?_⟩
  by_cases hlt : c.joined < c.sessions.length
  · rw [if_pos hlt]
    exact ⟨htimers, hover, hlength, hlength ▸ hlt⟩
  · rw [if_neg hlt]
    have hle := h.joined.1
    have hall : c.joined = sessionCount := by omega
    exact ⟨htimers, hover, hlength, hall, rfl⟩

/-- The first test of the future. -/
theorem Polls.awaitReady (h : Polls sessionCount c) (hcontrol : c.control = .testing) :
    Polls sessionCount
      (if c.ready c.joined then c.goOn c.joined else { c with control := .suspending }) := by
  have hphase := h.phase
  simp only [JoinPhase, hcontrol] at hphase
  obtain ⟨htimers, hover, hlength, hlt⟩ := hphase
  cases hready : c.ready c.joined with
  | true =>
      rw [if_pos rfl]
      have hsuspensions : ∀ j ∈ c.suspensions, j < c.joined + 1 := by
        intro j hj
        exact Nat.lt_succ_of_lt (hover.2 j hj)
      exact h.goOn htimers hover.1 hsuspensions hlength hready
  | false =>
      rw [if_neg nofun]
      exact ⟨{ h.toKept with }, htimers, hover, hlength, hlt⟩

/-- A poll while the awaiter is there. -/
theorem resumeOrWait_of_alive (hjoined : c.control = .suspending ∨ c.control = .suspended) :
    c.resumeOrWait c.joined none =
      if c.ready c.joined then c.goOn c.joined
      else { c with timers := c.timers ++ [c.joined] } := by
  have halive : c.alive c.joined = true := by
    unfold Client.alive
    rcases hjoined with h | h
    · simp [h]
    · simp [h]
  unfold Client.resumeOrWait Client.resume
  simp only [halive, if_true, if_pos hjoined]

/-- A poll when a timer has ended. -/
theorem resumeOrWait_of_ended (hcontrol : c.control = .suspended) :
    Client.resumeOrWait { c with timers := c.timers.erase c.joined } c.joined none =
      if c.ready c.joined then Client.goOn { c with timers := c.timers.erase c.joined } c.joined
      else { c with timers := c.timers.erase c.joined ++ [c.joined] } := by
  have hcontrol' : Client.control { c with timers := c.timers.erase c.joined } = .suspended :=
    hcontrol
  exact resumeOrWait_of_alive (Or.inr hcontrol')

/-- `await_suspend`: the session may have ended since the first test. -/
theorem Polls.awaitSuspend (h : Polls sessionCount c) (hcontrol : c.control = .suspending) :
    Polls sessionCount (c.awaitSuspend c.joined) := by
  have hphase := h.phase
  simp only [JoinPhase, hcontrol] at hphase
  obtain ⟨htimers, hover, hlength, hlt⟩ := hphase
  have hsuspensions : ∀ j ∈ c.suspensions, j < c.joined + 1 := by
    intro j hj
    exact Nat.lt_succ_of_lt (hover.2 j hj)
  have hpoll := resumeOrWait_of_alive (c := c) (Or.inl hcontrol)
  cases hready : c.ready c.joined with
  | true =>
      rw [hready, if_pos rfl] at hpoll
      -- the coroutine is resumed on the stack of `await_suspend`
      have hgoOn := h.goOn htimers hover.1 hsuspensions hlength hready
      rw [awaitSuspend_of_resumed (by rw [hpoll]; exact nofun), hpoll]
      refine ⟨{ hgoOn.toKept with onStack := ?_ }, hgoOn.phase⟩
      intro j hj
      rcases List.mem_append.mp hj with hold | hnew
      · exact hgoOn.onStack j hold
      · rw [List.mem_singleton.mp hnew]
        exact List.mem_append_right _ List.mem_cons_self
  | false =>
      rw [hready, if_neg nofun] at hpoll
      rw [awaitSuspend_of_waits (by rw [hpoll]; exact hcontrol), hpoll]
      refine ⟨{ h.toKept with }, ?_, hover.1, ?_, ?_, hlength, hlt⟩
      · show c.timers ++ [c.joined] = [c.joined]
        rw [htimers, List.nil_append]
      · intro j hj
        rcases List.mem_append.mp hj with hold | hnew
        · exact hsuspensions j hold
        · rw [List.mem_singleton.mp hnew]
          exact Nat.lt_succ_self _
      · exact List.mem_append_right _ List.mem_cons_self

/-- A timer is waited on only for the session whose `co_await` is suspended. -/
theorem Polls.of_mem_timers (h : Polls sessionCount c) {j : ℕ} (hj : j ∈ c.timers) :
    c.control = .suspended ∧ j = c.joined := by
  have hphase := h.phase
  unfold JoinPhase at hphase
  cases hcontrol : c.control with
  | suspended =>
      simp only [hcontrol] at hphase
      rw [hphase.1] at hj
      exact ⟨rfl, List.mem_singleton.mp hj⟩
  | blocked => simp only [hcontrol] at hphase
  | _ =>
      simp only [hcontrol] at hphase
      rw [hphase.1] at hj
      cases hj

/-- A timer ends: the coroutine is resumed, or the timer is waited on again. -/
theorem Polls.tick (h : Polls sessionCount c) {j : ℕ} (hj : j ∈ c.timers) :
    Polls sessionCount (Client.resumeOrWait { c with timers := c.timers.erase j } j none) := by
  -- the handler finds its awaiter: the coroutine is suspended in it
  obtain ⟨hcontrol, rfl⟩ := h.of_mem_timers hj
  have hphase := h.phase
  simp only [JoinPhase, hcontrol] at hphase
  obtain ⟨htimers, hresumptions, hsuspensions, hmem, hlength, hlt⟩ := hphase
  have herase : c.timers.erase c.joined = [] := by rw [htimers, List.erase_cons_head]
  have hkept : Kept sessionCount { c with timers := c.timers.erase c.joined } :=
    { h.toKept with }
  rw [resumeOrWait_of_ended hcontrol]
  cases hready : c.ready c.joined with
  | true =>
      rw [if_pos rfl]
      exact hkept.goOn herase hresumptions hsuspensions hlength hready
  | false =>
      rw [if_neg nofun]
      refine ⟨{ h.toKept with }, ?_⟩
      simp only [JoinPhase, hcontrol]
      exact ⟨by rw [herase, List.nil_append], hresumptions, hsuspensions, hmem, hlength, hlt⟩

/-- `f_.get()`: the future is ready, and its pair is added to the totals. -/
theorem Polls.get (h : Polls sessionCount c) (hcontrol : c.control = .resuming) :
    Polls sessionCount c.get := by
  have hphase := h.phase
  simp only [JoinPhase, hcontrol] at hphase
  obtain ⟨htimers, hover, hlength, hready⟩ := hphase
  -- the future is ready, so that `f_.get()` does not block
  obtain ⟨totals, htotals, hfuture⟩ := h.value_of_ready hready
  rw [get_of_value hfuture]
  refine ⟨{ h.toKept with joined := h.joined.succ hready, gets := ?_, stats := ?_ },
    htimers, hover, hlength⟩
  · show c.gets ++ [c.joined] = List.range (c.joined + 1)
    rw [h.gets, List.range_succ]
  · obtain ⟨hlt, helem⟩ := List.getElem?_eq_some_iff.mp htotals
    show c.stats.add totals.1 totals.2 =
      total ((c.sessions.take (c.joined + 1)).filterMap AwaitClient.returned)
    rw [List.take_succ_eq_append_getElem hlt, List.filterMap_append, helem]
    show _ = total (_ ++ [totals])
    rw [total_append, h.stats]

/-- A call of `await_suspend` returns. -/
theorem Polls.unwind (h : Polls sessionCount c) (j : ℕ) :
    Polls sessionCount { c with onStack := c.onStack.erase j } :=
  ⟨{ h.toKept with onStack := fun i hi => h.onStack i (List.mem_of_mem_erase hi) }, h.phase⟩

theorem step_polls {e : JoinEvent} (h : Polls sessionCount c)
    (hstep : (pollingMachine sessionCount timeout).step c e = some c') : Polls sessionCount c' := by
  obtain ⟨hclean, hstep⟩ := Machine.restrict_step_eq_some.mp hstep
  have hstep : clientStep sessionCount timeout c e = some c' := hstep
  have hphase := h.phase
  cases e with
  | launch o =>
      obtain ⟨⟨hcontrol, hlt⟩, heq⟩ := Option.ite_none_right_eq_some.mp hstep
      obtain rfl := Option.some.inj heq
      apply h.launch hcontrol hlt
      rcases o with - | totals | ex
      · exact nofun
      · exact fun _ => rfl
      · cases hclean
  | awaitTimer =>
      obtain ⟨⟨hcontrol, hlength⟩, heq⟩ := Option.ite_none_right_eq_some.mp hstep
      obtain rfl := Option.some.inj heq
      simp only [JoinPhase, hcontrol] at hphase
      by_cases htimeout : timeout = 0
      · rw [if_pos htimeout]
        exact h.timedOut hphase.1 hphase.2 hlength
      · rw [if_neg htimeout]
        exact ⟨{ h.toKept with }, hphase.1, hphase.2, hlength⟩
  | stopTimer err =>
      obtain ⟨hcontrol, heq⟩ := Option.ite_none_right_eq_some.mp hstep
      obtain rfl := Option.some.inj heq
      simp only [JoinPhase, hcontrol] at hphase
      cases err with
      | none => exact h.timedOut hphase.1 hphase.2.1 hphase.2.2
      | some err => cases hclean
  | sessionEnds i out =>
      obtain ⟨hi, heq⟩ := Option.ite_none_right_eq_some.mp hstep
      obtain rfl := Option.some.inj heq
      cases out with
      | value totals => exact h.sessionEnds hi rfl
      | exception ex => cases hclean
  | loop =>
      obtain ⟨hcontrol, heq⟩ := Option.ite_none_right_eq_some.mp hstep
      obtain rfl := Option.some.inj heq
      exact h.loop hcontrol
  | awaitReady =>
      obtain ⟨hcontrol, heq⟩ := Option.ite_none_right_eq_some.mp hstep
      obtain rfl := Option.some.inj heq
      exact h.awaitReady hcontrol
  | awaitSuspend =>
      obtain ⟨hcontrol, heq⟩ := Option.ite_none_right_eq_some.mp hstep
      obtain rfl := Option.some.inj heq
      exact h.awaitSuspend hcontrol
  | tick j err =>
      obtain ⟨hj, heq⟩ := Option.ite_none_right_eq_some.mp hstep
      obtain rfl := Option.some.inj heq
      cases err with
      | none => exact h.tick hj
      | some err => cases hclean
  | get =>
      obtain ⟨hcontrol, heq⟩ := Option.ite_none_right_eq_some.mp hstep
      obtain rfl := Option.some.inj heq
      exact h.get hcontrol
  | unwind j =>
      obtain ⟨-, heq⟩ := Option.ite_none_right_eq_some.mp hstep
      obtain rfl := Option.some.inj heq
      exact h.unwind j

theorem polls_reachable (h : (pollingMachine sessionCount timeout).Reachable c) :
    Polls sessionCount c := by
  refine Machine.Inductive.reachable ⟨?_, ?_⟩ h
  · rintro c rfl
    exact polls_new
  · intro c e c' hc hstep
    exact step_polls hc hstep

end Steps

/-! ## The join -/

/-- Every `co_await` on a session waits on one timer while it is suspended and on none
afterwards, is resumed once, and gets its future once, when it is ready; the totals at the
end are those of all sessions. -/
structure Joins (sessionCount : ℕ) (c : Client) : Prop where
  suspended : c.control = .suspended → c.joined ∈ c.suspensions ∧ c.joined ∉ c.resumptions
  waiting : ∀ j ∈ c.suspensions, j ∉ c.resumptions → c.timers.count j = 1
  resumed : ∀ j ∈ c.resumptions, c.timers.count j = 0
  ready : c.control = .resuming → c.ready c.joined = true
  unblocked : c.control ≠ .blocked
  resumptions : c.resumptions.Nodup
  gets : c.gets.Nodup
  joined : ∀ j, j < c.joined → j ∈ c.resumptions ∧ j ∈ c.gets
  faults : c.faults = []
  finished : ∀ out, c.control = .finished out → out = .value () ∧
    c.resumptions = List.range sessionCount ∧ c.gets = List.range sessionCount ∧
    c.results.length = sessionCount ∧ c.stats = total c.results

section Join

variable {sessionCount : ℕ} {timeout : ℤ} {c c' : Client}

/-- The coroutine has gone on from the `co_await`s before the present one, and perhaps from
that one. -/
theorem Polls.resumptions_eq (h : Polls sessionCount c) :
    ∃ k, c.resumptions = List.range k ∧ c.joined ≤ k ∧ (c.control ≠ .suspended →
      c.timers = [] ∧ ∀ j ∈ c.suspensions, j < k) := by
  have hphase := h.phase
  unfold JoinPhase at hphase
  cases hcontrol : c.control with
  | suspended =>
      simp only [hcontrol] at hphase
      exact ⟨c.joined, hphase.2.1, Nat.le_refl _, fun hne => absurd rfl hne⟩
  | resuming =>
      simp only [hcontrol] at hphase
      exact ⟨c.joined + 1, hphase.2.1.1, Nat.le_succ _, fun _ => ⟨hphase.1, hphase.2.1.2⟩⟩
  | blocked => simp only [hcontrol] at hphase
  | launching =>
      simp only [hcontrol] at hphase
      exact ⟨c.joined, hphase.2.1, Nat.le_refl _, fun _ => ⟨hphase.1, hphase.2.2⟩⟩
  | _ =>
      simp only [hcontrol] at hphase
      exact ⟨c.joined, hphase.2.1.1, Nat.le_refl _, fun _ => ⟨hphase.1, hphase.2.1.2⟩⟩

/-- A suspended `co_await` has its timer, the others have none. -/
theorem Polls.timers (h : Polls sessionCount c) :
    (∀ j ∈ c.suspensions, j ∉ c.resumptions → c.timers.count j = 1) ∧
      ∀ j ∈ c.resumptions, c.timers.count j = 0 := by
  by_cases hcontrol : c.control = .suspended
  · have hphase := h.phase
    simp only [JoinPhase, hcontrol] at hphase
    obtain ⟨htimers, hresumptions, hsuspensions, -, -, -⟩ := hphase
    rw [htimers, hresumptions]
    constructor
    · intro j hj hnot
      have hlt := hsuspensions j hj
      have hge : c.joined ≤ j := Nat.not_lt.mp fun h => hnot (List.mem_range.mpr h)
      obtain rfl : j = c.joined := by omega
      exact List.count_singleton_self
    · intro j hj
      have hlt := List.mem_range.mp hj
      apply List.count_eq_zero.mpr
      intro hmem
      rw [List.mem_singleton.mp hmem] at hlt
      exact absurd hlt (Nat.lt_irrefl _)
  -- nothing is suspended, and no timer is waited on
  · obtain ⟨k, hresumptions, -, hquiet⟩ := h.resumptions_eq
    obtain ⟨htimers, hsuspensions⟩ := hquiet hcontrol
    rw [htimers, hresumptions]
    constructor
    · intro j hj hnot
      exact absurd (List.mem_range.mpr (hsuspensions j hj)) hnot
    · intro j _
      exact List.count_nil

/-- Once all sessions have returned, there is a pair of each. -/
theorem Kept.length_results (h : Kept sessionCount c) (hall : c.AllEnded) :
    c.results.length = c.sessions.length := by
  unfold Client.results
  rw [List.length_filterMap_eq_countP, List.countP_eq_length]
  intro o ho
  exact h.returned o ho (hall o ho)

theorem Polls.joins (h : Polls sessionCount c) : Joins sessionCount c := by
  obtain ⟨hwaiting, hresumed⟩ := h.timers
  obtain ⟨k, hresumptions, hle, -⟩ := h.resumptions_eq
  have hphase := h.phase
  refine ⟨?_, hwaiting, hresumed, ?_, ?_, ?_, ?_, ?_, h.faults, ?_⟩
  · intro hcontrol
    simp only [JoinPhase, hcontrol] at hphase
    refine ⟨hphase.2.2.2.1, ?_⟩
    rw [hphase.2.1]
    exact List.not_mem_range_self
  · intro hcontrol
    simp only [JoinPhase, hcontrol] at hphase
    exact hphase.2.2.2
  · intro hcontrol
    simp only [JoinPhase, hcontrol] at hphase
  · rw [hresumptions]
    exact List.nodup_range
  · rw [h.gets]
    exact List.nodup_range
  · intro j hj
    rw [hresumptions, h.gets, List.mem_range, List.mem_range]
    exact ⟨Nat.lt_of_lt_of_le hj hle, hj⟩
  · intro out hcontrol
    simp only [JoinPhase, hcontrol] at hphase
    obtain ⟨-, hover, hlength, hall, hout⟩ := hphase
    -- all have been joined, and what has been joined had ended
    have hended : c.AllEnded := h.joined.allEnded (by omega)
    refine ⟨hout, hall ▸ hover.1, hall ▸ h.gets, ?_, ?_⟩
    · rw [h.length_results hended, hlength]
    · rw [h.stats, List.take_of_length_le (by omega)]
      rfl

/-- While the client has not finished there is an event that can happen next. -/
theorem Polls.finished_of_stuck (h : Polls sessionCount c)
    (hstuck : (pollingMachine sessionCount timeout).Stuck c) :
    c.control = .finished (.value ()) := by
  have hnone : ∀ e, e.clean = true → clientStep sessionCount timeout c e = none := by
    intro e he
    have hstep : (if e.clean then clientStep sessionCount timeout c e else none) = none :=
      hstuck e
    rwa [if_pos he] at hstep
  have hphase := h.phase
  unfold JoinPhase at hphase
  cases hcontrol : c.control with
  | launching =>
      -- another session is launched, or the timer is waited on
      rcases Nat.lt_or_eq_of_le h.length with hlt | heq
      · have hlaunch := hnone (.launch none) rfl
        simp [clientStep, hcontrol, hlt] at hlaunch
      · have hwait := hnone .awaitTimer rfl
        simp [clientStep, hcontrol, heq] at hwait
  | stopTimer =>
      have htimer := hnone (.stopTimer none) rfl
      simp [clientStep, hcontrol] at htimer
  | loopHead =>
      have hloop := hnone .loop rfl
      simp [clientStep, hcontrol] at hloop
  | testing =>
      have hready := hnone .awaitReady rfl
      simp [clientStep, hcontrol] at hready
  | suspending =>
      have hsuspend := hnone .awaitSuspend rfl
      simp [clientStep, hcontrol] at hsuspend
  | suspended =>
      -- the timer of the awaiter ends
      simp only [hcontrol] at hphase
      have htick := hnone (.tick c.joined none) rfl
      simp [clientStep, hphase.1] at htick
  | resuming =>
      have hget := hnone .get rfl
      simp [clientStep, hcontrol] at hget
  | blocked => simp only [hcontrol] at hphase
  | finished out =>
      simp only [hcontrol] at hphase
      rw [hphase.2.2.2.2]

/-- How far each point of the loop is from its head or its end. -/
def Control.weight : Control → ℕ
  | .launching => 9
  | .stopTimer => 8
  | .loopHead => 7
  | .testing => 6
  | .suspending => 5
  | .suspended => 3
  | .resuming => 2
  | .blocked | .finished _ => 0

/-- A bound on what is left to do once all sessions have ended. -/
def Client.left (c : Client) (sessionCount : ℕ) : ℕ :=
  6 * (sessionCount - c.joined) + c.control.weight + c.onStack.length

/-- Once all sessions have ended, every step leaves less to do. -/
theorem Polls.step_left {e : JoinEvent} (h : Polls sessionCount c)
    (hlength : c.sessions.length = sessionCount) (hended : c.AllEnded)
    (hstep : (pollingMachine sessionCount timeout).step c e = some c') :
    c'.sessions = c.sessions ∧ c'.left sessionCount < c.left sessionCount := by
  obtain ⟨hclean, hstep⟩ := Machine.restrict_step_eq_some.mp hstep
  have hstep : clientStep sessionCount timeout c e = some c' := hstep
  have hphase := h.phase
  -- the session to be joined next has ended
  have hready : c.joined < sessionCount → c.ready c.joined = true := by
    intro hlt
    have hlt : c.joined < c.sessions.length := hlength ▸ hlt
    obtain ⟨out, hout⟩ := Option.isSome_iff_exists.mp (hended _ (List.getElem_mem hlt))
    exact ready_eq_true.mpr ⟨out, by rw [List.getElem?_eq_getElem hlt, hout]⟩
  cases e with
  | launch o =>
      obtain ⟨⟨-, hlt⟩, -⟩ := Option.ite_none_right_eq_some.mp hstep
      omega
  | sessionEnds i out =>
      obtain ⟨hi, -⟩ := Option.ite_none_right_eq_some.mp hstep
      cases hended none (List.mem_of_getElem? hi)
  | awaitTimer =>
      obtain ⟨⟨hcontrol, -⟩, heq⟩ := Option.ite_none_right_eq_some.mp hstep
      obtain rfl := Option.some.inj heq
      by_cases htimeout : timeout = 0
      · simp [htimeout, Client.timedOut, awaitDone, Client.left, Control.weight, hcontrol]
      · simp [htimeout, Client.left, Control.weight, hcontrol]
  | stopTimer err =>
      obtain ⟨hcontrol, heq⟩ := Option.ite_none_right_eq_some.mp hstep
      obtain rfl := Option.some.inj heq
      cases err with
      | none => simp [Client.timedOut, awaitDone, Client.left, Control.weight, hcontrol]
      | some err => cases hclean
  | loop =>
      obtain ⟨hcontrol, heq⟩ := Option.ite_none_right_eq_some.mp hstep
      obtain rfl := Option.some.inj heq
      refine ⟨rfl, ?_⟩
      by_cases hlt : c.joined < c.sessions.length
      · simp [hlt, Client.left, Control.weight, hcontrol]
      · simp [hlt, Client.left, Control.weight, hcontrol]
  | awaitReady =>
      obtain ⟨hcontrol, heq⟩ := Option.ite_none_right_eq_some.mp hstep
      obtain rfl := Option.some.inj heq
      simp only [JoinPhase, hcontrol] at hphase
      rw [if_pos (hready hphase.2.2.2)]
      refine ⟨rfl, ?_⟩
      simp [Client.goOn, Client.left, Control.weight, hcontrol]
  | awaitSuspend =>
      obtain ⟨hcontrol, heq⟩ := Option.ite_none_right_eq_some.mp hstep
      obtain rfl := Option.some.inj heq
      simp only [JoinPhase, hcontrol] at hphase
      have hpoll := resumeOrWait_of_alive (c := c) (Or.inl hcontrol)
      rw [if_pos (hready hphase.2.2.2)] at hpoll
      rw [awaitSuspend_of_resumed (by rw [hpoll]; exact nofun), hpoll]
      refine ⟨rfl, ?_⟩
      simp only [Client.goOn, Client.left, Control.weight, hcontrol, List.length_append,
        List.length_singleton]
      omega
  | tick j err =>
      obtain ⟨hj, heq⟩ := Option.ite_none_right_eq_some.mp hstep
      obtain rfl := Option.some.inj heq
      obtain ⟨hcontrol, rfl⟩ := h.of_mem_timers hj
      simp only [JoinPhase, hcontrol] at hphase
      cases err with
      | none =>
          rw [resumeOrWait_of_ended hcontrol, if_pos (hready hphase.2.2.2.2.2)]
          refine ⟨rfl, ?_⟩
          simp [Client.goOn, Client.left, Control.weight, hcontrol]
      | some err => cases hclean
  | get =>
      obtain ⟨hcontrol, heq⟩ := Option.ite_none_right_eq_some.mp hstep
      obtain rfl := Option.some.inj heq
      simp only [JoinPhase, hcontrol] at hphase
      obtain ⟨-, -, -, hnow⟩ := hphase
      obtain ⟨totals, htotals, hfuture⟩ := h.value_of_ready hnow
      have hlt := (List.getElem?_eq_some_iff.mp htotals).1
      rw [get_of_value hfuture]
      refine ⟨rfl, ?_⟩
      simp only [Client.left, Control.weight, hcontrol]
      omega
  | unwind j =>
      obtain ⟨hj, heq⟩ := Option.ite_none_right_eq_some.mp hstep
      obtain rfl := Option.some.inj heq
      refine ⟨rfl, ?_⟩
      have hpos := List.length_pos_of_mem hj
      simp only [Client.left, List.length_erase_of_mem hj]
      omega

theorem Polls.length_le {es : List JoinEvent} (h : Polls sessionCount c)
    (hlength : c.sessions.length = sessionCount) (hended : c.AllEnded)
    (hrun : (pollingMachine sessionCount timeout).run c es = some c') :
    es.length ≤ c.left sessionCount := by
  have hsteps : ∀ c e c', (Polls sessionCount c ∧ c.sessions.length = sessionCount ∧
      c.AllEnded) → (pollingMachine sessionCount timeout).step c e = some c' →
      (Polls sessionCount c' ∧ c'.sessions.length = sessionCount ∧ c'.AllEnded) ∧
        c'.left sessionCount < c.left sessionCount := by
    rintro c e c' ⟨hc, hlength, hended⟩ hstep
    obtain ⟨hsessions, hlt⟩ := hc.step_left hlength hended hstep
    refine ⟨⟨step_polls hc hstep, hsessions ▸ hlength, ?_⟩, hlt⟩
    unfold Client.AllEnded
    rw [hsessions]
    exact hended
  have hle := Machine.length_le_of_inv hsteps ⟨h, hlength, hended⟩ hrun
  omega

/-- For every number of sessions and every order in which they end, relative to one another and
to the tests of their futures: each `co_await` waits on one timer while it is suspended, is
resumed once and gets a future that is ready; the client stops only when it has joined them
all, and does so within a bounded number of steps once they have ended; and its totals are
the sums of the pairs, whatever the order. -/
theorem polls_and_joins
    (h : (pollingMachine sessionCount timeout).Reachable c) :
    Joins sessionCount c ∧
      ((pollingMachine sessionCount timeout).Stuck c → c.control = .finished (.value ())) ∧
      (c.sessions.length = sessionCount → c.AllEnded → ∀ es c',
        (pollingMachine sessionCount timeout).run c es = some c' →
          es.length ≤ 6 * (sessionCount - c.joined) + 9 + c.onStack.length) ∧
      ∀ timeout' c' out out', (pollingMachine sessionCount timeout').Reachable c' →
        c.control = .finished out → c'.control = .finished out' →
          c.results.Perm c'.results → c.stats = c'.stats := by
  have hpolls := polls_reachable h
  refine ⟨hpolls.joins, hpolls.finished_of_stuck, ?_, ?_⟩
  · intro hlength hended es c' hrun
    have hle := hpolls.length_le hlength hended hrun
    have hweight : c.control.weight ≤ 9 := by
      rcases c.control with - | - | - | - | - | - | - | - | out
      all_goals simp [Control.weight]
    unfold Client.left at hle
    omega
  · intro timeout' c' out out' h' hcontrol hcontrol' hperm
    obtain ⟨-, -, -, -, hstats⟩ := hpolls.joins.finished out hcontrol
    obtain ⟨-, -, -, -, hstats'⟩ := (polls_reachable h').joins.finished out' hcontrol'
    rw [hstats, hstats', total_perm hperm]

end Join

/-- Two sessions. The first ends between the two tests of its future, so that it is joined within
`await_suspend`; the second after its timer has ended once. -/
def joinWithinSuspend : List JoinEvent :=
  [.launch none, .launch none, .awaitTimer, .stopTimer none, .loop, .awaitReady,
    .sessionEnds 0 (.value (8, 4)), .awaitSuspend, .get, .loop, .awaitReady, .awaitSuspend,
    .unwind 0, .tick 1 none, .sessionEnds 1 (.value (2, 1)), .tick 1 none, .get, .loop]

theorem polls_and_joins_two :
    ∃ c, (pollingMachine 2 5).run Client.new joinWithinSuspend = some c ∧
      c.control = .finished (.value ()) ∧ c.stats = ⟨10, 5⟩ ∧ Joins 2 c := by
  have hrun : ∃ c, (pollingMachine 2 5).run Client.new joinWithinSuspend = some c ∧
      c.control = .finished (.value ()) ∧ c.stats = ⟨10, 5⟩ := ⟨_, rfl, rfl, rfl⟩
  obtain ⟨c, hrun, hcontrol, hstats⟩ := hrun
  have hreach : (pollingMachine 2 5).Reachable c := (Machine.Reachable.init rfl).run hrun
  have hjoins := polls_and_joins hreach
  exact ⟨c, hrun, hcontrol, hstats, hjoins.1⟩

end CppCoroutines.AwaitClient
