import CppCoroutines.Polling
import CppCoroutines.Await.Server

/-!
# The session of `easy.cpp`

`easy.cpp` has the session of `hard1.cpp` on the futures of `my_use_future`, which
`asio_future_awaiter` polls. It sends what the other one sends, and prints no errors.
-/

namespace CppCoroutines

/-! ## What the session of `hard2.cpp` echoes -/

namespace Hard2

variable {n : ℕ}

/-- What has been sent is the beginning of what was received, and no more than one chunk is on
its way back: the one in front of the buffer. -/
def Echoes (f : Coroutine.Frame (Session n) SessionOp (Outcome Unit)) : Prop :=
  match f.point with
  | .awaiting .connect => False
  | .awaiting .readSome => f.locals.sent = f.locals.received.flatten
  | .awaiting (.write length) =>
      length ≤ n ∧ f.locals.sent ++ f.locals.buf.front length = f.locals.received.flatten
  | .finished out => f.locals.sent <+: f.locals.received.flatten ∧
      f.locals.received.flatten.length ≤ f.locals.sent.length + n ∧
      ∃ err, out = .exception (.system err)

theorem echoes_start (setOptionErr : Option ErrorCode) :
    Echoes (Session.start setOptionErr : Coroutine.Frame (Session n) SessionOp (Outcome Unit)) := by
  cases setOptionErr with
  | none => rfl
  | some err => exact ⟨List.nil_prefix, Nat.zero_le _, err, rfl⟩

/-- The session has read a chunk or failed to. -/
theorem echoes_read {s : Session n} (h : s.sent = s.received.flatten) {err : Option ErrorCode}
    {chunk : List Byte} {l : Session n} (hl : s.complete .readSome (.read err chunk) = some l) :
    Echoes (l.resume .readSome (.read err chunk)) := by
  cases err with
  | none =>
      rcases Option.ite_none_right_eq_some.mp hl with ⟨hle, heq⟩
      rw [← Option.some.inj heq]
      refine ⟨hle, ?_⟩
      show s.sent ++ (s.buf.store chunk).front chunk.length = (s.received ++ [chunk]).flatten
      rw [s.buf.front_store hle, h, List.flatten_append, List.flatten_singleton]
  | some err =>
      cases chunk with
      | nil =>
          obtain rfl : s = l := Option.some.inj hl
          refine ⟨?_, ?_, err, rfl⟩
          · show s.sent <+: s.received.flatten
            exact h ▸ List.prefix_refl _
          · show s.received.flatten.length ≤ s.sent.length + n
            rw [h]
            exact Nat.le_add_right _ _
      | cons b chunk => cases hl

/-- The session has written the chunk, or a part of it. -/
theorem echoes_wrote {s : Session n} {length : ℕ} (hle : length ≤ n)
    (h : s.sent ++ s.buf.front length = s.received.flatten) {err : Option ErrorCode}
    {transferred : ℕ} {l : Session n}
    (hl : s.complete (.write length) (.wrote err transferred) = some l) :
    Echoes (l.resume (.write length) (.wrote err transferred)) := by
  cases err with
  | none =>
      rcases Option.ite_none_right_eq_some.mp hl with ⟨-, heq⟩
      rw [← Option.some.inj heq]
      exact h
  | some err =>
      rcases Option.ite_none_right_eq_some.mp hl with ⟨htransferred, heq⟩
      rw [← Option.some.inj heq]
      refine ⟨?_, ?_, err, rfl⟩
      · show s.sent ++ s.buf.front transferred <+: s.received.flatten
        rw [← h]
        exact (List.prefix_append_right_inj _).mpr (s.buf.front_prefix htransferred)
      · show s.received.flatten.length ≤ (s.sent ++ s.buf.front transferred).length + n
        rw [← h, List.length_append, List.length_append, s.buf.length_front hle]
        omega

theorem echoes_reachable {f : Coroutine.Frame (Session n) SessionOp (Outcome Unit)}
    (hf : (machine n).Reachable f) : Echoes f := by
  refine (Coroutine.Program.inductive_of_resume ?_ ?_).reachable hf
  · rintro f ⟨setOptionErr, rfl⟩
    exact echoes_start setOptionErr
  · intro s op reply l h hl
    cases op with
    | connect => exact absurd h id
    | readSome =>
        cases reply with
        | read err chunk => exact echoes_read h hl
        | connected err => cases hl
        | wrote err transferred => cases err <;> cases hl
    | write length =>
        cases reply with
        | wrote err transferred => exact echoes_wrote h.1 h.2 hl
        | connected err => cases hl
        | read err chunk => cases err <;> cases hl

/-- Wherever the session is, at most one block is missing. -/
theorem Echoes.outstanding {f : Coroutine.Frame (Session n) SessionOp (Outcome Unit)}
    (h : Echoes f) : f.locals.sent <+: f.locals.received.flatten ∧
      f.locals.received.flatten.length ≤ f.locals.sent.length + n := by
  unfold Echoes at h
  split at h
  · exact h.elim
  · rw [h]
    exact ⟨List.prefix_refl _, Nat.le_add_right _ _⟩
  · rcases h with ⟨hle, hflatten⟩
    rw [← hflatten]
    refine ⟨List.prefix_append _ _, ?_⟩
    rw [List.length_append, f.locals.buf.length_front hle]
    omega
  · exact ⟨h.1, h.2.1⟩

end Hard2

/-! ## The session of `easy.cpp` -/

namespace Easy

open Hard2 (Session Echoes)

variable {n : ℕ}

/-- `await_resume`, that is `get` of the future: the number of bytes, or the error is thrown. -/
def futureGet (err : Option ErrorCode) (n : ℕ) : Except Thrown ℕ :=
  match err with
  | some err => .error (.system err)
  | none => .ok n

/-- The body of the loop, from either `co_await` to the next. -/
def resume (s : Session n) : SessionOp → SessionReply →
    Coroutine.Frame (Session n) SessionOp (Outcome Unit)
  | .readSome, .read err chunk =>
      match futureGet err chunk.length with
      | .ok length => ⟨s, .awaiting (.write length)⟩
      | .error e => s.finish e
  | .write _, .wrote err transferred =>
      match futureGet err transferred with
      | .ok _ => ⟨s, .awaiting .readSome⟩
      | .error e => s.finish e
  | op, _ => ⟨s, .awaiting op⟩

/-- `session` of `easy.cpp`; the operations do to its buffer what they do in `hard1.cpp`. -/
def session (n : ℕ) : Coroutine.Program (Session n) SessionOp SessionReply (Outcome Unit) where
  complete := Session.complete
  resume := resume

/-- The session on the awaiters that poll. -/
def machine (n : ℕ) : Machine
    (Coroutine.Polling (Session n) SessionOp SessionReply (Outcome Unit))
    (Coroutine.PollEvent SessionReply) :=
  (session n).pollMachine fun f => ∃ setOptionErr, f = Session.start setOptionErr

/-- The same session on handlers. -/
def handlerMachine (n : ℕ) :
    Machine (Coroutine.Frame (Session n) SessionOp (Outcome Unit)) SessionReply :=
  (session n).machine fun f => ∃ setOptionErr, f = Session.start setOptionErr

/-! ## What the two sessions do -/

/-- A session without what it has printed on `std::cerr`. -/
def quiet (s : Session n) : Session n := { s with cerr := [] }

def quietFrame (f : Coroutine.Frame (Session n) SessionOp (Outcome Unit)) :
    Coroutine.Frame (Session n) SessionOp (Outcome Unit) := ⟨quiet f.locals, f.point⟩

theorem complete_quiet (s : Session n) (op : SessionOp) (reply : SessionReply) :
    (quiet s).complete op reply = (s.complete op reply).map quiet := by
  cases op with
  | connect => rfl
  | readSome =>
      cases reply with
      | connected err => rfl
      | wrote err transferred => rfl
      | read err chunk =>
          cases err with
          | none =>
              simp only [Session.complete]
              split <;> rfl
          | some err => cases chunk <;> rfl
  | write length =>
      cases reply with
      | connected err => rfl
      | read err chunk => rfl
      | wrote err transferred =>
          cases err with
          | none =>
              simp only [Session.complete]
              split <;> rfl
          | some err =>
              simp only [Session.complete]
              split <;> rfl

theorem resume_quiet (s : Session n) (op : SessionOp) (reply : SessionReply) :
    resume (quiet s) op reply = quietFrame (s.resume op reply) := by
  cases op with
  | connect => rfl
  | readSome =>
      cases reply with
      | read err chunk => cases err <;> rfl
      | _ => rfl
  | write length =>
      cases reply with
      | wrote err transferred => cases err <;> rfl
      | _ => rfl

theorem step_quiet (f : Coroutine.Frame (Session n) SessionOp (Outcome Unit))
    (reply : SessionReply) :
    (session n).step (quietFrame f) reply = ((Hard2.session n).step f reply).map quietFrame := by
  unfold Coroutine.Program.step
  cases hpoint : f.point with
  | finished out => simp [quietFrame, hpoint]
  | awaiting op =>
      simp only [quietFrame, hpoint]
      show ((quiet f.locals).complete op reply).map _ = ((f.locals.complete op reply).map _).map _
      rw [complete_quiet, Option.map_map, Option.map_map]
      congr 1
      funext l
      exact resume_quiet l op reply

theorem start_quiet (setOptionErr : Option ErrorCode) :
    quietFrame (Session.start setOptionErr) =
      (Session.start setOptionErr : Coroutine.Frame (Session n) SessionOp (Outcome Unit)) := by
  cases setOptionErr <;> rfl

/-- On handlers the two sessions differ in what they print, and in nothing else. -/
theorem handlerMachine_reachable_iff {f : Coroutine.Frame (Session n) SessionOp (Outcome Unit)} :
    (handlerMachine n).Reachable f ↔ ∃ g, (Hard2.machine n).Reachable g ∧ quietFrame g = f := by
  constructor
  · intro hf
    induction hf with
    | init hinit =>
        rcases hinit with ⟨setOptionErr, rfl⟩
        exact ⟨_, .init ⟨setOptionErr, rfl⟩, start_quiet setOptionErr⟩
    | step reply _ hstep ih =>
        rcases ih with ⟨g, hg, rfl⟩
        have hquiet := (step_quiet g reply).symm.trans hstep
        rcases Option.map_eq_some_iff.mp hquiet with ⟨g', hg', rfl⟩
        exact ⟨g', hg.step reply hg', rfl⟩
  · rintro ⟨g, hg, rfl⟩
    induction hg with
    | init hinit =>
        rcases hinit with ⟨setOptionErr, rfl⟩
        rw [start_quiet]
        exact .init ⟨setOptionErr, rfl⟩
    | @step g g' reply _ hstep ih =>
        refine ih.step reply ?_
        show (session n).step (quietFrame g) reply = _
        rw [step_quiet]
        show ((Hard2.machine n).step g reply).map quietFrame = _
        rw [hstep]
        rfl

theorem resume_history (s : Session n) (op : SessionOp) (reply : SessionReply) :
    (resume s op reply).locals = s := by
  unfold resume
  split
  · split <;> rfl
  · split <;> rfl
  · rfl

/-- The session of `easy.cpp` gets to the frames that the session of `hard1.cpp` and `hard2.cpp`
gets to, what that one has printed apart. Whenever its timers test its futures, what it has sent
is the beginning of what it has received, all of it where it is to read on, and all but one
block at most anywhere. -/
theorem easy_session_echoes (n : ℕ) :
    (∀ f, (∃ c, (machine n).Reachable c ∧ (session n).shown c = f) ↔
      ∃ g, (Hard2.machine n).Reachable g ∧ quietFrame g = f) ∧
    ∀ c, (machine n).Reachable c →
      c.frame.locals.sent <+: c.frame.locals.received.flatten ∧
        c.frame.locals.received.flatten.length ≤ c.frame.locals.sent.length + n ∧
        (c.future = none → c.frame.point = .awaiting .readSome →
          c.frame.locals.sent = c.frame.locals.received.flatten) := by
  refine ⟨fun f => ?_, fun c hc => ?_⟩
  · rw [← handlerMachine_reachable_iff]
    exact Coroutine.Program.exists_shown_iff
  · have hshown := (Coroutine.Program.poll_projection (session n) _).reachable hc
    rcases handlerMachine_reachable_iff.mp hshown with ⟨g, hg, heq⟩
    have hechoes := Hard2.echoes_reachable hg
    have hlocals : ((session n).shown c).locals = c.frame.locals := by
      unfold Coroutine.Program.shown
      split
      · exact resume_history _ _ _
      · rfl
    have hsent : g.locals.sent = c.frame.locals.sent := by
      rw [← hlocals, ← heq]
      rfl
    have hreceived : g.locals.received = c.frame.locals.received := by
      rw [← hlocals, ← heq]
      rfl
    have hpoint : g.point = ((session n).shown c).point := by
      rw [← heq]
      rfl
    have houtstanding := hechoes.outstanding
    rw [hsent, hreceived] at houtstanding
    refine ⟨houtstanding.1, houtstanding.2, fun hnone hread => ?_⟩
    unfold Hard2.Echoes at hechoes
    rw [hpoint, Coroutine.Program.shown_of_none hnone, hread, hsent, hreceived] at hechoes
    exact hechoes

end Easy

end CppCoroutines
