import CppCoroutines.Await.Easy
import CppCoroutines.Await.Pending
import CppCoroutines.Executor.Alone

/-!
# The sessions of a whole server

`server.cpp` and `hard2.cpp` with all their connections on one loop. However the handlers of the
sessions are interleaved, each session is where it could be if it were the only one; so what it
has sent is what it has read itself, as far as a single session of that program echoes.
-/

namespace CppCoroutines

/-! ## What the session of `server.cpp` sends -/

namespace AwaitServer

variable {n : ℕ}

/-- One whole block has been sent for each chunk, the last one perhaps in part. -/
def Session.SendsBlocks (s : Session n) : Prop :=
  s.sent <+: stream (Block.zero n) (Block.zero n) s.received ∧
    (stream (Block.zero n) (Block.zero n) s.received).length ≤ s.sent.length + n

/-- What is sent from here on continues what has been sent to the stream of all chunks. -/
def Sends (f : Coroutine.Frame (Session n) SessionOp (Outcome Unit)) : Prop :=
  match f.point with
  | .awaiting .connect => False
  | .awaiting .readSome => ∀ chunks,
      stream (Block.zero n) (Block.zero n) (f.locals.received ++ chunks) =
        f.locals.sent ++ stream f.locals.readData f.locals.writeData chunks
  | .awaiting (.write length) => length = n ∧ ∀ chunks,
      stream (Block.zero n) (Block.zero n) (f.locals.received ++ chunks) =
        f.locals.sent ++ (f.locals.writeData.bytes ++
          stream f.locals.readData f.locals.writeData chunks)
  | .finished _ => f.locals.SendsBlocks

theorem sendsBlocks_of_readSome {s : Session n} (h : Sends ⟨s, .awaiting .readSome⟩) :
    s.sent = stream (Block.zero n) (Block.zero n) s.received := by
  have hstream := h []
  rw [List.append_nil] at hstream
  exact (hstream.trans (List.append_nil _)).symm

/-- Some of the block has been sent. -/
theorem sendsBlocks_of_write {s : Session n} {length : ℕ}
    (h : Sends ⟨s, .awaiting (.write length)⟩) {transferred : ℕ} (hle : transferred ≤ length) :
    Session.SendsBlocks { s with sent := s.sent ++ s.writeData.front transferred } := by
  obtain ⟨rfl, hchunks⟩ := h
  have hstream : stream (Block.zero length) (Block.zero length) s.received =
      s.sent ++ s.writeData.bytes := by
    have hstream := hchunks []
    rw [List.append_nil] at hstream
    rw [hstream]
    exact congrArg (s.sent ++ ·) (List.append_nil _)
  constructor
  · show s.sent ++ _ <+: stream _ _ s.received
    rw [hstream]
    have hprefix := s.writeData.front_prefix hle
    rw [Block.front_self] at hprefix
    exact (List.prefix_append_right_inj _).mpr hprefix
  · show (stream _ _ s.received).length ≤ (s.sent ++ _).length + length
    rw [hstream, List.length_append, List.length_append, Block.length_bytes]
    omega

theorem sendsBlocks_of_eq {s : Session n}
    (h : s.sent = stream (Block.zero n) (Block.zero n) s.received) : s.SendsBlocks := by
  unfold Session.SendsBlocks
  rw [h]
  exact ⟨List.prefix_refl _, Nat.le_add_right _ _⟩

/-- Wherever the session is, at most one block is missing. -/
theorem Sends.blocks {f : Coroutine.Frame (Session n) SessionOp (Outcome Unit)} (h : Sends f) :
    f.locals.SendsBlocks := by
  rcases f with ⟨s, op | out⟩
  · cases op with
    | connect => exact absurd h id
    | readSome => exact sendsBlocks_of_eq (sendsBlocks_of_readSome h)
    | write length =>
        have hblocks := sendsBlocks_of_write h (Nat.zero_le length)
        rw [Block.front_zero, List.append_nil] at hblocks
        exact hblocks
  · exact h

theorem sends_finish {s : Session n} (h : s.SendsBlocks) (e : Thrown) : Sends (s.finish e) := by
  cases e <;> exact h

/-- The error is printed and thrown. -/
theorem sends_throw {s : Session n} (h : s.SendsBlocks) (lines : List LogLine) (e : Thrown) :
    Sends ((s.print lines).finish e) := sends_finish (show (s.print lines).SendsBlocks from h) e

theorem sends_start (setOptionErr : Option ErrorCode) :
    Sends (Session.start setOptionErr : Coroutine.Frame (Session n) SessionOp (Outcome Unit)) := by
  cases setOptionErr with
  | none => exact fun chunks => rfl
  | some err => exact sends_finish (sendsBlocks_of_eq rfl) _

/-- The chunk goes to the front of the block that is written next. -/
theorem sends_read {s : Session n} (h : Sends ⟨s, .awaiting .readSome⟩) {err : Option ErrorCode}
    {chunk : List Byte} {l : Session n} (hl : s.complete .readSome (.read err chunk) = some l) :
    Sends (l.resume .readSome (.read err chunk)) := by
  cases err with
  | none =>
      obtain ⟨-, heq⟩ := Option.ite_none_right_eq_some.mp hl
      rw [← Option.some.inj heq]
      refine ⟨rfl, fun chunks => ?_⟩
      show stream _ _ ((s.received ++ [chunk]) ++ chunks) = _
      rw [List.append_assoc]
      exact h (chunk :: chunks)
  | some err =>
      cases chunk with
      | nil =>
          obtain rfl : s = l := Option.some.inj hl
          exact sends_throw (sendsBlocks_of_eq (sendsBlocks_of_readSome h)) _ _
      | cons b chunk => cases hl

theorem sends_wrote {s : Session n} {length : ℕ} (h : Sends ⟨s, .awaiting (.write length)⟩)
    {err : Option ErrorCode} {transferred : ℕ} {l : Session n}
    (hl : s.complete (.write length) (.wrote err transferred) = some l) :
    Sends (l.resume (.write length) (.wrote err transferred)) := by
  cases err with
  | none =>
      obtain ⟨rfl, heq⟩ := Option.ite_none_right_eq_some.mp hl
      rw [← Option.some.inj heq]
      obtain ⟨rfl, hchunks⟩ := h
      intro chunks
      show stream _ _ (s.received ++ chunks) =
        (s.sent ++ s.writeData.front transferred) ++ stream s.readData s.writeData chunks
      rw [List.append_assoc, Block.front_self]
      exact hchunks chunks
  | some err =>
      obtain ⟨hle, heq⟩ := Option.ite_none_right_eq_some.mp hl
      rw [← Option.some.inj heq]
      exact sends_throw (sendsBlocks_of_write h hle) _ _

theorem sends_resume {s : Session n} {op : SessionOp} {reply : SessionReply} {l : Session n}
    (h : Sends ⟨s, .awaiting op⟩) (hl : s.complete op reply = some l) :
    Sends (l.resume op reply) := by
  cases op with
  | connect => exact absurd h id
  | readSome =>
      cases reply with
      | read err chunk => exact sends_read h hl
      | connected err => cases hl
      | wrote err transferred => cases err <;> cases hl
  | write length =>
      cases reply with
      | wrote err transferred => exact sends_wrote h hl
      | connected err => cases hl
      | read err chunk => cases err <;> cases hl

theorem sends_reachable {f : Coroutine.Frame (Session n) SessionOp (Outcome Unit)}
    (hf : (machine n).Reachable f) : Sends f := by
  refine (Coroutine.Program.inductive_of_resume ?_ ?_).reachable hf
  · rintro f ⟨setOptionErr, rfl⟩
    exact sends_start setOptionErr
  · intro s op reply l h hl
    exact sends_resume h hl

/-- The code between two suspensions leaves the history alone. -/
theorem resume_history (s : Session n) (op : SessionOp) (reply : SessionReply) :
    (s.resume op reply).locals.received = s.received ∧
      (s.resume op reply).locals.sent = s.sent := by
  unfold Session.resume
  split
  · split
    · exact ⟨rfl, rfl⟩
    · exact Session.finish_history _ _
  · split
    · exact ⟨rfl, rfl⟩
    · exact Session.finish_history _ _
  · exact ⟨rfl, rfl⟩

/-- What the operation leaves in the frame before the code goes on. -/
theorem sendsBlocks_of_complete {s : Session n} {op : SessionOp} {reply : SessionReply}
    {l : Session n} (h : Sends ⟨s, .awaiting op⟩) (hl : s.complete op reply = some l) :
    l.SendsBlocks := by
  have hblocks := (sends_resume h hl).blocks
  unfold Session.SendsBlocks at hblocks
  rw [(resume_history l op reply).1, (resume_history l op reply).2] at hblocks
  exact hblocks

/-! ## The sessions of `server.cpp` -/

def Locals.fresh : Locals n → Prop
  | .server _ => True
  | .session s => s = Session.new

/-- Only `server` calls coroutines. -/
def Locals.calls : Locals n → Prop
  | .server _ => True
  | .session _ => False

/-- A session is in a frame that it gets to on its own, or has ended before its `try` block. -/
def Alone (f : Coroutine.Frame (Locals n) ServerOp (Outcome Unit)) : Prop :=
  match f.locals, f.point with
  | .server _, _ => True
  | .session s, .awaiting (.session op) => (machine n).Reachable ⟨s, .awaiting op⟩
  | .session _, .awaiting .accept => False
  | .session s, .finished _ => s = { Session.new with socketOpen := false } ∨
      ∃ out, (machine n).Reachable ⟨s, .finished out⟩

theorem sessionTurn_leads (calls : Calls)
    {f : Coroutine.Frame (Session n) SessionOp (Outcome Unit)} (hf : (machine n).Reachable f) :
    (sessionTurn calls f).Leads Locals.fresh Locals.calls Alone := by
  rcases f with ⟨s, op | out⟩
  · exact hf
  · exact Or.inr ⟨out, hf⟩

theorem sendsBlocks_of_alone {f : Coroutine.Frame (Locals n) ServerOp (Outcome Unit)}
    (hf : Alone f) {l : Session n} (hl : f.locals = .session l) : l.SendsBlocks := by
  rcases f with ⟨x, point⟩
  obtain rfl : x = .session l := hl
  rcases point with op | out
  · cases op with
    | accept => exact absurd hf id
    | session op => exact (sends_reachable hf).blocks
  · rcases hf with rfl | ⟨out, hout⟩
    · exact sendsBlocks_of_eq rfl
    · exact (sends_reachable hout).blocks

/-- What an operation leaves in the frame. -/
theorem complete_alone {x : Locals n} {op : ServerOp} {reply : ServerReply} {l : Session n}
    (hf : Alone ⟨x, .awaiting op⟩) (hcomplete : x.complete op reply = some (.session l)) :
    l.SendsBlocks := by
  cases x with
  | server listening => cases op <;> cases reply <;> cases hcomplete
  | session l₀ =>
      cases op with
      | accept => exact absurd hf id
      | session op =>
          cases reply with
          | accepted err => cases hcomplete
          | session reply =>
              rcases Option.map_eq_some_iff.mp hcomplete with ⟨l', hl', heq⟩
              obtain rfl := Locals.session.inj heq
              exact sendsBlocks_of_complete (sends_reachable hf) hl'

theorem serverCode_carries (n : ℕ) :
    (serverCode n).Carries Locals.fresh Locals.calls Alone := by
  constructor
  · intro l calls hl
    cases l with
    | server listening =>
        cases hlisten : calls.listen with
        | none =>
            have hstart : (serverCode n).start (.server listening) calls =
                .await (.server true) .accept := by simp [serverCode, Locals.start, hlisten]
            rw [hstart]
            exact trivial
        | some err =>
            have hstart : (serverCode n).start (.server listening) calls =
                .finish (.server false) (.exception (.system err)) := by
              simp [serverCode, Locals.start, hlisten]
            rw [hstart]
            exact trivial
    | session s =>
        obtain rfl : s = Session.new := hl
        cases hbefore : calls.beforeTry with
        | none =>
            have hstart : (serverCode n).start (.session Session.new) calls =
                sessionTurn calls (Session.start calls.setOption) := by
              simp [serverCode, Locals.start, hbefore]
            rw [hstart]
            exact sessionTurn_leads calls (.init ⟨calls.setOption, rfl⟩)
        | some e =>
            have hstart : (serverCode n).start (.session Session.new) calls =
                .finish (.session { Session.new with socketOpen := false }) (.exception e) := by
              simp [serverCode, Locals.start, hbefore]
            rw [hstart]
            exact Or.inl rfl
  · intro l op reply l' calls hl hcomplete
    cases l with
    | server listening =>
        rcases op with - | op
        swap
        · cases reply <;> cases hcomplete
        rcases reply with err | reply
        swap
        · cases hcomplete
        obtain rfl := Option.some.inj hcomplete
        cases hdone : awaitDone err with
        | ok _ =>
            have hresume : (serverCode n).resume (.server listening) .accept (.accepted err) calls =
                .call (.server listening) (.session Session.new) := by
              simp [serverCode, Locals.resume, hdone]
            rw [hresume]
            exact ⟨trivial, rfl⟩
        | error e =>
            have hresume : (serverCode n).resume (.server listening) .accept (.accepted err) calls =
                .finish (.server false) (.exception e) := by
              simp [serverCode, Locals.resume, hdone]
            rw [hresume]
            exact trivial
    | session s =>
        rcases op with - | op
        · exact absurd hl id
        · rcases reply with err | reply
          · cases hcomplete
          · rcases Option.map_eq_some_iff.mp hcomplete with ⟨s', hs', rfl⟩
            exact sessionTurn_leads calls ((session n).reachable_resume hl hs')
  · intro l calls hl
    cases l with
    | server listening => exact trivial
    | session s => exact hl.elim

/-- Whatever the other connections do, each session of `server.cpp` sends one whole block for each
chunk that it has read, with the chunk in front of what an earlier one has left there, in order
and with at most one block missing, and none while it reads; so it echoes while the chunks fill
the block. -/
theorem server_sessions_send {s : ServerState n} (hs : (serverMachine n).Reachable s)
    {t : Executor.Task (Locals n) ServerOp ServerReply (Outcome Unit)} (ht : t ∈ s.tasks)
    {l : Session n} (hl : t.locals = .session l) :
    l.SendsBlocks ∧
      ((∃ number, t.status = .suspended number (.session .readSome)) →
        l.sent = stream (Block.zero n) (Block.zero n) l.received) ∧
      ((∀ chunk ∈ l.received, chunk.length = n) → l.sent <+: l.received.flatten) := by
  have hroots : ∀ l ∈ [Locals.server (n := n) false], l.fresh := by
    intro l hl
    rw [List.mem_singleton.mp hl]
    exact trivial
  have hat := Executor.at_reachable (serverCode_carries n) hroots hs t ht
  have hblocks : l.SendsBlocks := by
    refine hat.locals (D := fun x => ∀ l, x = .session l → l.SendsBlocks) ?_ ?_ ?_ ?_ l hl
    · rintro x hx l rfl
      obtain rfl : l = Session.new := hx
      exact sendsBlocks_of_eq rfl
    · rintro x hx l rfl
      exact hx.elim
    · rintro f hf l hl
      exact sendsBlocks_of_alone hf hl
    · rintro x op reply x' hx hcomplete l rfl
      exact complete_alone hx hcomplete
  refine ⟨hblocks, ?_, ?_⟩
  · rintro ⟨number, hstatus⟩
    have hf := hat.suspended hstatus
    rw [hl] at hf
    exact sendsBlocks_of_readSome (sends_reachable hf)
  · intro hfull
    rw [← stream_eq_flatten (Block.zero n) (Block.zero n) hfull]
    exact hblocks.1

/-- Two connections: both sessions have read, and the second one has written. -/
def twoConnectionsRun : List (Executor.Event ServerOp ServerReply Calls) :=
  [.advance 0 .ok, .invoke ⟨0, 0, .accept⟩ (.accepted none), .advance 0 .ok, .advance 1 .ok,
    .advance 0 .ok, .invoke ⟨2, 0, .accept⟩ (.accepted none), .advance 0 .ok, .advance 2 .ok,
    .advance 0 .ok, .invoke ⟨3, 2, .session .readSome⟩ (.session (.read none [7, 8])),
    .invoke ⟨1, 1, .session .readSome⟩ (.session (.read none [9])), .advance 1 .ok,
    .advance 2 .ok, .invoke ⟨6, 2, .session (.write 2)⟩ (.session (.wrote none 2)),
    .advance 2 .ok]

theorem server_sessions_send_two : ∃ s t l,
    (serverMachine 2).run (Executor.State.new [.server false]) twoConnectionsRun = some s ∧
      t ∈ s.tasks ∧ t.locals = .session l ∧ l.received = [[7, 8]] ∧ l.sent = [7, 8] ∧
      l.SendsBlocks := by
  have hrun : ∃ s, (serverMachine 2).run (Executor.State.new [.server false]) twoConnectionsRun =
      some s ∧ ∃ t l, s.tasks[2]? = some t ∧ t.locals = .session l ∧ l.received = [[7, 8]] ∧
        l.sent = [7, 8] := ⟨_, rfl, _, _, rfl, rfl, rfl, rfl⟩
  obtain ⟨s, hrun, t, l, ht, hl, hreceived, hsent⟩ := hrun
  have hs : (serverMachine 2).Reachable s := (Machine.Reachable.init rfl).run hrun
  have hmem := List.mem_of_getElem? ht
  exact ⟨s, t, l, hrun, hmem, hl, hreceived, hsent, (server_sessions_send hs hmem hl).1⟩

end AwaitServer

/-! ## The sessions of `hard2.cpp` -/

namespace Hard2

open AwaitServer (ServerOp ServerReply)

variable {n : ℕ}

/-- The frame of `server` or of a `session`. -/
inductive Locals (n : ℕ) where
  | server (listening : Bool)
  | session (s : Session n)

/-- How the calls come off that do not suspend. -/
structure Calls where
  /-- the constructor of `acceptor` and `acceptor.listen` -/
  listen : Option ErrorCode
  /-- what the constructor of `buf_` throws -/
  allocation : Option Thrown
  setOption : Option ErrorCode
deriving DecidableEq, Repr

/-- Nothing fails. -/
def Calls.ok : Calls := ⟨none, none, none⟩

abbrev ServerTurn (n : ℕ) := Executor.Turn (Locals n) ServerOp (Outcome Unit)

/-- `session` from one `co_await` to the next or to its end. -/
def sessionTurn (f : Coroutine.Frame (Session n) SessionOp (Outcome Unit)) : ServerTurn n :=
  match f.point with
  | .awaiting op => .await (.session f.locals) (.session op)
  | .finished out => .finish (.session f.locals) out

namespace Locals

def complete : Locals n → ServerOp → ServerReply → Option (Locals n)
  | .server listening, .accept, .accepted _ => some (.server listening)
  | .session s, .session op, .session reply => (s.complete op reply).map .session
  | _, _, _ => none

/-- From the call to the first suspension. -/
def start : Locals n → Calls → ServerTurn n
  | .server _, calls =>
      match calls.listen with
      | some err => .finish (.server false) (.exception (.system err))
      | none => .await (.server true) .accept
  | .session s, calls =>
      match calls.allocation with
      | some e => .finish (.session s) (.exception e)
      | none => sessionTurn (Session.start calls.setOption)

def resume : Locals n → ServerOp → ServerReply → ServerTurn n
  | .server listening, .accept, .accepted err =>
      match awaitDone err with
      -- the future that `session` returns is not kept
      | .ok _ => .call (.server listening) (.session Session.new)
      | .error e => .finish (.server false) (.exception e)
  | .session s, .session op, .session reply => sessionTurn (s.resume op reply)
  -- an operation completes with a result of its own kind
  | l, op, _ => .await l op

/-- `session(..)` has returned; its future is dropped. -/
def proceed : Locals n → ServerTurn n
  | .server listening => .await (.server listening) .accept
  -- a session calls no coroutine
  | .session s => .finish (.session s) (.value ())

def fresh : Locals n → Prop
  | .server _ => True
  | .session s => s = Session.new

/-- Only `server` calls coroutines. -/
def calls : Locals n → Prop
  | .server _ => True
  | .session _ => False

end Locals

/-- `session` and `server` of `hard2.cpp`. -/
def serverCode (n : ℕ) : Executor.Code (Locals n) ServerOp ServerReply Calls (Outcome Unit) where
  complete := Locals.complete
  start := Locals.start
  resume l op reply _ := l.resume op reply
  proceed l _ := l.proceed

abbrev ServerState (n : ℕ) := Executor.State (Locals n) ServerOp ServerReply (Outcome Unit)

/-- `main` calls `server` and runs the `io_service`. -/
def serverMachine (n : ℕ) : Machine (ServerState n) (Executor.Event ServerOp ServerReply Calls) :=
  Executor.machine (serverCode n) [.server false]

/-- A session is in a frame that it gets to on its own, or has ended before it began. -/
def Alone (f : Coroutine.Frame (Locals n) ServerOp (Outcome Unit)) : Prop :=
  match f.locals, f.point with
  | .server _, _ => True
  | .session s, .awaiting (.session op) => (machine n).Reachable ⟨s, .awaiting op⟩
  | .session _, .awaiting .accept => False
  | .session s, .finished _ => s = Session.new ∨ ∃ out, (machine n).Reachable ⟨s, .finished out⟩

/-- What has been sent is the beginning of what has been read; at most one block is missing. -/
def Session.SendsBack (s : Session n) : Prop :=
  s.sent <+: s.received.flatten ∧ s.received.flatten.length ≤ s.sent.length + n

theorem resume_history (s : Session n) (op : SessionOp) (reply : SessionReply) :
    (s.resume op reply).locals.received = s.received ∧
      (s.resume op reply).locals.sent = s.sent := by
  unfold Session.resume
  split
  · split <;> exact ⟨rfl, rfl⟩
  · split <;> exact ⟨rfl, rfl⟩
  · exact ⟨rfl, rfl⟩

theorem sendsBack_of_complete {s : Session n} {op : SessionOp} {reply : SessionReply}
    {l : Session n} (h : (machine n).Reachable ⟨s, .awaiting op⟩)
    (hl : s.complete op reply = some l) : l.SendsBack := by
  have hreach : (machine n).Reachable (l.resume op reply) := (session n).reachable_resume h hl
  have hback := (echoes_reachable hreach).outstanding
  rw [(resume_history l op reply).1, (resume_history l op reply).2] at hback
  exact hback

theorem sessionTurn_leads {f : Coroutine.Frame (Session n) SessionOp (Outcome Unit)}
    (hf : (machine n).Reachable f) : (sessionTurn f).Leads Locals.fresh Locals.calls Alone := by
  rcases f with ⟨s, op | out⟩
  · exact hf
  · exact Or.inr ⟨out, hf⟩

theorem serverCode_carries (n : ℕ) :
    (serverCode n).Carries Locals.fresh Locals.calls Alone := by
  constructor
  · intro l calls hl
    cases l with
    | server listening =>
        cases hlisten : calls.listen with
        | none =>
            have hstart : (serverCode n).start (.server listening) calls =
                .await (.server true) .accept := by simp [serverCode, Locals.start, hlisten]
            rw [hstart]
            exact trivial
        | some err =>
            have hstart : (serverCode n).start (.server listening) calls =
                .finish (.server false) (.exception (.system err)) := by
              simp [serverCode, Locals.start, hlisten]
            rw [hstart]
            exact trivial
    | session s =>
        obtain rfl : s = Session.new := hl
        cases hallocation : calls.allocation with
        | none =>
            have hstart : (serverCode n).start (.session Session.new) calls =
                sessionTurn (Session.start calls.setOption) := by
              simp [serverCode, Locals.start, hallocation]
            rw [hstart]
            exact sessionTurn_leads (.init ⟨calls.setOption, rfl⟩)
        | some e =>
            have hstart : (serverCode n).start (.session Session.new) calls =
                .finish (.session Session.new) (.exception e) := by
              simp [serverCode, Locals.start, hallocation]
            rw [hstart]
            exact Or.inl rfl
  · intro l op reply l' calls hl hcomplete
    cases l with
    | server listening =>
        rcases op with - | op
        swap
        · cases reply <;> cases hcomplete
        rcases reply with err | reply
        swap
        · cases hcomplete
        obtain rfl := Option.some.inj hcomplete
        cases hdone : awaitDone err with
        | ok _ =>
            have hresume : (serverCode n).resume (.server listening) .accept (.accepted err) calls =
                .call (.server listening) (.session Session.new) := by
              simp [serverCode, Locals.resume, hdone]
            rw [hresume]
            exact ⟨trivial, rfl⟩
        | error e =>
            have hresume : (serverCode n).resume (.server listening) .accept (.accepted err) calls =
                .finish (.server false) (.exception e) := by
              simp [serverCode, Locals.resume, hdone]
            rw [hresume]
            exact trivial
    | session s =>
        rcases op with - | op
        · exact absurd hl id
        · rcases reply with err | reply
          · cases hcomplete
          · rcases Option.map_eq_some_iff.mp hcomplete with ⟨s', hs', rfl⟩
            exact sessionTurn_leads ((session n).reachable_resume hl hs')
  · intro l calls hl
    cases l with
    | server listening => exact trivial
    | session s => exact hl.elim

theorem sendsBack_of_alone {f : Coroutine.Frame (Locals n) ServerOp (Outcome Unit)}
    (hf : Alone f) {l : Session n} (hl : f.locals = .session l) : l.SendsBack := by
  rcases f with ⟨x, point⟩
  obtain rfl : x = .session l := hl
  rcases point with op | out
  · cases op with
    | accept => exact absurd hf id
    | session op => exact (echoes_reachable hf).outstanding
  · rcases hf with rfl | ⟨out, hout⟩
    · exact ⟨List.prefix_refl _, Nat.zero_le _⟩
    · exact (echoes_reachable hout).outstanding

/-- What an operation leaves in the frame. -/
theorem complete_alone {x : Locals n} {op : ServerOp} {reply : ServerReply} {l : Session n}
    (hf : Alone ⟨x, .awaiting op⟩) (hcomplete : x.complete op reply = some (.session l)) :
    l.SendsBack := by
  cases x with
  | server listening => cases op <;> cases reply <;> cases hcomplete
  | session l₀ =>
      cases op with
      | accept => exact absurd hf id
      | session op =>
          cases reply with
          | accepted err => cases hcomplete
          | session reply =>
              rcases Option.map_eq_some_iff.mp hcomplete with ⟨l', hl', heq⟩
              obtain rfl := Locals.session.inj heq
              exact sendsBack_of_complete hf hl'

/-- Whatever the other connections do, each session of `hard2.cpp` sends back what it has read, in
order and with at most one block missing, and none while it reads. -/
theorem server_sessions_echo {s : ServerState n} (hs : (serverMachine n).Reachable s)
    {t : Executor.Task (Locals n) ServerOp ServerReply (Outcome Unit)} (ht : t ∈ s.tasks)
    {l : Session n} (hl : t.locals = .session l) :
    l.SendsBack ∧ ((∃ number, t.status = .suspended number (.session .readSome)) →
      l.sent = l.received.flatten) := by
  have hroots : ∀ l ∈ [Locals.server (n := n) false], l.fresh := by
    intro l hl
    rw [List.mem_singleton.mp hl]
    exact trivial
  have hat := Executor.at_reachable (serverCode_carries n) hroots hs t ht
  constructor
  · refine hat.locals (D := fun x => ∀ l, x = .session l → l.SendsBack) ?_ ?_ ?_ ?_ l hl
    · rintro x hx l rfl
      obtain rfl : l = Session.new := hx
      exact ⟨List.prefix_refl _, Nat.zero_le _⟩
    · rintro x hx l rfl
      exact hx.elim
    · rintro f hf l hl
      exact sendsBack_of_alone hf hl
    · rintro x op reply x' hx hcomplete l rfl
      exact complete_alone hx hcomplete
  · rintro ⟨number, hstatus⟩
    have hf := hat.suspended hstatus
    rw [hl] at hf
    exact echoes_reachable hf

/-- Two connections: both sessions have read, and the second one has written. -/
def twoConnectionsRun : List (Executor.Event ServerOp ServerReply Calls) :=
  [.advance 0 .ok, .invoke ⟨0, 0, .accept⟩ (.accepted none), .advance 0 .ok, .advance 1 .ok,
    .advance 0 .ok, .invoke ⟨2, 0, .accept⟩ (.accepted none), .advance 0 .ok, .advance 2 .ok,
    .advance 0 .ok, .invoke ⟨3, 2, .session .readSome⟩ (.session (.read none [7, 8])),
    .invoke ⟨1, 1, .session .readSome⟩ (.session (.read none [9])), .advance 1 .ok,
    .advance 2 .ok, .invoke ⟨6, 2, .session (.write 2)⟩ (.session (.wrote none 2)),
    .advance 2 .ok]

theorem server_sessions_echo_two : ∃ s t l,
    (serverMachine 2).run (Executor.State.new [.server false]) twoConnectionsRun = some s ∧
      t ∈ s.tasks ∧ t.locals = .session l ∧ l.received = [[7, 8]] ∧ l.sent = [7, 8] ∧
      l.SendsBack := by
  have hrun : ∃ s, (serverMachine 2).run (Executor.State.new [.server false]) twoConnectionsRun =
      some s ∧ ∃ t l, s.tasks[2]? = some t ∧ t.locals = .session l ∧ l.received = [[7, 8]] ∧
        l.sent = [7, 8] := ⟨_, rfl, _, _, rfl, rfl, rfl, rfl⟩
  obtain ⟨s, hrun, t, l, ht, hl, hreceived, hsent⟩ := hrun
  have hs : (serverMachine 2).Reachable s := (Machine.Reachable.init rfl).run hrun
  have hmem := List.mem_of_getElem? ht
  exact ⟨s, t, l, hrun, hmem, hl, hreceived, hsent, (server_sessions_echo hs hmem hl).1⟩

end Hard2

end CppCoroutines
