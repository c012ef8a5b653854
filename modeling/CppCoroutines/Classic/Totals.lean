import CppCoroutines.Machine
import CppCoroutines.Classic.Client

/-!
# The classic client and its totals

`stats` and `client` of `classic_client.cpp`. The client starts its sessions,
stops all of them when its timer fires, and on destruction deletes them; every
session adds its two counters to the totals that are printed last. The machine
below interleaves the sessions with the timer.
-/

namespace CppCoroutines.ClassicClient

/-- `stats`. -/
structure Stats where
  totalBytesWritten : UInt64
  totalBytesRead : UInt64
deriving DecidableEq, Repr

namespace Stats

/-- `stats::stats`. -/
def new : Stats := ⟨0, 0⟩

/-- `stats::add`. -/
def add (t : Stats) (bytesWritten bytesRead : UInt64) : Stats where
  totalBytesWritten := t.totalBytesWritten + bytesWritten
  totalBytesRead := t.totalBytesRead + bytesRead

/-- `stats::print`: the two numbers printed. -/
def print (t : Stats) : ℕ × ℕ := (t.totalBytesWritten.toNat, t.totalBytesRead.toNat)

end Stats

/-- `session::~session`. -/
def Session.destruct {n : ℕ} (s : Session n) (stats : Stats) : Stats :=
  stats.add s.bytesWritten s.bytesRead

/-- The data members of `client`. -/
structure Client (n : ℕ) where
  sessions : List (Session n)
  stats : Stats
  /-- the `async_wait` of the constructor is outstanding -/
  timerPending : Bool

namespace Client

variable {n : ℕ}

/-- The constructor starts one session for each element of `garbages`, which is what
its `read_data_` happens to hold. -/
def new (garbages : List (Block n)) : Client n where
  sessions := garbages.map Session.new
  stats := Stats.new
  timerPending := true

/-- Replace one session. -/
def setSession (c : Client n) (i : ℕ) (t : Session n) : Client n :=
  { c with sessions := c.sessions.set i t }

/-- `client::handle_timeout`. -/
def handleTimeout (c : Client n) : Client n := { c with sessions := c.sessions.map Session.stop }

/-- The loop of `client::~client`: delete the sessions from the front on. -/
def deleteSessions : List (Session n) → Stats → Stats
  | [], stats => stats
  | s :: sessions, stats => deleteSessions sessions (s.destruct stats)

/-- `client::~client`: the totals it prints. -/
def destruct (c : Client n) : ℕ × ℕ := (deleteSessions c.sessions c.stats).print

end Client

/-- Something happens to one session, or the timer fires. -/
inductive ClientEvent where
  | session (i : ℕ) (e : Event)
  | timeout
deriving DecidableEq, Repr

/-- One event of the client; only `handle_timeout` stops a session. -/
def clientStep {n : ℕ} (c : Client n) : ClientEvent → Option (Client n)
  | .session _ .stop => none
  | .session i e => c.sessions[i]?.bind fun s => (step s e).map fun t => c.setSession i t
  | .timeout =>
      if c.timerPending = true then some { c.handleTimeout with timerPending := false } else none

/-- A client from its construction on, with any number of sessions. -/
def clientMachine (n : ℕ) : Machine (Client n) ClientEvent where
  init c := ∃ garbages, c = Client.new garbages
  step := clientStep

/-- `io_service::run` has returned: nothing is outstanding. -/
def Client.Returned {n : ℕ} (c : Client n) : Prop :=
  c.timerPending = false ∧ ∀ s ∈ c.sessions,
    s.connecting = false ∧ s.reads = [] ∧ s.writes = [] ∧ s.closePosts = 0

/-! ## The invariant -/

/-- Every session is as a session by itself, and nothing has been added to the totals. -/
structure ClientInv {n : ℕ} (c : Client n) : Prop where
  sessions : ∀ s ∈ c.sessions, Inv s
  stats : c.stats = Stats.new

variable {n : ℕ} {c : Client n}

theorem client_init_inv (garbages : List (Block n)) : ClientInv (Client.new garbages) := by
  constructor
  · intro s hs
    rcases List.mem_map.mp hs with ⟨garbage, -, rfl⟩
    exact init_inv garbage
  · rfl

/-- A session goes on by itself. -/
theorem ClientInv.session_step (h : ClientInv c) {i : ℕ} {e : Event} {s t : Session n}
    (hs : c.sessions[i]? = some s) (hstep : step s e = some t) : ClientInv (c.setSession i t) := by
  have hinv : Inv t := step_inv s e t (h.sessions s (List.mem_of_getElem? hs)) hstep
  constructor
  · intro u hu
    rcases List.mem_or_eq_of_mem_set hu with hold | hnew
    · exact h.sessions u hold
    · rw [hnew]
      exact hinv
  · exact h.stats

/-- The timer stops every session. -/
theorem ClientInv.timeout (h : ClientInv c) :
    ClientInv { c.handleTimeout with timerPending := false } := by
  constructor
  · intro u hu
    rcases List.mem_map.mp hu with ⟨s, hs, rfl⟩
    exact step_inv s .stop _ (h.sessions s hs) rfl
  · exact h.stats

theorem client_step_inv (c : Client n) (e : ClientEvent) (c' : Client n) (h : ClientInv c)
    (hstep : clientStep c e = some c') : ClientInv c' := by
  rcases e with ⟨i, e⟩ | -
  · have hbind : (c.sessions[i]?.bind fun s => (step s e).map fun t => c.setSession i t) =
        some c' := by
      cases e with
      | stop => cases hstep
      | connectDone err setOptionErr => exact hstep
      | io e => exact hstep
      | closeSocket => exact hstep
    rcases Option.bind_eq_some_iff.mp hbind with ⟨s, hs, hmap⟩
    rcases Option.map_eq_some_iff.mp hmap with ⟨t, ht, rfl⟩
    exact h.session_step hs ht
  · rcases Option.ite_none_right_eq_some.mp hstep with ⟨-, heq⟩
    rw [← Option.some.inj heq]
    exact h.timeout

theorem client_inductive_inv (n : ℕ) : (clientMachine n).Inductive ClientInv := by
  constructor
  · intro c hc
    rcases hc with ⟨garbages, rfl⟩
    exact client_init_inv garbages
  · intro c e c' hc hstep
    exact client_step_inv c e c' hc hstep

/-! ## The totals -/

/-- Deleting sessions adds the sums of their completions, modulo `2^64`. -/
theorem deleteSessions_eq (sessions : List (Session n)) (h : ∀ s ∈ sessions, Inv s)
    (stats : Stats) :
    Client.deleteSessions sessions stats =
      stats.add (UInt64.ofNat (sessions.map fun s => s.written.sum).sum)
        (UInt64.ofNat (sessions.map fun s => (s.received.map List.length).sum).sum) := by
  induction sessions generalizing stats with
  | nil => simp [Client.deleteSessions, Stats.add]
  | cons s sessions ih =>
      have hs : Inv s := h s List.mem_cons_self
      have hrest : ∀ t ∈ sessions, Inv t := fun t ht => h t (List.mem_cons_of_mem s ht)
      rw [Client.deleteSessions, ih hrest]
      simp [Session.destruct, Stats.add, hs.bytesWritten, hs.bytesRead, UInt64.add_assoc]

/-- The totals printed are the sums over all completions, modulo `2^64`. -/
theorem ClientInv.destruct_eq (h : ClientInv c) :
    c.destruct =
      ((c.sessions.map fun s => s.written.sum).sum % 2 ^ 64,
        (c.sessions.map fun s => (s.received.map List.length).sum).sum % 2 ^ 64) := by
  rw [Client.destruct, deleteSessions_eq c.sessions h.sessions, h.stats]
  simp [Stats.new, Stats.add, Stats.print]

/-! ## What a session sends back -/

/-- What a session does with its initial block and the chunks it reads, in one state. -/
structure SendsBack (s : Session n) : Prop where
  one_read : s.reads.length ≤ 1
  one_write : s.writes.length ≤ 1
  buffers_ne : ∀ w ∈ s.writes, ∀ r ∈ s.reads, w.buffer ≠ r.buffer
  /-- an outstanding write still finds in its buffer what it was issued with -/
  carried : ∀ w ∈ s.writes,
    s.issued[w.serial]? = some ⟨(s.heap w.buffer).front w.length, w.length⟩
  /-- the writes carry the initial block and the chunks read, but perhaps the last -/
  issued : (s.issued = [] ∧ s.received = []) ∨
    ∃ k, (k = s.received.length ∨ k + 1 = s.received.length) ∧
      s.issued = ((initialBlock n).bytes :: s.received.take k).map Packet.ofChunk
  /-- and nothing but that is transmitted -/
  sent : s.sent <+: ((initialBlock n).bytes :: s.received).flatten

/-- Before the connection is made there is nothing to send back. -/
theorem sendsBack_of_fresh {garbage : Block n}
    (hnew : s.toDuplex = (Session.new garbage).toDuplex) : SendsBack s := by
  refine
    { one_read := ?_, one_write := ?_, buffers_ne := ?_, carried := ?_, issued := Or.inl ?_,
      sent := ?_ } <;> rw [hnew]
  · exact Nat.zero_le 1
  · exact Nat.zero_le 1
  · exact nofun
  · exact nofun
  · exact ⟨rfl, rfl⟩
  · exact List.nil_prefix

theorem Inv.sendsBack {s : Session n} (h : Inv s) : SendsBack s := by
  rcases h.phase with ⟨⟨garbage, hnew⟩, -⟩ | ⟨-, hduplex⟩
  · exact sendsBack_of_fresh hnew
  · refine
      { one_read := ?_, one_write := ?_, buffers_ne := ?_, carried := ?_, issued := Or.inr ?_,
        sent := hduplex.sent_isPrefix }
    · rcases hduplex.reading with hnil | ⟨hone, -⟩
      · simp [hnil]
      · simp [hone]
    · rcases hduplex.writing with hnil | ⟨op, hone, -⟩
      · simp [hnil]
      · simp [hone]
    · intro w hw r hr
      exact hduplex.buffers_ne hw hr
    · intro w hw
      exact (hduplex.carried hw).2
    · -- the chunk in `read_data_` is the one not issued
      have hissued := hduplex.issued_eq
      have hbalance := hduplex.balance
      simp only [List.singleton_append, List.length_cons] at hbalance
      rcases hduplex.issued_length_cases with ⟨hlen, -⟩ | ⟨hlen, htwo⟩
      · refine ⟨s.received.length, Or.inl rfl, ?_⟩
        rw [hlen] at hissued
        simpa using hissued
      · have hqueued : s.issued.length = s.acknowledged + 1 := by
          simp only [List.singleton_append, List.length_cons] at hlen
          omega
        refine ⟨s.acknowledged, Or.inr (by omega), ?_⟩
        rw [hqueued] at hissued
        simpa using hissued

/-- In every reachable state of the client every session sends back what it reads,
and destroying the client prints the sums of all completions. -/
theorem sessions_send_back (n : ℕ) (c : Client n) (hc : (clientMachine n).Reachable c) :
    (∀ s ∈ c.sessions, SendsBack s) ∧
      c.destruct =
        ((c.sessions.map fun s => s.written.sum).sum % 2 ^ 64,
          (c.sessions.map fun s => (s.received.map List.length).sum).sum % 2 ^ 64) := by
  have h : ClientInv c := (client_inductive_inv n).reachable hc
  refine ⟨?_, h.destruct_eq⟩
  intro s hs
  exact (h.sessions s hs).sendsBack

/-- One session writes its block and reads one byte before the timer fires, the other
is not connected. -/
theorem sessions_send_back_two :
    ∃ c : Client 1, (clientMachine 1).Reachable c ∧ c.sessions.length = 2 ∧ c.Returned ∧
      (∀ s ∈ c.sessions, SendsBack s) ∧ c.destruct = (1, 1) := by
  -- the run, up to the return of `io_service::run`
  have hrun : ∃ c : Client 1, (clientMachine 1).run (Client.new [Block.zero 1, Block.zero 1])
      [.session 0 (.connectDone none none), .session 1 (.connectDone (some (.other 1)) none),
        .session 0 (.io (.transmit ⟨0, .second, 1, 0⟩ 1)),
        .session 0 (.io (.writeDone ⟨0, .second, 1, 1⟩)),
        .session 0 (.io (.readDone ⟨.first, 1⟩ [7])), .timeout, .session 0 .closeSocket,
        .session 1 .closeSocket,
        .session 0 (.io (.writeFailed ⟨1, .first, 1, 0⟩ .operationAborted)),
        .session 0 (.io (.readFailed ⟨.second, 1⟩ .operationAborted))] = some c ∧
      c.sessions.length = 2 ∧ c.Returned ∧
      (c.sessions.map fun s => s.written.sum).sum = 1 ∧
      (c.sessions.map fun s => (s.received.map List.length).sum).sum = 1 := by
    refine ⟨_, rfl, rfl, ⟨rfl, ?_⟩, rfl, rfl⟩
    intro s hs
    rcases List.mem_pair.mp hs with rfl | rfl
    · exact ⟨rfl, rfl, rfl, rfl⟩
    · exact ⟨rfl, rfl, rfl, rfl⟩
  rcases hrun with ⟨c, hrun, hlength, hreturned, hwritten, hread⟩
  have hinit : (clientMachine 1).Reachable (Client.new [Block.zero 1, Block.zero 1]) :=
    Machine.Reachable.init ⟨_, rfl⟩
  have hc : (clientMachine 1).Reachable c := hinit.run hrun
  rcases sessions_send_back 1 c hc with ⟨hsends, htotals⟩
  rw [hwritten, hread] at htotals
  exact ⟨c, hc, hlength, hreturned, hsends, htotals⟩

end CppCoroutines.ClassicClient
