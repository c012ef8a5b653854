import CppCoroutines.Classic.Totals
import CppCoroutines.Coroutine
import CppCoroutines.WinRT.Blocks

/-!
# The WinRT clients

`session` and `client` of `winrt_client.cpp`, which are those of `winrt_simple_client.cpp`
but for the thread pool that the coroutines are resumed in. `client` launches the sessions,
sleeps for a second at a time until its time is up, stops the sessions, and joins them one
after another. The sessions count bytes in variables of 32 bits, the client in `size_t`.
-/

namespace CppCoroutines.WinRTClient

open ClassicClient (Stats)

/-! ## The session -/

/-- The exceptions that `session` catches: `winrt::hresult_error` and `std::exception`. -/
inductive Error where
  | hresult (code : ℤ) (message : String)
  | std (what : String)
deriving DecidableEq, Repr

/-- What the `catch` clauses print. -/
def Error.line : Error → String
  | .hresult code message => "Error with HRESULT: " ++ toString code ++ " meaning: " ++ message
  | .std what => "Exception: " ++ what

/-- A `Buffer`: its bytes are not more than its capacity. -/
structure Buffer where
  capacity : UInt32
  data : List Byte
  le : data.length ≤ capacity.toNat
deriving DecidableEq, Repr

/-- `Length()`. -/
def Buffer.length (b : Buffer) : UInt32 := UInt32.ofNat b.data.length

/-- The buffer with the initial data of the client. -/
def Buffer.initial (blockSize : UInt32) : Buffer where
  capacity := blockSize
  data := Blocks.initialData blockSize.toNat
  le := by simp [Blocks.initialData]

/-- The operation that a session waits for, with what it was given. -/
inductive Op where
  | connectAsync
  | writeAsync (data : List Byte)
  | readAsync (count : UInt32)
deriving DecidableEq, Repr

/-- What the `co_await` on the operation gives or throws. -/
inductive IoResult where
  | connected (r : Except Error Unit)
  | wrote (r : Except Error UInt32)
  | read (r : Except Error Buffer)

/-- The result of an operation, and what the session comes across next: the values of `stop`
and of the cancellation token, and an error of `socket.Close()`. -/
structure Reply where
  io : IoResult
  stop : Bool
  cancelled : Bool
  closing : Option Error

/-- The locals of `session`, what it printed, and the history of its operations. -/
structure Session where
  buffer : Buffer
  bytesWritten : UInt32
  bytesRead : UInt32
  cerr : List String
  /-- history: what the `WriteAsync`s have returned -/
  written : List ℕ
  /-- history: the lengths of the buffers that the `ReadAsync`s have returned -/
  read : List ℕ
deriving DecidableEq, Repr

/-- A frame of the session, which returns its two totals. -/
abbrev Frame := Coroutine.Frame Session Op (Except Error (UInt32 × UInt32))

namespace Session

/-- The locals before the connection. -/
def new (blockSize : UInt32) : Session where
  buffer := Buffer.initial blockSize
  bytesWritten := 0
  bytesRead := 0
  cerr := []
  written := []
  read := []

/-- `socket.Close()` and `co_return`. -/
def finish (s : Session) (closing : Option Error) : Frame :=
  match closing with
  | none => ⟨s, .finished (.ok (s.bytesWritten, s.bytesRead))⟩
  | some e => ⟨s, .finished (.error e)⟩

/-- A `catch` clause, then the end of the coroutine. -/
def fail (s : Session) (e : Error) (closing : Option Error) : Frame :=
  finish { s with cerr := s.cerr ++ [e.line] } closing

/-- `while (!stop && !cancel())`. -/
def loop (s : Session) (reply : Reply) : Frame :=
  if reply.stop = false ∧ reply.cancelled = false then ⟨s, .awaiting (.writeAsync s.buffer.data)⟩
  else s.finish reply.closing

/-- The result is one of the operation that is waited for. -/
def complete (s : Session) : Op → Reply → Option Session
  | .connectAsync, ⟨.connected _, _, _, _⟩ => some s
  | .writeAsync _, ⟨.wrote (.ok count), _, _, _⟩ =>
      some { s with written := s.written ++ [count.toNat] }
  | .writeAsync _, ⟨.wrote (.error _), _, _, _⟩ => some s
  | .readAsync _, ⟨.read (.ok readData), _, _, _⟩ =>
      some { s with read := s.read ++ [readData.data.length] }
  | .readAsync _, ⟨.read (.error _), _, _, _⟩ => some s
  | _, _ => none

/-- The body of the coroutine, from one `co_await` to the next. -/
def resume (s : Session) (_ : Op) (reply : Reply) : Frame :=
  match reply.io with
  | .connected (.ok _) => s.loop reply
  | .wrote (.ok count) =>
      ⟨{ s with bytesWritten := s.bytesWritten + count }, .awaiting (.readAsync s.buffer.capacity)⟩
  | .read (.ok readData) =>
      -- swap(read_data, buffer)
      loop { s with bytesRead := s.bytesRead + readData.length, buffer := readData } reply
  | .connected (.error e) => s.fail e reply.closing
  | .wrote (.error e) => s.fail e reply.closing
  | .read (.error e) => s.fail e reply.closing

end Session

/-- `session`. -/
def session : Coroutine.Program Session Op Reply (Except Error (UInt32 × UInt32)) where
  complete := Session.complete
  resume := Session.resume

/-- A session that has been launched: suspended in `ConnectAsync`, or ended with an exception
of the constructors before its `try` block. What fails in the `try` block before the connection
ends it as a failed connection does. -/
def launched (blockSize : UInt32) : Option Error → Frame
  | none => ⟨Session.new blockSize, .awaiting .connectAsync⟩
  | some e => ⟨Session.new blockSize, .finished (.error e)⟩

/-! ## The client -/

/-- `system_clock`, by how many of its ticks a second has. -/
structure Clock where
  second : ℤ
  pos : 0 < second

/-- The arguments of `client`; `timeout` is in seconds. -/
structure Arguments where
  blockSize : UInt32
  sessionCount : ℕ
  timeout : ℤ

/-- Where the coroutine `client` is. -/
inductive Control where
  /-- in the loop that launches the sessions -/
  | launching
  /-- in the waiting loop, suspended for a second -/
  | waiting
  /-- after it, at `while (!sessions.empty())` or suspended in `co_await s` -/
  | joining
  | finished
  /-- ended by an exception of a session -/
  | threw
deriving DecidableEq, Repr

/-- The waiting loop is left. -/
def Control.left : Control → Bool
  | .launching => false
  | .waiting => false
  | _ => true

/-- The locals of `client`, what it has reported, and the history of the clock. -/
structure Client where
  control : Control
  sessions : List Frame
  /-- how many have been removed from the front of the list -/
  joined : ℕ
  stop : Bool
  stats : Stats
  /-- `end` -/
  endTime : ℤ
  /-- the seconds remaining, as they were fed back -/
  progress : List Int16
  /-- the totals, once they are printed -/
  printed : Option (ℕ × ℕ)
  /-- history: the clock reading that `end` was computed from -/
  started : ℤ
  /-- history: the last clock reading -/
  last : ℤ
  /-- history: the clock reading at which the waiting loop was left -/
  stoppedAt : Option ℤ

/-- What happens to the client. -/
inductive Event where
  /-- a session is launched, or fails in its constructors -/
  | launch (failure : Option Error)
  /-- the clock is read for `end` -/
  | begin (now : ℤ)
  /-- a suspension for one second ends, and the clock is read -/
  | wake (now : ℤ)
  /-- the operation that a session waits for ends -/
  | session (i : ℕ) (io : IoResult) (cancelled : Bool) (closing : Option Error)
  /-- the loop that joins the sessions goes round -/
  | join

namespace Client

/-- `client` is called. -/
def new : Client where
  control := .launching
  sessions := []
  joined := 0
  stop := false
  stats := Stats.new
  endTime := 0
  progress := []
  printed := none
  started := 0
  last := 0
  stoppedAt := none

/-- `duration_cast<seconds>(end - current).count()`, which is rounded toward zero. -/
def remaining (c : Client) (clock : Clock) (now : ℤ) : ℤ := (c.endTime - now).tdiv clock.second

/-- The waiting loop after a suspension, with this reading of the clock. -/
def wake (c : Client) (clock : Clock) (now : ℤ) : Client :=
  if c.remaining clock now ≤ 0 then
    { c with control := .joining, stop := true, last := now, stoppedAt := some now }
  else { c with last := now, progress := c.progress ++ [Int16.ofInt (c.remaining clock now)] }

/-- `while (!sessions.empty())` and its body; `co_await s` goes on when the session is over. -/
def join (c : Client) : Option Client :=
  match c.sessions[c.joined]? with
  | none => some { c with control := .finished, printed := some c.stats.print }
  | some f =>
      match f.point with
      | .awaiting _ => none
      | .finished (.ok (bytesWritten, bytesRead)) =>
          some { c with
            stats := c.stats.add bytesWritten.toUInt64 bytesRead.toUInt64
            joined := c.joined + 1 }
      | .finished (.error _) => some { c with control := .threw }

/-- One event. A suspension for a second lasts at least a second by the clock. -/
def step (clock : Clock) (args : Arguments) (c : Client) : Event → Option Client
  | .launch failure =>
      if c.control = .launching ∧ c.sessions.length < args.sessionCount then
        some { c with sessions := c.sessions ++ [launched args.blockSize failure] }
      else none
  | .begin now =>
      if c.control = .launching ∧ c.sessions.length = args.sessionCount then
        some { c with
          control := .waiting
          endTime := now + args.timeout * clock.second
          started := now
          last := now }
      else none
  | .wake now =>
      if c.control = .waiting ∧ c.last + clock.second ≤ now then some (c.wake clock now) else none
  | .session i io cancelled closing => c.sessions[i]?.bind fun f =>
      -- the sessions run on threads of their own, and read `stop` there
      (WinRTClient.session.step f ⟨io, c.stop, cancelled, closing⟩).map fun f' =>
        { c with sessions := c.sessions.set i f' }
  | .join => if c.control = .joining then c.join else none

end Client

/-- `client`, from its call on. -/
def machine (clock : Clock) (args : Arguments) : Machine Client Event where
  init c := c = Client.new
  step := Client.step clock args

end CppCoroutines.WinRTClient
