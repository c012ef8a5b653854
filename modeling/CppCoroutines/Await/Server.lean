import CppCoroutines.Await.Adapters
import CppCoroutines.Classic.Moves
import Mathlib.Algebra.Order.BigOperators.Group.List
import Mathlib.Algebra.Order.Ring.Nat

/-!
# The coroutine server sessions

`session` of `server.cpp` and `session` of `hard2.cpp`. Both read a chunk and write
it back, one operation at a time. `hard2.cpp` writes as many bytes as it read;
`server.cpp` drops the result of the read and writes the whole block. The main
result says exactly when that makes no difference.
-/

namespace CppCoroutines

/-! ## The session of `server.cpp` -/

namespace AwaitServer

/-- The local variables of `session`, what it printed, and the history of its stream. -/
structure Session (n : ℕ) where
  readData : Block n
  writeData : Block n
  socketOpen : Bool
  cerr : List LogLine
  /-- history: the chunks successfully read -/
  received : List (List Byte)
  /-- history: the bytes written -/
  sent : List Byte

namespace Session

variable {n : ℕ}

/-- The parameters and the two `make_unique<char[]>(block_size)`. -/
def new : Session n where
  readData := Block.zero n
  writeData := Block.zero n
  socketOpen := true
  cerr := []
  received := []
  sent := []

/-- `std::swap(read_data, write_data)`. -/
def swap (s : Session n) : Session n :=
  { s with readData := s.writeData, writeData := s.readData }

def print (s : Session n) (lines : List LogLine) : Session n := { s with cerr := s.cerr ++ lines }

/-- The two `catch` clauses, `socket.close()`, and the end of the coroutine. -/
def finish (s : Session n) (e : Thrown) : Coroutine.Frame (Session n) SessionOp (Outcome Unit) :=
  let s :=
    match e with
    | .system err => s.print (if err = ErrorCode.eof then [] else [⟨"System error: ", e⟩])
    | .runtime _ => s.print [⟨"Exception: ", e⟩]
  ⟨{ s with socketOpen := false }, .finished (.value ())⟩

/-- The end of the session leaves its history alone. -/
theorem finish_history (s : Session n) (e : Thrown) :
    (s.finish e).locals.received = s.received ∧ (s.finish e).locals.sent = s.sent := by
  cases e <;> exact ⟨rfl, rfl⟩

/-- From the call to the first suspension. -/
def start (setOptionErr : Option ErrorCode) :
    Coroutine.Frame (Session n) SessionOp (Outcome Unit) :=
  match setOptionErr with
  | none => ⟨new, .awaiting .readSome⟩
  | some _ => new.finish (.runtime "Failed to set socket option")

/-- What Asio does with the buffers when an operation completes. -/
def complete (s : Session n) : SessionOp → SessionReply → Option (Session n)
  | .readSome, .read none chunk =>
      if chunk.length ≤ n then
        some { s with readData := s.readData.store chunk, received := s.received ++ [chunk] }
      else none
  | .readSome, .read (some _) [] => some s
  | .write length, .wrote none transferred =>
      if transferred = length then some { s with sent := s.sent ++ s.writeData.front length }
      else none
  | .write length, .wrote (some _) transferred =>
      if transferred ≤ length then some { s with sent := s.sent ++ s.writeData.front transferred }
      else none
  | _, _ => none

/-- The body of the loop, from either `co_await` to the next. -/
def resume (s : Session n) : SessionOp → SessionReply →
    Coroutine.Frame (Session n) SessionOp (Outcome Unit)
  | .readSome, .read err chunk =>
      let s := s.print (awaitReadSome err chunk.length).1
      match (awaitReadSome err chunk.length).2 with
      -- the number of bytes read is discarded
      | .ok _ => ⟨s.swap, .awaiting (.write n)⟩
      | .error e => s.finish e
  | .write _, .wrote err transferred =>
      let s := s.print (awaitWrite err transferred).1
      match (awaitWrite err transferred).2 with
      | .ok _ => ⟨s, .awaiting .readSome⟩
      | .error e => s.finish e
  | op, _ => ⟨s, .awaiting op⟩

end Session

/-- `session` of `server.cpp`. -/
def session (n : ℕ) : Coroutine.Program (Session n) SessionOp SessionReply (Outcome Unit) where
  complete := Session.complete
  resume := Session.resume

/-- One session whose socket accepts the option. -/
def machine (n : ℕ) : Machine (Coroutine.Frame (Session n) SessionOp (Outcome Unit)) SessionReply :=
  (session n).machine fun f => ∃ setOptionErr, f = Session.start setOptionErr

end AwaitServer

/-! ## The session of `hard2.cpp` -/

namespace Hard2

/-- The local variables of `session` and the history of its stream. -/
structure Session (n : ℕ) where
  buf : Block n
  cerr : List LogLine
  /-- history: the chunks successfully read -/
  received : List (List Byte)
  /-- history: the bytes written -/
  sent : List Byte

namespace Session

variable {n : ℕ}

/-- The parameters and `vector<char> buf_(block_size)`. -/
def new : Session n where
  buf := Block.zero n
  cerr := []
  received := []
  sent := []

def print (s : Session n) (lines : List LogLine) : Session n := { s with cerr := s.cerr ++ lines }

/-- Nothing is caught: the exception goes to the promise. -/
def finish (s : Session n) (e : Thrown) : Coroutine.Frame (Session n) SessionOp (Outcome Unit) :=
  ⟨s, .finished (.exception e)⟩

/-- From the call to the first suspension; `set_option` throws when it fails. -/
def start (setOptionErr : Option ErrorCode) :
    Coroutine.Frame (Session n) SessionOp (Outcome Unit) :=
  match setOptionErr with
  | none => ⟨new, .awaiting .readSome⟩
  | some err => new.finish (.system err)

/-- What Asio does with the buffer when an operation completes. -/
def complete (s : Session n) : SessionOp → SessionReply → Option (Session n)
  | .readSome, .read none chunk =>
      if chunk.length ≤ n then
        some { s with buf := s.buf.store chunk, received := s.received ++ [chunk] }
      else none
  | .readSome, .read (some _) [] => some s
  | .write length, .wrote none transferred =>
      if transferred = length then some { s with sent := s.sent ++ s.buf.front length } else none
  | .write length, .wrote (some _) transferred =>
      if transferred ≤ length then some { s with sent := s.sent ++ s.buf.front transferred }
      else none
  | _, _ => none

/-- The body of the loop, from either `co_await` to the next. -/
def resume (s : Session n) : SessionOp → SessionReply →
    Coroutine.Frame (Session n) SessionOp (Outcome Unit)
  | .readSome, .read err chunk =>
      let s := s.print (awaitReadSome err chunk.length).1
      match (awaitReadSome err chunk.length).2 with
      | .ok length => ⟨s, .awaiting (.write length)⟩
      | .error e => s.finish e
  | .write _, .wrote err transferred =>
      let s := s.print (awaitWrite err transferred).1
      match (awaitWrite err transferred).2 with
      | .ok _ => ⟨s, .awaiting .readSome⟩
      | .error e => s.finish e
  | op, _ => ⟨s, .awaiting op⟩

end Session

/-- `session` of `hard2.cpp`. -/
def session (n : ℕ) : Coroutine.Program (Session n) SessionOp SessionReply (Outcome Unit) where
  complete := Session.complete
  resume := Session.resume

def machine (n : ℕ) : Machine (Coroutine.Frame (Session n) SessionOp (Outcome Unit)) SessionReply :=
  (session n).machine fun f => ∃ setOptionErr, f = Session.start setOptionErr

end Hard2

/-! ## The completions a peer causes -/

/-- The chunk is read and a write of `length` bytes completes. -/
def echoRound (chunk : List Byte) (length : ℕ) : List SessionReply :=
  [.read none chunk, .wrote none length]

/-- The chunks are read one after the other, every write succeeds, and the last read fails
with `err`; `length` is the length of the write that follows a chunk. -/
def completions (length : List Byte → ℕ) (chunks : List (List Byte)) (err : ErrorCode) :
    List SessionReply :=
  chunks.flatMap (fun chunk => echoRound chunk (length chunk)) ++ [.read (some err) []]

/-! ## The two streams -/

namespace AwaitServer

variable {n : ℕ}

/-- What the session writes for the chunks: each time the whole block, a chunk in front
of what an earlier chunk left behind it. -/
def stream (readData writeData : Block n) : List (List Byte) → List Byte
  | [] => []
  | chunk :: chunks =>
      (readData.store chunk).bytes ++ stream writeData (readData.store chunk) chunks

theorem length_stream (readData writeData : Block n) (chunks : List (List Byte)) :
    (stream readData writeData chunks).length = n * chunks.length := by
  induction chunks generalizing readData writeData with
  | nil => rfl
  | cons chunk chunks ih =>
      rw [stream, List.length_append, ih, Block.length_bytes, List.length_cons, Nat.mul_succ,
        Nat.add_comm]

/-- When every chunk fills the block, the blocks are the chunks. -/
theorem stream_eq_flatten (readData writeData : Block n) {chunks : List (List Byte)}
    (h : ∀ chunk ∈ chunks, chunk.length = n) :
    stream readData writeData chunks = chunks.flatten := by
  induction chunks generalizing readData writeData with
  | nil => rfl
  | cons chunk chunks ih =>
      have hchunk : (readData.store chunk).bytes = chunk :=
        readData.bytes_store_of_length (h chunk List.mem_cons_self)
      have hchunks : ∀ c ∈ chunks, c.length = n := fun c hc => h c (List.mem_cons_of_mem _ hc)
      rw [stream, hchunk, ih _ _ hchunks, List.flatten_cons]

/-- One round of the loop. -/
theorem run_echoRound (s : Session n) {chunk : List Byte} (hchunk : chunk.length ≤ n)
    (replies : List SessionReply) :
    (machine n).run ⟨s, .awaiting .readSome⟩ (echoRound chunk n ++ replies) =
      (machine n).run
        ⟨{ s with
            readData := s.writeData
            writeData := s.readData.store chunk
            received := s.received ++ [chunk]
            sent := s.sent ++ (s.readData.store chunk).bytes }, .awaiting .readSome⟩ replies := by
  have hread : (session n).complete s .readSome (.read none chunk) = some
      { s with readData := s.readData.store chunk, received := s.received ++ [chunk] } :=
    if_pos hchunk
  have hwrite : ∀ t : Session n, (session n).complete t (.write n) (.wrote none n) =
      some { t with sent := t.sent ++ t.writeData.front n } := fun _ => if_pos rfl
  show ((session n).machine _).run _ (.read none chunk :: .wrote none n :: replies) = _
  rw [Coroutine.Program.run_awaiting hread]
  refine (Coroutine.Program.run_awaiting (hwrite _)).trans ?_
  simp [session, Session.resume, awaitReadSome, awaitWrite, Session.print, Session.swap, machine]

/-- The whole session: the stream is made of whole blocks and the session returns. -/
theorem run_completions (s : Session n) {chunks : List (List Byte)}
    (hchunks : ∀ chunk ∈ chunks, chunk.length ≤ n) (err : ErrorCode) :
    ∃ f, (machine n).run ⟨s, .awaiting .readSome⟩ (completions (fun _ => n) chunks err) = some f ∧
      f.point = .finished (.value ()) ∧ f.locals.received = s.received ++ chunks ∧
      f.locals.sent = s.sent ++ stream s.readData s.writeData chunks := by
  induction chunks generalizing s with
  | nil =>
      refine ⟨_, rfl, rfl, ?_, ?_⟩
      · exact (Session.finish_history _ _).1.trans (List.append_nil _).symm
      · exact (Session.finish_history _ _).2.trans (List.append_nil _).symm
  | cons chunk chunks ih =>
      have hchunk : chunk.length ≤ n := hchunks chunk List.mem_cons_self
      have hrest : ∀ c ∈ chunks, c.length ≤ n := fun c hc => hchunks c (List.mem_cons_of_mem _ hc)
      rcases ih _ hrest with ⟨f, hrun, hpoint, hreceived, hsent⟩
      refine ⟨f, ?_, hpoint, ?_, ?_⟩
      · rw [completions, List.flatMap_cons, List.append_assoc, run_echoRound s hchunk]
        exact hrun
      · simpa using hreceived
      · simpa [stream] using hsent

end AwaitServer

namespace Hard2

variable {n : ℕ}

/-- One round of the loop: the chunk is written as it was read. -/
theorem run_echoRound (s : Session n) {chunk : List Byte} (hchunk : chunk.length ≤ n)
    (replies : List SessionReply) :
    (machine n).run ⟨s, .awaiting .readSome⟩ (echoRound chunk chunk.length ++ replies) =
      (machine n).run
        ⟨{ s with
            buf := s.buf.store chunk
            received := s.received ++ [chunk]
            sent := s.sent ++ chunk }, .awaiting .readSome⟩ replies := by
  have hread : (session n).complete s .readSome (.read none chunk) = some
      { s with buf := s.buf.store chunk, received := s.received ++ [chunk] } :=
    if_pos hchunk
  have hwrite : ∀ t : Session n,
      (session n).complete t (.write chunk.length) (.wrote none chunk.length) =
        some { t with sent := t.sent ++ t.buf.front chunk.length } := fun _ => if_pos rfl
  show ((session n).machine _).run _ (.read none chunk :: .wrote none chunk.length :: replies) = _
  rw [Coroutine.Program.run_awaiting hread]
  refine (Coroutine.Program.run_awaiting (hwrite _)).trans ?_
  simp [session, Session.resume, awaitReadSome, awaitWrite, Session.print, machine,
    s.buf.front_store hchunk]

/-- The whole session: the stream is the chunks, and the exception is the result. -/
theorem run_completions (s : Session n) {chunks : List (List Byte)}
    (hchunks : ∀ chunk ∈ chunks, chunk.length ≤ n) (err : ErrorCode) :
    ∃ f, (machine n).run ⟨s, .awaiting .readSome⟩ (completions List.length chunks err) = some f ∧
      f.point = .finished (.exception (.system err)) ∧ f.locals.received = s.received ++ chunks ∧
      f.locals.sent = s.sent ++ chunks.flatten := by
  induction chunks generalizing s with
  | nil =>
      refine ⟨_, rfl, rfl, ?_, ?_⟩
      · exact (List.append_nil _).symm
      · exact (List.append_nil _).symm
  | cons chunk chunks ih =>
      have hchunk : chunk.length ≤ n := hchunks chunk List.mem_cons_self
      have hrest : ∀ c ∈ chunks, c.length ≤ n := fun c hc => hchunks c (List.mem_cons_of_mem _ hc)
      rcases ih _ hrest with ⟨f, hrun, hpoint, hreceived, hsent⟩
      refine ⟨f, ?_, hpoint, ?_, ?_⟩
      · rw [completions, List.flatMap_cons, List.append_assoc, run_echoRound s hchunk]
        exact hrun
      · simpa using hreceived
      · simpa using hsent

end Hard2

/-! ## When `server.cpp` is an echo server -/

namespace AwaitServer

/-- Chunks of at most `n` bytes that together have `n` bytes for each of them are full. -/
theorem length_eq_of_flatten {n : ℕ} {chunks : List (List Byte)}
    (hle : ∀ chunk ∈ chunks, chunk.length ≤ n)
    (hlength : chunks.flatten.length = n * chunks.length) :
    ∀ chunk ∈ chunks, chunk.length = n := by
  induction chunks with
  | nil => exact nofun
  | cons chunk chunks ih =>
      have hchunk : chunk.length ≤ n := hle chunk List.mem_cons_self
      have hrest : ∀ c ∈ chunks, c.length ≤ n := fun c hc => hle c (List.mem_cons_of_mem _ hc)
      have hsum : chunks.flatten.length ≤ n * chunks.length := by
        rw [List.length_flatten, Nat.mul_comm]
        simpa using List.sum_le_card_nsmul (chunks.map List.length) n (by simpa using hrest)
      rw [List.flatten_cons, List.length_append, List.length_cons, Nat.mul_succ] at hlength
      intro c hc
      rcases List.mem_cons.mp hc with rfl | hc
      · omega
      · exact ih hrest (by omega) c hc

/-- `stream` is what an echo server sends for the chunks: the chunks themselves, as
`hard2.cpp` and the classic server do. -/
structure EchoesAlike (n : ℕ) (chunks : List (List Byte)) (err : ErrorCode)
    (stream : List Byte) : Prop where
  concatenation : stream = chunks.flatten
  hard2 : ∃ f, (Hard2.machine n).run (Hard2.Session.start none)
    (completions List.length chunks err) = some f ∧ f.locals.sent = stream
  classic : ∃ c, (ClassicServer.machine n).Reachable c ∧ c.received = chunks ∧
    c.writeErrors = 0 ∧ 0 < c.destroyPosts
  /-- whatever the order in which the classic session's handlers have run -/
  classic_sent : ∀ c, (ClassicServer.machine n).Reachable c → c.received = chunks →
    c.writeErrors = 0 → 0 < c.destroyPosts → c.sent = stream

/-- The other two servers do send the chunks. -/
theorem echoesAlike_flatten {n : ℕ} {chunks : List (List Byte)}
    (hchunks : ∀ chunk ∈ chunks, 0 < chunk.length ∧ chunk.length ≤ n) (err : ErrorCode) :
    EchoesAlike n chunks err chunks.flatten := by
  refine ⟨rfl, ?_, ClassicServer.exists_posted chunks hchunks err, ?_⟩
  · rcases Hard2.run_completions Hard2.Session.new (fun c hc => (hchunks c hc).2) err
      with ⟨f, hrun, -, -, hsent⟩
    exact ⟨f, hrun, hsent⟩
  · intro c hc hreceived hwrite hposts
    rw [((ClassicServer.inv_reachable hc).echoed hposts hwrite).1, hreceived]

/-- The session of `server.cpp` echoes the chunks it reads, as the servers it replaces do,
exactly when every chunk fills the whole block. -/
theorem session_echoes_iff (n : ℕ) (chunks : List (List Byte))
    (hchunks : ∀ chunk ∈ chunks, 0 < chunk.length ∧ chunk.length ≤ n) (err : ErrorCode) :
    ∃ f, (machine n).run (Session.start none) (completions (fun _ => n) chunks err) = some f ∧
      f.point = .finished (.value ()) ∧ f.locals.received = chunks ∧
      (EchoesAlike n chunks err f.locals.sent ↔ ∀ chunk ∈ chunks, chunk.length = n) := by
  have hle : ∀ chunk ∈ chunks, chunk.length ≤ n := fun c hc => (hchunks c hc).2
  rcases run_completions Session.new hle err with ⟨f, hrun, hpoint, hreceived, hsent⟩
  refine ⟨f, hrun, hpoint, hreceived, ?_⟩
  have hstream : f.locals.sent = stream (Block.zero n) (Block.zero n) chunks := hsent
  rw [hstream]
  constructor
  · intro h
    apply length_eq_of_flatten hle
    rw [← h.concatenation]
    exact length_stream _ _ chunks
  · intro hfull
    rw [stream_eq_flatten _ _ hfull]
    exact echoesAlike_flatten hchunks err

/-- A client that sends two full blocks. -/
theorem session_echoes_iff_full :
    ∃ f, (machine 2).run (Session.start none)
        (completions (fun _ => 2) [[1, 2], [3, 4]] .eof) = some f ∧
      EchoesAlike 2 [[1, 2], [3, 4]] .eof f.locals.sent := by
  rcases session_echoes_iff 2 [[1, 2], [3, 4]] (by decide) .eof with ⟨f, hrun, -, -, hiff⟩
  exact ⟨f, hrun, hiff.mpr (by decide)⟩

/-- A client that sends a single byte to a server with blocks of two gets a stray zero. -/
theorem session_pads_short_chunk :
    ∃ f, (machine 2).run (Session.start none)
        [.read none [7], .wrote none 2, .read (some .eof) []] = some f ∧
      f.point = .finished (.value ()) ∧ f.locals.received = [[7]] ∧ f.locals.sent = [7, 0] ∧
      f.locals.sent ≠ f.locals.received.flatten :=
  ⟨_, rfl, rfl, rfl, rfl, by decide⟩

end AwaitServer

end CppCoroutines
