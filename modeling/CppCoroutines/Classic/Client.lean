import CppCoroutines.Duplex
import Mathlib.Data.List.Range

/-!
# The classic client

`session`, `client` and `stats` of `classic_client.cpp`. A session connects,
writes its initial block and then sends back what it reads; it has the buffers
of the server session and the counter `unwritten_count_` in the place of
`unsent_count_`, but no count of its operations: sessions live until the client
is destroyed, and their sockets are closed when the timer fires.
-/

namespace CppCoroutines.ClassicClient

/-- The block the constructor fills: byte `i` is `static_cast<char>(i % 128)`. -/
def initialBlock (n : ℕ) : Block n where
  bytes := (List.range n).map fun i => UInt8.ofNat (i % 128)
  length_bytes := by simp

/-- The data members of `session`, with what Asio holds for it. -/
structure Session (n : ℕ) extends Duplex n where
  unwrittenCount : ℤ
  bytesWritten : UInt64
  bytesRead : UInt64
  /-- the `async_connect` of `start()` is outstanding -/
  connecting : Bool
  socketOpen : Bool
  /-- `close_socket` tasks posted to the strand that have not run -/
  closePosts : ℕ

namespace Session

variable {n : ℕ}

/-- The constructor and `start()`; `garbage` is what `read_data_` happens to hold. -/
def new (garbage : Block n) : Session n where
  toDuplex := Duplex.new fun
    | .first => garbage
    | .second => initialBlock n
  unwrittenCount := 0
  bytesWritten := 0
  bytesRead := 0
  connecting := true
  socketOpen := true
  closePosts := 0

/-- Asio has changed the buffers and the operations in flight. -/
def withDuplex (s : Session n) (d : Duplex n) : Session n := { s with toDuplex := d }

/-- `session::stop`. -/
def stop (s : Session n) : Session n := { s with closePosts := s.closePosts + 1 }

/-- `session::close_socket`, run on the strand. -/
def closeSocket (s : Session n) : Session n := { s with socketOpen := false }

/-- `socket_.set_option(no_delay, set_option_err)`: a closed socket refuses it. -/
def setOption (s : Session n) (setOptionErr : Option ErrorCode) : Option ErrorCode :=
  if s.socketOpen = true then setOptionErr else some .badDescriptor

/-- `session::handle_connect`. -/
def handleConnect (s : Session n) (err setOptionErr : Option ErrorCode) : Session n :=
  match err with
  | none =>
      match s.setOption setOptionErr with
      | none =>
          { s with
            unwrittenCount := s.unwrittenCount + 1
            toDuplex := (s.asyncWrite n).asyncReadSome }
      | some _ => s
  | some _ => s

/-- `session::handle_read`. -/
def handleRead (s : Session n) (err : Option ErrorCode) (length : ℕ) : Session n :=
  match err with
  | none =>
      let s :=
        { s with
          bytesRead := s.bytesRead + UInt64.ofNat length
          toDuplex := s.setReadDataLength length
          unwrittenCount := s.unwrittenCount + 1 }
      if s.unwrittenCount = 1 then { s with toDuplex := s.swapWriteRead } else s
  | some _ => s

/-- `session::handle_write`. -/
def handleWrite (s : Session n) (err : Option ErrorCode) (length : ℕ) : Session n :=
  if err = none ∧ 0 < length then
    let s :=
      { s with
        bytesWritten := s.bytesWritten + UInt64.ofNat length
        toDuplex := s.acknowledge
        unwrittenCount := s.unwrittenCount - 1 }
    if s.unwrittenCount = 1 then { s with toDuplex := s.swapWriteRead } else s
  else s

/-! What the handlers do in each of the states of the session. -/

theorem handleRead_first {s : Session n} (h : s.unwrittenCount = 0) (length : ℕ) :
    s.handleRead none length =
      { s with
        toDuplex := (s.setReadDataLength length).swapWriteRead
        unwrittenCount := 1
        bytesRead := s.bytesRead + UInt64.ofNat length } := by
  simp [handleRead, h]

theorem handleRead_second {s : Session n} (h : s.unwrittenCount = 1) (length : ℕ) :
    s.handleRead none length =
      { s with
        toDuplex := s.setReadDataLength length
        unwrittenCount := 2
        bytesRead := s.bytesRead + UInt64.ofNat length } := by
  simp [handleRead, h]

theorem handleWrite_last {s : Session n} (h : s.unwrittenCount = 1) {length : ℕ}
    (hlength : 0 < length) :
    s.handleWrite none length =
      { s with
        toDuplex := s.acknowledge
        unwrittenCount := 0
        bytesWritten := s.bytesWritten + UInt64.ofNat length } := by
  simp [handleWrite, h, hlength]

theorem handleWrite_next {s : Session n} (h : s.unwrittenCount = 2) {length : ℕ}
    (hlength : 0 < length) :
    s.handleWrite none length =
      { s with
        toDuplex := s.acknowledge.swapWriteRead
        unwrittenCount := 1
        bytesWritten := s.bytesWritten + UInt64.ofNat length } := by
  simp [handleWrite, h, hlength]

/-- A write of no bytes is not counted as written. -/
theorem handleWrite_empty (s : Session n) (err : Option ErrorCode) : s.handleWrite err 0 = s := by
  simp [handleWrite]

theorem handleWrite_error (s : Session n) (err : ErrorCode) (length : ℕ) :
    s.handleWrite (some err) length = s := by
  simp [handleWrite]

end Session

/-- The connection is made or fails, an operation progresses or completes, the
client asks to stop, the strand closes the socket. -/
inductive Event where
  | connectDone (err setOptionErr : Option ErrorCode)
  | io (e : IoEvent)
  | stop
  | closeSocket
deriving DecidableEq, Repr

/-- One event: what Asio does to the operation, then the handler. Closing the
socket leaves the operations in flight to complete either way. -/
def step {n : ℕ} (s : Session n) : Event → Option (Session n)
  | .connectDone err setOptionErr =>
      if s.connecting = true then
        some ({ s with connecting := false }.handleConnect err setOptionErr)
      else none
  | .io (.readDone op chunk) =>
      if op ∈ s.reads ∧ chunk.length ≤ op.size then
        some ((s.withDuplex (s.finishRead op chunk)).handleRead none chunk.length)
      else none
  | .io (.readFailed op err) =>
      if op ∈ s.reads then some ((s.withDuplex (s.failRead op)).handleRead (some err) 0)
      else none
  | .io (.transmit op count) =>
      if op ∈ s.writes ∧ 0 < count ∧ op.transferred + count ≤ op.length then
        some (s.withDuplex (s.transmit op count))
      else none
  | .io (.writeDone op) =>
      if op ∈ s.writes ∧ op.transferred = op.length then
        some ((s.withDuplex (s.finishWrite op)).handleWrite none op.length)
      else none
  | .io (.writeFailed op err) =>
      if op ∈ s.writes then
        some ((s.withDuplex (s.failWrite op)).handleWrite (some err) op.transferred)
      else none
  | .stop => some s.stop
  | .closeSocket =>
      if 0 < s.closePosts then some { s.closeSocket with closePosts := s.closePosts - 1 } else none

/-! ## The invariant -/

/-- Until the connection is made a session is as its constructor left it; from
then on the double-buffer invariant holds at `unwritten_count_`, with the
initial block in front of the chunks read. The counters of bytes are the sums of
the completions, modulo `2^64`. -/
structure Inv {n : ℕ} (s : Session n) : Prop where
  phase : ((∃ garbage, s.toDuplex = (Session.new garbage).toDuplex) ∧ s.unwrittenCount = 0) ∨
    (s.connecting = false ∧ Duplex.Inv [(initialBlock n).bytes] s.unwrittenCount s.toDuplex)
  bytesWritten : s.bytesWritten = UInt64.ofNat s.written.sum
  bytesRead : s.bytesRead = UInt64.ofNat (s.received.map List.length).sum

variable {n : ℕ} {s : Session n}

theorem init_inv (garbage : Block n) : Inv (Session.new garbage) where
  phase := Or.inl ⟨⟨garbage, rfl⟩, rfl⟩
  bytesWritten := rfl
  bytesRead := rfl

/-- A session that is connecting is as its constructor left it. -/
theorem Inv.fresh (h : Inv s) (hconnecting : s.connecting = true) :
    (∃ garbage, s.toDuplex = (Session.new garbage).toDuplex) ∧ s.unwrittenCount = 0 := by
  rcases h.phase with hfresh | ⟨hdone, -⟩
  · exact hfresh
  · rw [hconnecting] at hdone
    cases hdone

/-- A session with an operation in flight is connected. -/
theorem Inv.connected (h : Inv s) (hbusy : s.reads ≠ [] ∨ s.writes ≠ []) :
    s.connecting = false ∧ Duplex.Inv [(initialBlock n).bytes] s.unwrittenCount s.toDuplex := by
  rcases h.phase with ⟨⟨garbage, hnew⟩, -⟩ | hrunning
  · rw [hnew] at hbusy
    rcases hbusy with hr | hw
    · exact absurd rfl hr
    · exact absurd rfl hw
  · exact hrunning

/-! ## One event -/

/-- The connection is made: the initial block is written and the first read
starts, unless the socket refuses the option or has been closed. -/
theorem Inv.connectDone (h : Inv s) (hconnecting : s.connecting = true)
    (err setOptionErr : Option ErrorCode) :
    Inv ({ s with connecting := false }.handleConnect err setOptionErr) := by
  rcases h.fresh hconnecting with ⟨hnew, hcount⟩
  have hidle : Inv { s with connecting := false } :=
    ⟨Or.inl ⟨hnew, hcount⟩, h.bytesWritten, h.bytesRead⟩
  unfold Session.handleConnect
  cases err with
  | some err => exact hidle
  | none =>
      cases hoption : { s with connecting := false }.setOption setOptionErr with
      | some err => exact hidle
      | none =>
          rcases hnew with ⟨garbage, hnew⟩
          refine ⟨Or.inr ⟨rfl, ?_⟩, h.bytesWritten, h.bytesRead⟩
          -- what was constructed writes its second array
          simp only [hcount, hnew]
          exact Duplex.inv_writeFirst (Session.new garbage).heap

/-- A successful read: the chunk is written at once when nothing is unwritten, and
waits in `read_data_` when one chunk is. -/
theorem Inv.readDone (h : Inv s) {op : ReadOp} {chunk : List Byte} (hop : op ∈ s.reads)
    (hchunk : chunk.length ≤ op.size) :
    Inv ((s.withDuplex (s.finishRead op chunk)).handleRead none chunk.length) := by
  rcases h.connected (Or.inl (List.ne_nil_of_mem hop)) with ⟨hconnected, hduplex⟩
  rcases hduplex.read_eq hop with ⟨-, hop', htwo⟩
  have hsize : chunk.length ≤ n := by
    rw [hop'] at hchunk
    exact hchunk
  have hbytes : s.bytesRead + UInt64.ofNat chunk.length =
      UInt64.ofNat ((s.received ++ [chunk]).map List.length).sum := by
    rw [List.map_append, List.map_singleton, ofNat_sum_append, h.bytesRead]
  rcases hduplex.range with hcount | hcount | hcount
  · have hcount' : (s.withDuplex (s.finishRead op chunk)).unwrittenCount = 0 := hcount
    rw [hcount] at hduplex
    rw [Session.handleRead_first hcount']
    exact ⟨Or.inr ⟨hconnected, hduplex.read_first hop hsize⟩, h.bytesWritten, hbytes⟩
  · have hcount' : (s.withDuplex (s.finishRead op chunk)).unwrittenCount = 1 := hcount
    rw [hcount] at hduplex
    rw [Session.handleRead_second hcount']
    exact ⟨Or.inr ⟨hconnected, hduplex.read_second hop hsize⟩, h.bytesWritten, hbytes⟩
  · exact absurd hcount htwo

/-- A successful write: the session idles when its chunk was the only unwritten
one, goes on with the chunk in `read_data_` when there is one, and stops writing
for good after a write of no bytes. -/
theorem Inv.writeDone (h : Inv s) {op : WriteOp} (hop : op ∈ s.writes)
    (hdone : op.transferred = op.length) :
    Inv ((s.withDuplex (s.finishWrite op)).handleWrite none op.length) := by
  rcases h.connected (Or.inr (List.ne_nil_of_mem hop)) with ⟨hconnected, hduplex⟩
  rcases hduplex.write_eq hop with ⟨-, -, hzero⟩
  have hbytes : s.bytesWritten + UInt64.ofNat op.length =
      UInt64.ofNat (s.written ++ [op.length]).sum := by
    rw [ofNat_sum_append, h.bytesWritten]
  rcases Nat.eq_zero_or_pos op.length with hlength | hlength
  · -- the guard `length > 0` skips the handler
    rw [hlength, Session.handleWrite_empty]
    rw [hlength] at hbytes
    refine ⟨Or.inr ⟨hconnected, hduplex.finishWrite hop⟩, ?_, h.bytesRead⟩
    have hsum : (s.written ++ [op.length]).sum = s.written.sum := by simp [hlength]
    show s.bytesWritten = UInt64.ofNat (s.written ++ [op.length]).sum
    rw [hsum]
    exact h.bytesWritten
  · rcases hduplex.range with hcount | hcount | hcount
    · exact absurd hcount hzero
    · have hcount' : (s.withDuplex (s.finishWrite op)).unwrittenCount = 1 := hcount
      rw [hcount] at hduplex
      rw [Session.handleWrite_last hcount' hlength]
      exact ⟨Or.inr ⟨hconnected, hduplex.write_last hop hdone⟩, hbytes, h.bytesRead⟩
    · have hcount' : (s.withDuplex (s.finishWrite op)).unwrittenCount = 2 := hcount
      rw [hcount] at hduplex
      rw [Session.handleWrite_next hcount' hlength]
      exact ⟨Or.inr ⟨hconnected, hduplex.write_next hop hdone⟩, hbytes, h.bytesRead⟩

/-- Every event keeps the invariant. -/
theorem step_inv (s : Session n) (e : Event) (s' : Session n) (h : Inv s)
    (hstep : step s e = some s') : Inv s' := by
  rcases e with ⟨err, setOptionErr⟩ | e | - | -
  · rcases Option.ite_none_right_eq_some.mp hstep with ⟨hconnecting, heq⟩
    rw [← Option.some.inj heq]
    exact h.connectDone hconnecting err setOptionErr
  · cases e with
    | readDone op chunk =>
        rcases Option.ite_none_right_eq_some.mp hstep with ⟨⟨hop, hchunk⟩, heq⟩
        rw [← Option.some.inj heq]
        exact h.readDone hop hchunk
    | readFailed op err =>
        rcases Option.ite_none_right_eq_some.mp hstep with ⟨hop, heq⟩
        rcases h.connected (Or.inl (List.ne_nil_of_mem hop)) with ⟨hconnected, hduplex⟩
        rw [← Option.some.inj heq]
        exact ⟨Or.inr ⟨hconnected, hduplex.failRead hop⟩, h.bytesWritten, h.bytesRead⟩
    | transmit op count =>
        rcases Option.ite_none_right_eq_some.mp hstep with ⟨⟨hop, -, hcount⟩, heq⟩
        rcases h.connected (Or.inr (List.ne_nil_of_mem hop)) with ⟨hconnected, hduplex⟩
        rw [← Option.some.inj heq]
        exact ⟨Or.inr ⟨hconnected, hduplex.transmit hop hcount⟩, h.bytesWritten, h.bytesRead⟩
    | writeDone op =>
        rcases Option.ite_none_right_eq_some.mp hstep with ⟨⟨hop, hdone⟩, heq⟩
        rw [← Option.some.inj heq]
        exact h.writeDone hop hdone
    | writeFailed op err =>
        rcases Option.ite_none_right_eq_some.mp hstep with ⟨hop, heq⟩
        rcases h.connected (Or.inr (List.ne_nil_of_mem hop)) with ⟨hconnected, hduplex⟩
        rw [← Option.some.inj heq, Session.handleWrite_error]
        exact ⟨Or.inr ⟨hconnected, hduplex.failWrite hop⟩, h.bytesWritten, h.bytesRead⟩
  · rw [← Option.some.inj hstep]
    exact ⟨h.phase, h.bytesWritten, h.bytesRead⟩
  · rcases Option.ite_none_right_eq_some.mp hstep with ⟨-, heq⟩
    rw [← Option.some.inj heq]
    exact ⟨h.phase, h.bytesWritten, h.bytesRead⟩

end CppCoroutines.ClassicClient
