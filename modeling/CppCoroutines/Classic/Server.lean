import CppCoroutines.Machine
import CppCoroutines.Relay
import CppCoroutines.Duplex

/-!
# The classic server session

`session` of `classic_server.cpp`: an echo session over overlapped reads and
writes, driven by the two handlers `handle_read` and `handle_write` and by the
counters `unsent_count_` and `op_count_`. The strand runs one handler at a time,
so that one event is one handler; Asio completes any of the outstanding
operations, in any order, with success or with an error.
-/

namespace CppCoroutines.ClassicServer

/-- The data members of `session`, with what Asio holds for it. -/
structure Session (n : ℕ) extends Duplex n where
  unsentCount : ℤ
  opCount : ℤ
  /-- `handle_accept` has called `start()` -/
  started : Bool
  /-- history: how often `destroy` was posted -/
  destroyPosts : ℕ

namespace Session

variable {n : ℕ}

/-- The constructor; `heap` is what the two arrays happen to hold. -/
def new (heap : Slot → Block n) : Session n where
  toDuplex := Duplex.new heap
  unsentCount := 0
  opCount := 0
  started := false
  destroyPosts := 0

/-- Asio has changed the buffers and the operations in flight. -/
def withDuplex (s : Session n) (d : Duplex n) : Session n := { s with toDuplex := d }

/-- `io_service_.post(std::bind(&session::destroy, this))`. -/
def postDestroy (s : Session n) : Session n := { s with destroyPosts := s.destroyPosts + 1 }

/-- The end of both handlers: with no operation left, post `destroy`. -/
def destroyWhenIdle (s : Session n) : Session n := if s.opCount = 0 then s.postDestroy else s

@[simp] theorem toDuplex_destroyWhenIdle (s : Session n) :
    s.destroyWhenIdle.toDuplex = s.toDuplex := by
  unfold destroyWhenIdle
  split <;> rfl

@[simp] theorem unsentCount_destroyWhenIdle (s : Session n) :
    s.destroyWhenIdle.unsentCount = s.unsentCount := by
  unfold destroyWhenIdle
  split <;> rfl

@[simp] theorem started_destroyWhenIdle (s : Session n) :
    s.destroyWhenIdle.started = s.started := by
  unfold destroyWhenIdle
  split <;> rfl

/-- `session::start`. -/
def start (s : Session n) (setOptionErr : Option ErrorCode) : Session n :=
  match setOptionErr with
  | none => { s with opCount := s.opCount + 1, toDuplex := s.asyncReadSome, started := true }
  | some _ => { s.postDestroy with started := true }

/-- `session::handle_read`. -/
def handleRead (s : Session n) (err : Option ErrorCode) (length : ℕ) : Session n :=
  let s := { s with opCount := s.opCount - 1 }
  let s : Session n :=
    match err with
    | none =>
        let s :=
          { s with toDuplex := s.setReadDataLength length, unsentCount := s.unsentCount + 1 }
        if s.unsentCount = 1 then
          { s with opCount := s.opCount + 2, toDuplex := s.swapWriteRead }
        else s
    | some _ => s
  s.destroyWhenIdle

/-- `session::handle_write`. -/
def handleWrite (s : Session n) (err : Option ErrorCode) : Session n :=
  let s := { s with opCount := s.opCount - 1 }
  let s : Session n :=
    match err with
    | none =>
        let s := { s with toDuplex := s.acknowledge, unsentCount := s.unsentCount - 1 }
        if s.unsentCount = 1 then
          { s with opCount := s.opCount + 2, toDuplex := s.swapWriteRead }
        else s
    | some _ => s
  s.destroyWhenIdle

/-! What the handlers do in each of the states of the session. -/

theorem handleRead_first {s : Session n} (h : s.unsentCount = 0) (length : ℕ) :
    s.handleRead none length =
      destroyWhenIdle
        { s with
          toDuplex := (s.setReadDataLength length).swapWriteRead
          unsentCount := 1
          opCount := s.opCount - 1 + 2 } := by
  simp [handleRead, h]

theorem handleRead_second {s : Session n} (h : s.unsentCount = 1) (length : ℕ) :
    s.handleRead none length =
      destroyWhenIdle
        { s with
          toDuplex := s.setReadDataLength length
          unsentCount := 2
          opCount := s.opCount - 1 } := by
  simp [handleRead, h]

theorem handleRead_error (s : Session n) (err : ErrorCode) (length : ℕ) :
    s.handleRead (some err) length = destroyWhenIdle { s with opCount := s.opCount - 1 } := rfl

theorem handleWrite_last {s : Session n} (h : s.unsentCount = 1) :
    s.handleWrite none =
      destroyWhenIdle
        { s with
          toDuplex := s.acknowledge
          unsentCount := 0
          opCount := s.opCount - 1 } := by
  simp [handleWrite, h]

theorem handleWrite_next {s : Session n} (h : s.unsentCount = 2) :
    s.handleWrite none =
      destroyWhenIdle
        { s with
          toDuplex := s.acknowledge.swapWriteRead
          unsentCount := 1
          opCount := s.opCount - 1 + 2 } := by
  simp [handleWrite, h]

theorem handleWrite_error (s : Session n) (err : ErrorCode) :
    s.handleWrite (some err) = destroyWhenIdle { s with opCount := s.opCount - 1 } := rfl

end Session

/-- A session is started once; then its operations progress and complete. -/
inductive Event where
  | start (setOptionErr : Option ErrorCode)
  | io (e : IoEvent)
deriving DecidableEq, Repr

/-- One event: what Asio does to the operation, then the handler. -/
def step {n : ℕ} (s : Session n) : Event → Option (Session n)
  | .start setOptionErr => if s.started = false then some (s.start setOptionErr) else none
  | .io (.readDone op chunk) =>
      if op ∈ s.reads ∧ chunk.length ≤ op.size then
        some ((s.withDuplex (s.finishRead op chunk)).handleRead none chunk.length)
      else none
  | .io (.readFailed op err) =>
      if op ∈ s.reads then
        some ((s.withDuplex (s.failRead op)).handleRead (some err) 0)
      else none
  | .io (.transmit op count) =>
      if op ∈ s.writes ∧ 0 < count ∧ op.transferred + count ≤ op.length then
        some (s.withDuplex (s.transmit op count))
      else none
  | .io (.writeDone op) =>
      if op ∈ s.writes ∧ op.transferred = op.length then
        some ((s.withDuplex (s.finishWrite op)).handleWrite none)
      else none
  | .io (.writeFailed op err) =>
      if op ∈ s.writes then
        some ((s.withDuplex (s.failWrite op)).handleWrite (some err))
      else none

/-- One session, from its construction on. -/
def machine (n : ℕ) : Machine (Session n) Event where
  init s := ∃ heap, s = Session.new heap
  step := step

/-! ## The invariant -/

/-- The double-buffer invariant at `unsent_count_`, and what `op_count_` and the
destroy posts say about the operations in flight. -/
structure Inv {n : ℕ} (s : Session n) : Prop where
  duplex : Duplex.Inv [] s.unsentCount s.toDuplex
  ops : s.opCount = s.reads.length + s.writes.length
  posts : s.destroyPosts = if s.started = true ∧ s.reads = [] ∧ s.writes = [] then 1 else 0
  fresh : s.started = false → s = Session.new s.heap
  acknowledged : s.acknowledged = s.written.length
  stale : s.writeErrors = 0 → s.writes = [] → s.unsentCount = 0

variable {n : ℕ} {s : Session n}

theorem init_inv (heap : Slot → Block n) : Inv (Session.new heap) where
  duplex := Duplex.inv_new heap
  ops := rfl
  posts := rfl
  fresh _ := rfl
  acknowledged := rfl
  stale _ _ := rfl

/-- The end of a handler establishes the invariant: `destroy` is posted exactly
when the handler leaves nothing in flight. -/
theorem Inv.of_destroyWhenIdle (hduplex : Duplex.Inv [] s.unsentCount s.toDuplex)
    (hops : s.opCount = s.reads.length + s.writes.length) (hposts : s.destroyPosts = 0)
    (hstarted : s.started = true) (hack : s.acknowledged = s.written.length)
    (hstale : s.writeErrors = 0 → s.writes = [] → s.unsentCount = 0) :
    Inv s.destroyWhenIdle := by
  unfold Session.destroyWhenIdle
  by_cases hidle : s.opCount = 0
  · have hreads : s.reads = [] := List.length_eq_zero_iff.mp (by omega)
    have hwrites : s.writes = [] := List.length_eq_zero_iff.mp (by omega)
    rw [if_pos hidle]
    refine ⟨hduplex, hops, ?_, ?_, hack, hstale⟩
    · simp [Session.postDestroy, hposts, hstarted, hreads, hwrites]
    · intro hfresh
      simp [Session.postDestroy, hstarted] at hfresh
  · rw [if_neg hidle]
    refine ⟨hduplex, hops, ?_, ?_, hack, hstale⟩
    · rw [hposts, if_neg]
      intro hnil
      rw [hnil.2.1, hnil.2.2] at hops
      exact hidle hops
    · intro hfresh
      simp [hstarted] at hfresh

/-- A session with an operation in flight has been started and is not posted. -/
theorem Inv.running (h : Inv s) (hbusy : s.reads ≠ [] ∨ s.writes ≠ []) :
    s.started = true ∧ s.destroyPosts = 0 := by
  have hstarted : s.started = true := by
    by_contra hne
    have hnew := h.fresh (by simpa using hne)
    rcases hbusy with hr | hw
    · exact hr (by rw [hnew]; rfl)
    · exact hw (by rw [hnew]; rfl)
  constructor
  · exact hstarted
  · rw [h.posts, if_neg]
    intro hnil
    rcases hbusy with hr | hw
    · exact hr hnil.2.1
    · exact hw hnil.2.2

/-! ## One event -/

/-- `start()` starts the first read, or posts `destroy` when it cannot. -/
theorem Inv.start (h : Inv s) (hnew : s.started = false) (setOptionErr : Option ErrorCode) :
    Inv (s.start setOptionErr) := by
  rw [h.fresh hnew]
  have hinit := init_inv s.heap
  cases setOptionErr with
  | none =>
      refine
        { duplex := hinit.duplex.asyncReadSome rfl nofun, ops := rfl, posts := ?_,
          fresh := ?_, acknowledged := rfl, stale := fun _ _ => rfl }
      · simp [Session.start, Duplex.asyncReadSome, Session.new]
      · intro hfalse
        cases hfalse
  | some err =>
      refine
        { duplex := hinit.duplex, ops := rfl, posts := rfl, fresh := ?_, acknowledged := rfl,
          stale := fun _ _ => rfl }
      intro hfalse
      cases hfalse

/-- A successful read: the chunk is written at once when nothing is unsent, and
waits in `read_data_` when one chunk is. -/
theorem Inv.readDone (h : Inv s) {op : ReadOp} {chunk : List Byte} (hop : op ∈ s.reads)
    (hchunk : chunk.length ≤ op.size) :
    Inv ((s.withDuplex (s.finishRead op chunk)).handleRead none chunk.length) := by
  rcases h.duplex.read_eq hop with ⟨hone, hop', htwo⟩
  have hsize : chunk.length ≤ n := by
    rw [hop'] at hchunk
    exact hchunk
  rcases h.running (Or.inl (List.ne_nil_of_mem hop)) with ⟨hstarted, hposts⟩
  have hops := h.ops
  rw [hone, List.length_singleton] at hops
  rcases h.duplex.range with hcount | hcount | hcount
  · -- nothing unsent: no write is in flight either
    have hduplex : Duplex.Inv [] 0 s.toDuplex := hcount ▸ h.duplex
    have hcount' : (s.withDuplex (s.finishRead op chunk)).unsentCount = 0 := hcount
    rw [Session.handleRead_first hcount']
    apply Inv.of_destroyWhenIdle
    · exact hduplex.read_first hop hsize
    · simp [Duplex.swapWriteRead, Duplex.asyncWrite, Duplex.asyncReadSome, Duplex.finishRead,
        Duplex.setReadDataLength, Duplex.swap, Session.withDuplex, hops, hone, hop',
        hduplex.writes_eq_nil]
    · exact hposts
    · exact hstarted
    · exact h.acknowledged
    · intro _ hnil
      simp [Duplex.swapWriteRead, Duplex.asyncWrite, Duplex.asyncReadSome] at hnil
  · have hduplex : Duplex.Inv [] 1 s.toDuplex := hcount ▸ h.duplex
    have hcount' : (s.withDuplex (s.finishRead op chunk)).unsentCount = 1 := hcount
    rw [Session.handleRead_second hcount']
    apply Inv.of_destroyWhenIdle
    · exact hduplex.read_second hop hsize
    · have hrest : s.opCount - 1 = s.writes.length := by omega
      show s.opCount - 1 = _
      simp [Duplex.finishRead, Duplex.setReadDataLength, Session.withDuplex, hrest, hone, hop']
    · exact hposts
    · exact hstarted
    · exact h.acknowledged
    · intro herr hnil
      have := h.stale herr hnil
      omega
  · exact absurd hcount htwo

/-- A failed read starts nothing; the write in flight, if any, runs on. -/
theorem Inv.readFailed (h : Inv s) {op : ReadOp} (hop : op ∈ s.reads) (err : ErrorCode) :
    Inv ((s.withDuplex (s.failRead op)).handleRead (some err) 0) := by
  rcases h.duplex.read_eq hop with ⟨hone, hop', -⟩
  rcases h.running (Or.inl (List.ne_nil_of_mem hop)) with ⟨hstarted, hposts⟩
  have hops := h.ops
  rw [hone, List.length_singleton] at hops
  rw [Session.handleRead_error]
  apply Inv.of_destroyWhenIdle
  · exact h.duplex.failRead hop
  · have hrest : s.opCount - 1 = s.writes.length := by omega
    show s.opCount - 1 = _
    simp [Duplex.failRead, Session.withDuplex, hrest, hone, hop']
  · exact hposts
  · exact hstarted
  · exact h.acknowledged
  · exact h.stale

/-- Transmitting bytes runs no handler. -/
theorem Inv.transmit (h : Inv s) {op : WriteOp} {count : ℕ} (hop : op ∈ s.writes)
    (hcount : op.transferred + count ≤ op.length) :
    Inv (s.withDuplex (s.transmit op count)) := by
  rcases h.duplex.write_eq hop with ⟨hone, -, -⟩
  rcases h.running (Or.inr (List.ne_nil_of_mem hop)) with ⟨hstarted, hposts⟩
  refine
    { duplex := h.duplex.transmit hop hcount, ops := ?_, posts := ?_, fresh := ?_,
      acknowledged := h.acknowledged, stale := ?_ }
  · simpa [Session.withDuplex, Duplex.transmit, hone] using h.ops
  · simp [Session.withDuplex, Duplex.transmit, hone, hposts]
  · intro hfalse
    simp [Session.withDuplex, hstarted] at hfalse
  · intro _ hnil
    simp [Session.withDuplex, Duplex.transmit, hone] at hnil

/-- A successful write: the session idles when its chunk was the only unsent one,
and goes on with the chunk in `read_data_` otherwise. -/
theorem Inv.writeDone (h : Inv s) {op : WriteOp} (hop : op ∈ s.writes)
    (hdone : op.transferred = op.length) :
    Inv ((s.withDuplex (s.finishWrite op)).handleWrite none) := by
  rcases h.duplex.write_eq hop with ⟨hone, -, hzero⟩
  rcases h.running (Or.inr (List.ne_nil_of_mem hop)) with ⟨hstarted, hposts⟩
  have hops := h.ops
  rw [hone, List.length_singleton] at hops
  have hack : s.acknowledged + 1 = (s.written ++ [op.length]).length := by
    rw [List.length_append, ← h.acknowledged, List.length_singleton]
  rcases h.duplex.range with hcount | hcount | hcount
  · exact absurd hcount hzero
  · have hduplex : Duplex.Inv [] 1 s.toDuplex := hcount ▸ h.duplex
    have hcount' : (s.withDuplex (s.finishWrite op)).unsentCount = 1 := hcount
    rw [Session.handleWrite_last hcount']
    apply Inv.of_destroyWhenIdle
    · exact hduplex.write_last hop hdone
    · simp [Duplex.finishWrite, Duplex.acknowledge, Session.withDuplex, hops, hone]
    · exact hposts
    · exact hstarted
    · exact hack
    · intro _ _
      rfl
  · -- two chunks unsent: no read is in flight
    have hduplex : Duplex.Inv [] 2 s.toDuplex := hcount ▸ h.duplex
    have hcount' : (s.withDuplex (s.finishWrite op)).unsentCount = 2 := hcount
    rw [Session.handleWrite_next hcount']
    apply Inv.of_destroyWhenIdle
    · exact hduplex.write_next hop hdone
    · simp [Duplex.swapWriteRead, Duplex.asyncWrite, Duplex.asyncReadSome, Duplex.finishWrite,
        Duplex.acknowledge, Duplex.swap, Session.withDuplex, hops, hone, hduplex.reads_eq_nil]
    · exact hposts
    · exact hstarted
    · exact hack
    · intro _ hnil
      simp [Duplex.swapWriteRead, Duplex.asyncWrite, Duplex.asyncReadSome] at hnil

/-- A failed write leaves `unsent_count_` as it is, so that no further write starts. -/
theorem Inv.writeFailed (h : Inv s) {op : WriteOp} (hop : op ∈ s.writes) (err : ErrorCode) :
    Inv ((s.withDuplex (s.failWrite op)).handleWrite (some err)) := by
  rcases h.duplex.write_eq hop with ⟨hone, -, -⟩
  rcases h.running (Or.inr (List.ne_nil_of_mem hop)) with ⟨hstarted, hposts⟩
  have hops := h.ops
  rw [hone, List.length_singleton] at hops
  rw [Session.handleWrite_error]
  apply Inv.of_destroyWhenIdle
  · exact h.duplex.failWrite hop
  · simp [Duplex.failWrite, Session.withDuplex, hops, hone]
  · exact hposts
  · exact hstarted
  · exact h.acknowledged
  · intro herr
    cases herr

/-- Every event keeps the invariant. -/
theorem step_inv (s : Session n) (e : Event) (s' : Session n) (h : Inv s)
    (hstep : step s e = some s') : Inv s' := by
  rcases e with setOptionErr | e
  · rcases Option.ite_none_right_eq_some.mp hstep with ⟨hnew, heq⟩
    rw [← Option.some.inj heq]
    exact h.start hnew setOptionErr
  · cases e with
    | readDone op chunk =>
        rcases Option.ite_none_right_eq_some.mp hstep with ⟨⟨hop, hchunk⟩, heq⟩
        rw [← Option.some.inj heq]
        exact h.readDone hop hchunk
    | readFailed op err =>
        rcases Option.ite_none_right_eq_some.mp hstep with ⟨hop, heq⟩
        rw [← Option.some.inj heq]
        exact h.readFailed hop err
    | transmit op count =>
        rcases Option.ite_none_right_eq_some.mp hstep with ⟨⟨hop, -, hcount⟩, heq⟩
        rw [← Option.some.inj heq]
        exact h.transmit hop hcount
    | writeDone op =>
        rcases Option.ite_none_right_eq_some.mp hstep with ⟨⟨hop, hdone⟩, heq⟩
        rw [← Option.some.inj heq]
        exact h.writeDone hop hdone
    | writeFailed op err =>
        rcases Option.ite_none_right_eq_some.mp hstep with ⟨hop, heq⟩
        rw [← Option.some.inj heq]
        exact h.writeFailed hop err

theorem inductive_inv (n : ℕ) : (machine n).Inductive Inv := by
  constructor
  · intro s hs
    rcases hs with ⟨heap, rfl⟩
    exact init_inv heap
  · intro s e s' hs hstep
    exact step_inv s e s' hs hstep

/-- The invariant holds in every reachable state. -/
theorem inv_reachable (hs : (machine n).Reachable s) : Inv s := (inductive_inv n).reachable hs

/-! ## The session is a two-slot relay -/

theorem started_handleRead (s : Session n) (err : Option ErrorCode) (length : ℕ) :
    (s.handleRead err length).started = s.started := by
  unfold Session.handleRead
  cases err with
  | none =>
      by_cases hcount : s.unsentCount + 1 = 1
      · simp [hcount]
      · simp [hcount]
  | some err => simp

theorem started_handleWrite (s : Session n) (err : Option ErrorCode) :
    (s.handleWrite err).started = s.started := by
  unfold Session.handleWrite
  cases err with
  | none =>
      by_cases hcount : s.unsentCount - 1 = 1
      · simp [hcount]
      · simp [hcount]
  | some err => simp

/-- Only a session with an operation in flight has I/O events, and it stays started. -/
theorem step_io {e : IoEvent} {s' : Session n} (hstep : step s (.io e) = some s') :
    (s.reads ≠ [] ∨ s.writes ≠ []) ∧ s'.started = s.started := by
  cases e with
  | readDone op chunk =>
      rcases Option.ite_none_right_eq_some.mp hstep with ⟨⟨hop, -⟩, heq⟩
      rw [← Option.some.inj heq]
      exact ⟨Or.inl (List.ne_nil_of_mem hop), started_handleRead _ _ _⟩
  | readFailed op err =>
      rcases Option.ite_none_right_eq_some.mp hstep with ⟨hop, heq⟩
      rw [← Option.some.inj heq]
      exact ⟨Or.inl (List.ne_nil_of_mem hop), started_handleRead _ _ _⟩
  | transmit op count =>
      rcases Option.ite_none_right_eq_some.mp hstep with ⟨⟨hop, -⟩, heq⟩
      rw [← Option.some.inj heq]
      exact ⟨Or.inr (List.ne_nil_of_mem hop), rfl⟩
  | writeDone op =>
      rcases Option.ite_none_right_eq_some.mp hstep with ⟨⟨hop, -⟩, heq⟩
      rw [← Option.some.inj heq]
      exact ⟨Or.inr (List.ne_nil_of_mem hop), started_handleWrite _ _⟩
  | writeFailed op err =>
      rcases Option.ite_none_right_eq_some.mp hstep with ⟨hop, heq⟩
      rw [← Option.some.inj heq]
      exact ⟨Or.inr (List.ne_nil_of_mem hop), started_handleWrite _ _⟩

theorem handleRead_history (s : Session n) (err : Option ErrorCode) (length : ℕ) :
    (s.handleRead err length).received = s.received ∧
      (s.handleRead err length).acknowledged = s.acknowledged := by
  unfold Session.handleRead
  cases err with
  | none =>
      by_cases hcount : s.unsentCount + 1 = 1
      · simp [hcount]
      · simp [hcount]
  | some err => simp

theorem handleWrite_history (s : Session n) (err : Option ErrorCode) :
    (s.handleWrite err).received = s.received ∧
      (s.handleWrite err).acknowledged = s.acknowledged + if err = none then 1 else 0 := by
  unfold Session.handleWrite
  cases err with
  | none =>
      by_cases hcount : s.unsentCount - 1 = 1
      · simp [hcount, Duplex.acknowledge]
      · simp [hcount, Duplex.acknowledge]
  | some err => simp

/-- Each event takes one chunk, counts one as sent, or does neither. -/
theorem step_history {e : Event} {s' : Session n} (hstep : step s e = some s') :
    (s'.received = s.received ∧ s'.acknowledged = s.acknowledged) ∨
      (∃ chunk, s'.received = s.received ++ [chunk] ∧ s'.acknowledged = s.acknowledged) ∨
      (s'.received = s.received ∧ s'.acknowledged = s.acknowledged + 1) := by
  rcases e with setOptionErr | e
  · rcases Option.ite_none_right_eq_some.mp hstep with ⟨-, heq⟩
    rw [← Option.some.inj heq]
    left
    cases setOptionErr <;> exact ⟨rfl, rfl⟩
  · cases e with
    | readDone op chunk =>
        rcases Option.ite_none_right_eq_some.mp hstep with ⟨-, heq⟩
        rw [← Option.some.inj heq]
        right; left
        exact ⟨chunk, (handleRead_history _ _ _).1, (handleRead_history _ _ _).2⟩
    | readFailed op err =>
        rcases Option.ite_none_right_eq_some.mp hstep with ⟨-, heq⟩
        rw [← Option.some.inj heq]
        left
        exact handleRead_history _ _ _
    | transmit op count =>
        rcases Option.ite_none_right_eq_some.mp hstep with ⟨-, heq⟩
        rw [← Option.some.inj heq]
        left
        exact ⟨rfl, rfl⟩
    | writeDone op =>
        rcases Option.ite_none_right_eq_some.mp hstep with ⟨-, heq⟩
        rw [← Option.some.inj heq]
        right; right
        exact handleWrite_history _ _
    | writeFailed op err =>
        rcases Option.ite_none_right_eq_some.mp hstep with ⟨-, heq⟩
        rw [← Option.some.inj heq]
        left
        exact handleWrite_history _ _

/-- The session refines a relay with two slots: it takes the chunks it reads and
gives on those it counts as sent. -/
theorem session_refines_relay (n : ℕ) :
    (machine n).Simulation (Relay.machine (List Byte) 2)
      (fun s r => Inv s ∧ r.taken = s.received ∧ r.given = s.acknowledged) := by
  apply Relay.simulation (inductive_inv n) (fun s => s.received) (fun s => s.acknowledged)
  · intro s hs
    rcases hs with ⟨heap, rfl⟩
    exact ⟨rfl, rfl⟩
  · intro s hs
    exact hs.duplex.bounds
  · intro s e s' _ hstep
    exact step_history hstep

/-- The session holds back two chunks at most, the last ones it has read, and counts no
chunk as sent and then not. -/
theorem session_relays {s s' : Session n} (hs : (machine n).Reachable s) {events : List Event}
    (hrun : (machine n).run s events = some s') :
    s.received.take s.acknowledged <+: s'.received.take s'.acknowledged ∧
      ∃ held, s'.received = s'.received.take s'.acknowledged ++ held ∧ held.length ≤ 2 := by
  obtain ⟨r, -, hR⟩ := (session_refines_relay n).reachable hs
  obtain ⟨ds, r', hrelay, hR'⟩ := (session_refines_relay n).run hR hrun
  obtain ⟨-, htaken, hgiven⟩ := hR
  obtain ⟨-, htaken', hgiven'⟩ := hR'
  have hdelivered : r.delivered = s.received.take s.acknowledged := by
    rw [Relay.delivered, htaken, hgiven]
  have hdelivered' : r'.delivered = s'.received.take s'.acknowledged := by
    rw [Relay.delivered, htaken', hgiven']
  rw [← hdelivered, ← hdelivered', ← htaken']
  constructor
  · exact Relay.delivered_prefix_of_run hrelay
  · exact ⟨r'.pending, r'.delivered_append_pending.symm, r'.length_pending_le⟩

/-! ## What is sent -/

/-- Everything counted as sent has been transmitted, and at most part of the next chunk. -/
theorem Inv.sent_eq (h : Inv s) :
    ∃ tail, s.sent = (s.received.take s.written.length).flatten ++ tail ∧
      tail <+: (s.received.drop s.written.length).flatten := by
  rcases h.duplex.outgoing with ⟨tail, hsent, htail, -⟩
  rw [← h.acknowledged]
  exact ⟨tail, hsent, htail⟩

/-- When `destroy` is posted and no write has failed, every chunk read has been sent. -/
theorem Inv.echoed (h : Inv s) (hposts : 0 < s.destroyPosts) (herr : s.writeErrors = 0) :
    s.sent = s.received.flatten ∧ s.written.length = s.received.length := by
  have hidle : s.started = true ∧ s.reads = [] ∧ s.writes = [] := by
    by_contra hne
    have := h.posts
    rw [if_neg hne] at this
    omega
  have hzero : s.unsentCount = 0 := h.stale herr hidle.2.2
  have hlen : s.written.length = s.received.length := by
    have hbal := h.duplex.balance
    rw [h.acknowledged, List.nil_append] at hbal
    omega
  refine ⟨?_, hlen⟩
  rcases h.sent_eq with ⟨tail, hsent, htail⟩
  rw [hlen, List.drop_length, List.flatten_nil, List.prefix_nil] at htail
  rw [hsent, htail, hlen, List.take_length, List.append_nil]

/-- While a write stays outstanding, an event neither changes its buffer nor swaps
it away. -/
theorem write_buffer_stable (h : Inv s) {e : Event} {s' : Session n}
    (hstep : step s e = some s') {w w' : WriteOp} (hw : w ∈ s.writes) (hw' : w' ∈ s'.writes)
    (hserial : w'.serial = w.serial) :
    w'.buffer = w.buffer ∧ s'.writeData = s.writeData ∧ s'.heap w.buffer = s.heap w.buffer := by
  rcases h.duplex.write_eq hw with ⟨hone, hcarries, hzero⟩
  rcases (step_inv s e s' h hstep).duplex.write_eq hw' with ⟨-, hcarries', -⟩
  rw [hcarries'.buffer, hcarries.buffer]
  rcases e with setOptionErr | e
  · -- a session that has not been started has nothing outstanding
    rcases Option.ite_none_right_eq_some.mp hstep with ⟨hnew, -⟩
    rw [h.fresh hnew] at hw
    cases hw
  · cases e with
    | readDone op chunk =>
        rcases Option.ite_none_right_eq_some.mp hstep with ⟨⟨hop, -⟩, heq⟩
        rcases h.duplex.read_eq hop with ⟨-, hop', htwo⟩
        -- one chunk is unsent, so the handler does not swap
        have hcount : (s.withDuplex (s.finishRead op chunk)).unsentCount = 1 := by
          rcases h.duplex.range with hc | hc | hc
          · exact absurd hc hzero
          · exact hc
          · exact absurd hc htwo
        rw [Session.handleRead_second hcount] at heq
        rw [← Option.some.inj heq, Session.toDuplex_destroyWhenIdle]
        have hne : s.writeData ≠ op.buffer := by
          rw [hop']
          exact h.duplex.distinct.symm
        exact ⟨rfl, rfl, Function.update_of_ne hne _ _⟩
    | readFailed op err =>
        rcases Option.ite_none_right_eq_some.mp hstep with ⟨-, heq⟩
        rw [Session.handleRead_error] at heq
        rw [← Option.some.inj heq, Session.toDuplex_destroyWhenIdle]
        exact ⟨rfl, rfl, rfl⟩
    | transmit op count =>
        rcases Option.ite_none_right_eq_some.mp hstep with ⟨-, heq⟩
        rw [← Option.some.inj heq]
        exact ⟨rfl, rfl, rfl⟩
    | writeDone op =>
        -- the write in flight afterwards is a later one
        rcases Option.ite_none_right_eq_some.mp hstep with ⟨-, heq⟩
        have hack : s'.acknowledged = s.acknowledged + 1 := by
          rw [← Option.some.inj heq]
          exact (handleWrite_history _ _).2
        have := hcarries.serial
        have := hcarries'.serial
        omega
    | writeFailed op err =>
        rcases Option.ite_none_right_eq_some.mp hstep with ⟨hop, heq⟩
        have hop' : op = w := by simpa [hone] using hop
        rw [← Option.some.inj heq, Session.handleWrite_error,
          Session.toDuplex_destroyWhenIdle] at hw'
        simp [Session.withDuplex, Duplex.failWrite, hone, hop'] at hw'

/-! ## The echo property -/

/-- What a session does with the chunks it reads, in one state. -/
structure Echo (s : Session n) : Prop where
  /-- the `i`-th write carries the bytes and the length of the `i`-th chunk -/
  writes_carry : ∀ i < s.issued.length,
    ∃ chunk, s.received[i]? = some chunk ∧ s.issued[i]? = some ⟨chunk, chunk.length⟩
  /-- every chunk has been handed to a write, but for one when two are unsent -/
  issued_count : (s.issued.length = s.received.length ∧ s.unsentCount ≠ 2) ∨
    (s.issued.length + 1 = s.received.length ∧ s.unsentCount = 2)
  unsent_eq : s.unsentCount = s.received.length - s.written.length
  unsent_range : s.unsentCount = 0 ∨ s.unsentCount = 1 ∨ s.unsentCount = 2
  /-- an outstanding write does not share its buffer with an outstanding read -/
  buffers_ne : ∀ w ∈ s.writes, ∀ r ∈ s.reads, w.buffer ≠ r.buffer
  /-- its buffer is `write_data_` and still holds what the write was issued with -/
  carried : ∀ w ∈ s.writes, w.buffer = s.writeData ∧
    s.issued[w.serial]? = some ⟨(s.heap w.buffer).front w.length, w.length⟩
  /-- no event changes that buffer or swaps it away while the write stays outstanding -/
  stable : ∀ e s', step s e = some s' → ∀ w ∈ s.writes, ∀ w' ∈ s'.writes, w'.serial = w.serial →
    w'.buffer = w.buffer ∧ s'.writeData = s.writeData ∧ s'.heap w.buffer = s.heap w.buffer
  /-- the bytes sent are a prefix of the bytes received, complete for completed writes -/
  sent_eq : ∃ tail, s.sent = (s.received.take s.written.length).flatten ++ tail ∧
    tail <+: (s.received.drop s.written.length).flatten
  /-- once `destroy` is posted and no write has failed, all of them -/
  echoed : 0 < s.destroyPosts → s.writeErrors = 0 →
    s.sent = s.received.flatten ∧ s.written.length = s.received.length

/-- Every reachable state of a classic server session echoes: whatever the chunks,
and in whatever order its reads and writes complete or fail. -/
theorem session_echoes (n : ℕ) (s : Session n) (hs : (machine n).Reachable s) : Echo s := by
  have h : Inv s := inv_reachable hs
  refine
    { writes_carry := ?_, issued_count := h.duplex.issued_length_cases, unsent_eq := ?_,
      unsent_range := h.duplex.range, buffers_ne := ?_, carried := ?_, stable := ?_,
      sent_eq := h.sent_eq, echoed := h.echoed }
  · intro i hi
    have hissued := h.duplex.issued_getElem hi
    have hlt : i < s.received.length := by
      have := h.duplex.issued_length_cases
      simp only [List.nil_append] at this
      omega
    rw [List.nil_append, List.getElem?_eq_getElem hlt] at hissued
    exact ⟨s.received[i], List.getElem?_eq_getElem hlt, hissued⟩
  · have hbal := h.duplex.balance
    rw [List.nil_append, h.acknowledged] at hbal
    omega
  · intro w hw r hr
    exact h.duplex.buffers_ne hw hr
  · intro w hw
    exact h.duplex.carried hw
  · intro e s' hstep w hw w' hw' hserial
    exact write_buffer_stable h hstep hw hw' hserial

/-- Two chunks unsent, the first of them half transmitted. -/
theorem session_echoes_overlapped :
    ∃ s : Session 2, (machine 2).run (Session.new fun _ => Block.zero 2)
        [.start none, .io (.readDone ⟨.first, 2⟩ [7, 8]), .io (.transmit ⟨0, .first, 2, 0⟩ 1),
          .io (.readDone ⟨.second, 2⟩ [9])] = some s ∧
      s.unsentCount = 2 ∧ Echo s := by
  refine ⟨_, rfl, rfl, session_echoes 2 _ ?_⟩
  have hinit : (machine 2).Reachable (Session.new fun _ => Block.zero 2) :=
    Machine.Reachable.init ⟨_, rfl⟩
  exact (((hinit.step (.start none) rfl).step (.io (.readDone ⟨.first, 2⟩ [7, 8])) rfl).step
    (.io (.transmit ⟨0, .first, 2, 0⟩ 1)) rfl).step (.io (.readDone ⟨.second, 2⟩ [9])) rfl

end CppCoroutines.ClassicServer
