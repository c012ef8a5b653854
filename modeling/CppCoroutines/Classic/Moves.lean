import CppCoroutines.Classic.Server
import CppCoroutines.Classic.Client

/-!
# What both classic sessions do while nothing fails

The server session and the client session differ in how they start, in what they
count and in when they die. While no operation fails and no read is empty they
move their double buffer in the same five ways. This file names the moves, maps
the two sessions to them, and proves once for both what only holds without
errors: which operations must be in flight, and how many bytes are held.
-/

namespace CppCoroutines

/-- An operation goes on or completes without an error, and a read takes something. -/
def IoEvent.Succeeds : IoEvent → Prop
  | .readDone _ chunk => chunk ≠ []
  | .readFailed _ _ => False
  | .transmit _ _ => True
  | .writeDone _ => True
  | .writeFailed _ _ => False

/-- The chunks a successful event takes: that of a read. -/
def IoEvent.taken : IoEvent → List (List Byte)
  | .readDone _ chunk => [chunk]
  | _ => []

namespace Duplex

variable {n : ℕ}

/-- The bytes a successful event transmits. -/
def put (d : Duplex n) : IoEvent → List Byte
  | .transmit op count => (d.heap op.buffer).slice op.transferred count
  | _ => []

/-- One successful event: what it does to the double buffer and to the counter of
unsent chunks. -/
inductive Moves (d : Duplex n) : ℤ → IoEvent → ℤ → Duplex n → Prop where
  | readFirst {op : ReadOp} {chunk : List Byte} (hop : op ∈ d.reads) (hsize : chunk.length ≤ n)
      (hchunk : chunk ≠ []) :
      Moves d 0 (.readDone op chunk) 1
        ((d.finishRead op chunk).setReadDataLength chunk.length).swapWriteRead
  | readSecond {op : ReadOp} {chunk : List Byte} (hop : op ∈ d.reads) (hsize : chunk.length ≤ n)
      (hchunk : chunk ≠ []) :
      Moves d 1 (.readDone op chunk) 2 ((d.finishRead op chunk).setReadDataLength chunk.length)
  | transmit {op : WriteOp} {k : ℕ} {count : ℤ} (hop : op ∈ d.writes)
      (hk : op.transferred + k ≤ op.length) :
      Moves d count (.transmit op k) count (d.transmit op k)
  | writeLast {op : WriteOp} (hop : op ∈ d.writes) (hdone : op.transferred = op.length) :
      Moves d 1 (.writeDone op) 0 (d.finishWrite op).acknowledge
  | writeNext {op : WriteOp} (hop : op ∈ d.writes) (hdone : op.transferred = op.length) :
      Moves d 2 (.writeDone op) 1 (d.finishWrite op).acknowledge.swapWriteRead

variable {pre : List (List Byte)} {count count' : ℤ} {d d' : Duplex n} {e : IoEvent}

/-! What each event can have done. -/

theorem Moves.readDone_cases {op : ReadOp} {chunk : List Byte}
    (hmove : Moves d count (.readDone op chunk) count' d') :
    (count = 0 ∧ count' = 1 ∧
        d' = ((d.finishRead op chunk).setReadDataLength chunk.length).swapWriteRead) ∨
      (count = 1 ∧ count' = 2 ∧ d' = (d.finishRead op chunk).setReadDataLength chunk.length) := by
  cases hmove with
  | readFirst _ _ _ => exact Or.inl ⟨rfl, rfl, rfl⟩
  | readSecond _ _ _ => exact Or.inr ⟨rfl, rfl, rfl⟩

theorem Moves.transmit_eq {op : WriteOp} {k : ℕ}
    (hmove : Moves d count (.transmit op k) count' d') : count' = count ∧ d' = d.transmit op k := by
  cases hmove
  exact ⟨rfl, rfl⟩

theorem Moves.writeDone_cases {op : WriteOp} (hmove : Moves d count (.writeDone op) count' d') :
    (count = 1 ∧ count' = 0 ∧ d' = (d.finishWrite op).acknowledge) ∨
      (count = 2 ∧ count' = 1 ∧ d' = (d.finishWrite op).acknowledge.swapWriteRead) := by
  cases hmove with
  | writeLast _ _ => exact Or.inl ⟨rfl, rfl, rfl⟩
  | writeNext _ _ => exact Or.inr ⟨rfl, rfl, rfl⟩

/-- The moves keep the double-buffer invariant. -/
theorem Moves.inv (hmove : Moves d count e count' d') (h : Inv pre count d) :
    Inv pre count' d' := by
  cases hmove with
  | readFirst hop hsize _ => exact h.read_first hop hsize
  | readSecond hop hsize _ => exact h.read_second hop hsize
  | transmit hop hk => exact h.transmit hop hk
  | writeLast hop hdone => exact h.write_last hop hdone
  | writeNext hop hdone => exact h.write_next hop hdone

/-- The moves record what is taken and what is transmitted. -/
theorem Moves.history (hmove : Moves d count e count' d') :
    d'.received = d.received ++ e.taken ∧ d'.sent = d.sent ++ d.put e := by
  cases hmove with
  | readFirst _ _ _ => exact ⟨rfl, (List.append_nil _).symm⟩
  | readSecond _ _ _ => exact ⟨rfl, (List.append_nil _).symm⟩
  | transmit _ _ => exact ⟨(List.append_nil _).symm, rfl⟩
  | writeLast _ _ => exact ⟨(List.append_nil _).symm, (List.append_nil _).symm⟩
  | writeNext _ _ => exact ⟨(List.append_nil _).symm, (List.append_nil _).symm⟩

/-- No move is a failed write. -/
theorem Moves.writeErrors_eq (hmove : Moves d count e count' d') :
    d'.writeErrors = d.writeErrors := by
  cases hmove <;> rfl

/-! ## Nothing is missing -/

/-- Without errors a write is in flight as long as a chunk is unsent, a read is in
flight unless two chunks are, and the writes completed are those of the chunks
that count as sent. -/
structure Live (pre : List (List Byte)) (count : ℤ) (d : Duplex n) : Prop where
  writing : d.writes = [] → count = 0
  nonempty : ∀ chunk ∈ pre ++ d.received, chunk ≠ []
  written : d.written = ((pre ++ d.received).take d.acknowledged).map List.length

/-- `count` chunks are unsent: the read that must be in flight is. -/
def Listening (count : ℤ) (d : Duplex n) : Prop := d.reads = [] → count = 2

theorem writes_swapWriteRead (d : Duplex n) : d.swapWriteRead.writes ≠ [] := by
  simp [swapWriteRead, asyncWrite, asyncReadSome]

theorem reads_swapWriteRead (d : Duplex n) : d.swapWriteRead.reads ≠ [] := by
  simp [swapWriteRead, asyncReadSome]

/-- A chunk read later does not change the lengths of the chunks sent before. -/
theorem Inv.take_received (h : Inv pre count d) (chunk : List Byte) :
    (pre ++ (d.received ++ [chunk])).take d.acknowledged = (pre ++ d.received).take d.acknowledged := by
  rw [← List.append_assoc, List.take_append_of_le_length h.bounds.1]

/-- A further chunk that is not empty. -/
theorem Live.received_append (hlive : Live pre count d) {chunk : List Byte} (hchunk : chunk ≠ []) :
    ∀ c ∈ pre ++ (d.received ++ [chunk]), c ≠ [] := by
  intro c hc
  rw [← List.append_assoc] at hc
  rcases List.mem_append.mp hc with hold | hnew
  · exact hlive.nonempty c hold
  · rw [List.mem_singleton.mp hnew]
    exact hchunk

/-- The lengths of the completed writes once the chunk of `op` counts as sent. -/
theorem Inv.written_next (h : Inv pre count d) (hlive : Live pre count d) {op : WriteOp}
    (hop : op ∈ d.writes) :
    d.written ++ [op.length] =
      ((pre ++ d.received).take (d.acknowledged + 1)).map List.length := by
  rcases h.write_eq hop with ⟨-, hcarries, -⟩
  rw [List.take_add_one, hcarries.chunk, List.map_append, ← hlive.written, Option.toList_some,
    List.map_singleton, Block.length_front _ hcarries.length_le]

/-- A write that is in flight is not empty. -/
theorem Live.length_pos (hlive : Live pre count d) (h : Inv pre count d) {op : WriteOp}
    (hop : op ∈ d.writes) : 0 < op.length := by
  rcases h.write_eq hop with ⟨-, hcarries, -⟩
  have hne := hlive.nonempty _ (List.mem_of_getElem? hcarries.chunk)
  rw [← Block.length_front (d.heap d.writeData) hcarries.length_le]
  exact List.length_pos_iff.mpr hne

theorem Moves.live (hmove : Moves d count e count' d') (h : Inv pre count d)
    (hlive : Live pre count d) : Live pre count' d' := by
  cases hmove with
  | readFirst hop _ hchunk =>
      refine ⟨?_, hlive.received_append hchunk, ?_⟩
      · intro hnil
        exact absurd hnil (writes_swapWriteRead _)
      · exact hlive.written.trans (congrArg _ (h.take_received _).symm)
  | readSecond hop _ hchunk =>
      refine ⟨?_, hlive.received_append hchunk, ?_⟩
      · intro hnil
        have := hlive.writing hnil
        omega
      · exact hlive.written.trans (congrArg _ (h.take_received _).symm)
  | transmit hop _ =>
      refine ⟨?_, hlive.nonempty, hlive.written⟩
      intro hnil
      simp [Duplex.transmit, (h.write_eq hop).1] at hnil
  | writeLast hop hdone =>
      exact ⟨fun _ => rfl, hlive.nonempty, h.written_next hlive hop⟩
  | writeNext hop hdone =>
      refine ⟨?_, hlive.nonempty, h.written_next hlive hop⟩
      intro hnil
      exact absurd hnil (writes_swapWriteRead _)

theorem Moves.listening (hmove : Moves d count e count' d') (h : Inv pre count d)
    (hlisten : Listening count d) : Listening count' d' := by
  intro hnil
  cases hmove with
  | readFirst hop _ _ => exact absurd hnil (reads_swapWriteRead _)
  | readSecond hop _ _ => rfl
  | transmit hop _ => exact hlisten hnil
  | writeLast hop hdone =>
      have := hlisten hnil
      omega
  | writeNext hop hdone => exact absurd hnil (reads_swapWriteRead _)

/-! ## The bytes a session holds -/

/-- The length of the outstanding write, 0 if there is none. -/
def outstanding (d : Duplex n) : ℕ := (d.writes.map WriteOp.length).sum

/-- The length of a chunk read but not yet handed to a write, 0 if there is none. -/
def queued (count : ℤ) (d : Duplex n) : ℕ := if count = 2 then d.readDataLength else 0

/-- The bytes not yet transmitted: the rest of the outstanding write and the queued chunk. -/
def held (count : ℤ) (d : Duplex n) : ℕ :=
  (d.writes.map fun op => op.length - op.transferred).sum + d.queued count

/-- The oldest chunk that does not count as sent is the one of the outstanding write. -/
theorem Inv.drop_acknowledged (h : Inv pre count d) {op : WriteOp} (hop : op ∈ d.writes) :
    (pre ++ d.received).drop d.acknowledged =
      (d.heap d.writeData).front op.length :: (pre ++ d.received).drop (d.acknowledged + 1) := by
  rcases h.write_eq hop with ⟨-, hcarries, -⟩
  rw [List.drop_eq_getElem?_toList_append, hcarries.chunk]
  rfl

/-- The chunks that do not count as sent are those of the outstanding write and of
the queued chunk. -/
theorem Inv.length_unsent (h : Inv pre count d) (hlive : Live pre count d) :
    ((pre ++ d.received).drop d.acknowledged).flatten.length = d.outstanding + d.queued count := by
  have hbalance := h.balance
  rcases h.writing with hnil | ⟨op, hone, hcarries, hzero⟩
  · -- no write in flight: nothing is unsent
    have hcount := hlive.writing hnil
    rw [List.drop_of_length_le (by omega)]
    simp [outstanding, Duplex.queued, hnil, hcount]
  · have hop : op ∈ d.writes := by rw [hone]; exact List.mem_singleton_self op
    have hlength := Block.length_front (d.heap d.writeData) hcarries.length_le
    rw [h.drop_acknowledged hop, List.flatten_cons, List.length_append, hlength]
    rcases h.range with hcount | hcount | hcount
    · exact absurd hcount hzero
    · rw [List.drop_of_length_le (by omega)]
      simp [outstanding, Duplex.queued, hone, hcount]
    · -- the second unsent chunk waits in `read_data_`
      rcases h.queued hcount with ⟨hle, hqueued⟩
      rw [List.drop_eq_getElem?_toList_append, hqueued, List.drop_of_length_le (by omega)]
      simp [outstanding, Duplex.queued, hone, hcount, Block.length_front _ hle]

/-- Every byte of the chunks belongs to a completed write, to the outstanding one or
to the queued chunk. -/
theorem Inv.sum_written (h : Inv pre count d) (hlive : Live pre count d) :
    d.written.sum + d.outstanding + d.queued count = (pre ++ d.received).flatten.length := by
  conv_rhs => rw [← List.take_append_drop d.acknowledged (pre ++ d.received)]
  rw [List.flatten_append, List.length_append, h.length_unsent hlive, hlive.written,
    List.length_flatten, Nat.add_assoc]

/-- Every byte of the chunks has been transmitted or is held. -/
theorem Inv.length_sent (h : Inv pre count d) (hlive : Live pre count d) :
    d.sent.length + d.held count = (pre ++ d.received).flatten.length := by
  rw [← h.sum_written hlive]
  rcases h.outgoing with ⟨tail, hsent, hprefix, htail⟩
  rw [hsent, List.length_append, List.length_flatten, ← hlive.written, Nat.add_assoc,
    Nat.add_assoc, Nat.add_left_cancel_iff, held, ← Nat.add_assoc, Nat.add_right_cancel_iff]
  rcases h.writing with hnil | ⟨op, hone, hcarries, -⟩
  · -- no write in flight: nothing is partly transmitted
    have hunsent := h.length_unsent hlive
    have hle := hprefix.length_le
    rw [hunsent, outstanding, Duplex.queued, hnil, hlive.writing hnil] at hle
    simpa [outstanding, hnil] using hle
  · have hop : op ∈ d.writes := by rw [hone]; exact List.mem_singleton_self op
    have hle := hcarries.transferred_le
    rw [htail op hop, Block.length_front _ (Nat.le_trans hle hcarries.length_le)]
    simp [outstanding, hone]
    omega

/-- Neither of the two chunks is longer than the block. -/
theorem Inv.outstanding_le (h : Inv pre count d) : d.outstanding ≤ n := by
  rcases h.writing with hnil | ⟨op, hone, hcarries, -⟩
  · simp [outstanding, hnil]
  · simpa [outstanding, hone] using hcarries.length_le

theorem Inv.queued_le (h : Inv pre count d) : d.queued count ≤ n := by
  unfold Duplex.queued
  by_cases hcount : count = 2
  · rw [if_pos hcount]
    exact (h.queued hcount).1
  · rw [if_neg hcount]
    exact Nat.zero_le n

/-! ## Which operations can go on -/

/-- `d` has the operation that the event needs, in the right state. -/
def Enabled (d : Duplex n) : IoEvent → Prop
  | .readDone op chunk => op ∈ d.reads ∧ chunk.length ≤ op.size
  | .readFailed op _ => op ∈ d.reads
  | .transmit op k => op ∈ d.writes ∧ 0 < k ∧ op.transferred + k ≤ op.length
  | .writeDone op => op ∈ d.writes ∧ op.transferred = op.length
  | .writeFailed op _ => op ∈ d.writes

/-- A listening session has its read in flight while less than two chunks are unsent. -/
theorem Inv.exists_read (h : Inv pre count d) (hlisten : Listening count d) (hcount : count ≠ 2) :
    ⟨d.readData, n⟩ ∈ d.reads := by
  rcases h.reading with hnil | ⟨hone, -⟩
  · exact absurd (hlisten hnil) hcount
  · rw [hone]
    exact List.mem_singleton_self _

/-- A live session has its write in flight while a chunk is unsent. -/
theorem Inv.exists_write (h : Inv pre count d) (hlive : Live pre count d) (hcount : count ≠ 0) :
    ∃ op ∈ d.writes, d.writes = [op] ∧ Carries (pre ++ d.received) d op := by
  rcases h.writing with hnil | ⟨op, hone, hcarries, -⟩
  · exact absurd (hlive.writing hnil) hcount
  · refine ⟨op, ?_, hone, hcarries⟩
    rw [hone]
    exact List.mem_singleton_self op

/-- The queued chunk is not empty. -/
theorem Inv.queued_pos (h : Inv pre 2 d) (hlive : Live pre 2 d) : 0 < d.queued 2 := by
  rcases h.queued rfl with ⟨hle, hqueued⟩
  have hne := hlive.nonempty _ (List.mem_of_getElem? hqueued)
  rw [Duplex.queued, if_pos rfl, ← Block.length_front (d.heap d.readData) hle]
  exact List.length_pos_iff.mpr hne

end Duplex

/-! ## The two sessions make these moves -/

section Sessions

open Duplex

variable {n : ℕ} {e : IoEvent}

/-- A server session in which nothing fails moves its double buffer. -/
theorem ClassicServer.step_moves {s s' : ClassicServer.Session n} (h : ClassicServer.Inv s)
    (hstep : ClassicServer.step s (.io e) = some s') (he : e.Succeeds) :
    Moves s.toDuplex s.unsentCount e s'.unsentCount s'.toDuplex := by
  cases e with
  | readDone op chunk =>
      rcases Option.ite_none_right_eq_some.mp hstep with ⟨⟨hop, hsize⟩, heq⟩
      rcases h.duplex.read_eq hop with ⟨-, rfl, htwo⟩
      rcases h.duplex.range with hcount | hcount | hcount
      · have hcount' : (s.withDuplex (s.finishRead ⟨s.readData, n⟩ chunk)).unsentCount = 0 := hcount
        rw [← Option.some.inj heq, ClassicServer.Session.handleRead_first hcount', hcount]
        simp only [ClassicServer.Session.toDuplex_destroyWhenIdle,
          ClassicServer.Session.unsentCount_destroyWhenIdle]
        exact Moves.readFirst hop hsize he
      · have hcount' : (s.withDuplex (s.finishRead ⟨s.readData, n⟩ chunk)).unsentCount = 1 := hcount
        rw [← Option.some.inj heq, ClassicServer.Session.handleRead_second hcount', hcount]
        simp only [ClassicServer.Session.toDuplex_destroyWhenIdle,
          ClassicServer.Session.unsentCount_destroyWhenIdle]
        exact Moves.readSecond hop hsize he
      · exact absurd hcount htwo
  | readFailed op err => exact he.elim
  | transmit op k =>
      rcases Option.ite_none_right_eq_some.mp hstep with ⟨⟨hop, -, hk⟩, heq⟩
      rw [← Option.some.inj heq]
      exact Moves.transmit hop hk
  | writeDone op =>
      rcases Option.ite_none_right_eq_some.mp hstep with ⟨⟨hop, hdone⟩, heq⟩
      rcases h.duplex.write_eq hop with ⟨-, -, hzero⟩
      rcases h.duplex.range with hcount | hcount | hcount
      · exact absurd hcount hzero
      · have hcount' : (s.withDuplex (s.finishWrite op)).unsentCount = 1 := hcount
        rw [← Option.some.inj heq, ClassicServer.Session.handleWrite_last hcount', hcount]
        simp only [ClassicServer.Session.toDuplex_destroyWhenIdle,
          ClassicServer.Session.unsentCount_destroyWhenIdle]
        exact Moves.writeLast hop hdone
      · have hcount' : (s.withDuplex (s.finishWrite op)).unsentCount = 2 := hcount
        rw [← Option.some.inj heq, ClassicServer.Session.handleWrite_next hcount', hcount]
        simp only [ClassicServer.Session.toDuplex_destroyWhenIdle,
          ClassicServer.Session.unsentCount_destroyWhenIdle]
        exact Moves.writeNext hop hdone
  | writeFailed op err => exact he.elim

theorem ClassicServer.exists_step {s : ClassicServer.Session n} (he : s.toDuplex.Enabled e) :
    ∃ s', ClassicServer.step s (.io e) = some s' := by
  cases e <;> exact ⟨_, if_pos he⟩

theorem ClassicClient.exists_step {s : ClassicClient.Session n} (he : s.toDuplex.Enabled e) :
    ∃ s', ClassicClient.step s (.io e) = some s' := by
  cases e <;> exact ⟨_, if_pos he⟩

theorem ClassicServer.step_eq_none {s : ClassicServer.Session n} (he : ¬ s.toDuplex.Enabled e) :
    ClassicServer.step s (.io e) = none := by
  cases e <;> exact if_neg he

theorem ClassicClient.step_eq_none {s : ClassicClient.Session n} (he : ¬ s.toDuplex.Enabled e) :
    ClassicClient.step s (.io e) = none := by
  cases e <;> exact if_neg he

/-- So does a connected client session; its writes are not empty, so that
`handle_write` counts them. -/
theorem ClassicClient.step_moves {pre : List (List Byte)} {s s' : ClassicClient.Session n}
    (h : Duplex.Inv pre s.unwrittenCount s.toDuplex)
    (hlive : Live pre s.unwrittenCount s.toDuplex)
    (hstep : ClassicClient.step s (.io e) = some s') (he : e.Succeeds) :
    Moves s.toDuplex s.unwrittenCount e s'.unwrittenCount s'.toDuplex := by
  cases e with
  | readDone op chunk =>
      rcases Option.ite_none_right_eq_some.mp hstep with ⟨⟨hop, hsize⟩, heq⟩
      rcases h.read_eq hop with ⟨-, rfl, htwo⟩
      rcases h.range with hcount | hcount | hcount
      · have hcount' : (s.withDuplex (s.finishRead ⟨s.readData, n⟩ chunk)).unwrittenCount = 0 :=
          hcount
        rw [← Option.some.inj heq, ClassicClient.Session.handleRead_first hcount', hcount]
        exact Moves.readFirst hop hsize he
      · have hcount' : (s.withDuplex (s.finishRead ⟨s.readData, n⟩ chunk)).unwrittenCount = 1 :=
          hcount
        rw [← Option.some.inj heq, ClassicClient.Session.handleRead_second hcount', hcount]
        exact Moves.readSecond hop hsize he
      · exact absurd hcount htwo
  | readFailed op err => exact he.elim
  | transmit op k =>
      rcases Option.ite_none_right_eq_some.mp hstep with ⟨⟨hop, -, hk⟩, heq⟩
      rw [← Option.some.inj heq]
      exact Moves.transmit hop hk
  | writeDone op =>
      rcases Option.ite_none_right_eq_some.mp hstep with ⟨⟨hop, hdone⟩, heq⟩
      rcases h.write_eq hop with ⟨-, -, hzero⟩
      have hlength := hlive.length_pos h hop
      rcases h.range with hcount | hcount | hcount
      · exact absurd hcount hzero
      · have hcount' : (s.withDuplex (s.finishWrite op)).unwrittenCount = 1 := hcount
        rw [← Option.some.inj heq, ClassicClient.Session.handleWrite_last hcount' hlength, hcount]
        exact Moves.writeLast hop hdone
      · have hcount' : (s.withDuplex (s.finishWrite op)).unwrittenCount = 2 := hcount
        rw [← Option.some.inj heq, ClassicClient.Session.handleWrite_next hcount' hlength, hcount]
        exact Moves.writeNext hop hdone
  | writeFailed op err => exact he.elim

end Sessions

/-! ## A server session that is driven chunk by chunk -/

namespace ClassicServer

variable {n : ℕ} {s : Session n} {chunks : List (List Byte)}

theorem reachable_io {e : IoEvent} {s' : Session n} (hs : (machine n).Reachable s)
    (hstep : step s (.io e) = some s') : (machine n).Reachable s' :=
  hs.step (.io e) hstep

/-- Between two chunks: everything received has been sent and a read is in flight. -/
structure Between (chunks : List (List Byte)) (s : Session n) : Prop where
  reachable : (machine n).Reachable s
  received : s.received = chunks
  writeErrors : s.writeErrors = 0
  unsent : s.unsentCount = 0
  listening : Duplex.Listening s.unsentCount s.toDuplex

/-- The next chunk is read, written and counted as sent. -/
theorem Between.next (h : Between chunks s) {chunk : List Byte} (hchunk : 0 < chunk.length)
    (hsize : chunk.length ≤ n) : ∃ s' : Session n, Between (chunks ++ [chunk]) s' := by
  have hinv := inv_reachable h.reachable
  -- the chunk is read and its write is issued
  have hread : s.toDuplex.Enabled (.readDone ⟨s.readData, n⟩ chunk) :=
    ⟨hinv.duplex.exists_read h.listening (by rw [h.unsent]; omega), hsize⟩
  rcases exists_step hread with ⟨s₁, hs₁⟩
  have hmove₁ := step_moves hinv hs₁ (List.length_pos_iff.mp hchunk)
  have hreach₁ := reachable_io h.reachable hs₁
  have hinv₁ := inv_reachable hreach₁
  rcases hmove₁.readDone_cases with ⟨-, hcount₁, hduplex₁⟩ | ⟨hone, -, -⟩
  swap
  · rw [h.unsent] at hone
    cases hone
  have hwrites₁ : s₁.writes = [⟨s.issued.length, s.readData, chunk.length, 0⟩] := by
    have hnil : s.writes = [] := (h.unsent ▸ hinv.duplex).writes_eq_nil
    simp [hduplex₁, Duplex.swapWriteRead, Duplex.asyncWrite, Duplex.asyncReadSome,
      Duplex.setReadDataLength, Duplex.finishRead, Duplex.swap, hnil]
  -- all of it is transmitted
  have htransmit : s₁.toDuplex.Enabled
      (.transmit ⟨s.issued.length, s.readData, chunk.length, 0⟩ chunk.length) := by
    refine ⟨?_, hchunk, Nat.le_of_eq (Nat.zero_add _)⟩
    rw [hwrites₁]
    exact List.mem_singleton_self _
  rcases exists_step htransmit with ⟨s₂, hs₂⟩
  have hmove₂ := step_moves hinv₁ hs₂ trivial
  have hreach₂ := reachable_io hreach₁ hs₂
  have hinv₂ := inv_reachable hreach₂
  rcases hmove₂.transmit_eq with ⟨hcount₂, hduplex₂⟩
  -- and the write completes
  have hdone : s₂.toDuplex.Enabled
      (.writeDone ⟨s.issued.length, s.readData, chunk.length, chunk.length⟩) := by
    refine ⟨?_, rfl⟩
    simp [hduplex₂, Duplex.transmit, hwrites₁]
  rcases exists_step hdone with ⟨s₃, hs₃⟩
  have hmove₃ := step_moves hinv₂ hs₃ trivial
  have hlisten₃ := hmove₃.listening hinv₂.duplex
    (hmove₂.listening hinv₁.duplex (hmove₁.listening hinv.duplex h.listening))
  rcases hmove₃.writeDone_cases with ⟨-, hcount₃, -⟩ | ⟨htwo, -, -⟩
  · refine ⟨s₃, reachable_io hreach₂ hs₃, ?_, ?_, hcount₃, hlisten₃⟩
    · rw [hmove₃.history.1, hmove₂.history.1, hmove₁.history.1, h.received]
      simp [IoEvent.taken]
    · rw [hmove₃.writeErrors_eq, hmove₂.writeErrors_eq, hmove₁.writeErrors_eq, h.writeErrors]
  · rw [hcount₂, hcount₁] at htwo
    cases htwo

/-- For every sequence of chunks there is a session that reads them, sends them all and
is posted for destruction when its next read fails. -/
theorem exists_posted (chunks : List (List Byte))
    (hchunks : ∀ chunk ∈ chunks, 0 < chunk.length ∧ chunk.length ≤ n) (err : ErrorCode) :
    ∃ s, (machine n).Reachable s ∧ s.received = chunks ∧ s.writeErrors = 0 ∧
      0 < s.destroyPosts := by
  have hbetween : ∃ s : Session n, Between chunks s := by
    induction chunks using List.reverseRecOn with
    | nil =>
        have hinit : (machine n).Reachable (Session.new fun _ => Block.zero n) :=
          Machine.Reachable.init ⟨_, rfl⟩
        exact ⟨_, hinit.step (.start none) rfl, rfl, rfl, rfl, nofun⟩
    | append_singleton chunks chunk ih =>
        rcases ih fun c hc => hchunks c (List.mem_append_left _ hc) with ⟨s, hs⟩
        rcases hchunks chunk (List.mem_append_right _ (List.mem_singleton_self _))
          with ⟨hpos, hsize⟩
        exact hs.next hpos hsize
  rcases hbetween with ⟨s, h⟩
  have hinv := inv_reachable h.reachable
  have hduplex : Duplex.Inv [] 0 s.toDuplex := h.unsent ▸ hinv.duplex
  have hop := hinv.duplex.exists_read h.listening (by rw [h.unsent]; omega)
  have hread : s.toDuplex.Enabled (.readFailed ⟨s.readData, n⟩ err) := hop
  rcases exists_step hread with ⟨s', hs'⟩
  have hreach := reachable_io h.reachable hs'
  have heq : s' = (s.withDuplex (s.failRead ⟨s.readData, n⟩)).handleRead (some err) 0 :=
    (Option.some.inj ((if_pos hop).symm.trans hs')).symm
  have hduplex' : s'.toDuplex = s.failRead ⟨s.readData, n⟩ := by
    rw [heq, Session.handleRead_error, Session.toDuplex_destroyWhenIdle]
    rfl
  refine ⟨s', hreach, ?_, ?_, ?_⟩
  · rw [hduplex']
    exact h.received
  · rw [hduplex']
    exact h.writeErrors
  · -- nothing is in flight any more
    rcases step_io hs' with ⟨hbusy, hstarted⟩
    rw [(inv_reachable hreach).posts, if_pos]
    · decide
    · refine ⟨hstarted.trans (hinv.running hbusy).1, ?_, ?_⟩
      · rw [hduplex', Duplex.failRead, (hinv.duplex.read_eq hop).1]
        simp
      · rw [hduplex']
        exact hduplex.writes_eq_nil

end ClassicServer

end CppCoroutines
