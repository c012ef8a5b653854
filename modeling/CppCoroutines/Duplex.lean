import CppCoroutines.Asio
import Mathlib.Logic.Function.Basic
import Mathlib.Data.Int.Order.Basic

/-!
# The double buffer of the classic sessions

Both classic sessions own two arrays and two pointers into them, read into the
one and write from the other, and at two places run the same three statements:
swap the pointers, `async_write` what was read, `async_read_some` into the other
array. This file models those members together with what Asio holds for them,
and proves what one completion does to the invariant that ties the counter of
unsent chunks to the operations in flight, the buffers and the byte history.
-/

namespace CppCoroutines

/-- The buffers of a session, its operations in flight, and the history of what
was read, issued and transmitted. -/
structure Duplex (n : ℕ) where
  heap : Slot → Block n
  readData : Slot
  readDataLength : ℕ
  writeData : Slot
  reads : List ReadOp
  writes : List WriteOp
  /-- history: the chunks successfully read -/
  received : List (List Byte)
  /-- history: what each `async_write` was given -/
  issued : List Packet
  /-- history: the lengths of the writes that completed successfully -/
  written : List ℕ
  /-- history: how many writes failed -/
  writeErrors : ℕ
  /-- history: how many chunks the counter of unsent chunks was decreased for -/
  acknowledged : ℕ
  /-- history: the bytes transmitted -/
  sent : List Byte

namespace Duplex

variable {n : ℕ}

/-- Two freshly allocated arrays (their contents are whatever the heap holds)
and nothing in flight. -/
def new (heap : Slot → Block n) : Duplex n where
  heap := heap
  readData := .first
  readDataLength := 0
  writeData := .second
  reads := []
  writes := []
  received := []
  issued := []
  written := []
  writeErrors := 0
  acknowledged := 0
  sent := []

/-! ## What a handler does -/

/-- `std::swap(read_data_, write_data_)`. -/
def swap (d : Duplex n) : Duplex n :=
  { d with readData := d.writeData, writeData := d.readData }

/-- `async_write(socket_, asio::buffer(write_data_, length), ...)`. -/
def asyncWrite (d : Duplex n) (length : ℕ) : Duplex n :=
  { d with
    writes := d.writes ++ [⟨d.issued.length, d.writeData, length, 0⟩]
    issued := d.issued ++ [⟨(d.heap d.writeData).front length, length⟩] }

/-- `socket_.async_read_some(asio::buffer(read_data_, block_size_), ...)`. -/
def asyncReadSome (d : Duplex n) : Duplex n :=
  { d with reads := d.reads ++ [⟨d.readData, n⟩] }

/-- `read_data_length_ = length`. -/
def setReadDataLength (d : Duplex n) (length : ℕ) : Duplex n :=
  { d with readDataLength := length }

/-- Swap the buffers, write what was read, read on. -/
def swapWriteRead (d : Duplex n) : Duplex n :=
  (d.swap.asyncWrite d.readDataLength).asyncReadSome

/-- Bookkeeping for `--unsent_count_`: one more chunk counts as sent. -/
def acknowledge (d : Duplex n) : Duplex n := { d with acknowledged := d.acknowledged + 1 }

/-! ## What Asio does before it runs a handler -/

/-- A read completes: the chunk is stored at the front of its buffer. -/
def finishRead (d : Duplex n) (op : ReadOp) (chunk : List Byte) : Duplex n :=
  { d with
    heap := Function.update d.heap op.buffer ((d.heap op.buffer).store chunk)
    reads := d.reads.erase op
    received := d.received ++ [chunk] }

/-- A read fails: its buffer keeps its bytes. -/
def failRead (d : Duplex n) (op : ReadOp) : Duplex n := { d with reads := d.reads.erase op }

/-- The next `count` bytes of a write are transmitted from its buffer. -/
def transmit (d : Duplex n) (op : WriteOp) (count : ℕ) : Duplex n :=
  { d with
    writes := d.writes.replace op { op with transferred := op.transferred + count }
    sent := d.sent ++ (d.heap op.buffer).slice op.transferred count }

/-- A write completes successfully. -/
def finishWrite (d : Duplex n) (op : WriteOp) : Duplex n :=
  { d with writes := d.writes.erase op, written := d.written ++ [op.length] }

/-- A write fails, after it has transmitted some of its bytes. -/
def failWrite (d : Duplex n) (op : WriteOp) : Duplex n :=
  { d with writes := d.writes.erase op, writeErrors := d.writeErrors + 1 }

/-! The handlers' statements leave the history of completions alone. -/

@[simp] theorem received_swapWriteRead (d : Duplex n) : d.swapWriteRead.received = d.received := rfl

@[simp] theorem acknowledged_swapWriteRead (d : Duplex n) :
    d.swapWriteRead.acknowledged = d.acknowledged := rfl

@[simp] theorem received_setReadDataLength (d : Duplex n) (length : ℕ) :
    (d.setReadDataLength length).received = d.received := rfl

@[simp] theorem acknowledged_setReadDataLength (d : Duplex n) (length : ℕ) :
    (d.setReadDataLength length).acknowledged = d.acknowledged := rfl

/-! ## The invariant -/

/-- `op` writes the oldest chunk that does not count as sent, from `write_data_`. -/
structure Carries (chunks : List (List Byte)) (d : Duplex n) (op : WriteOp) : Prop where
  serial : op.serial = d.acknowledged
  buffer : op.buffer = d.writeData
  length_le : op.length ≤ n
  transferred_le : op.transferred ≤ op.length
  chunk : chunks[d.acknowledged]? = some ((d.heap d.writeData).front op.length)

/-- The invariant of a session that has to write `pre` and then the chunks it
reads, while its counter of unsent chunks is `count`. -/
structure Inv (pre : List (List Byte)) (count : ℤ) (d : Duplex n) : Prop where
  distinct : d.readData ≠ d.writeData
  range : count = 0 ∨ count = 1 ∨ count = 2
  balance : ((pre ++ d.received).length : ℤ) = d.acknowledged + count
  issued_length : (d.issued.length : ℤ) = d.acknowledged + min count 1
  issued_eq : d.issued = ((pre ++ d.received).take d.issued.length).map Packet.ofChunk
  reading : d.reads = [] ∨ d.reads = [⟨d.readData, n⟩] ∧ count ≠ 2
  writing : d.writes = [] ∨
    ∃ op, d.writes = [op] ∧ Carries (pre ++ d.received) d op ∧ count ≠ 0
  queued : count = 2 → d.readDataLength ≤ n ∧
    (pre ++ d.received)[d.acknowledged + 1]? = some ((d.heap d.readData).front d.readDataLength)
  outgoing : ∃ tail, d.sent = ((pre ++ d.received).take d.acknowledged).flatten ++ tail ∧
    tail <+: ((pre ++ d.received).drop d.acknowledged).flatten ∧
    ∀ op ∈ d.writes, tail = (d.heap op.buffer).front op.transferred

/-- Nothing read, nothing to write. -/
theorem inv_new (heap : Slot → Block n) : Inv [] 0 (new heap) where
  distinct := nofun
  range := Or.inl rfl
  balance := rfl
  issued_length := rfl
  issued_eq := rfl
  reading := Or.inl rfl
  writing := Or.inl rfl
  queued := nofun
  outgoing := ⟨[], rfl, List.nil_prefix, nofun⟩

/-- The first write of a session whose initial chunk is the whole of `write_data_`. -/
theorem inv_writeFirst (heap : Slot → Block n) :
    Inv [(heap .second).bytes] 1 ((new heap).asyncWrite n).asyncReadSome where
  distinct := nofun
  range := Or.inr (Or.inl rfl)
  balance := rfl
  issued_length := rfl
  issued_eq := by
    -- the chunk is as long as the array
    simp [Duplex.asyncReadSome, Duplex.asyncWrite, new, Packet.ofChunk, (heap .second).length_bytes]
  reading := Or.inr ⟨rfl, by omega⟩
  writing := by
    refine Or.inr ⟨⟨0, .second, n, 0⟩, rfl, ⟨rfl, rfl, Nat.le_refl n, Nat.zero_le n, ?_⟩, by omega⟩
    exact congrArg some (Block.front_self _).symm
  queued := nofun
  outgoing := by
    refine ⟨[], rfl, List.nil_prefix, ?_⟩
    intro op hop
    rw [List.mem_singleton.mp hop]
    exact (Block.front_zero _).symm

variable {pre : List (List Byte)} {count : ℤ} {d : Duplex n}

/-- An outstanding read is the only one and reads into `read_data_`. -/
theorem Inv.read_eq (h : Inv pre count d) {op : ReadOp} (hop : op ∈ d.reads) :
    d.reads = [⟨d.readData, n⟩] ∧ op = ⟨d.readData, n⟩ ∧ count ≠ 2 := by
  rcases h.reading with hnil | ⟨hone, hcount⟩
  · rw [hnil] at hop
    cases hop
  · rw [hone, List.mem_singleton] at hop
    exact ⟨hone, hop, hcount⟩

/-- An outstanding write is the only one and carries the oldest unsent chunk. -/
theorem Inv.write_eq (h : Inv pre count d) {op : WriteOp} (hop : op ∈ d.writes) :
    d.writes = [op] ∧ Carries (pre ++ d.received) d op ∧ count ≠ 0 := by
  rcases h.writing with hnil | ⟨op', hone, hcarries, hcount⟩
  · rw [hnil] at hop
    cases hop
  · rw [hone, List.mem_singleton] at hop
    subst hop
    exact ⟨hone, hcarries, hcount⟩

/-- With nothing unsent no write is in flight. -/
theorem Inv.writes_eq_nil (h : Inv pre 0 d) : d.writes = [] := by
  rcases h.writing with hnil | ⟨-, -, -, hcount⟩
  · exact hnil
  · exact absurd rfl hcount

/-- With two chunks unsent no read is in flight. -/
theorem Inv.reads_eq_nil (h : Inv pre 2 d) : d.reads = [] := by
  rcases h.reading with hnil | ⟨-, hcount⟩
  · exact hnil
  · exact absurd rfl hcount

/-- At most two of the chunks do not count as sent. -/
theorem Inv.bounds (h : Inv pre count d) :
    d.acknowledged ≤ (pre ++ d.received).length ∧
      (pre ++ d.received).length ≤ d.acknowledged + 2 := by
  have := h.balance
  rcases h.range with hcount | hcount | hcount <;> constructor <;> omega

/-- The writes issued carry the chunks, in order. -/
theorem Inv.issued_getElem (h : Inv pre count d) {i : ℕ} (hi : i < d.issued.length) :
    d.issued[i]? = ((pre ++ d.received)[i]?).map Packet.ofChunk := by
  rw [h.issued_eq, List.getElem?_map, List.getElem?_take_of_lt hi]

/-- Every chunk is issued, but for the second of two unsent ones. -/
theorem Inv.issued_length_cases (h : Inv pre count d) :
    (d.issued.length = (pre ++ d.received).length ∧ count ≠ 2) ∨
      (d.issued.length + 1 = (pre ++ d.received).length ∧ count = 2) := by
  have hbal := h.balance
  have hlen := h.issued_length
  rcases h.range with hcount | hcount | hcount
  · left
    constructor <;> omega
  · left
    constructor <;> omega
  · right
    constructor <;> omega

/-- The buffer of the outstanding write holds what the write was issued with. -/
theorem Inv.carried (h : Inv pre count d) {op : WriteOp} (hop : op ∈ d.writes) :
    op.buffer = d.writeData ∧
      d.issued[op.serial]? = some ⟨(d.heap op.buffer).front op.length, op.length⟩ := by
  rcases h.write_eq hop with ⟨-, hcarries, hzero⟩
  constructor
  · exact hcarries.buffer
  · have hlt : op.serial < d.issued.length := by
      have hlen := h.issued_length
      have hserial := hcarries.serial
      rcases h.range with hcount | hcount | hcount
      · exact absurd hcount hzero
      · omega
      · omega
    rw [h.issued_getElem hlt, hcarries.serial, hcarries.chunk, hcarries.buffer, Option.map_some,
      Packet.ofChunk, Block.length_front _ hcarries.length_le]

/-- A write never shares its buffer with an outstanding read. -/
theorem Inv.buffers_ne (h : Inv pre count d) {w : WriteOp} {r : ReadOp} (hw : w ∈ d.writes)
    (hr : r ∈ d.reads) : w.buffer ≠ r.buffer := by
  rcases h.read_eq hr with ⟨-, hr', -⟩
  rcases h.write_eq hw with ⟨-, hcarries, -⟩
  rw [hcarries.buffer, hr']
  exact h.distinct.symm

/-- Everything transmitted is a prefix of what the session has to write. -/
theorem Inv.sent_isPrefix (h : Inv pre count d) : d.sent <+: (pre ++ d.received).flatten := by
  rcases h.outgoing with ⟨tail, hsent, htail, -⟩
  rw [hsent]
  conv_rhs => rw [← List.take_append_drop d.acknowledged (pre ++ d.received), List.flatten_append]
  exact (List.prefix_append_right_inj _).mpr htail

/-- Once the outstanding write is transmitted, its chunk is part of what was sent. -/
theorem Inv.sent_of_transmitted (h : Inv pre count d) {op : WriteOp} (hop : op ∈ d.writes)
    (hdone : op.transferred = op.length) :
    d.sent = ((pre ++ d.received).take (d.acknowledged + 1)).flatten := by
  rcases h.write_eq hop with ⟨-, hcarries, -⟩
  rcases h.outgoing with ⟨tail, hsent, -, htail⟩
  rw [hsent, htail op hop, hdone, hcarries.buffer, List.take_add_one, hcarries.chunk]
  simp

/-! ## One completion -/

/-- The first read of a session goes into `read_data_`. -/
theorem Inv.asyncReadSome (h : Inv pre count d) (hnil : d.reads = []) (hcount : count ≠ 2) :
    Inv pre count d.asyncReadSome := by
  refine { h with reading := Or.inr ⟨?_, hcount⟩, writing := ?_ }
  · simp [Duplex.asyncReadSome, hnil]
  · rcases h.writing with hnil | ⟨w, hw, hcarries, hzero⟩
    · exact Or.inl hnil
    · exact Or.inr ⟨w, hw, { hcarries with }, hzero⟩

/-- A failed read changes nothing but the set of operations in flight. -/
theorem Inv.failRead (h : Inv pre count d) {op : ReadOp} (hop : op ∈ d.reads) :
    Inv pre count (d.failRead op) := by
  rcases h.read_eq hop with ⟨hone, rfl, -⟩
  refine { h with reading := Or.inl ?_, writing := ?_ }
  · simp [Duplex.failRead, hone]
  · rcases h.writing with hnil | ⟨w, hw, hcarries, hcount⟩
    · exact Or.inl hnil
    · exact Or.inr ⟨w, hw, { hcarries with }, hcount⟩

/-- Losing the write in flight leaves the rest of the invariant alone. -/
theorem Inv.noWrites (h : Inv pre count d) (written : List ℕ) (writeErrors : ℕ) :
    Inv pre count { d with writes := [], written := written, writeErrors := writeErrors } := by
  rcases h.outgoing with ⟨tail, hsent, hprefix, -⟩
  exact { h with writing := Or.inl rfl, outgoing := ⟨tail, hsent, hprefix, by simp⟩ }

/-- A write that fails changes nothing but the set of operations in flight. -/
theorem Inv.failWrite (h : Inv pre count d) {op : WriteOp} (hop : op ∈ d.writes) :
    Inv pre count (d.failWrite op) := by
  rcases h.write_eq hop with ⟨hone, -, -⟩
  have herase : d.writes.erase op = [] := by simp [hone]
  rw [Duplex.failWrite, herase]
  exact h.noWrites _ _

/-- So does a write that completes without its chunk being counted as sent. -/
theorem Inv.finishWrite (h : Inv pre count d) {op : WriteOp} (hop : op ∈ d.writes) :
    Inv pre count (d.finishWrite op) := by
  rcases h.write_eq hop with ⟨hone, -, -⟩
  have herase : d.writes.erase op = [] := by simp [hone]
  rw [Duplex.finishWrite, herase]
  exact h.noWrites _ _

/-- Transmitting part of a write extends what was sent by the bytes its buffer
holds, which are bytes of the chunk it carries. -/
theorem Inv.transmit (h : Inv pre count d) {op : WriteOp} {k : ℕ} (hop : op ∈ d.writes)
    (hk : op.transferred + k ≤ op.length) : Inv pre count (d.transmit op k) := by
  rcases h.write_eq hop with ⟨hone, hcarries, hcount⟩
  rcases h.outgoing with ⟨tail, hsent, -, htail⟩
  have hwrites : (d.transmit op k).writes = [{ op with transferred := op.transferred + k }] := by
    simp [Duplex.transmit, hone]
  have hfront : tail ++ (d.heap op.buffer).slice op.transferred k =
      (d.heap op.buffer).front (op.transferred + k) := by
    rw [htail op hop, Block.front_add]
  refine { h with writing := Or.inr ⟨_, hwrites, ?_, hcount⟩, outgoing := ?_ }
  · exact { hcarries with transferred_le := hk }
  · refine ⟨(d.heap op.buffer).front (op.transferred + k), ?_, ?_, ?_⟩
    · show d.sent ++ _ = _
      rw [hsent, List.append_assoc, hfront]
      rfl
    · -- the bytes are a prefix of the chunk the write carries
      have hchunk : (pre ++ d.received).drop d.acknowledged =
          (d.heap d.writeData).front op.length :: (pre ++ d.received).drop (d.acknowledged + 1) :=
        List.drop_eq_getElem?_toList_append.trans (by rw [hcarries.chunk]; rfl)
      show _ <+: ((pre ++ d.received).drop d.acknowledged).flatten
      rw [hchunk, hcarries.buffer, List.flatten_cons]
      exact (Block.front_prefix _ hk).trans (List.prefix_append _ _)
    · intro op' hop'
      rw [hwrites, List.mem_singleton] at hop'
      rw [hop']
      rfl

/-- The write in flight is not touched by a read that completes. -/
theorem Inv.finishRead_writing (h : Inv pre count d) {op : ReadOp} {chunk : List Byte}
    (hop : op ∈ d.reads) {w : WriteOp} (hw : Carries (pre ++ d.received) d w) :
    Carries (pre ++ (d.finishRead op chunk).received) (d.finishRead op chunk) w := by
  rcases h.read_eq hop with ⟨-, rfl, -⟩
  refine { hw with chunk := ?_ }
  have hheap : (d.finishRead ⟨d.readData, n⟩ chunk).heap d.writeData = d.heap d.writeData :=
    Function.update_of_ne h.distinct.symm _ _
  show (pre ++ (d.received ++ [chunk]))[d.acknowledged]? =
    some (((d.finishRead ⟨d.readData, n⟩ chunk).heap d.writeData).front w.length)
  rw [hheap, ← List.append_assoc]
  rcases List.getElem?_eq_some_iff.mp hw.chunk with ⟨hlt, -⟩
  rw [List.getElem?_append_left hlt]
  exact hw.chunk

/-- A second chunk is read while the first is still being written: it stays in
`read_data_` and no new operation starts. -/
theorem Inv.read_second (h : Inv pre 1 d) {op : ReadOp} {chunk : List Byte} (hop : op ∈ d.reads)
    (hchunk : chunk.length ≤ n) :
    Inv pre 2 ((d.finishRead op chunk).setReadDataLength chunk.length) := by
  rcases h.read_eq hop with ⟨hone, hop', -⟩
  have hlen : (pre ++ d.received).length = d.acknowledged + 1 := by
    have := h.balance
    omega
  have hissued : d.issued.length = d.acknowledged + 1 := by
    have := h.issued_length
    omega
  have hnext : pre ++ (d.received ++ [chunk]) = (pre ++ d.received) ++ [chunk] :=
    (List.append_assoc ..).symm
  refine
    { distinct := h.distinct, range := Or.inr (Or.inr rfl), balance := ?_, issued_length := ?_,
      issued_eq := ?_, reading := ?_, writing := ?_, queued := ?_, outgoing := ?_ }
  · show ((pre ++ (d.received ++ [chunk])).length : ℤ) = d.acknowledged + 2
    rw [hnext, List.length_append, hlen, List.length_singleton]
    omega
  · show (d.issued.length : ℤ) = d.acknowledged + min 2 1
    omega
  · show d.issued = ((pre ++ (d.received ++ [chunk])).take d.issued.length).map _
    rw [hnext, List.take_append_of_le_length (by omega)]
    exact h.issued_eq
  · exact Or.inl (by simp [finishRead, setReadDataLength, hone, hop'])
  · rcases h.writing with hnil | ⟨w, hw, hcarries, -⟩
    · exact Or.inl hnil
    · exact Or.inr ⟨w, hw, { h.finishRead_writing hop hcarries with }, by omega⟩
  · -- the chunk is what the front of `read_data_` now holds
    intro _
    constructor
    · exact hchunk
    · show (pre ++ (d.received ++ [chunk]))[d.acknowledged + 1]? =
        some ((Function.update d.heap op.buffer _ d.readData).front chunk.length)
      rw [hnext, ← hlen, List.getElem?_concat_length, hop', Function.update_self,
        Block.front_store _ hchunk]
  · rcases h.outgoing with ⟨tail, hsent, hprefix, htail⟩
    refine ⟨tail, ?_, ?_, ?_⟩
    · show d.sent = ((pre ++ (d.received ++ [chunk])).take d.acknowledged).flatten ++ tail
      rw [hnext, List.take_append_of_le_length (by omega)]
      exact hsent
    · show tail <+: ((pre ++ (d.received ++ [chunk])).drop d.acknowledged).flatten
      rw [hnext, List.drop_append_of_le_length (by omega), List.flatten_append]
      exact hprefix.trans (List.prefix_append _ _)
    · intro w hw
      rcases h.write_eq hw with ⟨-, hcarries, -⟩
      have hne : w.buffer ≠ op.buffer := by
        rw [hcarries.buffer, hop']
        exact h.distinct.symm
      show tail = (Function.update d.heap op.buffer _ w.buffer).front w.transferred
      rw [Function.update_of_ne hne]
      exact htail w hw

/-! ## Swap, write, read -/

/-- The session is about to swap: everything before the chunk in `read_data_`
is sent and nothing is in flight. -/
structure Ready (chunks : List (List Byte)) (d : Duplex n) : Prop where
  distinct : d.readData ≠ d.writeData
  balance : chunks.length = d.acknowledged + 1
  issued : d.issued = (chunks.take d.acknowledged).map Packet.ofChunk
  reads : d.reads = []
  writes : d.writes = []
  length_le : d.readDataLength ≤ n
  chunk : chunks[d.acknowledged]? = some ((d.heap d.readData).front d.readDataLength)
  sent : d.sent = (chunks.take d.acknowledged).flatten

/-- The three statements hand the chunk in `read_data_` to a write and start the
next read in the other array. -/
theorem Ready.swapWriteRead (h : Ready (pre ++ d.received) d) : Inv pre 1 d.swapWriteRead := by
  have hissued : d.issued.length = d.acknowledged := by
    rw [h.issued, List.length_map, List.length_take, h.balance]
    omega
  have hpacket : (⟨(d.heap d.readData).front d.readDataLength, d.readDataLength⟩ : Packet) =
      Packet.ofChunk ((d.heap d.readData).front d.readDataLength) := by
    rw [Packet.ofChunk, Block.length_front _ h.length_le]
  refine
    { distinct := h.distinct.symm, range := Or.inr (Or.inl rfl), balance := ?_,
      issued_length := ?_, issued_eq := ?_, reading := ?_, writing := ?_, queued := ?_,
      outgoing := ?_ }
  · show ((pre ++ d.received).length : ℤ) = d.acknowledged + 1
    rw [h.balance]
    rfl
  · show ((d.issued ++ [_]).length : ℤ) = d.acknowledged + min 1 1
    rw [List.length_append, hissued]
    simp
  · show d.issued ++ [⟨(d.heap d.readData).front d.readDataLength, d.readDataLength⟩] =
      ((pre ++ d.received).take (d.issued ++ [_]).length).map Packet.ofChunk
    rw [List.length_append, hissued, List.length_singleton, List.take_add_one, h.chunk, hpacket,
      h.issued]
    simp
  · refine Or.inr ⟨?_, by omega⟩
    show d.reads ++ [_] = _
    rw [h.reads]
    rfl
  · refine Or.inr ⟨⟨d.issued.length, d.readData, d.readDataLength, 0⟩, ?_, ?_, by omega⟩
    · show d.writes ++ [_] = _
      rw [h.writes]
      rfl
    · exact ⟨hissued, rfl, h.length_le, Nat.zero_le _, h.chunk⟩
  · intro h2
    cases h2
  · refine ⟨[], ?_, List.nil_prefix, ?_⟩
    · rw [List.append_nil]
      exact h.sent
    · intro w hw
      have hw' : w = ⟨d.issued.length, d.readData, d.readDataLength, 0⟩ := by
        have : w ∈ d.writes ++ [⟨d.issued.length, d.readData, d.readDataLength, 0⟩] := hw
        rwa [h.writes, List.nil_append, List.mem_singleton] at this
      rw [hw']
      exact (Block.front_zero _).symm

/-- A chunk is read while nothing is unsent: it is ready to be written. -/
theorem Inv.read_first (h : Inv pre 0 d) {op : ReadOp} {chunk : List Byte} (hop : op ∈ d.reads)
    (hchunk : chunk.length ≤ n) :
    Inv pre 1 ((d.finishRead op chunk).setReadDataLength chunk.length).swapWriteRead := by
  rcases h.read_eq hop with ⟨hone, hop', -⟩
  have hlen : (pre ++ d.received).length = d.acknowledged := by
    have := h.balance
    omega
  have hissued : d.issued.length = d.acknowledged := by
    have := h.issued_length
    omega
  have hnext : pre ++ (d.received ++ [chunk]) = (pre ++ d.received) ++ [chunk] :=
    (List.append_assoc ..).symm
  apply Ready.swapWriteRead
  refine
    { distinct := h.distinct, balance := ?_, issued := ?_, reads := ?_, writes := h.writes_eq_nil,
      length_le := hchunk, chunk := ?_, sent := ?_ }
  · show (pre ++ (d.received ++ [chunk])).length = d.acknowledged + 1
    rw [hnext, List.length_append, hlen]
    rfl
  · show d.issued = ((pre ++ (d.received ++ [chunk])).take d.acknowledged).map _
    rw [hnext, List.take_append_of_le_length (by omega), ← hissued]
    exact h.issued_eq
  · simp [finishRead, setReadDataLength, hone, hop']
  · show (pre ++ (d.received ++ [chunk]))[d.acknowledged]? =
      some ((Function.update d.heap op.buffer _ d.readData).front chunk.length)
    rw [hnext, ← hlen, List.getElem?_concat_length, hop', Function.update_self,
      Block.front_store _ hchunk]
  · rcases h.outgoing with ⟨tail, hsent, hprefix, -⟩
    rw [List.drop_of_length_le (by omega), List.flatten_nil, List.prefix_nil] at hprefix
    show d.sent = ((pre ++ (d.received ++ [chunk])).take d.acknowledged).flatten
    rw [hnext, List.take_append_of_le_length (by omega), hsent, hprefix, List.append_nil]

/-- The only unsent chunk has been written: the session is idle. -/
theorem Inv.write_last (h : Inv pre 1 d) {op : WriteOp} (hop : op ∈ d.writes)
    (hdone : op.transferred = op.length) : Inv pre 0 (d.finishWrite op).acknowledge := by
  rcases h.write_eq hop with ⟨hone, -, -⟩
  have hwrites : (d.finishWrite op).acknowledge.writes = [] := by
    simp [Duplex.finishWrite, acknowledge, hone]
  refine
    { distinct := h.distinct, range := Or.inl rfl, balance := ?_, issued_length := ?_,
      issued_eq := h.issued_eq, reading := ?_, writing := Or.inl hwrites, queued := ?_,
      outgoing := ⟨[], ?_, List.nil_prefix, ?_⟩ }
  · show ((pre ++ d.received).length : ℤ) = (d.acknowledged + 1 : ℕ) + 0
    rw [h.balance]
    simp
  · show (d.issued.length : ℤ) = (d.acknowledged + 1 : ℕ) + min 0 1
    have := h.issued_length
    omega
  · rcases h.reading with hnil | ⟨hread, -⟩
    · exact Or.inl hnil
    · exact Or.inr ⟨hread, by omega⟩
  · intro h2
    cases h2
  · rw [List.append_nil]
    exact h.sent_of_transmitted hop hdone
  · intro w hw
    rw [hwrites] at hw
    cases hw

/-- The older of two unsent chunks has been written: the younger one is ready. -/
theorem Inv.write_next (h : Inv pre 2 d) {op : WriteOp} (hop : op ∈ d.writes)
    (hdone : op.transferred = op.length) :
    Inv pre 1 (d.finishWrite op).acknowledge.swapWriteRead := by
  rcases h.write_eq hop with ⟨hone, -, -⟩
  rcases h.queued rfl with ⟨hle, hqueued⟩
  have hissued : d.issued.length = d.acknowledged + 1 := by
    have := h.issued_length
    omega
  apply Ready.swapWriteRead
  refine
    { distinct := h.distinct, balance := ?_, issued := ?_, reads := h.reads_eq_nil, writes := ?_,
      length_le := hle, chunk := hqueued, sent := h.sent_of_transmitted hop hdone }
  · have := h.balance
    show (pre ++ d.received).length = d.acknowledged + 1 + 1
    omega
  · show d.issued = ((pre ++ d.received).take (d.acknowledged + 1)).map _
    rw [← hissued]
    exact h.issued_eq
  · simp [Duplex.finishWrite, acknowledge, hone]

end Duplex

end CppCoroutines
