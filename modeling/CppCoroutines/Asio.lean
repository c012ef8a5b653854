import Mathlib.Algebra.Ring.Nat
import Mathlib.Data.List.Basic
import Mathlib.Tactic.Common

/-!
# Buffers, error codes and outstanding operations

What the programs hand to Asio: fixed-size `char` arrays, the error codes the
handlers look at, and the records of the operations that are in flight. A
successful `async_read_some` stores its bytes at the front of the buffer it was
given; `async_write` takes the bytes it transmits from the buffer it was given,
at the moment it transmits them.
-/

namespace CppCoroutines

/-- `char`. -/
abbrev Byte := UInt8

/-- The values of `asio::error_code` the programs tell apart. Success is the
absence of one. -/
inductive ErrorCode where
  | eof
  | operationAborted
  | badDescriptor
  | other (value : ℕ)
deriving DecidableEq, Repr

/-- `size_t` addition keeps the sum of what was added modulo `2^64`. -/
theorem ofNat_sum_append (lengths : List ℕ) (length : ℕ) :
    UInt64.ofNat (lengths ++ [length]).sum = UInt64.ofNat lengths.sum + UInt64.ofNat length := by
  rw [List.sum_append, List.sum_singleton, UInt64.ofNat_add]

/-! ## Fixed-size arrays -/

/-- A `char` array of `n` elements. -/
structure Block (n : ℕ) where
  bytes : List Byte
  length_bytes : bytes.length = n
deriving DecidableEq, Repr

namespace Block

variable {n : ℕ}

/-- The first `k` bytes, as `asio::buffer(data, k)` designates them. -/
def front (b : Block n) (k : ℕ) : List Byte := b.bytes.take k

/-- The `k` bytes from position `i` on. -/
def slice (b : Block n) (i k : ℕ) : List Byte := (b.bytes.drop i).take k

/-- Store a chunk at the front of the array, the rest keeps its old bytes. -/
def store (b : Block n) (chunk : List Byte) : Block n where
  bytes := (chunk ++ b.bytes.drop chunk.length).take n
  length_bytes := by
    simp only [List.length_take, List.length_append, List.length_drop, b.length_bytes]
    omega

/-- `new char[n]()`, all bytes zero. -/
def zero (n : ℕ) : Block n where
  bytes := List.replicate n 0
  length_bytes := List.length_replicate

@[simp] theorem front_zero (b : Block n) : b.front 0 = [] := List.take_zero

@[simp] theorem front_self (b : Block n) : b.front n = b.bytes := by
  rw [front, List.take_of_length_le (Nat.le_of_eq b.length_bytes)]

theorem length_front (b : Block n) {k : ℕ} (hk : k ≤ n) : (b.front k).length = k := by
  rw [front, List.length_take, b.length_bytes]
  exact Nat.min_eq_left hk

theorem length_slice (b : Block n) {i k : ℕ} (hk : i + k ≤ n) : (b.slice i k).length = k := by
  rw [slice, List.length_take, List.length_drop, b.length_bytes]
  omega

/-- Transmitting on from position `i` extends what has been transmitted. -/
theorem front_add (b : Block n) (i k : ℕ) : b.front (i + k) = b.front i ++ b.slice i k :=
  List.take_add

/-- A shorter front is a prefix of a longer one. -/
theorem front_prefix (b : Block n) {i k : ℕ} (hik : i ≤ k) : b.front i <+: b.front k :=
  List.take_prefix_take_left hik

/-- What was stored is what the front of the array holds. -/
theorem front_store (b : Block n) {chunk : List Byte} (h : chunk.length ≤ n) :
    (b.store chunk).front chunk.length = chunk := by
  rw [front, store, List.take_take, Nat.min_eq_left h, List.take_left]

/-- A chunk of full length replaces the whole array. -/
theorem bytes_store_of_length (b : Block n) {chunk : List Byte} (h : chunk.length = n) :
    (b.store chunk).bytes = chunk := by
  have hfront := b.front_store (Nat.le_of_eq h)
  rwa [h, front_self] at hfront

end Block

/-! ## Outstanding operations -/

/-- The two arrays a session allocates; its `read_data_` and `write_data_`
pointers each name one of them. -/
inductive Slot where
  | first
  | second
deriving DecidableEq, Repr

/-- An `async_read_some` in flight: the buffer it was given. -/
structure ReadOp where
  buffer : Slot
  size : ℕ
deriving DecidableEq, Repr

/-- An `async_write` in flight: its number among the writes issued, the buffer
it was given, and how many of its bytes have been transmitted. -/
structure WriteOp where
  serial : ℕ
  buffer : Slot
  length : ℕ
  transferred : ℕ
deriving DecidableEq, Repr

/-- What a write carries when it is issued: the bytes its buffer holds and the
length it is asked to send. -/
structure Packet where
  bytes : List Byte
  length : ℕ
deriving DecidableEq, Repr

/-- The packet that carries a chunk as it was read. -/
def Packet.ofChunk (chunk : List Byte) : Packet := ⟨chunk, chunk.length⟩

/-- A write of a whole array. -/
theorem Packet.ofChunk_bytes {n : ℕ} (b : Block n) : Packet.ofChunk b.bytes = ⟨b.front n, n⟩ := by
  rw [Packet.ofChunk, b.front_self, b.length_bytes]

/-- What happens to the operations a session has in flight. -/
inductive IoEvent where
  | readDone (op : ReadOp) (chunk : List Byte)
  | readFailed (op : ReadOp) (err : ErrorCode)
  | transmit (op : WriteOp) (count : ℕ)
  | writeDone (op : WriteOp)
  | writeFailed (op : WriteOp) (err : ErrorCode)
deriving DecidableEq, Repr

end CppCoroutines
