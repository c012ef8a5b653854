import CppCoroutines.Allocator
import CppCoroutines.Wrapping
import Mathlib.Data.List.InsertIdx

/-!
# `handler_allocator`

The allocator of `handler_allocator.h`: one array for one block at a time, the global
heap for every other one. A `SimpleAllocator` refers to a `handler_allocator`, and so do
its copies and what it is rebound to; which of the two a block came from is found out from
its address when it is released. `size_t` is 64 bits wide.
-/

namespace CppCoroutines

/-- `handler_allocator`. -/
structure HandlerAllocator where
  /-- `storage_.data()` -/
  data : ℕ
  inUse : Bool
deriving DecidableEq, Repr

namespace HandlerAllocator

/-- `storage_.size()`. -/
def storageSize : UInt64 := 1024

/-- `storage_`. -/
def storage (h : HandlerAllocator) : Extent := ⟨h.data, storageSize.toNat⟩

/-- `allocate`, `none` for a null pointer. -/
def allocate (h : HandlerAllocator) (size : UInt64) : Option ℕ × HandlerAllocator :=
  if h.inUse = false ∧ size ≤ storageSize then (some h.data, { h with inUse := true })
  else (none, h)

/-- `deallocate`. -/
def deallocate (h : HandlerAllocator) (pointer : ℕ) : Bool × HandlerAllocator :=
  if pointer = h.data then (true, { h with inUse := false }) else (false, h)

end HandlerAllocator

/-- `SimpleAllocator<T>`, with `sizeof(T)`; its `my_alloc` is a reference. -/
structure SimpleAllocator where
  sizeofT : UInt64
  pos : 0 < sizeofT
deriving DecidableEq, Repr

/-- What a call of `allocate` comes to. -/
structure Allocation where
  /-- `none`: `std::bad_alloc` is thrown -/
  result : Option ℕ
  handler : HandlerAllocator
  /-- what `operator new` is called with, if it is called -/
  newSize : Option UInt64
deriving DecidableEq, Repr

/-- What a call of `deallocate` comes to. -/
structure Deallocation where
  handler : HandlerAllocator
  /-- what `operator delete` is called with, if it is called -/
  deleted : Option (ℕ × UInt64)
deriving DecidableEq, Repr

namespace SimpleAllocator

/-- `allocate(n)`, where `operator new` would return or throw this. -/
def allocate (a : SimpleAllocator) (h : HandlerAllocator) (n : UInt64) (new : Option ℕ) :
    Allocation :=
  let bytes := n * a.sizeofT
  if bytes / a.sizeofT ≠ n then ⟨none, h, none⟩
  else
    match h.allocate bytes with
    | (some result, h) => ⟨some result, h, none⟩
    | (none, h) => ⟨new, h, some bytes⟩

/-- `deallocate(p, n)`. -/
def deallocate (_ : SimpleAllocator) (h : HandlerAllocator) (p : ℕ) (n : UInt64) :
    Deallocation :=
  match h.deallocate p with
  | (true, h) => ⟨h, none⟩
  | (false, h) => ⟨h, some (p, n)⟩

end SimpleAllocator

/-! ## One call -/

section Calls

variable {a : SimpleAllocator} {h : HandlerAllocator} {n : UInt64} {new : Option ℕ} {p : ℕ}

/-- The number of bytes that a request for `n` elements is about. -/
def SimpleAllocator.bytes (a : SimpleAllocator) (n : UInt64) : ℕ := n.toNat * a.sizeofT.toNat

/-- The division finds out whether the multiplication has wrapped around. -/
theorem div_ne_iff : n * a.sizeofT / a.sizeofT ≠ n ↔ 2 ^ 64 ≤ a.bytes n := by
  have hpos : 0 < a.sizeofT.toNat := UInt64.lt_iff_toNat_lt.mp a.pos
  rw [Ne, ← UInt64.toNat_inj, UInt64.toNat_div, UInt64.toNat_mul, ← Nat.not_lt, not_iff_not]
  exact Wrapping.mul_mod_div_eq_iff hpos (by decide)

/-- Without a wrap-around `bytes` is the product. -/
theorem toNat_mul_of_lt (h : a.bytes n < 2 ^ 64) : (n * a.sizeofT).toNat = a.bytes n := by
  rw [UInt64.toNat_mul]
  exact Nat.mod_eq_of_lt h

/-- What `allocate` does: it throws, hands out the storage, or asks the global heap. -/
theorem allocate_cases (a : SimpleAllocator) (h : HandlerAllocator) (n : UInt64)
    (new : Option ℕ) :
    (2 ^ 64 ≤ a.bytes n ∧ a.allocate h n new = ⟨none, h, none⟩) ∨
      (h.inUse = false ∧ a.bytes n ≤ 1024 ∧
        a.allocate h n new = ⟨some h.data, { h with inUse := true }, none⟩) ∨
      (a.bytes n < 2 ^ 64 ∧ ¬ (h.inUse = false ∧ a.bytes n ≤ 1024) ∧
        ∃ size : UInt64, size.toNat = a.bytes n ∧ a.allocate h n new = ⟨new, h, some size⟩) := by
  unfold SimpleAllocator.allocate
  by_cases hwrap : n * a.sizeofT / a.sizeofT ≠ n
  · left
    exact ⟨div_ne_iff.mp hwrap, if_pos hwrap⟩
  · right
    have hlt : a.bytes n < 2 ^ 64 := by
      rw [← Nat.not_le, ← div_ne_iff]
      exact hwrap
    have hsize := toNat_mul_of_lt hlt
    have hfits : n * a.sizeofT ≤ HandlerAllocator.storageSize ↔ a.bytes n ≤ 1024 := by
      rw [UInt64.le_iff_toNat_le, hsize]
      rfl
    by_cases hserve : h.inUse = false ∧ a.bytes n ≤ 1024
    · left
      refine ⟨hserve.1, hserve.2, ?_⟩
      simp [HandlerAllocator.allocate, hfits, hserve, hwrap]
    · right
      refine ⟨hlt, hserve, n * a.sizeofT, hsize, ?_⟩
      simp only [HandlerAllocator.allocate, hfits, if_neg hserve, if_neg hwrap]

/-- The storage is released. -/
theorem deallocate_of_eq (a : SimpleAllocator) (n : UInt64) (hp : p = h.data) :
    a.deallocate h p n = ⟨{ h with inUse := false }, none⟩ := by
  simp [SimpleAllocator.deallocate, HandlerAllocator.deallocate, hp]

/-- A block of the heap is given back to it. -/
theorem deallocate_of_ne (a : SimpleAllocator) (n : UInt64) (hp : p ≠ h.data) :
    a.deallocate h p n = ⟨h, some (p, n)⟩ := by
  simp [SimpleAllocator.deallocate, HandlerAllocator.deallocate, hp]

end Calls

/-! ## Blocks in use -/

/-- A block that `allocate(count)` has returned and that has not been released. -/
structure LiveBlock where
  pointer : ℕ
  count : UInt64
  type : SimpleAllocator
  /-- history: what `operator new` was called with for it, if it was called -/
  newSize : Option UInt64
deriving DecidableEq, Repr

namespace LiveBlock

/-- The elements that were asked for. -/
def extent (b : LiveBlock) : Extent := ⟨b.pointer, b.type.bytes b.count⟩

/-- What the global heap has handed out for it. -/
def heapBlock (b : LiveBlock) : Option Extent := b.newSize.map fun size => ⟨b.pointer, size.toNat⟩

end LiveBlock

/-- One `handler_allocator`, the `SimpleAllocator`s that refer to it, and what they have
handed out. -/
structure Memory where
  handler : HandlerAllocator
  allocators : List SimpleAllocator
  live : List LiveBlock
deriving DecidableEq, Repr

/-- What can happen to them. -/
inductive MemoryEvent where
  /-- a `SimpleAllocator` is constructed from the `handler_allocator` -/
  | construct (a : SimpleAllocator)
  /-- one is copied, or rebound to another type -/
  | convert (i : ℕ) (a : SimpleAllocator)
  /-- `allocate(n)`, where `operator new` would return or throw this -/
  | allocate (i : ℕ) (n : UInt64) (new : Option ℕ)
  /-- `deallocate` for the `j`-th block in use -/
  | deallocate (i j : ℕ)
deriving DecidableEq, Repr

namespace Memory

/-- A new `handler_allocator`, whose array is at this address. -/
def start (data : ℕ) : Memory := ⟨⟨data, false⟩, [], []⟩

/-- The global heap keeps clear of `storage_` and of what it has handed out before. -/
def HeapClear (m : Memory) (b : LiveBlock) : Prop :=
  ∀ e ∈ b.heapBlock, m.handler.storage.Apart e ∧ ∀ c ∈ m.live, ∀ e' ∈ c.heapBlock, e'.Apart e

instance (m : Memory) (b : LiveBlock) : Decidable (m.HeapClear b) :=
  inferInstanceAs (Decidable (∀ e ∈ b.heapBlock, _ ∧ _))

/-- What becomes of the memory after a call of `allocate`. -/
def allocated (m : Memory) (a : SimpleAllocator) (n : UInt64) (r : Allocation) : Option Memory :=
  match r.result with
  | none => some { m with handler := r.handler }
  | some p =>
      if m.HeapClear ⟨p, n, a, r.newSize⟩ then
        some { m with handler := r.handler, live := ⟨p, n, a, r.newSize⟩ :: m.live }
      else none

/-- A block is released through an allocator for its type. -/
def step (m : Memory) : MemoryEvent → Option Memory
  | .construct a => some { m with allocators := m.allocators ++ [a] }
  | .convert i a =>
      if i < m.allocators.length then some { m with allocators := m.allocators ++ [a] } else none
  | .allocate i n new => m.allocators[i]?.bind fun a =>
      m.allocated a n (a.allocate m.handler n new)
  | .deallocate i j => m.allocators[i]?.bind fun a => m.live[j]?.bind fun b =>
      if b.type = a then
        some { m with
          handler := (a.deallocate m.handler b.pointer b.count).handler
          live := m.live.eraseIdx j }
      else none

end Memory

/-- All runs with one `handler_allocator`. -/
def memoryMachine (data : ℕ) : Machine Memory MemoryEvent where
  init m := m = Memory.start data
  step := Memory.step

/-! ## The flag and the blocks -/

/-- The flag says whether there is a block from the storage. -/
structure Memory.Inv (data : ℕ) (m : Memory) : Prop where
  address : m.handler.data = data
  inUse : m.live.countP (fun b => b.newSize.isNone) = if m.handler.inUse then 1 else 0
  storage : ∀ b ∈ m.live, b.newSize = none → b.pointer = data ∧ b.type.bytes b.count ≤ 1024
  heap : ∀ b ∈ m.live, ∀ size, b.newSize = some size →
    size.toNat = b.type.bytes b.count ∧ m.handler.storage.Apart b.extent

section Steps

variable {data : ℕ} {m m' : Memory}

theorem memory_inv_start : (Memory.start data).Inv data where
  address := rfl
  inUse := rfl
  storage _ hb := nomatch hb
  heap _ hb := nomatch hb

/-- The heap has handed out what was asked for. -/
theorem LiveBlock.heapBlock_eq {b : LiveBlock} {size : UInt64} (hnew : b.newSize = some size)
    (hsize : size.toNat = b.type.bytes b.count) : b.heapBlock = some b.extent := by
  rw [LiveBlock.heapBlock, hnew, Option.map_some, hsize]
  rfl

/-- The heap serves the request. -/
theorem Memory.Inv.newed (h : m.Inv data) {b : LiveBlock} {size : UInt64}
    (hnew : b.newSize = some size) (hsize : size.toNat = b.type.bytes b.count)
    (hclear : m.HeapClear b) : Memory.Inv data { m with live := b :: m.live } where
  address := h.address
  inUse := by
    show (b :: m.live).countP _ = _
    rw [List.countP_cons_of_neg (by simp [hnew])]
    exact h.inUse
  storage := by
    intro c hc hnone
    rcases List.mem_cons.mp hc with rfl | hold
    · rw [hnew] at hnone
      cases hnone
    · exact h.storage c hold hnone
  heap := by
    intro c hc size' hsize'
    rcases List.mem_cons.mp hc with rfl | hold
    · rw [hnew, Option.some.injEq] at hsize'
      subst hsize'
      refine ⟨hsize, ?_⟩
      exact (hclear c.extent (LiveBlock.heapBlock_eq hnew hsize)).1
    · exact h.heap c hold size' hsize'

/-- The storage serves the request. -/
theorem Memory.Inv.served (h : m.Inv data) {b : LiveBlock} (hfree : m.handler.inUse = false)
    (hnew : b.newSize = none) (hpointer : b.pointer = data)
    (hfits : b.type.bytes b.count ≤ 1024) :
    Memory.Inv data { m with
      handler := { m.handler with inUse := true }
      live := b :: m.live } where
  address := h.address
  inUse := by
    have hcount := h.inUse
    rw [hfree] at hcount
    show (b :: m.live).countP _ = 1
    rw [List.countP_cons_of_pos (by simp [hnew]), hcount]
    rfl
  storage := by
    intro c hc hnone
    rcases List.mem_cons.mp hc with rfl | hold
    · exact ⟨hpointer, hfits⟩
    · exact h.storage c hold hnone
  heap := by
    intro c hc size hsize
    rcases List.mem_cons.mp hc with rfl | hold
    · rw [hnew] at hsize
      cases hsize
    · exact h.heap c hold size hsize

/-- A block of the heap does not start where the storage does. -/
theorem Memory.Inv.pointer_ne (h : m.Inv data) {b : LiveBlock} (hb : b ∈ m.live) {size : UInt64}
    (hnew : b.newSize = some size) : b.pointer ≠ m.handler.data := by
  intro heq
  exact Extent.not_apart_of_start_eq heq.symm (h.heap b hb size hnew).2

/-- A block goes back where it came from. -/
theorem Memory.Inv.deallocate (h : m.Inv data) {b : LiveBlock} (hb : b ∈ m.live)
    (a : SimpleAllocator) :
    (b.newSize = none ∧ a.deallocate m.handler b.pointer b.count =
        ⟨{ m.handler with inUse := false }, none⟩) ∨
      (b.newSize ≠ none ∧ a.deallocate m.handler b.pointer b.count =
        ⟨m.handler, some (b.pointer, b.count)⟩) := by
  cases hnew : b.newSize with
  | none =>
      left
      have hpointer : b.pointer = m.handler.data := by
        rw [h.address]
        exact (h.storage b hb hnew).1
      exact ⟨rfl, deallocate_of_eq a b.count hpointer⟩
  | some size =>
      right
      exact ⟨by simp, deallocate_of_ne a b.count (h.pointer_ne hb hnew)⟩

/-- A block is released. -/
theorem Memory.Inv.released (h : m.Inv data) {j : ℕ} {b : LiveBlock} (hb : m.live[j]? = some b)
    (a : SimpleAllocator) :
    Memory.Inv data { m with
      handler := (a.deallocate m.handler b.pointer b.count).handler
      live := m.live.eraseIdx j } := by
  rcases List.getElem?_eq_some_iff.mp hb with ⟨hj, hget⟩
  have hmem : b ∈ m.live := List.mem_of_getElem? hb
  have hperm : (b :: m.live.eraseIdx j).Perm m.live := by
    rw [← hget]
    exact List.getElem_cons_eraseIdx_perm hj
  have hcount : (b :: m.live.eraseIdx j).countP (fun b => b.newSize.isNone) =
      if m.handler.inUse then 1 else 0 := (hperm.countP_eq _).trans h.inUse
  have hsub : ∀ c ∈ m.live.eraseIdx j, c ∈ m.live := fun c hc => List.mem_of_mem_eraseIdx hc
  rcases h.deallocate hmem a with ⟨hnew, heq⟩ | ⟨hnew, heq⟩
  · rw [heq]
    rw [List.countP_cons_of_pos (by simp [hnew])] at hcount
    constructor
    · exact h.address
    · -- the flag was set, for this block
      show (m.live.eraseIdx j).countP _ = 0
      by_cases hin : m.handler.inUse = true
      · rw [if_pos hin] at hcount
        omega
      · rw [if_neg hin] at hcount
        omega
    · exact fun c hc => h.storage c (hsub c hc)
    · exact fun c hc => h.heap c (hsub c hc)
  · rw [heq]
    rw [List.countP_cons_of_neg (by simpa using hnew)] at hcount
    constructor
    · exact h.address
    · exact hcount
    · exact fun c hc => h.storage c (hsub c hc)
    · exact fun c hc => h.heap c (hsub c hc)

/-- A block that `allocate` has returned is in use from then on. -/
theorem allocated_eq_some {a : SimpleAllocator} {n : UInt64} {r : Allocation} {p : ℕ}
    (hr : r.result = some p) : m.allocated a n r = some m' ↔
      m.HeapClear ⟨p, n, a, r.newSize⟩ ∧
        { m with handler := r.handler, live := ⟨p, n, a, r.newSize⟩ :: m.live } = m' := by
  unfold Memory.allocated
  rw [hr]
  exact Option.ite_none_right_eq_some.trans (and_congr_right fun _ => Option.some_inj)

/-- What a step does to the handler and the blocks: nothing, or a block is handed out from
the storage, or from the heap, or one is released. -/
theorem memory_step_cases {e : MemoryEvent} (hstep : m.step e = some m') :
    (m'.handler = m.handler ∧ m'.live = m.live) ∨
      (∃ b : LiveBlock, b.newSize = none ∧ b.pointer = m.handler.data ∧
        b.type.bytes b.count ≤ 1024 ∧ m.handler.inUse = false ∧
        m'.handler = { m.handler with inUse := true } ∧ m'.live = b :: m.live) ∨
      (∃ (b : LiveBlock) (size : UInt64), b.newSize = some size ∧
        size.toNat = b.type.bytes b.count ∧ m.HeapClear b ∧
        m'.handler = m.handler ∧ m'.live = b :: m.live) ∨
      ∃ (a : SimpleAllocator) (j : ℕ) (b : LiveBlock), m.live[j]? = some b ∧
        m'.handler = (a.deallocate m.handler b.pointer b.count).handler ∧
        m'.live = m.live.eraseIdx j := by
  cases e with
  | construct a =>
      rw [← Option.some.inj hstep]
      exact Or.inl ⟨rfl, rfl⟩
  | convert i a =>
      rcases Option.ite_none_right_eq_some.mp hstep with ⟨-, heq⟩
      rw [← Option.some.inj heq]
      exact Or.inl ⟨rfl, rfl⟩
  | allocate i n new =>
      rcases Option.bind_eq_some_iff.mp hstep with ⟨a, -, hallocated⟩
      rcases allocate_cases a m.handler n new with
        ⟨-, heq⟩ | ⟨hfree, hfits, heq⟩ | ⟨-, -, size, hsize, heq⟩
      · rw [heq] at hallocated
        rw [← Option.some.inj hallocated]
        exact Or.inl ⟨rfl, rfl⟩
      · rw [heq] at hallocated
        rcases (allocated_eq_some rfl).mp hallocated with ⟨-, rfl⟩
        exact Or.inr (Or.inl ⟨⟨m.handler.data, n, a, none⟩, rfl, rfl, hfits, hfree, rfl, rfl⟩)
      · rw [heq] at hallocated
        cases new with
        | none =>
            -- `operator new` throws, and the handler is as before
            rw [← Option.some.inj hallocated]
            exact Or.inl ⟨rfl, rfl⟩
        | some p =>
            rcases (allocated_eq_some rfl).mp hallocated with ⟨hclear, rfl⟩
            exact Or.inr (Or.inr (Or.inl
              ⟨⟨p, n, a, some size⟩, size, rfl, hsize, hclear, rfl, rfl⟩))
  | deallocate i j =>
      rcases Option.bind_eq_some_iff.mp hstep with ⟨a, -, hbind⟩
      rcases Option.bind_eq_some_iff.mp hbind with ⟨b, hb, hif⟩
      rcases Option.ite_none_right_eq_some.mp hif with ⟨-, heq⟩
      rw [← Option.some.inj heq]
      exact Or.inr (Or.inr (Or.inr ⟨a, j, b, hb, rfl, rfl⟩))

/-- The invariant is about the handler and the blocks only. -/
theorem Memory.Inv.congr {m m' : Memory} (h : m.Inv data) (hhandler : m'.handler = m.handler)
    (hlive : m'.live = m.live) : m'.Inv data := by
  rcases m' with ⟨handler, allocators, live⟩
  obtain rfl : handler = m.handler := hhandler
  obtain rfl : live = m.live := hlive
  exact { h with }

theorem memory_step_inv {e : MemoryEvent} (h : m.Inv data) (hstep : m.step e = some m') :
    m'.Inv data := by
  rcases memory_step_cases hstep with ⟨hhandler, hlive⟩ |
    ⟨b, hnew, hpointer, hfits, hfree, hhandler, hlive⟩ |
    ⟨b, size, hnew, hsize, hclear, hhandler, hlive⟩ | ⟨a, j, b, hb, hhandler, hlive⟩
  · exact h.congr hhandler hlive
  · exact (h.served hfree hnew (hpointer.trans h.address) hfits).congr hhandler hlive
  · exact (h.newed hnew hsize hclear).congr hhandler hlive
  · exact (h.released hb a).congr hhandler hlive

theorem memory_inductive_inv (data : ℕ) : (memoryMachine data).Inductive (Memory.Inv data) := by
  constructor
  · intro m hm
    obtain rfl : m = Memory.start data := hm
    exact memory_inv_start
  · intro m e m' h hstep
    exact memory_step_inv h hstep

end Steps

/-! ## No two blocks overlap -/

section Refinement

variable {data : ℕ} {m : Memory}

/-- While the flag is not set, every block is from the heap. -/
theorem Memory.Inv.newSize_of_free (h : m.Inv data) (hfree : m.handler.inUse = false)
    {b : LiveBlock} (hb : b ∈ m.live) : ∃ size, b.newSize = some size := by
  have hcount := h.inUse
  rw [hfree] at hcount
  have hnone := List.countP_eq_zero.mp hcount b hb
  cases hnew : b.newSize with
  | none => simp [hnew] at hnone
  | some size => exact ⟨size, rfl⟩

/-- `SimpleAllocator` is an allocator: each block is as large as was asked for and apart from
all others in use. -/
theorem memory_refines_allocator (data : ℕ) :
    (memoryMachine data).Simulation Allocator.machine
      (fun m live => m.Inv data ∧ live = m.live.map LiveBlock.extent) := by
  constructor
  · intro m hm
    obtain rfl : m = Memory.start data := hm
    exact ⟨[], rfl, memory_inv_start, rfl⟩
  · rintro m e m' live ⟨h, rfl⟩ hstep
    have h' := memory_step_inv h hstep
    have acquires : ∀ b : LiveBlock, m'.live = b :: m.live →
        (∀ c ∈ m.live, c.extent.Apart b.extent) →
        ∃ d live', Allocator.machine.step (m.live.map LiveBlock.extent) d = some live' ∧
          m'.Inv data ∧ live' = m'.live.map LiveBlock.extent := by
      intro b hlive hapart
      have hfresh : ∀ e ∈ m.live.map LiveBlock.extent, e.Apart b.extent := by
        intro e he
        rcases List.mem_map.mp he with ⟨c, hc, rfl⟩
        exact hapart c hc
      refine ⟨.acquire b.extent (b.type.bytes b.count), b.extent :: m.live.map LiveBlock.extent,
        if_pos ⟨Nat.le_refl _, hfresh⟩, h', ?_⟩
      rw [hlive, List.map_cons]
    rcases memory_step_cases hstep with ⟨-, hlive⟩ | ⟨b, -, hpointer, hfits, hfree, -, hlive⟩ |
      ⟨b, size, hnew, hsize, hclear, -, hlive⟩ | ⟨a, j, b, hb, -, hlive⟩
    · left
      exact ⟨h', by rw [hlive]⟩
    · right
      apply acquires b hlive
      intro c hc
      rcases h.newSize_of_free hfree hc with ⟨size, hnew⟩
      exact ((h.heap c hc size hnew).2.of_start_eq hpointer hfits).symm
    · right
      apply acquires b hlive
      intro c hc
      have hblock := hclear b.extent (LiveBlock.heapBlock_eq hnew hsize)
      cases hc' : c.newSize with
      | none =>
          have hstorage := h.storage c hc hc'
          exact hblock.1.of_start_eq (hstorage.1.trans h.address.symm) hstorage.2
      | some size' =>
          exact hblock.2 c hc c.extent (LiveBlock.heapBlock_eq hc' (h.heap c hc size' hc').1)
    · right
      refine ⟨.release j, (m.live.map LiveBlock.extent).eraseIdx j, if_pos ?_, h', ?_⟩
      · rw [List.length_map]
        exact (List.getElem?_eq_some_iff.mp hb).1
      · rw [hlive, List.eraseIdx_map]

/-- Blocks in use do not overlap. -/
theorem live_apart (hm : (memoryMachine data).Reachable m) :
    m.live.Pairwise fun b c => b.extent.Apart c.extent := by
  rcases (memory_refines_allocator data).reachable hm with ⟨live, hlive, -, rfl⟩
  exact List.pairwise_map.mp (Allocator.pairwise_apart hlive)

end Refinement

end CppCoroutines
