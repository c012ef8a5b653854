import CppCoroutines.HandlerAllocator

/-!
# Releasing what was allocated

What the two functions of `SimpleAllocator` have to agree on: which blocks are in the array
of the `handler_allocator`, and how many bytes a block of the heap has. The first they tell
by the address, the second they count in different units.
-/

namespace CppCoroutines

/-! ## Where blocks come from and go to -/

/-- The block has an address in `storage_`. -/
def Memory.InStorage (m : Memory) (b : LiveBlock) : Prop := ¬ m.handler.storage.Apart b.extent

instance (m : Memory) (b : LiveBlock) : Decidable (m.InStorage b) :=
  inferInstanceAs (Decidable (¬ _))

/-- The storage holds one block at most, and every release finds out where a block is from. -/
structure Memory.StorageForOne (m : Memory) : Prop where
  one : m.live.countP (fun b => m.InStorage b) ≤ 1
  fits : ∀ b ∈ m.live, m.InStorage b → b.pointer = m.handler.data ∧
    b.type.bytes b.count ≤ HandlerAllocator.storageSize.toNat
  inUse : m.handler.inUse = true ↔ ∃ b ∈ m.live, m.InStorage b
  heap : ∀ b ∈ m.live, ¬ m.InStorage b → b.newSize.isSome = true
  /-- a block of the heap goes back to it, the storage is left alone -/
  releaseHeap : ∀ b ∈ m.live, ¬ m.InStorage b → ∀ a : SimpleAllocator,
    a.deallocate m.handler b.pointer b.count = ⟨m.handler, some (b.pointer, b.count)⟩
  /-- the block in the storage is not given to the heap -/
  releaseStorage : ∀ b ∈ m.live, m.InStorage b → ∀ a : SimpleAllocator,
    a.deallocate m.handler b.pointer b.count = ⟨{ m.handler with inUse := false }, none⟩
  /-- without blocks the storage serves the next request that fits -/
  again : m.live = [] → ∀ (a : SimpleAllocator) (n : UInt64) (new : Option ℕ),
    a.bytes n ≤ HandlerAllocator.storageSize.toNat →
    a.allocate m.handler n new = ⟨some m.handler.data, { m.handler with inUse := true }, none⟩

section Storage

variable {data : ℕ} {m : Memory}

/-- The blocks in the storage are those that `operator new` was not called for. -/
theorem Memory.Inv.inStorage_iff (h : m.Inv data) {b : LiveBlock} (hb : b ∈ m.live) :
    m.InStorage b ↔ b.newSize = none := by
  unfold Memory.InStorage
  cases hnew : b.newSize with
  | none =>
      have hstart : m.handler.storage.start = b.extent.start :=
        h.address.trans (h.storage b hb hnew).1.symm
      simp [Extent.not_apart_of_start_eq hstart]
  | some size => simp [(h.heap b hb size hnew).2]

theorem Memory.Inv.countP_inStorage (h : m.Inv data) :
    m.live.countP (fun b => m.InStorage b) = if m.handler.inUse then 1 else 0 := by
  rw [← h.inUse]
  apply List.countP_congr
  intro b hb
  rw [decide_eq_true_iff, h.inStorage_iff hb, Option.isNone_iff_eq_none]

/-- For any run with one `handler_allocator`, any number of allocators, types, counts and
orders of release: the storage is for one block at most, the flag says whether it is in use,
and every release goes where the block came from. -/
theorem storage_for_one (hm : (memoryMachine data).Reachable m) : m.StorageForOne := by
  have h : m.Inv data := (memory_inductive_inv data).reachable hm
  have hcount := h.countP_inStorage
  constructor
  · rw [hcount]
    split <;> omega
  · intro b hb hin
    have hstorage := h.storage b hb ((h.inStorage_iff hb).mp hin)
    exact ⟨hstorage.1.trans h.address.symm, hstorage.2⟩
  · constructor
    · intro huse
      rw [huse, if_pos rfl] at hcount
      have hpos : 0 < m.live.countP (fun b => m.InStorage b) := by omega
      rcases List.countP_pos_iff.mp hpos with ⟨b, hb, hin⟩
      exact ⟨b, hb, of_decide_eq_true hin⟩
    · rintro ⟨b, hb, hin⟩
      have hpos : 0 < m.live.countP (fun b => m.InStorage b) :=
        List.countP_pos_iff.mpr ⟨b, hb, decide_eq_true hin⟩
      by_contra hfree
      rw [if_neg hfree] at hcount
      omega
  · intro b hb hout
    rw [h.inStorage_iff hb] at hout
    exact Option.isSome_iff_ne_none.mpr hout
  · intro b hb hout a
    rw [h.inStorage_iff hb] at hout
    rcases h.deallocate hb a with ⟨hnew, -⟩ | ⟨-, heq⟩
    · exact absurd hnew hout
    · exact heq
  · intro b hb hin a
    rw [h.inStorage_iff hb] at hin
    rcases h.deallocate hb a with ⟨-, heq⟩ | ⟨hnew, -⟩
    · exact heq
    · exact absurd hin hnew
  · intro hempty a n new hfits
    have hfits' : a.bytes n ≤ 1024 := hfits
    have hfree : m.handler.inUse = false := by
      rw [hempty] at hcount
      cases huse : m.handler.inUse with
      | false => rfl
      | true => simp [huse] at hcount
    rcases allocate_cases a m.handler n new with ⟨hge, -⟩ | ⟨-, -, heq⟩ | ⟨-, hbusy, -⟩
    · omega
    · exact heq
    · exact absurd ⟨hfree, hfits'⟩ hbusy

/-- A block from the storage and one from the heap, of different types; the first is
released. -/
theorem storage_for_one_mixed :
    ∃ m, (memoryMachine 4096).Reachable m ∧ m.live.length = 1 ∧ m.StorageForOne := by
  have hrun : ∃ m, (memoryMachine 4096).run (Memory.start 4096)
      [.construct ⟨1, by decide⟩, .convert 0 ⟨8, by decide⟩, .allocate 0 100 none,
        .allocate 1 3 (some 8192), .deallocate 0 1] = some m ∧ m.live.length = 1 :=
    ⟨_, rfl, rfl⟩
  rcases hrun with ⟨m, hrun, hlength⟩
  have hstart : (memoryMachine 4096).Reachable (Memory.start 4096) := Machine.Reachable.init rfl
  have hm := hstart.run hrun
  exact ⟨m, hm, hlength, storage_for_one hm⟩

end Storage

/-! ## Bytes and elements -/

/-- `allocate(n)`, for which `operator new` would return `p`, and the matching `deallocate`
agree on the bytes. -/
structure SizesAgree (data : ℕ) (m : Memory) (a : SimpleAllocator) (n : UInt64) (p : ℕ) :
    Prop where
  throws : (a.allocate m.handler n (some p)).result = none ↔ 2 ^ 64 ≤ a.bytes n
  unchanged : (a.allocate m.handler n (some p)).result = none →
    (a.allocate m.handler n (some p)).handler = m.handler
  /-- what is returned is the array, or a block of the heap, and large enough -/
  serves : ∀ q, (a.allocate m.handler n (some p)).result = some q →
    (q = m.handler.data ∧ (a.allocate m.handler n (some p)).newSize = none ∧
        a.bytes n ≤ HandlerAllocator.storageSize.toNat) ∨
      ∃ size : UInt64, q = p ∧ (a.allocate m.handler n (some p)).newSize = some size ∧
        a.bytes n ≤ size.toNat
  /-- whatever happens until a block of the heap is released, `operator delete` gets the size
  that `operator new` got -/
  sized : ∀ size : UInt64, (a.allocate m.handler n (some p)).newSize = some size →
    ∀ (m₁ m₂ : Memory) (es : List MemoryEvent),
      m.allocated a n (a.allocate m.handler n (some p)) = some m₁ →
      (memoryMachine data).run m₁ es = some m₂ → (⟨p, n, a, some size⟩ : LiveBlock) ∈ m₂.live →
      (a.deallocate m₂.handler p n).deleted = some (p, size)

section Sizes

variable {data : ℕ} {m : Memory} {a : SimpleAllocator} {n : UInt64} {p : ℕ}

/-- As many elements as bytes. -/
theorem toNat_eq_bytes_iff : n.toNat = a.bytes n ↔ a.sizeofT = 1 ∨ n = 0 := by
  have hone : a.sizeofT = 1 ↔ a.sizeofT.toNat = 1 := UInt64.toNat_inj.symm
  have hzero : n = 0 ↔ n.toNat = 0 := UInt64.toNat_inj.symm
  rw [hone, hzero, eq_comm]
  exact mul_right_eq_self₀.trans (or_congr_right Iff.rfl)

/-- `operator delete` gets the count of the elements. -/
theorem deleted_of_heap (hm : (memoryMachine data).Reachable m) {size : UInt64}
    (hb : (⟨p, n, a, some size⟩ : LiveBlock) ∈ m.live) :
    (a.deallocate m.handler p n).deleted = some (p, n) := by
  have h : m.Inv data := (memory_inductive_inv data).reachable hm
  rw [deallocate_of_ne a n (h.pointer_ne hb rfl)]

/-- A request that is too large is refused. -/
theorem sizesAgree_of_throws (hge : 2 ^ 64 ≤ a.bytes n)
    (heq : a.allocate m.handler n (some p) = ⟨none, m.handler, none⟩) :
    SizesAgree data m a n p := by
  constructor
  · rw [heq]
    exact ⟨fun _ => hge, fun _ => rfl⟩
  · intro _
    rw [heq]
  · intro q hq
    rw [heq] at hq
    cases hq
  · intro size hsize
    rw [heq] at hsize
    cases hsize

/-- The storage is not given to `operator delete`. -/
theorem sizesAgree_of_served (hfits : a.bytes n ≤ 1024)
    (heq : a.allocate m.handler n (some p) =
      ⟨some m.handler.data, { m.handler with inUse := true }, none⟩) :
    SizesAgree data m a n p := by
  constructor
  · rw [heq]
    exact ⟨nofun, fun hge => absurd hge (by omega)⟩
  · intro hnone
    rw [heq] at hnone
    cases hnone
  · intro q hq
    rw [heq] at hq ⊢
    exact Or.inl ⟨(Option.some.inj hq).symm, rfl, hfits⟩
  · intro size hsize
    rw [heq] at hsize
    cases hsize

/-- A block of the heap with as many elements as bytes. -/
theorem sizesAgree_of_newed (hm₁ : ∀ m₁, m.allocated a n (a.allocate m.handler n (some p)) = some m₁ →
      (memoryMachine data).Reachable m₁) (hlt : a.bytes n < 2 ^ 64) (hsize : n.toNat = a.bytes n)
    (heq : a.allocate m.handler n (some p) = ⟨some p, m.handler, some n⟩) :
    SizesAgree data m a n p := by
  constructor
  · rw [heq]
    exact ⟨nofun, fun hge => absurd hge (by omega)⟩
  · intro _
    rw [heq]
  · intro q hq
    rw [heq] at hq ⊢
    exact Or.inr ⟨n, (Option.some.inj hq).symm, rfl, Nat.le_of_eq hsize.symm⟩
  · intro size hnew m₁ m₂ es hallocated hrun hmem
    rw [deleted_of_heap ((hm₁ m₁ hallocated).run hrun) hmem]
    rw [heq] at hnew
    rw [Option.some.inj hnew]

/-- For every reachable state, element size and count, and every address that `operator new`
may return: `allocate` and `deallocate` agree on the bytes if and only if the elements are
single bytes, there are none, there are too many, or the storage serves the request. -/
theorem sizes_agree_iff (hm : (memoryMachine data).Reachable m) {i : ℕ}
    (ha : m.allocators[i]? = some a)
    (hp : ((memoryMachine data).step m (.allocate i n (some p))).isSome = true) :
    SizesAgree data m a n p ↔ a.sizeofT = 1 ∨ n = 0 ∨ 2 ^ 64 ≤ a.bytes n ∨
      (m.handler.inUse = false ∧ a.bytes n ≤ HandlerAllocator.storageSize.toNat) := by
  have hstep : ∃ m₁, m.allocated a n (a.allocate m.handler n (some p)) = some m₁ ∧
      (memoryMachine data).Reachable m₁ := by
    rcases Option.isSome_iff_exists.mp hp with ⟨m₁, hm₁⟩
    rcases Option.bind_eq_some_iff.mp hm₁ with ⟨a', ha', hallocated⟩
    obtain rfl : a = a' := Option.some.inj (ha.symm.trans ha')
    exact ⟨m₁, hallocated, hm.step _ hm₁⟩
  rcases hstep with ⟨m₁, hallocated, hm₁⟩
  rcases allocate_cases a m.handler n (some p) with
    ⟨hge, heq⟩ | ⟨hfree, hfits, heq⟩ | ⟨hlt, hbusy, size, hsize, heq⟩
  · exact ⟨fun _ => Or.inr (Or.inr (Or.inl hge)), fun _ => sizesAgree_of_throws hge heq⟩
  · exact ⟨fun _ => Or.inr (Or.inr (Or.inr ⟨hfree, hfits⟩)),
      fun _ => sizesAgree_of_served hfits heq⟩
  · constructor
    · intro hagree
      -- the block can be released at once
      have hnew : (a.allocate m.handler n (some p)).newSize = some size := by rw [heq]
      have hmem : (⟨p, n, a, some size⟩ : LiveBlock) ∈ m₁.live := by
        rw [heq, allocated_eq_some rfl] at hallocated
        rw [← hallocated.2]
        exact List.mem_cons_self
      have hdeleted := hagree.sized size hnew m₁ m₁ [] hallocated rfl hmem
      rw [deleted_of_heap hm₁ hmem, Option.some.injEq, Prod.mk.injEq] at hdeleted
      have hcount : n.toNat = a.bytes n := by rw [← hsize, ← hdeleted.2]
      rcases toNat_eq_bytes_iff.mp hcount with hone | hzero
      · exact Or.inl hone
      · exact Or.inr (Or.inl hzero)
    · intro hcond
      have hcount : n.toNat = a.bytes n := by
        rcases hcond with hone | hzero | hge | hserved
        · exact toNat_eq_bytes_iff.mpr (Or.inl hone)
        · exact toNat_eq_bytes_iff.mpr (Or.inr hzero)
        · omega
        · exact absurd hserved hbusy
      obtain rfl : n = size := UInt64.toNat_inj.mp (hcount.trans hsize.symm)
      refine sizesAgree_of_newed (fun m' hm' => ?_) hlt hsize heq
      rw [← Option.some.inj (hallocated.symm.trans hm')]
      exact hm₁

/-- One allocator, nothing handed out. -/
theorem reachable_construct (data : ℕ) (a : SimpleAllocator) :
    (memoryMachine data).Reachable ⟨⟨data, false⟩, [a], []⟩ := by
  have hstart : (memoryMachine data).Reachable (Memory.start data) := Machine.Reachable.init rfl
  exact hstart.step (.construct a) rfl

/-- 2000 elements of one byte are too large for the storage. -/
theorem sizes_agree_iff_char :
    SizesAgree 4096 ⟨⟨4096, false⟩, [⟨1, by decide⟩], []⟩ ⟨1, by decide⟩ 2000 8192 := by
  have henabled : ((memoryMachine 4096).step ⟨⟨4096, false⟩, [⟨1, by decide⟩], []⟩
      (.allocate 0 2000 (some 8192))).isSome = true := rfl
  exact (sizes_agree_iff (reachable_construct 4096 _) rfl henabled).mpr (Or.inl rfl)

/-- A block of 512 elements of four bytes is from the heap: `operator new` is called with 2048
and `operator delete` with 512. -/
theorem deleted_elements :
    ¬ ∀ (data : ℕ) (m : Memory) (i : ℕ) (a : SimpleAllocator) (n : UInt64) (p : ℕ),
      (memoryMachine data).Reachable m → m.allocators[i]? = some a →
      ((memoryMachine data).step m (.allocate i n (some p))).isSome = true →
      SizesAgree data m a n p := by
  intro h
  have hagree : SizesAgree 4096 ⟨⟨4096, false⟩, [⟨4, by decide⟩], []⟩ ⟨4, by decide⟩ 512 8192 :=
    h 4096 _ 0 _ 512 8192 (reachable_construct 4096 _) rfl rfl
  have hdeleted := hagree.sized 2048 rfl
    ⟨⟨4096, false⟩, [⟨4, by decide⟩], [⟨8192, 512, ⟨4, by decide⟩, some 2048⟩]⟩ _ [] rfl rfl
    List.mem_cons_self
  have hsizes : some (8192, (512 : UInt64)) = some (8192, 2048) := hdeleted
  revert hsizes
  decide

end Sizes

end CppCoroutines
