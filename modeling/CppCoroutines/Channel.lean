import Mathlib.Data.List.Basic
import Mathlib.Tactic.Common

/-!
# Bounded channels and closed loops

A FIFO channel gives out what was put into it, in order; the bound on what it
holds is part of the channel, so that an overfull one cannot be built. The second
half is about lists that are fed back into themselves: when everything taken out
of a loop is put back in behind a first block, the loop repeats that block.
-/

universe u

/-- A FIFO channel that holds at most `capacity` elements, or any number of them. -/
@[ext]
structure Channel (α : Type u) (capacity : Option ℕ) where
  contents : List α
  fits : ∀ c ∈ capacity, contents.length ≤ c

namespace Channel

variable {α : Type u} {capacity : Option ℕ}

/-- The empty channel. -/
def empty : Channel α capacity := ⟨[], fun _ _ => Nat.zero_le _⟩

/-- Put elements in, where there is room for all of them. -/
def send (ch : Channel α capacity) (xs : List α) : Option (Channel α capacity) :=
  if h : ∀ c ∈ capacity, (ch.contents ++ xs).length ≤ c then some ⟨ch.contents ++ xs, h⟩
  else none

/-- Take the first `k` elements out, where there are that many and at least one. -/
def receive (ch : Channel α capacity) (k : ℕ) : Option (List α × Channel α capacity) :=
  if 0 < k ∧ k ≤ ch.contents.length then
    some (ch.contents.take k,
      ⟨ch.contents.drop k, fun c hc => by
        have := ch.fits c hc
        rw [List.length_drop]
        omega⟩)
  else none

/-- A full channel holds exactly what it may hold. -/
def Full (ch : Channel α capacity) : Prop := capacity = some ch.contents.length

theorem send_eq_some {ch ch' : Channel α capacity} {xs : List α} :
    ch.send xs = some ch' ↔
      (∀ c ∈ capacity, ch.contents.length + xs.length ≤ c) ∧
        ch'.contents = ch.contents ++ xs := by
  unfold send
  simp only [List.length_append]
  constructor
  · intro h
    rcases Option.dite_none_right_eq_some.mp h with ⟨hfits, heq⟩
    rw [← Option.some.inj heq]
    exact ⟨hfits, rfl⟩
  · rintro ⟨hfits, heq⟩
    rw [dif_pos hfits]
    exact congrArg some (Channel.ext heq.symm)

/-- With enough room the elements go in. -/
theorem exists_send (ch : Channel α capacity) (xs : List α)
    (h : ∀ c ∈ capacity, ch.contents.length + xs.length ≤ c) :
    ∃ ch', ch.send xs = some ch' ∧ ch'.contents = ch.contents ++ xs := by
  have hfits : ∀ c ∈ capacity, (ch.contents ++ xs).length ≤ c := by
    simpa only [List.length_append] using h
  exact ⟨⟨ch.contents ++ xs, hfits⟩, dif_pos hfits, rfl⟩

theorem receive_eq_some {ch ch' : Channel α capacity} {k : ℕ} {xs : List α} :
    ch.receive k = some (xs, ch') ↔
      0 < k ∧ xs.length = k ∧ xs ++ ch'.contents = ch.contents := by
  unfold receive
  constructor
  · intro h
    rcases Option.ite_none_right_eq_some.mp h with ⟨⟨hpos, hle⟩, heq⟩
    rcases Prod.mk.inj (Option.some.inj heq) with ⟨rfl, rfl⟩
    exact ⟨hpos, List.length_take_of_le hle, List.take_append_drop k ch.contents⟩
  · rintro ⟨hpos, rfl, heq⟩
    have htake : ch.contents.take xs.length = xs := by rw [← heq, List.take_left]
    have hdrop : ch.contents.drop xs.length = ch'.contents := by rw [← heq, List.drop_left]
    have hle : xs.length ≤ ch.contents.length := by
      rw [← heq, List.length_append]
      exact Nat.le_add_right _ _
    rw [if_pos ⟨hpos, hle⟩, htake]
    exact congrArg some (Prod.ext rfl (Channel.ext hdrop))

/-- From a channel that is not empty one element can be taken. -/
theorem exists_receive_one {ch : Channel α capacity} (h : ch.contents ≠ []) :
    ∃ x ch', ch.receive 1 = some ([x], ch') ∧
      ch.contents.length = ch'.contents.length + 1 := by
  rcases List.exists_cons_of_ne_nil h with ⟨x, xs, hcontents⟩
  have hfits : ∀ c ∈ capacity, xs.length ≤ c := by
    intro c hc
    have hle := ch.fits c hc
    rw [hcontents, List.length_cons] at hle
    omega
  refine ⟨x, ⟨xs, hfits⟩, receive_eq_some.mpr ⟨Nat.one_pos, rfl, hcontents.symm⟩, ?_⟩
  rw [hcontents, List.length_cons]

/-- A channel without room for one more element is full. -/
theorem full_of_send_eq_none {ch : Channel α capacity} {xs : List α} (hxs : xs.length = 1)
    (h : ch.send xs = none) : ch.Full := by
  unfold send at h
  cases capacity with
  | none =>
      rw [dif_pos nofun] at h
      cases h
  | some c =>
      have hle := ch.fits c rfl
      have hfull : ¬ ∀ c' ∈ some c, (ch.contents ++ xs).length ≤ c' := by
        intro hfits
        rw [dif_pos hfits] at h
        cases h
      have hgt : ¬ (ch.contents ++ xs).length ≤ c := by
        intro hroom
        apply hfull
        intro c' hc'
        rwa [← Option.some.inj hc']
      rw [List.length_append, hxs] at hgt
      exact congrArg some (by omega)

/-- A full channel takes nothing. -/
theorem Full.send_eq_none {ch : Channel α capacity} (h : ch.Full) {xs : List α} (hxs : xs ≠ []) :
    ch.send xs = none := by
  unfold send
  rw [dif_neg]
  intro hfits
  have hle := hfits ch.contents.length h
  have hpos := List.length_pos_iff.mpr hxs
  rw [List.length_append] at hle
  omega

end Channel

/-! ## Closed loops -/

namespace Loop

variable {α : Type u}

/-- `l` starts as `block` repeated again and again. -/
def Repeats (block l : List α) : Prop := ∃ k, l <+: (List.replicate k block).flatten

theorem getElem?_flatten_replicate (block : List α) {k i : ℕ} (hi : i < k * block.length) :
    (List.replicate k block).flatten[i]? = block[i % block.length]? := by
  induction k generalizing i with
  | zero => simp at hi
  | succ k ih =>
      rw [List.replicate_succ, List.flatten_cons]
      by_cases hfirst : i < block.length
      · rw [List.getElem?_append_left hfirst, Nat.mod_eq_of_lt hfirst]
      · -- the position lies in a later copy of the block
        rw [Nat.succ_mul] at hi
        rw [List.getElem?_append_right (by omega), ih (by omega),
          ← Nat.mod_eq_sub_mod (Nat.not_lt.mp hfirst)]

/-- The element at position `i` is the one at position `i` modulo the length of the block. -/
theorem Repeats.getElem? {block l : List α} (h : Repeats block l) {i : ℕ} (hi : i < l.length) :
    l[i]? = block[i % block.length]? := by
  rcases h with ⟨k, rest, heq⟩
  have hlength : (l ++ rest).length = k * block.length := by rw [heq]; simp
  rw [List.length_append] at hlength
  rw [← List.getElem?_append_left hi, heq]
  exact getElem?_flatten_replicate block (by omega)

/-- What goes round in a loop that starts with `block` repeats `block`. -/
theorem repeats_of_append_eq {block l x : List α} (hblock : block ≠ [])
    (h : l ++ x = block ++ l) : Repeats block l := by
  induction hlength : l.length using Nat.strongRecOn generalizing l with
  | ind m ih =>
      have hl : l <+: block ++ l := ⟨x, h⟩
      by_cases hle : l.length ≤ block.length
      · refine ⟨1, ?_⟩
        simpa using List.prefix_of_prefix_length_le hl (List.prefix_append block l) hle
      · -- one whole block has come round: look at what came after it
        rcases List.prefix_of_prefix_length_le (List.prefix_append block l) hl (by omega)
          with ⟨l', rfl⟩
        have hpos : 0 < block.length := List.length_pos_iff.mpr hblock
        rw [List.append_assoc, List.append_right_inj] at h
        rw [List.length_append] at hlength
        rcases ih l'.length (by omega) h rfl with ⟨k, hk⟩
        refine ⟨k + 1, ?_⟩
        rw [List.replicate_succ, List.flatten_cons]
        exact (List.prefix_append_right_inj block).mpr hk

end Loop
