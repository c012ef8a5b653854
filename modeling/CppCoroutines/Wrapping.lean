import Mathlib.Algebra.BigOperators.Group.List.Basic
import Mathlib.Algebra.Order.BigOperators.Group.List
import Mathlib.Algebra.Order.Ring.Nat
import Mathlib.Data.List.Induction
import Mathlib.Tactic.Common

/-!
# Arithmetic that wraps around

Numbers are kept modulo some `m`: a product is tested for a wrap-around by dividing it
again, and a counter to which amounts are added one after another ends with their sum
modulo `m`. Sums may be counted in two stages, by counters of different widths.
-/

namespace Wrapping

/-- Dividing a product again gives the factor back exactly if it has not wrapped around. -/
theorem mul_mod_div_eq_iff {n s m : ℕ} (hs : 0 < s) (hm : 0 < m) :
    n * s % m / s = n ↔ n * s < m := by
  constructor
  · intro heq
    by_contra hge
    -- what is left of the product is less than the product
    have hmod : n * s % m < m := Nat.mod_lt _ hm
    have hdiv : n * s % m / s * s ≤ n * s % m := Nat.div_mul_le_self _ _
    rw [heq] at hdiv
    omega
  · intro hlt
    rw [Nat.mod_eq_of_lt hlt]
    exact Nat.mul_div_cancel n hs

/-! ## Counters -/

/-- A counter modulo `m`, from 0 on, after these amounts have been added. -/
def count (m : ℕ) (amounts : List ℕ) : ℕ := amounts.foldl (fun c a => (c + a) % m) 0

/-- One amount more. -/
theorem count_append_singleton (m : ℕ) (amounts : List ℕ) (a : ℕ) :
    count m (amounts ++ [a]) = (count m amounts + a) % m := by
  rw [count, List.foldl_append]
  rfl

/-- A counter holds the sum modulo `m`. -/
theorem count_eq_sum_mod (m : ℕ) (amounts : List ℕ) : count m amounts = amounts.sum % m := by
  induction amounts using List.reverseRecOn with
  | nil => simp [count]
  | append_singleton amounts a ih =>
      rw [count_append_singleton, ih, List.sum_append, List.sum_singleton, Nat.mod_add_mod]

/-- A counter is exact as long as the sum is less than `m`. -/
theorem count_eq_sum_iff {m : ℕ} (hm : 0 < m) {amounts : List ℕ} :
    count m amounts = amounts.sum ↔ amounts.sum < m := by
  rw [count_eq_sum_mod]
  constructor
  · intro heq
    rw [← heq]
    exact Nat.mod_lt _ hm
  · intro hlt
    exact Nat.mod_eq_of_lt hlt

/-! ## Counting in two stages -/

/-- Numbers that are each at most another, with the same sum, are the others. -/
theorem sum_map_eq_iff {α : Type*} {l : List α} {f g : α → ℕ} (hle : ∀ a ∈ l, f a ≤ g a) :
    (l.map f).sum = (l.map g).sum ↔ ∀ a ∈ l, f a = g a := by
  induction l with
  | nil => simp
  | cons a l ih =>
      have hhead := hle a List.mem_cons_self
      have htail : ∀ b ∈ l, f b ≤ g b := fun b hb => hle b (List.mem_cons_of_mem a hb)
      have hsum : (l.map f).sum ≤ (l.map g).sum := List.sum_le_sum htail
      rw [List.map_cons, List.map_cons, List.sum_cons, List.sum_cons, List.forall_mem_cons,
        ← ih htail]
      omega

/-- Sums that are counted modulo `m` first and then modulo a number above all of them are
exact if and only if each of them is less than `m`. -/
theorem count_map_count_eq_iff {m k : ℕ} (hm : 0 < m) {parts : List (List ℕ)}
    (hlt : (parts.map List.sum).sum < k) :
    count k (parts.map (count m)) = (parts.map List.sum).sum ↔ ∀ p ∈ parts, p.sum < m := by
  have hle : ∀ p ∈ parts, count m p ≤ p.sum := by
    intro p _
    rw [count_eq_sum_mod]
    exact Nat.mod_le _ _
  have hsum : (parts.map (count m)).sum ≤ (parts.map List.sum).sum := List.sum_le_sum hle
  rw [count_eq_sum_mod, Nat.mod_eq_of_lt (by omega), sum_map_eq_iff hle]
  constructor
  · intro h p hp
    exact (count_eq_sum_iff hm).mp (h p hp)
  · intro h p hp
    exact (count_eq_sum_iff hm).mpr (h p hp)

end Wrapping
