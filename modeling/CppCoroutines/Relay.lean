import CppCoroutines.Machine

/-!
# Bounded relays

A relay takes messages one by one and gives them on in the order in which it
took them, holding at most `slots` of them at any moment. The bounds are part of
the state, so that a relay that gives what it never took, or holds too much,
cannot be built.
-/

universe u v w

/-- A relay with room for `slots` messages: all the messages it took, and how
many of them it has given on. -/
structure Relay (α : Type u) (slots : ℕ) where
  taken : List α
  given : ℕ
  given_le : given ≤ taken.length
  taken_le : taken.length ≤ given + slots

namespace Relay

variable {α : Type u} {slots : ℕ}

/-- The messages given on, in order. -/
def delivered (r : Relay α slots) : List α := r.taken.take r.given

/-- The messages still held, in order. -/
def pending (r : Relay α slots) : List α := r.taken.drop r.given

/-- The empty relay. -/
def empty : Relay α slots := ⟨[], 0, Nat.le_refl _, Nat.zero_le _⟩

inductive Event (α : Type u) where
  | take (a : α)
  | give

theorem given_le_take (r : Relay α slots) (a : α) : r.given ≤ (r.taken ++ [a]).length := by
  rw [List.length_append]
  exact Nat.le_add_right_of_le r.given_le

theorem take_le {r : Relay α slots} (h : r.taken.length < r.given + slots) (a : α) :
    (r.taken ++ [a]).length ≤ r.given + slots := by
  rw [List.length_append]
  exact h

theorem le_give (r : Relay α slots) : r.taken.length ≤ r.given + 1 + slots := by
  have hle := r.taken_le
  omega

/-- Take a message while there is room, give one on while there is one to give. -/
def step (r : Relay α slots) : Event α → Option (Relay α slots)
  | .take a =>
      if h : r.taken.length < r.given + slots then
        some ⟨r.taken ++ [a], r.given, r.given_le_take a, take_le h a⟩
      else none
  | .give =>
      if h : r.given < r.taken.length then
        some ⟨r.taken, r.given + 1, h, r.le_give⟩
      else none

/-- The relay as a machine that starts empty. -/
def machine (α : Type u) (slots : ℕ) : Machine (Relay α slots) (Event α) where
  init r := r = empty
  step := step

/-! ## Order and conservation -/

/-- Nothing is lost, duplicated or reordered. -/
theorem delivered_append_pending (r : Relay α slots) : r.delivered ++ r.pending = r.taken :=
  List.take_append_drop _ _

/-- The relay never holds more than its slots. -/
theorem length_pending_le (r : Relay α slots) : r.pending.length ≤ slots := by
  have hle := r.taken_le
  rw [pending, List.length_drop]
  omega

/-- A step never takes back what was delivered. -/
theorem delivered_prefix_of_step {r r' : Relay α slots} {e : Event α} (h : r.step e = some r') :
    r.delivered <+: r'.delivered := by
  cases e with
  | take a =>
      rcases Option.dite_none_right_eq_some.mp h with ⟨_, heq⟩
      rw [← Option.some.inj heq]
      show _ <+: (r.taken ++ [a]).take r.given
      rw [List.take_append_of_le_length r.given_le]
      exact List.prefix_refl _
  | give =>
      rcases Option.dite_none_right_eq_some.mp h with ⟨_, heq⟩
      rw [← Option.some.inj heq]
      exact List.take_prefix_take_left (Nat.le_succ _)

/-- What was delivered stays delivered along every run. -/
theorem delivered_prefix_of_run {r r' : Relay α slots} {es : List (Event α)}
    (h : (machine α slots).run r es = some r') : r.delivered <+: r'.delivered := by
  induction es generalizing r with
  | nil =>
      rw [Machine.run_nil, Option.some.injEq] at h
      exact h ▸ List.prefix_refl _
  | cons e es ih =>
      rcases Machine.run_cons_eq_some.mp h with ⟨t, hstep, hrest⟩
      exact (delivered_prefix_of_step hstep).trans (ih hrest)

/-! ## Machines that are relays -/

/-- A machine refines a relay when its history says what was taken and given on,
its invariant keeps the bounds, and each step takes one message, gives one on or
does neither. -/
theorem simulation {σ : Type v} {ε : Type w} {M : Machine σ ε} {inv : σ → Prop}
    (hinv : M.Inductive inv) (taken : σ → List α) (given : σ → ℕ)
    (hinit : ∀ s, M.init s → taken s = [] ∧ given s = 0)
    (hbound : ∀ s, inv s → given s ≤ (taken s).length ∧ (taken s).length ≤ given s + slots)
    (hstep : ∀ s e s', inv s → M.step s e = some s' →
      (taken s' = taken s ∧ given s' = given s) ∨
      (∃ a, taken s' = taken s ++ [a] ∧ given s' = given s) ∨
      (taken s' = taken s ∧ given s' = given s + 1)) :
    M.Simulation (machine α slots)
      (fun s r => inv s ∧ r.taken = taken s ∧ r.given = given s) := by
  constructor
  · intro s hs
    rcases hinit s hs with ⟨htaken, hgiven⟩
    exact ⟨empty, rfl, hinv.init s hs, htaken.symm, hgiven.symm⟩
  · intro s e s' r hR hs'
    rcases hR with ⟨hs, htaken, hgiven⟩
    have hinv' : inv s' := hinv.step s e s' hs hs'
    rcases hbound s' hinv' with ⟨hle, hroom⟩
    rcases hstep s e s' hs hs' with ⟨ht, hg⟩ | ⟨a, ht, hg⟩ | ⟨ht, hg⟩
    · left
      exact ⟨hinv', htaken.trans ht.symm, hgiven.trans hg.symm⟩
    · -- the machine takes `a`: the invariant leaves room for it
      right
      have hlt : r.taken.length < r.given + slots := by
        rw [htaken, hgiven]
        rw [ht, hg, List.length_append, List.length_singleton] at hroom
        omega
      refine ⟨.take a, _, dif_pos hlt, hinv', ?_, ?_⟩
      · rw [ht, ← htaken]
      · rw [hg, ← hgiven]
    · -- the machine gives one on: the invariant says there is one
      right
      have hlt : r.given < r.taken.length := by
        rw [htaken, hgiven]
        rw [ht, hg] at hle
        omega
      refine ⟨.give, _, dif_pos hlt, hinv', ?_, ?_⟩
      · rw [ht, ← htaken]
      · rw [hg, ← hgiven]

end Relay
