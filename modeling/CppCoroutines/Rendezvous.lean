import Mathlib.Tactic.Common

/-!
# Meeting at a flag

Two parties, a waiter and a waker, each exchange one flag once: it starts set and
both leave it cleared. Whoever comes first finds it set. Of two parties that have
both been there exactly one was first, which is all that is needed to hand a task
to exactly one of them.
-/

/-- Who has exchanged the flag, in which order. -/
inductive Rendezvous where
  | nobody
  | waiter
  | waker
  | waiterThenWaker
  | wakerThenWaiter
deriving DecidableEq, Repr

namespace Rendezvous

/-- The flag itself. -/
def flag : Rendezvous → Bool
  | nobody => true
  | _ => false

/-- What the waiter found, once it has been there. -/
def waiterFound : Rendezvous → Option Bool
  | nobody => none
  | waiter => some true
  | waker => none
  | waiterThenWaker => some true
  | wakerThenWaiter => some false

/-- What the waker found, once it has been there. -/
def wakerFound : Rendezvous → Option Bool
  | nobody => none
  | waiter => none
  | waker => some true
  | waiterThenWaker => some false
  | wakerThenWaiter => some true

/-- The waiter exchanges the flag. -/
def exchangeWaiter : Rendezvous → Rendezvous
  | nobody => waiter
  | waker => wakerThenWaiter
  | r => r

/-- The waker exchanges the flag. -/
def exchangeWaker : Rendezvous → Rendezvous
  | nobody => waker
  | waiter => waiterThenWaker
  | r => r

variable {r : Rendezvous}

/-- The waker's exchange is not seen by a waiter that has been there, or has not. -/
@[simp] theorem waiterFound_exchangeWaker (r : Rendezvous) :
    r.exchangeWaker.waiterFound = r.waiterFound := by
  cases r <;> rfl

/-- The waiter's exchange returns the flag, clears it, and is not seen by the waker. -/
theorem exchangeWaiter_spec (h : r.waiterFound = none) :
    r.exchangeWaiter.waiterFound = some r.flag ∧ r.exchangeWaiter.wakerFound = r.wakerFound ∧
      r.exchangeWaiter.flag = false := by
  cases r with
  | nobody => exact ⟨rfl, rfl, rfl⟩
  | waker => exact ⟨rfl, rfl, rfl⟩
  | waiter => cases h
  | waiterThenWaker => cases h
  | wakerThenWaiter => cases h

/-- The waker's exchange returns the flag, clears it, and is not seen by the waiter. -/
theorem exchangeWaker_spec (h : r.wakerFound = none) :
    r.exchangeWaker.wakerFound = some r.flag ∧ r.exchangeWaker.waiterFound = r.waiterFound ∧
      r.exchangeWaker.flag = false := by
  cases r with
  | nobody => exact ⟨rfl, rfl, rfl⟩
  | waiter => exact ⟨rfl, rfl, rfl⟩
  | waker => cases h
  | waiterThenWaker => cases h
  | wakerThenWaiter => cases h

/-- A waiter that finds the flag cleared came after the waker. -/
theorem waker_of_waiter_false (h : r.waiterFound = some false) : r.wakerFound = some true := by
  cases r with
  | wakerThenWaiter => rfl
  | nobody => cases h
  | waiter => cases h
  | waker => cases h
  | waiterThenWaker => cases h

/-- A waker that finds the flag cleared came after the waiter. -/
theorem waiter_of_waker_false (h : r.wakerFound = some false) : r.waiterFound = some true := by
  cases r with
  | waiterThenWaker => rfl
  | nobody => cases h
  | waiter => cases h
  | waker => cases h
  | wakerThenWaiter => cases h

/-- Only one of the two was first. -/
theorem waker_ne_of_waiter_true (h : r.waiterFound = some true) : r.wakerFound ≠ some true := by
  cases r with
  | waiter => exact nofun
  | waiterThenWaker => exact nofun
  | nobody => cases h
  | waker => cases h
  | wakerThenWaiter => cases h

/-- Once both have been there, exactly one was first. -/
theorem found_eq_not {a b : Bool} (ha : r.waiterFound = some a) (hb : r.wakerFound = some b) :
    b = !a := by
  cases a with
  | false =>
      rw [waker_of_waiter_false ha] at hb
      exact (Option.some.inj hb).symm
  | true =>
      cases b with
      | false => rfl
      | true => exact absurd hb (waker_ne_of_waiter_true ha)

/-- Both have been there. -/
def met (r : Rendezvous) : Bool := r.waiterFound.isSome && r.wakerFound.isSome

/-- A waker that is still to come will find what the waiter has left. -/
theorem flag_eq_waiter (h : r.wakerFound = none) : r.flag = r.waiterFound.isNone := by
  cases r with
  | nobody => rfl
  | waiter => rfl
  | waker => cases h
  | waiterThenWaker => cases h
  | wakerThenWaiter => cases h

/-- A waiter that is still to come will find what the waker has left. -/
theorem flag_eq_waker (h : r.waiterFound = none) : r.flag = r.wakerFound.isNone := by
  cases r with
  | nobody => rfl
  | waker => rfl
  | waiter => cases h
  | waiterThenWaker => cases h
  | wakerThenWaiter => cases h

theorem met_exchangeWaiter (h : r.waiterFound = none) :
    r.exchangeWaiter.met = r.wakerFound.isSome := by
  rcases exchangeWaiter_spec h with ⟨hfound, hother, -⟩
  unfold met
  rw [hfound, hother]
  rfl

theorem met_exchangeWaker (h : r.wakerFound = none) :
    r.exchangeWaker.met = r.waiterFound.isSome := by
  rcases exchangeWaker_spec h with ⟨hfound, hother, -⟩
  unfold met
  rw [hfound, hother, Option.isSome_some, Bool.and_true]

end Rendezvous
