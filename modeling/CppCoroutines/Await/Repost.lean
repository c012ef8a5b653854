import CppCoroutines.Polling
import Mathlib.Data.List.Basic
import Mathlib.Algebra.Order.Ring.Int
import Mathlib.Tactic.Ring

/-!
# Reposting

`repost` of `over2.cpp` awaits `io.post` in an awaiter whose handler resumes the coroutine;
`over1.cpp` has the same coroutine on `asio_future_awaiter`, which polls a future.
-/

namespace CppCoroutines.Repost

open Coroutine

/-- The parameter, and what has been printed. -/
structure Locals where
  n : ℤ
  cout : List String
deriving DecidableEq, Repr

inductive Op where
  | post
deriving DecidableEq, Repr

def line (n : ℤ) : String := "repost " ++ toString n

/-- The test of the loop, and the call of `post`. -/
def loop (l : Locals) : Frame Locals Op Unit :=
  if 0 < l.n then ⟨{ l with n := l.n - 1 }, .awaiting .post⟩
  else ⟨{ l with n := l.n - 1 }, .finished ()⟩

/-- `repost(io, n)` up to its first suspension. -/
def start (n : ℤ) : Frame Locals Op Unit := loop ⟨n, []⟩

def repost : Program Locals Op Unit Unit where
  complete l _ _ := some l
  resume l _ _ := loop { l with cout := l.cout ++ [line l.n] }

/-- `over2.cpp`. -/
def over2 (n : ℤ) : Machine (Frame Locals Op Unit) Unit := repost.machine fun f => f = start n

/-- `over1.cpp`. -/
def over1 (n : ℤ) : Machine (Polling Locals Op Unit Unit) (PollEvent Unit) :=
  repost.pollMachine fun f => f = start n

/-- The first `k` lines. -/
def lines (n : ℤ) (k : ℕ) : List String := (List.range k).map fun (i : ℕ) => line (n - 1 - i)

/-- The frame after `k` rounds. -/
def frameAt (n : ℤ) (k : ℕ) : Frame Locals Op Unit := loop ⟨n - k, lines n k⟩

theorem start_eq (n : ℤ) : start n = frameAt n 0 := by
  unfold start frameAt lines
  simp

theorem frameAt_of_lt {n : ℤ} {k : ℕ} (h : k < n.toNat) :
    frameAt n k = ⟨⟨n - k - 1, lines n k⟩, .awaiting .post⟩ := if_pos (by show 0 < n - k; omega)

theorem frameAt_of_le {n : ℤ} {k : ℕ} (h : n.toNat ≤ k) :
    frameAt n k = ⟨⟨n - k - 1, lines n k⟩, .finished ()⟩ :=
  if_neg (by show ¬ 0 < n - k; omega)

theorem cout_frameAt (n : ℤ) (k : ℕ) : (frameAt n k).locals.cout = lines n k := by
  rcases Nat.lt_or_ge k n.toNat with hlt | hle
  · rw [frameAt_of_lt hlt]
  · rw [frameAt_of_le hle]

theorem point_frameAt_iff (n : ℤ) (k : ℕ) :
    (frameAt n k).point = .finished () ↔ n.toNat ≤ k := by
  rcases Nat.lt_or_ge k n.toNat with hlt | hle
  · rw [frameAt_of_lt hlt]
    exact iff_of_false nofun (by omega)
  · rw [frameAt_of_le hle]
    exact iff_of_true rfl hle

/-- A round prints one line. -/
theorem resume_frameAt {n : ℤ} {k : ℕ} (h : k < n.toNat) :
    repost.resume (frameAt n k).locals .post () = frameAt n (k + 1) := by
  have hlines : lines n (k + 1) = lines n k ++ [line (n - k - 1)] := by
    unfold lines
    rw [List.range_succ, List.map_append, List.map_singleton]
    congr 3
    ring
  rw [frameAt_of_lt h]
  unfold frameAt
  rw [hlines]
  show loop _ = loop _
  congr 2
  push_cast
  ring

/-- There is a round left where the coroutine awaits. -/
theorem lt_of_awaiting {n : ℤ} {k : ℕ} {op : Op} (h : (frameAt n k).point = .awaiting op) :
    k < n.toNat := by
  by_contra hnot
  rw [(point_frameAt_iff n k).mpr (Nat.le_of_not_lt hnot)] at h
  cases h

/-! ## The two programs -/

theorem over2_step {n : ℤ} {k : ℕ} {f' : Frame Locals Op Unit}
    (hstep : repost.step (frameAt n k) () = some f') : k < n.toNat ∧ f' = frameAt n (k + 1) := by
  rcases Program.step_eq_some.mp hstep with ⟨op, l, hpoint, hl, rfl⟩
  obtain rfl : (frameAt n k).locals = l := Option.some.inj hl
  have hlt := lt_of_awaiting hpoint
  exact ⟨hlt, resume_frameAt hlt⟩

theorem over2_run {n : ℤ} {k : ℕ} (hk : k ≤ n.toNat) {rs : List Unit} {f : Frame Locals Op Unit}
    (hrun : (over2 n).run (frameAt n k) rs = some f) :
    k + rs.length ≤ n.toNat ∧ f = frameAt n (k + rs.length) := by
  induction rs generalizing k with
  | nil =>
      rw [Machine.run_nil, Option.some.injEq] at hrun
      exact ⟨hk, hrun.symm⟩
  | cons r rs ih =>
      rcases Machine.run_cons_eq_some.mp hrun with ⟨f', hstep, hrest⟩
      obtain ⟨hlt, rfl⟩ := over2_step hstep
      rw [List.length_cons, Nat.add_comm rs.length, ← Nat.add_assoc]
      exact ih hlt hrest

/-- A step that takes the result is a round, and no other step is. -/
theorem over1_step {n : ℤ} {k : ℕ} {c c' : Polling Locals Op Unit Unit} {e : PollEvent Unit}
    (hc : c.frame = frameAt n k) (hstep : repost.pollStep c e = some c') :
    if e = .go then k < n.toNat ∧ c'.frame = frameAt n (k + 1) else c'.frame = frameAt n k := by
  cases Program.pollStep_cases hstep with
  | @complete op reply l hpoint hnone hl =>
      obtain rfl : c.frame.locals = l := Option.some.inj hl
      show (⟨c.frame.locals, .awaiting op⟩ : Frame Locals Op Unit) = frameAt n k
      rw [← hc, ← hpoint]
  | @go op reply hpoint hphase hfuture =>
      rw [hc] at hpoint
      have hlt := lt_of_awaiting hpoint
      refine ⟨hlt, ?_⟩
      show repost.resume c.frame.locals op reply = _
      rw [hc]
      exact resume_frameAt hlt
  | _ => exact hc

theorem over1_run {n : ℤ} {k : ℕ} (hk : k ≤ n.toNat) {c c' : Polling Locals Op Unit Unit}
    {es : List (PollEvent Unit)} (hc : c.frame = frameAt n k)
    (hrun : (over1 n).run c es = some c') :
    k + es.count .go ≤ n.toNat ∧ c'.frame = frameAt n (k + es.count .go) := by
  induction es generalizing k c with
  | nil =>
      rw [Machine.run_nil, Option.some.injEq] at hrun
      rw [← hrun]
      exact ⟨hk, hc⟩
  | cons e es ih =>
      rcases Machine.run_cons_eq_some.mp hrun with ⟨d, hstep, hrest⟩
      have hd := over1_step hc hstep
      split at hd
      · rename_i hgo
        rw [hgo, List.count_cons_self, Nat.add_comm (es.count _), ← Nat.add_assoc]
        exact ih hd.1 hd.2 hrest
      · rename_i hgo
        rw [List.count_cons_of_ne hgo]
        exact ih hk hd hrest

/-- Both programs print the lines from `n - 1` down to `0`, one for each time the coroutine goes
on, and end after the last; `over1.cpp` wherever its timer tests the futures. As long as it has
not ended, its operation can complete or, once it has, two steps take the coroutine on. -/
theorem reposts_alike (n : ℤ) :
    (∀ rs f, (over2 n).run (start n) rs = some f →
      f.locals.cout = lines n rs.length ∧ rs.length ≤ n.toNat ∧
        (f.point = .finished () ↔ rs.length = n.toNat)) ∧
    ∀ es c, (over1 n).run ⟨start n, none, .testing, 0, 0⟩ es = some c →
      c.frame.locals.cout = lines n (es.count .go) ∧ es.count .go ≤ n.toNat ∧
        (c.frame.point = .finished () ↔ es.count .go = n.toNat) ∧
        (c.frame.point ≠ .finished () → c.future = none → ∃ d, (over1 n).step c (.complete ()) =
          some d) ∧
        (c.future = some () → ∃ fs d, fs.length ≤ 2 ∧ (over1 n).run c fs = some d ∧
          d.frame.locals.cout = lines n (es.count .go + 1)) := by
  constructor
  · intro rs f hrun
    rw [start_eq] at hrun
    rcases over2_run (Nat.zero_le _) hrun with ⟨hle, rfl⟩
    rw [Nat.zero_add] at hle ⊢
    refine ⟨cout_frameAt n _, hle, ?_⟩
    rw [point_frameAt_iff]
    omega
  · intro es c hrun
    rcases over1_run (Nat.zero_le _) (start_eq n) hrun with ⟨hle, hframe⟩
    rw [Nat.zero_add] at hle hframe
    have hreachable : (over1 n).Reachable c := Machine.Reachable.run (.init ⟨_, rfl, rfl⟩) hrun
    have hpolls := Program.polls_reachable hreachable
    refine ⟨by rw [hframe, cout_frameAt], hle, ?_, ?_, ?_⟩
    · rw [hframe, point_frameAt_iff]
      omega
    · intro hpoint hnone
      cases hop : c.frame.point with
      | awaiting op =>
          refine ⟨{ c with frame := ⟨c.frame.locals, .awaiting op⟩, future := some () }, ?_⟩
          simp [over1, Program.pollMachine, Program.pollStep, hop, hnone, repost]
      | finished out => exact absurd hop hpoint
    · intro hsome
      have hready : c.future.isSome = true := by rw [hsome]; rfl
      rcases hpolls.awaited hready with ⟨op, hop⟩
      rcases hpolls.exists_go (fun f => f = start n) hready with ⟨fs, d, hfs, hgo, hd, -⟩
      refine ⟨fs, d, hfs, hgo, ?_⟩
      rw [hd, Program.shown_of_some hop hsome]
      rw [hframe] at hop ⊢
      show (repost.resume (frameAt n _).locals .post ()).locals.cout = _
      rw [resume_frameAt (lt_of_awaiting hop), cout_frameAt]

end CppCoroutines.Repost
