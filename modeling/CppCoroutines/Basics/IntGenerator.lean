import CppCoroutines.Generator
import CppCoroutines.Machine

/-!
# `int_generator`

The generator of `yield2.cpp` in a range-for. The end of the iteration is an iterator
whose handle is null. `operator++` clears the handle when the resumption has ended the
coroutine; `begin` resumes the coroutine too, but does not look at it afterwards.
An `int` is an integer: the bodies here compute nothing that could overflow.
-/

namespace CppCoroutines.IntGenerator

open Generator (Frame Stage)

variable {σ : Type}

/-- Where the range-for stands. -/
inductive Position where
  | begin
  | test
  | body
  | increment
  | ended
  /-- a coroutine that is done has been resumed -/
  | undefined
deriving DecidableEq, Repr

/-- A range-for over the `int_generator` that owns this frame. -/
structure Loop (σ : Type) where
  frame : Frame σ ℤ
  /-- the handle of the iterator is not null -/
  iterator : Bool
  position : Position
  /-- history: the elements the body has been executed with -/
  visited : List ℤ

/-- The coroutine as its caller gets it, suspended at its start; `_value` is 0. -/
def created (s : σ) : Frame σ ℤ := ⟨0, .suspended s⟩

/-- The range-for before `begin()`. -/
def Loop.start (s : σ) : Loop σ where
  frame := created s
  iterator := false
  position := .begin
  visited := []

/-- `begin()`: the handle of the generator is not null. -/
def Loop.begin (body : σ → Option (ℤ × σ)) (l : Loop σ) : Loop σ :=
  if l.frame.done then { l with iterator := true, position := .test }
  else
    match l.frame.resume body with
    | some f => { l with frame := f, iterator := true, position := .test }
    | none => { l with position := .undefined }

/-- `operator++`. -/
def Loop.increment (body : σ → Option (ℤ × σ)) (l : Loop σ) : Loop σ :=
  if l.iterator then
    match l.frame.resume body with
    | some f => { l with frame := f, iterator := !f.done, position := .test }
    | none => { l with position := .undefined }
  else { l with position := .test }

/-- One step of the range-for; the iterator differs from `end()` while its handle is not null. -/
def step (body : σ → Option (ℤ × σ)) (l : Loop σ) : Option (Loop σ) :=
  match l.position with
  | .begin => some (l.begin body)
  | .test => some { l with position := if l.iterator then .body else .ended }
  | .body => some { l with visited := l.visited ++ [l.frame.value], position := .increment }
  | .increment => some (l.increment body)
  | .ended => none
  | .undefined => none

/-- A range-for over the generator of a coroutine with this body. -/
def machine (body : σ → Option (ℤ × σ)) (s : σ) : Machine (Loop σ) Unit where
  init l := l = Loop.start s
  step l _ := step body l

/-- The range-for comes to its end having executed its body once for each of these
elements, in order, and resumes the coroutine at most until it is done. -/
def VisitsExactly (body : σ → Option (ℤ × σ)) (s : σ) (xs : List ℤ) : Prop :=
  (∃ l, (machine body s).Reachable l ∧ l.position = .ended) ∧
    ∀ l, (machine body s).Reachable l →
      l.position ≠ .undefined ∧ l.visited <+: xs ∧ (l.position = .ended → l.visited = xs)

/-- `integers(start, end)` at the head of its loop. -/
def integers (last : ℤ) (i : ℤ) : Option (ℤ × ℤ) := if i ≤ last then some (i, i + 1) else none

/-! ## The loop over a coroutine that yields -/

/-- What is left to visit, at each position of the loop. -/
def Inv (body : σ → Option (ℤ × σ)) (xs : List ℤ) (l : Loop σ) : Prop :=
  match l.position with
  | .begin => l.visited = [] ∧ l.frame.done = false ∧ (Generator.ofBody body).Yields l.frame xs
  | .test =>
      if l.iterator then
        ∃ ys, l.visited ++ l.frame.value :: ys = xs ∧ (Generator.ofBody body).Yields l.frame ys
      else l.visited = xs
  | .body => l.iterator = true ∧
      ∃ ys, l.visited ++ l.frame.value :: ys = xs ∧ (Generator.ofBody body).Yields l.frame ys
  | .increment => l.iterator = true ∧
      ∃ ys, l.visited ++ ys = xs ∧ (Generator.ofBody body).Yields l.frame ys
  | .ended => l.visited = xs
  | .undefined => False

section Loops

variable {body : σ → Option (ℤ × σ)} {s : σ} {xs : List ℤ}

/-- The first resumption of a coroutine that yields something leaves its first value. -/
theorem begin_inv {l : Loop σ} (hxs : xs ≠ []) (hvisited : l.visited = [])
    (hdone : l.frame.done = false) (hyields : (Generator.ofBody body).Yields l.frame xs) :
    Inv body xs (l.begin body) := by
  cases hyields with
  | returns => exact absurd rfl hxs
  | @yields _ f' ys hresume _ hys =>
      have hresume : l.frame.resume body = some f' := hresume
      have hbegin : l.begin body = { l with frame := f', iterator := true, position := .test } := by
        simp [Loop.begin, hdone, hresume]
      rw [hbegin]
      refine ⟨ys, ?_, hys⟩
      show l.visited ++ f'.value :: ys = f'.value :: ys
      rw [hvisited, List.nil_append]

/-- A later resumption leaves the next value, or the null handle at the end. -/
theorem increment_inv {l : Loop σ} {ys : List ℤ} (hit : l.iterator = true)
    (hvisited : l.visited ++ ys = xs) (hyields : (Generator.ofBody body).Yields l.frame ys) :
    Inv body xs (l.increment body) := by
  cases hyields with
  | @returns _ f' hresume hdone =>
      have hresume : l.frame.resume body = some f' := hresume
      have hdone : f'.done = true := hdone
      have hinc : l.increment body =
          { l with frame := f', iterator := false, position := .test } := by
        simp [Loop.increment, hit, hresume, hdone]
      rw [hinc]
      show l.visited = xs
      rw [← hvisited, List.append_nil]
  | @yields _ f' ys hresume hdone hys =>
      have hresume : l.frame.resume body = some f' := hresume
      have hdone : f'.done = false := hdone
      have hinc : l.increment body =
          { l with frame := f', iterator := true, position := .test } := by
        simp [Loop.increment, hit, hresume, hdone]
      rw [hinc]
      exact ⟨ys, hvisited, hys⟩

/-- Every step of a range-for over a coroutine that yields something keeps the invariant. -/
theorem step_inv (hxs : xs ≠ []) {l l' : Loop σ} (h : Inv body xs l)
    (hstep : step body l = some l') : Inv body xs l' := by
  unfold Inv at h
  unfold step at hstep
  cases hpos : l.position with
  | begin =>
      simp only [hpos, Option.some.injEq] at h hstep
      obtain ⟨hvisited, hdone, hyields⟩ := h
      rw [← hstep]
      exact begin_inv hxs hvisited hdone hyields
  | test =>
      simp only [hpos, Option.some.injEq] at h hstep
      cases hit : l.iterator with
      | true =>
          rw [hit, if_pos rfl] at h hstep
          rw [← hstep]
          exact ⟨rfl, h⟩
      | false =>
          rw [hit, if_neg (by simp)] at h hstep
          rw [← hstep]
          exact h
  | body =>
      simp only [hpos, Option.some.injEq] at h hstep
      obtain ⟨hit, ys, hvisited, hyields⟩ := h
      rw [← hstep]
      refine ⟨hit, ys, ?_, hyields⟩
      show l.visited ++ [l.frame.value] ++ ys = xs
      rw [List.append_assoc, List.singleton_append, hvisited]
  | increment =>
      simp only [hpos, Option.some.injEq] at h hstep
      obtain ⟨hit, ys, hvisited, hyields⟩ := h
      rw [← hstep]
      exact increment_inv hit hvisited hyields
  | ended => simp [hpos] at hstep
  | undefined => simp [hpos] at hstep

theorem inv_reachable (hxs : xs ≠ []) (hyields : (Generator.ofBody body).Yields (created s) xs)
    {l : Loop σ} (hl : (machine body s).Reachable l) : Inv body xs l := by
  induction hl with
  | init hinit =>
      obtain rfl : _ = Loop.start s := hinit
      exact ⟨rfl, rfl, hyields⟩
  | step _ _ hstep ih => exact step_inv hxs ih hstep

/-- An iterator that is not at the end leads through the body to `operator++`. -/
theorem exists_increment {l : Loop σ} (hl : (machine body s).Reachable l)
    (hpos : l.position = .test) (hit : l.iterator = true) :
    ∃ l', (machine body s).Reachable l' ∧ l'.position = .increment ∧ l'.iterator = true ∧
      l'.frame = l.frame := by
  have htest : step body l = some { l with position := .body } := by
    simp [step, hpos, hit]
  have hbody : step body { l with position := .body } =
      some { l with visited := l.visited ++ [l.frame.value], position := .increment } := rfl
  exact ⟨_, (hl.step () htest).step () hbody, rfl, hit, rfl⟩

/-- From `operator++` on the range-for comes to its end. -/
theorem exists_ended {f : Frame σ ℤ} (hyields : (Generator.ofBody body).Yields f xs) {l : Loop σ}
    (hl : (machine body s).Reachable l) (hpos : l.position = .increment) (hit : l.iterator = true)
    (hframe : l.frame = f) : ∃ l', (machine body s).Reachable l' ∧ l'.position = .ended := by
  induction hyields generalizing l with
  | @returns f f' hresume hdone =>
      have hresume : l.frame.resume body = some f' := hframe ▸ hresume
      have hdone : f'.done = true := hdone
      have hinc : step body l = some { l with frame := f', iterator := false, position := .test } := by
        simp [step, hpos, Loop.increment, hit, hresume, hdone]
      have htest : step body { l with frame := f', iterator := false, position := .test } =
          some { l with frame := f', iterator := false, position := .ended } := rfl
      exact ⟨_, (hl.step () hinc).step () htest, rfl⟩
  | @yields f f' ys hresume hdone _ ih =>
      have hresume : l.frame.resume body = some f' := hframe ▸ hresume
      have hdone : f'.done = false := hdone
      have hinc : step body l = some { l with frame := f', iterator := true, position := .test } := by
        simp [step, hpos, Loop.increment, hit, hresume, hdone]
      obtain ⟨l', hl', hpos', hit', hframe'⟩ := exists_increment (hl.step () hinc) rfl rfl
      exact ih hl' hpos' hit' hframe'

theorem reachable_start : (machine body s).Reachable (Loop.start s) := Machine.Reachable.init rfl

/-- `begin()` resumes the coroutine for the first time and keeps the handle in any case. -/
theorem step_start {f : Frame σ ℤ} (hresume : (created s).resume body = some f) :
    step body (Loop.start s) =
      some { Loop.start s with frame := f, iterator := true, position := .test } := by
  have hbegin : (Loop.start s).begin body =
      { Loop.start s with frame := f, iterator := true, position := .test } := by
    have hdone : (created s).done = false := rfl
    rw [Loop.begin]
    show (if (created s).done = true then _ else match (created s).resume body with
      | some f => _
      | none => _) = _
    rw [hdone, hresume]
    rfl
  rw [← hbegin]
  rfl

/-- A coroutine that yields something is visited element by element. -/
theorem visitsExactly_of_ne_nil (hxs : xs ≠ [])
    (hyields : (Generator.ofBody body).Yields (created s) xs) : VisitsExactly body s xs := by
  constructor
  · cases hyields with
    | returns => exact absurd rfl hxs
    | @yields _ f' ys hresume _ hys =>
        have hresume : (created s).resume body = some f' := hresume
        obtain ⟨l, hl, hpos, hit, hframe⟩ :=
          exists_increment (reachable_start.step () (step_start hresume)) rfl rfl
        exact exists_ended hys hl hpos hit hframe
  · intro l hl
    have hinv := inv_reachable hxs hyields hl
    unfold Inv at hinv
    cases hpos : l.position with
    | begin =>
        simp only [hpos] at hinv
        refine ⟨by simp, ?_, by simp⟩
        rw [hinv.1]
        exact List.nil_prefix
    | test =>
        simp only [hpos] at hinv
        refine ⟨by simp, ?_, by simp⟩
        cases hit : l.iterator with
        | true =>
            rw [hit, if_pos rfl] at hinv
            rcases hinv with ⟨ys, hys, -⟩
            exact ⟨_, hys⟩
        | false =>
            rw [hit, if_neg (by simp)] at hinv
            exact hinv ▸ List.prefix_rfl
    | body =>
        simp only [hpos] at hinv
        obtain ⟨-, ys, hys, -⟩ := hinv
        exact ⟨by simp, ⟨_, hys⟩, by simp⟩
    | increment =>
        simp only [hpos] at hinv
        obtain ⟨-, ys, hys, -⟩ := hinv
        exact ⟨by simp, ⟨_, hys⟩, by simp⟩
    | ended =>
        simp only [hpos] at hinv
        exact ⟨by simp, hinv ▸ List.prefix_rfl, fun _ => hinv⟩
    | undefined =>
        simp only [hpos] at hinv

/-- The range-for over a coroutine that yields nothing executes its body with what is in
the promise, and then resumes the coroutine at its end. -/
theorem undefined_of_nil (hyields : (Generator.ofBody body).Yields (created s) []) :
    ∃ l, (machine body s).Reachable l ∧ l.position = .undefined ∧ l.visited = [0] := by
  cases hyields with
  | @returns _ f' hresume hdone =>
      have hresume : (created s).resume body = some f' := hresume
      have hdone : f'.done = true := hdone
      have htest : step body { Loop.start s with frame := f', iterator := true, position := .test } =
          some { Loop.start s with frame := f', iterator := true, position := .body } := rfl
      have hbody : step body { Loop.start s with frame := f', iterator := true, position := .body } =
          some { Loop.start s with
            frame := f', iterator := true, visited := [f'.value], position := .increment } := rfl
      have hinc : step body { Loop.start s with
            frame := f', iterator := true, visited := [f'.value], position := .increment } =
          some { Loop.start s with
            frame := f', iterator := true, visited := [f'.value], position := .undefined } := by
        simp [step, Loop.increment, Generator.resume_of_done hdone]
      have hreach := ((reachable_start.step () (step_start hresume)).step () htest).step () hbody
      refine ⟨_, hreach.step () hinc, rfl, ?_⟩
      show [f'.value] = [0]
      rw [Generator.value_of_done hresume hdone]
      rfl

/-- For every body that yields a finite list and returns: the range-for executes its body
exactly once for each of the elements, in order, and never resumes the coroutine after it is
done, if and only if the list is not empty. -/
theorem visitsExactly_iff (hyields : (Generator.ofBody body).Yields (created s) xs) :
    VisitsExactly body s xs ↔ xs ≠ [] := by
  constructor
  · rintro ⟨-, h⟩ rfl
    obtain ⟨l, hl, hpos, -⟩ := undefined_of_nil hyields
    exact (h l hl).1 hpos
  · intro hxs
    exact visitsExactly_of_ne_nil hxs hyields

end Loops

/-! ## `integers` -/

/-- `integers(start, end)` yields `start, ..., end`. -/
theorem yields_integers (first : ℤ) (n : ℕ) (a : ℤ) :
    (Generator.ofBody (integers (first + n - 1))).Yields ⟨a, .suspended first⟩
      ((List.range n).map fun k : ℕ => first + (k : ℤ)) := by
  induction n generalizing first a with
  | zero =>
      apply Generator.yields_of_none
      simp [integers]
  | succ n ih =>
      have hbody : integers (first + (n + 1 : ℕ) - 1) first = some (first, first + 1) := by
        rw [integers, if_pos (by omega)]
      have hrest := ih (first + 1) first
      have hlast : first + 1 + (n : ℤ) - 1 = first + (n + 1 : ℕ) - 1 := by omega
      have hlist : (List.range (n + 1)).map (fun k : ℕ => first + (k : ℤ)) =
          first :: (List.range n).map fun k : ℕ => first + 1 + (k : ℤ) := by
        rw [List.range_succ_eq_map, List.map_cons, List.map_map]
        refine List.cons_eq_cons.mpr ⟨by simp, List.map_congr_left fun k _ => ?_⟩
        show first + ((k + 1 : ℕ) : ℤ) = first + 1 + (k : ℤ)
        omega
      rw [hlast] at hrest
      rw [hlist]
      exact Generator.yields_of_some hbody hrest

/-- `integers(0, 9)` in a range-for, as in `main`. -/
theorem visitsExactly_iff_integers :
    VisitsExactly (integers 9) 0 ((List.range 10).map fun k : ℕ => 0 + (k : ℤ)) ↔
      ((List.range 10).map fun k : ℕ => 0 + (k : ℤ)) ≠ [] :=
  visitsExactly_iff (yields_integers 0 10 0)

/-- `integers(1, 0)` yields nothing, and the range-for does not visit nothing. -/
theorem integers_visits_stale :
    (Generator.ofBody (integers 0)).Yields (created 1) [] ∧ ¬ VisitsExactly (integers 0) 1 [] := by
  have hyields : (Generator.ofBody (integers 0)).Yields (created 1) [] := yields_integers 1 0 0
  refine ⟨hyields, ?_⟩
  rintro ⟨-, h⟩
  obtain ⟨l, hl, hpos, -⟩ := undefined_of_nil hyields
  exact (h l hl).1 hpos

end CppCoroutines.IntGenerator
