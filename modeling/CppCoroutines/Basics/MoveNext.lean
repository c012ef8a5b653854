import CppCoroutines.Generator

/-!
# `move_next`

The generator of `yield1.cpp`, which its caller advances by `move_next`. The body of a
coroutine may throw: `unhandled_exception` puts the exception into the promise, and the
coroutine stops at its end as it does after a return. `move_next` resumes a coroutine
whenever there is one, and says no more than whether it has come to its end.
-/

namespace CppCoroutines.MoveNext

open Generator (Stage)

variable {σ ε : Type}

/-- What the body of a coroutine comes to when it runs on. -/
inductive Suspension (σ ε : Type) where
  /-- a `co_yield`, with the locals there -/
  | yields (value : ℤ) (locals : σ)
  | returns
  | throws (e : ε)
deriving DecidableEq, Repr

/-- How a body ends. -/
inductive Ending (ε : Type) where
  | returned
  | threw (e : ε)
deriving DecidableEq, Repr

/-- From these locals on the body yields these values, one after another, and then ends. -/
inductive Runs (body : σ → Suspension σ ε) : σ → List ℤ → Ending ε → Prop where
  | returns {s : σ} : body s = .returns → Runs body s [] .returned
  | throws {s : σ} {e : ε} : body s = .throws e → Runs body s [] (.threw e)
  | yields {s s' : σ} {x : ℤ} {xs : List ℤ} {ending : Ending ε} : body s = .yields x s' →
      Runs body s' xs ending → Runs body s (x :: xs) ending

/-! ## The coroutine -/

/-- The frame of a coroutine, with the members of `promise_type`. -/
structure Frame (σ ε : Type) where
  currentValue : ℤ
  exception : Option ε
  stage : Stage σ
deriving DecidableEq, Repr

/-- The coroutine at its initial suspension; nothing has set `current_value_`. -/
def created (garbage : ℤ) (s : σ) : Frame σ ε := ⟨garbage, none, .suspended s⟩

/-- `coro_.resume()`, `none` for a coroutine that is done. -/
def Frame.resume (body : σ → Suspension σ ε) (f : Frame σ ε) : Option (Frame σ ε) :=
  match f.stage with
  | .suspended s =>
      match body s with
      -- `yield_value`
      | .yields value s' => some { f with currentValue := value, stage := .suspended s' }
      -- `return_void` and `final_suspend`
      | .returns => some { f with stage := .done }
      -- `unhandled_exception` and `final_suspend`
      | .throws e => some { f with exception := some e, stage := .done }
  | .done => none

/-- `coro_.done()`. -/
def Frame.done (f : Frame σ ε) : Bool :=
  match f.stage with
  | .suspended _ => false
  | .done => true

/-- What the owner of a coroutine with this body can do with its frame. -/
def coroutine (body : σ → Suspension σ ε) : Generator (Frame σ ε) ℤ where
  resume := Frame.resume body
  done := Frame.done
  value := Frame.currentValue

/-! ## The class -/

/-- `generator`; its handle is null if the frame could not be allocated. -/
structure Handle (σ ε : Type) where
  coro : Option (Frame σ ε)
deriving DecidableEq, Repr

/-- `move_next`: what it returns or throws, `none` where its behaviour is undefined. -/
def Handle.moveNext (body : σ → Suspension σ ε) (g : Handle σ ε) :
    Option (Except ε Bool × Handle σ ε) :=
  match g.coro with
  | some f =>
      -- `resume()` lets no exception out: `unhandled_exception` has returned
      (f.resume body).map fun f' => (.ok !f'.done, ⟨some f'⟩)
  | none => some (.ok false, g)

/-- `current_value`, `none` for a null handle. -/
def Handle.currentValue (g : Handle σ ε) : Option ℤ := g.coro.map Frame.currentValue

/-- A call of `move_next`, and what `current_value` returns after it. -/
structure Call (ε : Type) where
  answer : Except ε Bool
  value : Option ℤ

/-- `k` calls one after another, `none` once the behaviour of one is undefined. -/
def Handle.calls (body : σ → Suspension σ ε) : ℕ → Handle σ ε → Option (List (Call ε))
  | 0, _ => some []
  | k + 1, g => (g.moveNext body).bind fun r =>
      (calls body k r.2).map fun cs => ⟨r.1, r.2.currentValue⟩ :: cs

/-- What a caller may rely on: the values of the body one by one, then the end or an error,
then the end for ever. -/
structure Sound (xs : List ℤ) (ending : Ending ε) (calls : List (Call ε)) : Prop where
  values : ∀ (i : ℕ) (x : ℤ) (c : Call ε), xs[i]? = some x → calls[i]? = some c →
    c.answer = .ok true ∧ c.value = some x
  ended : ending = .returned → ∀ c, calls[xs.length]? = some c → c.answer = .ok false
  failed : ∀ e, ending = .threw e → ∀ c, calls[xs.length]? = some c → ∃ e', c.answer = .error e'
  later : ∀ i c, xs.length < i → calls[i]? = some c → c.answer = .ok false

/-- `k` calls of `move_next` on a new generator are defined, and what they return is sound. -/
def SoundFor (body : σ → Suspension σ ε) (garbage : ℤ) (s : σ) (xs : List ℤ) (ending : Ending ε)
    (k : ℕ) : Prop :=
  ∃ cs, Handle.calls body k ⟨some (created garbage s)⟩ = some cs ∧ Sound xs ending cs

/-! ## What the calls return -/

section Calls

variable {body : σ → Suspension σ ε} {s : σ} {xs : List ℤ} {ending : Ending ε} {garbage : ℤ}

/-- A coroutine that is done cannot be resumed. -/
theorem resume_of_done {f : Frame σ ε} (h : f.done = true) : f.resume body = none := by
  rcases f with ⟨value, exception, stage⟩
  cases stage with
  | suspended s => cases h
  | done => rfl

/-- The coroutine yields what its body does, however that ends. -/
theorem Runs.coroutine_yields (h : Runs body s xs ending) (x : ℤ) (exception : Option ε) :
    (coroutine body).Yields ⟨x, exception, .suspended s⟩ xs := by
  induction h generalizing x with
  | @returns s hbody =>
      have hresume : Frame.resume body ⟨x, exception, .suspended s⟩ =
          some ⟨x, exception, .done⟩ := by
        simp [Frame.resume, hbody]
      exact Generator.Yields.returns hresume rfl
  | @throws s e hbody =>
      have hresume : Frame.resume body ⟨x, exception, .suspended s⟩ =
          some ⟨x, some e, .done⟩ := by
        simp [Frame.resume, hbody]
      exact Generator.Yields.returns hresume rfl
  | @yields s s' y ys ending hbody _ ih =>
      have hresume : Frame.resume body ⟨x, exception, .suspended s⟩ =
          some ⟨y, exception, .suspended s'⟩ := by
        simp [Frame.resume, hbody]
      exact Generator.Yields.yields hresume rfl (ih y)

/-- `move_next` is the resumption of the coroutine and the test after it. -/
theorem calls_eq_pulls (k : ℕ) (f : Frame σ ε) :
    Handle.calls body k ⟨some f⟩ =
      ((coroutine body).pulls k f).map fun ps => ps.map fun p => ⟨.ok p.1, some p.2⟩ := by
  induction k generalizing f with
  | zero => rfl
  | succ k ih =>
      cases hf : f.resume body with
      | none =>
          have hresume : (coroutine body).resume f = none := hf
          simp [Handle.calls, Handle.moveNext, Generator.pulls, hf, hresume]
      | some f' =>
          have hresume : (coroutine body).resume f = some f' := hf
          rw [Generator.pulls_succ hresume, Option.map_map]
          simp only [Handle.calls, Handle.moveNext, hf, Option.map_some, Option.bind_some, ih f',
            Option.map_map]
          rfl

/-- Calls that do not go past the values return them. -/
theorem soundFor_of_le (h : Runs body s xs ending) {k : ℕ} (hk : k ≤ xs.length) :
    SoundFor body garbage s xs ending k := by
  have hpulls := (h.coroutine_yields garbage none).pulls_of_le hk
  refine ⟨(xs.take k).map fun x => ⟨.ok true, some x⟩, ?_, ?_⟩
  · rw [calls_eq_pulls, created, hpulls, Option.map_some, List.map_map]
    rfl
  · have hnone : ∀ (i : ℕ) (c : Call ε), xs.length ≤ i →
        ((xs.take k).map fun x => (⟨.ok true, some x⟩ : Call ε))[i]? = some c → False := by
      intro i c hi hc
      rw [List.getElem?_eq_none (by simp; omega)] at hc
      cases hc
    constructor
    · intro i x c hx hc
      rw [List.getElem?_map, Option.map_eq_some_iff] at hc
      rcases hc with ⟨y, hy, rfl⟩
      rw [List.getElem?_take] at hy
      by_cases hi : i < k
      · rw [if_pos hi, hx] at hy
        exact ⟨rfl, hy.symm⟩
      · rw [if_neg hi] at hy
        cases hy
    · exact fun _ c hc => (hnone _ c (Nat.le_refl _) hc).elim
    · exact fun _ _ c hc => (hnone _ c (Nat.le_refl _) hc).elim
    · exact fun i c hi hc => (hnone i c (Nat.le_of_lt hi) hc).elim

/-- The call after the values returns false, whatever has ended the body. -/
theorem calls_end (garbage : ℤ) (h : Runs body s xs ending) :
    ∃ v, Handle.calls body (xs.length + 1) ⟨some (created garbage s)⟩ =
      some (xs.map (fun x => ⟨.ok true, some x⟩) ++ [⟨.ok false, some v⟩]) := by
  rcases (h.coroutine_yields garbage none).pulls_end with ⟨v, hpulls⟩
  refine ⟨v, ?_⟩
  rw [calls_eq_pulls, created, hpulls, Option.map_some, List.map_append, List.map_map]
  rfl

/-- After a return that is the end of the values. -/
theorem soundFor_of_returned (h : Runs body s xs .returned) :
    SoundFor body garbage s xs .returned (xs.length + 1) := by
  rcases calls_end garbage h with ⟨v, hcalls⟩
  have hlength : (xs.map fun x => (⟨.ok true, some x⟩ : Call ε)).length = xs.length :=
    List.length_map _
  refine ⟨_, hcalls, ?_⟩
  constructor
  · intro i x c hx hc
    have hi : i < xs.length := (List.getElem?_eq_some_iff.mp hx).1
    rw [List.getElem?_append_left (by omega), List.getElem?_map, hx, Option.map_some,
      Option.some.injEq] at hc
    rw [← hc]
    exact ⟨rfl, rfl⟩
  · intro _ c hc
    rw [List.getElem?_append_right (by omega), hlength, Nat.sub_self, List.getElem?_cons_zero,
      Option.some.injEq] at hc
    rw [← hc]
  · exact nofun
  · intro i c hi hc
    rw [List.getElem?_eq_none (by simp; omega)] at hc
    cases hc

/-- After an exception it is not what the caller has to be told. -/
theorem not_soundFor_of_threw {e : ε} (h : Runs body s xs (.threw e)) :
    ¬ SoundFor body garbage s xs (.threw e) (xs.length + 1) := by
  rintro ⟨cs, hcs, hsound⟩
  rcases calls_end garbage h with ⟨v, hcalls⟩
  rw [hcalls, Option.some.injEq] at hcs
  have hlast : cs[xs.length]? = some ⟨.ok false, some v⟩ := by
    rw [← hcs, List.getElem?_append_right (by simp), List.length_map, Nat.sub_self,
      List.getElem?_cons_zero]
  rcases hsound.failed e rfl _ hlast with ⟨e', he'⟩
  cases he'

/-- A further call resumes a coroutine that is done. -/
theorem not_soundFor_of_gt (h : Runs body s xs ending) {k : ℕ} (hk : xs.length + 1 < k) :
    ¬ SoundFor body garbage s xs ending k := by
  rintro ⟨cs, hcs, -⟩
  have hend : ∀ f, (coroutine body).done f = true → (coroutine body).resume f = none :=
    fun f hf => resume_of_done hf
  have hpulls := (h.coroutine_yields garbage none).pulls_of_gt hend hk
  rw [calls_eq_pulls, created, hpulls] at hcs
  cases hcs

/-- For every body that yields a finite list and returns or throws, and every number of
calls: `move_next` is sound if and only if it is not called after the values, or once and
the body has returned. -/
theorem sound_iff (h : Runs body s xs ending) (k : ℕ) :
    SoundFor body garbage s xs ending k ↔
      k ≤ xs.length ∨ k = xs.length + 1 ∧ ending = .returned := by
  constructor
  · intro hsound
    by_contra hcon
    rcases Nat.lt_or_ge (xs.length + 1) k with hgt | hge
    · exact not_soundFor_of_gt h hgt hsound
    · have hk : k = xs.length + 1 := by omega
      subst hk
      cases ending with
      | returned => exact hcon (Or.inr ⟨rfl, rfl⟩)
      | threw e => exact not_soundFor_of_threw h hsound
  · rintro (hk | ⟨rfl, rfl⟩)
    · exact soundFor_of_le h hk
    · exact soundFor_of_returned h

end Calls

/-! ## `f` -/

/-- The body of `f`, by how many values it has yielded. -/
def f : ℕ → Suspension ℕ ε
  | 0 => .yields 1 1
  | 1 => .yields 2 2
  | _ => .returns

theorem runs_f : Runs (f : ℕ → Suspension ℕ ε) 0 [1, 2] .returned :=
  .yields rfl (.yields rfl (.returns rfl))

/-- The loop of `main` calls `move_next` three times. -/
theorem sound_iff_main :
    SoundFor (f : ℕ → Suspension ℕ String) 0 0 [1, 2] .returned 3 ↔
      3 ≤ 2 ∨ 3 = 2 + 1 ∧ (.returned : Ending String) = .returned :=
  sound_iff runs_f 3

/-- One call more resumes the coroutine at its end, and a body that throws at once is taken
for one that yields nothing. -/
theorem calls_past_end :
    ¬ (∀ (body : ℕ → Suspension ℕ String) (s : ℕ) (xs : List ℤ) (ending : Ending String) (k : ℕ),
        Runs body s xs ending → SoundFor body 0 s xs ending k) ∧
      ¬ SoundFor (f : ℕ → Suspension ℕ String) 0 0 [1, 2] .returned 4 ∧
      ¬ SoundFor (fun _ : ℕ => .throws "failed") 0 0 [] (.threw "failed") 1 := by
  have hf : ¬ SoundFor (f : ℕ → Suspension ℕ String) 0 0 [1, 2] .returned 4 :=
    not_soundFor_of_gt runs_f (by decide)
  have hthrows : ¬ SoundFor (fun _ : ℕ => .throws "failed") 0 0 [] (.threw "failed") 1 :=
    not_soundFor_of_threw (.throws rfl)
  exact ⟨fun h => hf (h f 0 [1, 2] .returned 4 runs_f), hf, hthrows⟩

end CppCoroutines.MoveNext
