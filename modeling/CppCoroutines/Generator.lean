import Mathlib.Data.Seq.Basic

/-!
# Generators

A generator is a coroutine that its owner resumes, which leaves a value in the frame
or ends. The owner sees three things: the resumption, which is undefined for a
coroutine that is done, whether the coroutine is done, and the value. The values a
generator yields from some frame on form a lazy list.
-/

universe u v w

/-- What the owner of a coroutine can do with its frame. -/
structure Generator (φ : Type u) (α : Type v) where
  /-- The frame at its next suspension, `none` if the coroutine is already done. -/
  resume : φ → Option φ
  /-- The coroutine is suspended at its end. -/
  done : φ → Bool
  /-- The value that was yielded last. -/
  value : φ → α

namespace Generator

open Stream' (Seq)

/-! ## The values of a generator -/

section Values

variable {φ : Type u} {α : Type v} (G : Generator φ α)

/-- The next value, with the frame that has yielded it. -/
def next (f : φ) : Option (α × φ) :=
  (G.resume f).bind fun f' => if G.done f' then none else some (G.value f', f')

/-- What the coroutine yields from this frame on. -/
def values (f : φ) : Seq α := Seq.corec G.next f

/-- The coroutine yields these values from this frame on and returns. -/
inductive Yields : φ → List α → Prop where
  | returns {f f' : φ} : G.resume f = some f' → G.done f' = true → Yields f []
  | yields {f f' : φ} {as : List α} : G.resume f = some f' → G.done f' = false → Yields f' as →
      Yields f (G.value f' :: as)

variable {G}

theorem next_of_done {f f' : φ} (h : G.resume f = some f') (hdone : G.done f' = true) :
    G.next f = none := by
  rw [next, h, Option.bind_some, if_pos hdone]

theorem next_of_yield {f f' : φ} (h : G.resume f = some f') (hdone : G.done f' = false) :
    G.next f = some (G.value f', f') := by
  rw [next, h, Option.bind_some, if_neg (by simp [hdone])]

/-- A resumption that ends the coroutine is the end of its values. -/
theorem values_of_done {f f' : φ} (h : G.resume f = some f') (hdone : G.done f' = true) :
    G.values f = Seq.nil := Seq.corec_nil _ _ (next_of_done h hdone)

/-- A resumption that does not end the coroutine gives the first value. -/
theorem values_of_yield {f f' : φ} (h : G.resume f = some f') (hdone : G.done f' = false) :
    G.values f = Seq.cons (G.value f') (G.values f') := Seq.corec_cons (next_of_yield h hdone)

end Values

/-! ## Owners that resume without looking -/

section Pulls

variable {φ : Type u} {α : Type v} {G : Generator φ α}

/-- `k` resumptions one after another: after each of them whether the coroutine has stopped
at a value, and the value. It is `none` once a coroutine that is done is resumed. -/
def pulls (G : Generator φ α) : ℕ → φ → Option (List (Bool × α))
  | 0, _ => some []
  | k + 1, f => (G.resume f).bind fun f' =>
      (G.pulls k f').map fun ps => (!G.done f', G.value f') :: ps

theorem pulls_succ {f f' : φ} (h : G.resume f = some f') (k : ℕ) :
    G.pulls (k + 1) f = (G.pulls k f').map fun ps => (!G.done f', G.value f') :: ps := by
  rw [pulls, h, Option.bind_some]

/-- As many resumptions as there are values give the values. -/
theorem Yields.pulls_of_le {f : φ} {as : List α} (h : G.Yields f as) {k : ℕ}
    (hk : k ≤ as.length) : G.pulls k f = some ((as.take k).map fun a => (true, a)) := by
  induction h generalizing k with
  | returns _ _ =>
      have hzero : k = 0 := Nat.le_zero.mp hk
      rw [hzero]
      rfl
  | yields hresume hdone _ ih =>
      cases k with
      | zero => rfl
      | succ k =>
          rw [pulls_succ hresume, ih (Nat.le_of_succ_le_succ hk), hdone]
          rfl

/-- One resumption more leads to the end. -/
theorem Yields.pulls_end {f : φ} {as : List α} (h : G.Yields f as) :
    ∃ a, G.pulls (as.length + 1) f = some (as.map (fun a => (true, a)) ++ [(false, a)]) := by
  induction h with
  | @returns f f' hresume hdone =>
      refine ⟨G.value f', ?_⟩
      rw [pulls_succ hresume, hdone]
      rfl
  | yields hresume hdone _ ih =>
      rcases ih with ⟨a, ha⟩
      refine ⟨a, ?_⟩
      rw [List.length_cons, pulls_succ hresume, ha, hdone]
      rfl

/-- And one more resumes a coroutine that is done. -/
theorem Yields.pulls_of_gt (hend : ∀ f, G.done f = true → G.resume f = none) {f : φ}
    {as : List α} (h : G.Yields f as) {k : ℕ} (hk : as.length + 1 < k) : G.pulls k f = none := by
  induction h generalizing k with
  | @returns f f' hresume hdone =>
      rcases k with _ | _ | k
      · omega
      · simp at hk
      · rw [pulls_succ hresume, pulls, hend f' hdone]
        rfl
  | yields hresume _ _ ih =>
      cases k with
      | zero => omega
      | succ k =>
          rw [List.length_cons] at hk
          rw [pulls_succ hresume, ih (by omega)]
          rfl

end Pulls

/-! ## Stages over a source -/

section Stages

variable {φ : Type u} {ψ : Type v} {α : Type w} {β : Type w}

/-- Apply `u` to the elements of a list as long as it gives something. -/
def mapWhile (u : β → Option α) : Seq β → Seq α :=
  Seq.corec fun s => s.destruct.bind fun p => (u p.1).map fun a => (a, p.2)

/-- The longest prefix of elements with this property. -/
def takeWhile (p : α → Bool) : Seq α → Seq α := mapWhile fun a => if p a then some a else none

theorem mapWhile_nil (u : β → Option α) : mapWhile u Seq.nil = Seq.nil :=
  Seq.corec_nil _ _ (by simp)

theorem mapWhile_cons_of_none {u : β → Option α} {b : β} (s : Seq β) (h : u b = none) :
    mapWhile u (Seq.cons b s) = Seq.nil := by
  apply Seq.corec_nil _ _
  rw [Seq.destruct_cons]
  show (u b).map (fun a => (a, s)) = none
  rw [h, Option.map_none]

theorem mapWhile_cons_of_some {u : β → Option α} {a : α} {b : β} (s : Seq β) (h : u b = some a) :
    mapWhile u (Seq.cons b s) = Seq.cons a (mapWhile u s) := by
  apply Seq.corec_cons
  rw [Seq.destruct_cons]
  show (u b).map (fun a => (a, s)) = some (a, s)
  rw [h, Option.map_some]

/-- A total function never stops. -/
theorem mapWhile_some (u : β → α) (s : Seq β) : mapWhile (fun b => some (u b)) s = s.map u := by
  refine Seq.eq_of_bisim' (fun s₁ s₂ => ∃ s, s₁ = mapWhile (fun b => some (u b)) s ∧ s₂ = s.map u)
    ⟨s, rfl, rfl⟩ ?_
  rintro _ _ ⟨s, rfl, rfl⟩
  cases s with
  | nil => exact Or.inl ⟨mapWhile_nil _, Seq.map_nil _⟩
  | cons b s =>
      exact Or.inr ⟨u b, _, _, mapWhile_cons_of_some s rfl, Seq.map_cons _ _ _, s, rfl, rfl⟩

variable {G : Generator φ α} {H : Generator ψ β} {u : β → Option α}

/-- A generator that resumes its source once for each resumption of its own, and ends when
the source does or when `u` gives nothing, yields what `u` makes of the source. -/
theorem values_eq_mapWhile {R : φ → ψ → Prop}
    (hstep : ∀ f g, R f g → ∃ f' g', G.resume f = some f' ∧ H.resume g = some g' ∧
      ((G.done f' = true ∧ (H.done g' = true ∨ H.done g' = false ∧ u (H.value g') = none)) ∨
        (G.done f' = false ∧ H.done g' = false ∧ u (H.value g') = some (G.value f') ∧ R f' g')))
    {f : φ} {g : ψ} (h : R f g) : G.values f = mapWhile u (H.values g) := by
  refine Seq.eq_of_bisim'
    (fun s₁ s₂ => ∃ f g, R f g ∧ s₁ = G.values f ∧ s₂ = mapWhile u (H.values g))
    ⟨f, g, h, rfl, rfl⟩ ?_
  rintro _ _ ⟨f, g, hR, rfl, rfl⟩
  obtain ⟨f', g', hf, hg, hcases⟩ := hstep f g hR
  rcases hcases with ⟨hdone, hend⟩ | ⟨hdone, hsource, hu, hR'⟩
  · refine Or.inl ⟨values_of_done hf hdone, ?_⟩
    rcases hend with hsource | ⟨hsource, hu⟩
    · rw [values_of_done hg hsource, mapWhile_nil]
    · rw [values_of_yield hg hsource, mapWhile_cons_of_none _ hu]
  · refine Or.inr ⟨_, _, _, values_of_yield hf hdone, ?_, f', g', hR', rfl, rfl⟩
    rw [values_of_yield hg hsource, mapWhile_cons_of_some _ hu]

end Stages

/-! ## Bodies that are not coroutines themselves -/

section Bodies

variable {σ : Type w} {α : Type v}

/-- Where a coroutine stands: at its initial suspension or at a `co_yield`, with its
locals, or at its final suspension. -/
inductive Stage (σ : Type w) where
  | suspended (locals : σ)
  | done
deriving DecidableEq, Repr

/-- The frame of a coroutine with locals `σ` and a promise that keeps the last value. -/
structure Frame (σ : Type w) (α : Type v) where
  value : α
  stage : Stage σ
deriving DecidableEq, Repr

/-- The body runs to its next `co_yield`, or to its end. -/
def Frame.resume (body : σ → Option (α × σ)) (f : Frame σ α) : Option (Frame σ α) :=
  match f.stage with
  | .suspended s =>
      match body s with
      | some (a, s') => some ⟨a, .suspended s'⟩
      | none => some ⟨f.value, .done⟩
  | .done => none

/-- The final suspension has been reached. -/
def Frame.done (f : Frame σ α) : Bool :=
  match f.stage with
  | .suspended _ => false
  | .done => true

/-- The generator of a body that says what it yields next. -/
def ofBody (body : σ → Option (α × σ)) : Generator (Frame σ α) α where
  resume := Frame.resume body
  done := Frame.done
  value := Frame.value

variable {body : σ → Option (α × σ)}

/-- A coroutine that is done cannot be resumed. -/
theorem resume_of_done {f : Frame σ α} (h : f.done = true) : f.resume body = none := by
  rcases f with ⟨a, stage⟩
  cases stage with
  | suspended s => simp [Frame.done] at h
  | done => rfl

/-- The resumption that ends the coroutine leaves the last value in the promise. -/
theorem value_of_done {f f' : Frame σ α} (h : f.resume body = some f') (hdone : f'.done = true) :
    f'.value = f.value := by
  rcases f with ⟨a, stage⟩
  cases stage with
  | suspended s =>
      cases hs : body s with
      | none =>
          simp only [Frame.resume, hs, Option.some.injEq] at h
          rw [← h]
      | some p =>
          simp only [Frame.resume, hs, Option.some.injEq] at h
          simp [← h, Frame.done] at hdone
  | done => simp [Frame.resume] at h

/-- A body that returns at once yields nothing. -/
theorem yields_of_none {s : σ} {a : α} (h : body s = none) :
    (ofBody body).Yields ⟨a, .suspended s⟩ [] := by
  have hresume : Frame.resume body ⟨a, .suspended s⟩ = some ⟨a, .done⟩ := by
    simp [Frame.resume, h]
  exact Yields.returns hresume rfl

/-- A body that yields and goes on. -/
theorem yields_of_some {s s' : σ} {a b : α} {as : List α} (h : body s = some (b, s'))
    (has : (ofBody body).Yields ⟨b, .suspended s'⟩ as) :
    (ofBody body).Yields ⟨a, .suspended s⟩ (b :: as) := by
  have hresume : Frame.resume body ⟨a, .suspended s⟩ = some ⟨b, .suspended s'⟩ := by
    simp [Frame.resume, h]
  have hyields : (ofBody body).Yields ⟨a, .suspended s⟩
      ((ofBody body).value ⟨b, .suspended s'⟩ :: as) := Yields.yields hresume rfl has
  exact hyields

end Bodies

end Generator
