import Mathlib.Logic.Relation
import Mathlib.Data.List.Basic

/-!
# Guarded machines

A machine steps by a partial function: `step s e` is the state after event `e`,
or `none` when `e` is not enabled in `s`. Everything below is proved from that
semantics: invariant induction over reachable states, runs over event lists,
projections between machines, interleavings of a family, and rank functions.
-/

universe u v w x

/-- A guarded machine over states `σ` and events `ε`. -/
structure Machine (σ : Type u) (ε : Type v) where
  /-- The states a run may start from. -/
  init : σ → Prop
  /-- The state after an event, where the event is enabled. -/
  step : σ → ε → Option σ

namespace Machine

variable {σ : Type u} {ε : Type v} {τ : Type w} {δ : Type x}

/-- The states some run reaches. -/
inductive Reachable (M : Machine σ ε) : σ → Prop where
  | init {s : σ} : M.init s → Reachable M s
  | step {s s' : σ} (e : ε) : Reachable M s → M.step s e = some s' → Reachable M s'

/-- The state after a list of events, `none` once one of them is not enabled. -/
def run (M : Machine σ ε) : σ → List ε → Option σ
  | s, [] => some s
  | s, e :: es => (M.step s e).bind fun s' => M.run s' es

/-- No event is enabled. -/
def Stuck (M : Machine σ ε) (s : σ) : Prop := ∀ e, M.step s e = none

/-! ## Runs -/

@[simp] theorem run_nil (M : Machine σ ε) (s : σ) : M.run s [] = some s := rfl

theorem run_cons (M : Machine σ ε) (s : σ) (e : ε) (es : List ε) :
    M.run s (e :: es) = (M.step s e).bind fun s' => M.run s' es := rfl

/-- A run over a non-empty list is one step followed by the rest of the run. -/
theorem run_cons_eq_some {M : Machine σ ε} {s t : σ} {e : ε} {es : List ε} :
    M.run s (e :: es) = some t ↔ ∃ s', M.step s e = some s' ∧ M.run s' es = some t := by
  simp [run_cons, Option.bind_eq_some_iff]

theorem run_append (M : Machine σ ε) (s : σ) (es fs : List ε) :
    M.run s (es ++ fs) = (M.run s es).bind fun s' => M.run s' fs := by
  induction es generalizing s with
  | nil => rfl
  | cons e es ih =>
      rw [List.cons_append, run_cons, run_cons]
      cases M.step s e with
      | none => rfl
      | some s' => exact ih s'

/-- Runs from reachable states stay among the reachable states. -/
theorem Reachable.run {M : Machine σ ε} {s t : σ} {es : List ε} (hs : M.Reachable s)
    (hrun : M.run s es = some t) : M.Reachable t := by
  induction es generalizing s with
  | nil =>
      rw [run_nil, Option.some.injEq] at hrun
      exact hrun ▸ hs
  | cons e es ih =>
      rcases run_cons_eq_some.mp hrun with ⟨s', hstep, hrest⟩
      exact ih (hs.step e hstep) hrest

/-! ## Invariants -/

/-- An inductive invariant: it holds initially and every step keeps it. -/
structure Inductive (M : Machine σ ε) (inv : σ → Prop) : Prop where
  init : ∀ s, M.init s → inv s
  step : ∀ s e s', inv s → M.step s e = some s' → inv s'

/-- Invariant induction: an inductive invariant holds in every reachable state. -/
theorem Inductive.reachable {M : Machine σ ε} {inv : σ → Prop} (h : M.Inductive inv) {s : σ}
    (hs : M.Reachable s) : inv s := by
  induction hs with
  | init hs => exact h.init _ hs
  | step e _ hstep ih => exact h.step _ e _ ih hstep

/-! ## Conditions on the steps and the states of a run -/

/-- Every step of the run meets `C` in the state it is taken from. -/
def Along (M : Machine σ ε) (C : σ → ε → Prop) : σ → List ε → Prop
  | _, [] => True
  | s, e :: es => C s e ∧ ∀ s', M.step s e = some s' → M.Along C s' es

/-- `P` holds in every state the run goes through, its first and its last included. -/
def Throughout (M : Machine σ ε) (P : σ → Prop) : σ → List ε → Prop
  | s, [] => P s
  | s, e :: es => P s ∧ ∀ s', M.step s e = some s' → M.Throughout P s' es

/-- The states a run goes through are those its prefixes end in. -/
theorem throughout_iff {M : Machine σ ε} {P : σ → Prop} {s : σ} {es : List ε} :
    M.Throughout P s es ↔ ∀ fs, fs <+: es → ∀ t, M.run s fs = some t → P t := by
  induction es generalizing s with
  | nil => simp [Throughout]
  | cons e es ih =>
      constructor
      · rintro ⟨hs, hrest⟩ fs hfs t hrun
        cases fs with
        | nil =>
            rw [run_nil, Option.some.injEq] at hrun
            exact hrun ▸ hs
        | cons f fs =>
            rcases List.cons_prefix_cons.mp hfs with ⟨rfl, htail⟩
            rcases run_cons_eq_some.mp hrun with ⟨s', hstep, hrun⟩
            exact ih.mp (hrest s' hstep) fs htail t hrun
      · intro h
        constructor
        · exact h [] List.nil_prefix s rfl
        · intro s' hstep
          apply ih.mpr
          intro fs hfs t hrun
          exact h (e :: fs) (List.cons_prefix_cons.mpr ⟨rfl, hfs⟩) t
            (run_cons_eq_some.mpr ⟨s', hstep, hrun⟩)

/-- A run keeps to the good states as long as its steps meet `C`; the first that does
not leads to a bad state, and what is bad stays bad. -/
theorem run_good_or_bad {M : Machine σ ε} {C : σ → ε → Prop} {good bad : σ → Prop}
    (hgood : ∀ s e s', good s → M.step s e = some s' → C s e → good s')
    (hslip : ∀ s e s', good s → M.step s e = some s' → ¬ C s e → bad s')
    (hbad : ∀ s e s', bad s → M.step s e = some s' → bad s') {s t : σ} {es : List ε}
    (hs : good s) (hrun : M.run s es = some t) :
    M.Along C s es ∧ good t ∨ ¬ M.Along C s es ∧ bad t := by
  have hrest : ∀ {s t : σ} {es : List ε}, bad s → M.run s es = some t → bad t := by
    intro s t es hs hrun
    induction es generalizing s with
    | nil =>
        rw [run_nil, Option.some.injEq] at hrun
        exact hrun ▸ hs
    | cons e es ih =>
        rcases run_cons_eq_some.mp hrun with ⟨s', hstep, hrun⟩
        exact ih (hbad s e s' hs hstep) hrun
  induction es generalizing s with
  | nil =>
      rw [run_nil, Option.some.injEq] at hrun
      exact Or.inl ⟨trivial, hrun ▸ hs⟩
  | cons e es ih =>
      rcases run_cons_eq_some.mp hrun with ⟨s', hstep, hrun⟩
      by_cases hC : C s e
      · rcases ih (hgood s e s' hs hstep hC) hrun with ⟨halong, ht⟩ | ⟨hnot, ht⟩
        · refine Or.inl ⟨⟨hC, fun s'' hstep' => ?_⟩, ht⟩
          rw [hstep, Option.some.injEq] at hstep'
          exact hstep' ▸ halong
        · exact Or.inr ⟨fun h => hnot (h.2 s' hstep), ht⟩
      · exact Or.inr ⟨fun h => hC h.1, hrest (hslip s e s' hs hstep hC) hrun⟩

/-- A property of all states of a run is a condition on its steps, where the steps that
meet the condition keep to good states, which have the property, and any other leads at
once to a state that lacks it. -/
theorem throughout_iff_along {M : Machine σ ε} {C : σ → ε → Prop} {good P : σ → Prop}
    (hP : ∀ s, good s → P s)
    (hgood : ∀ s e s', good s → M.step s e = some s' → C s e → good s')
    (hslip : ∀ s e s', good s → M.step s e = some s' → ¬ C s e → ¬ P s') {s t : σ}
    {es : List ε} (hs : good s) (hrun : M.run s es = some t) :
    M.Throughout P s es ↔ M.Along C s es := by
  induction es generalizing s with
  -- an empty run takes no step and goes through `s` only
  | nil => exact ⟨fun _ => trivial, fun _ => hP s hs⟩
  | cons e es ih =>
      rcases run_cons_eq_some.mp hrun with ⟨s', hstep, hrun⟩
      have hnext : ∀ {Q : σ → Prop}, (∀ s'', M.step s e = some s'' → Q s'') ↔ Q s' := by
        intro Q
        rw [hstep]
        simp
      -- the first step decides: good states go on, a slip is seen at once
      by_cases hC : C s e
      · show (P s ∧ _) ↔ (C s e ∧ _)
        rw [hnext, hnext, ih (hgood s e s' hs hstep hC) hrun]
        simp [hC, hP s hs]
      · constructor
        · rintro ⟨-, hrest⟩
          have hs' : P s' := by
            cases es with
            | nil => exact hrest s' hstep
            | cons f fs => exact (hrest s' hstep).1
          exact absurd hs' (hslip s e s' hs hstep hC)
        · rintro ⟨h, -⟩
          exact absurd h hC

/-! ## Simulations -/

/-- A forward simulation: related states stay related when `M` steps, while `N`
performs a matching step or none. -/
structure Simulation (M : Machine σ ε) (N : Machine τ δ) (R : σ → τ → Prop) : Prop where
  init : ∀ s, M.init s → ∃ t, N.init t ∧ R s t
  step : ∀ s e s' t, R s t → M.step s e = some s' →
    R s' t ∨ ∃ d t', N.step t d = some t' ∧ R s' t'

/-- Every reachable state is related to a reachable state of the simulating machine. -/
theorem Simulation.reachable {M : Machine σ ε} {N : Machine τ δ} {R : σ → τ → Prop}
    (h : M.Simulation N R) {s : σ} (hs : M.Reachable s) : ∃ t, N.Reachable t ∧ R s t := by
  induction hs with
  | init hs =>
      rcases h.init _ hs with ⟨t, ht, hR⟩
      exact ⟨t, Reachable.init ht, hR⟩
  | step e _ hstep ih =>
      rcases ih with ⟨t, ht, hR⟩
      rcases h.step _ e _ t hR hstep with hR' | ⟨d, t', hd, hR'⟩
      · exact ⟨t, ht, hR'⟩
      · exact ⟨t', ht.step d hd, hR'⟩

/-- A run of the machine is matched by a run of the simulating one. -/
theorem Simulation.run {M : Machine σ ε} {N : Machine τ δ} {R : σ → τ → Prop}
    (h : M.Simulation N R) {s s' : σ} {t : τ} {es : List ε} (hR : R s t)
    (hrun : M.run s es = some s') : ∃ ds t', N.run t ds = some t' ∧ R s' t' := by
  induction es generalizing s t with
  | nil =>
      rw [run_nil, Option.some.injEq] at hrun
      exact ⟨[], t, rfl, hrun ▸ hR⟩
  | cons e es ih =>
      rcases run_cons_eq_some.mp hrun with ⟨s₁, hstep, hrest⟩
      rcases h.step s e s₁ t hR hstep with hR' | ⟨d, t₁, hd, hR'⟩
      · -- the simulating machine stays where it is
        exact ih hR' hrest
      · obtain ⟨ds, t', hds, ht'⟩ := ih hR' hrest
        exact ⟨d :: ds, t', run_cons_eq_some.mpr ⟨t₁, hd, hds⟩, ht'⟩

/-- `f` maps every step of `M` to a step of `N` or to no step at all. -/
structure Projection (M : Machine σ ε) (N : Machine τ δ) (f : σ → τ) : Prop where
  init : ∀ s, M.init s → N.init (f s)
  step : ∀ s e s', M.step s e = some s' → f s' = f s ∨ ∃ d, N.step (f s) d = some (f s')

/-- A projection is a simulation by its graph. -/
theorem Projection.simulation {M : Machine σ ε} {N : Machine τ δ} {f : σ → τ}
    (h : M.Projection N f) : M.Simulation N (fun s t => f s = t) := by
  refine ⟨fun s hs => ⟨f s, h.init s hs, rfl⟩, ?_⟩
  rintro s e s' - rfl hstep
  rcases h.step s e s' hstep with heq | ⟨d, hd⟩
  · exact Or.inl heq
  · exact Or.inr ⟨d, f s', hd, rfl⟩

/-- A projection maps reachable states to reachable states. -/
theorem Projection.reachable {M : Machine σ ε} {N : Machine τ δ} {f : σ → τ}
    (h : M.Projection N f) {s : σ} (hs : M.Reachable s) : N.Reachable (f s) := by
  rcases h.simulation.reachable hs with ⟨t, ht, heq⟩
  rw [heq]
  exact ht

/-! ## Coverings -/

/-- No reachable state is stuck. -/
def DeadlockFree (M : Machine σ ε) : Prop := ∀ s, M.Reachable s → ¬ M.Stuck s

/-- `f` forgets something that decides no step: from a state with `inv` the machine `N` can
take the images of the steps of `M`, and no others. -/
structure Covering (M : Machine σ ε) (N : Machine τ δ) (inv : σ → Prop) (f : σ → τ) : Prop where
  holds : M.Inductive inv
  init : ∀ s, M.init s → N.init (f s)
  start : ∀ t, N.init t → ∃ s, M.init s ∧ f s = t
  step : ∀ s e s', inv s → M.step s e = some s' → ∃ d, N.step (f s) d = some (f s')
  lift : ∀ s d t, inv s → N.step (f s) d = some t → ∃ e s', M.step s e = some s' ∧ f s' = t

section Coverings

variable {M : Machine σ ε} {N : Machine τ δ} {inv : σ → Prop} {f : σ → τ}

/-- A covering where the events correspond too, one by one. -/
theorem covering_of_commutes {g : ε → δ} (hg : Function.Surjective g) (holds : M.Inductive inv)
    (init : ∀ s, M.init s → N.init (f s)) (start : ∀ t, N.init t → ∃ s, M.init s ∧ f s = t)
    (commutes : ∀ s e, inv s → (M.step s e).map f = N.step (f s) (g e)) :
    M.Covering N inv f := by
  refine ⟨holds, init, start, ?_, ?_⟩
  · intro s e s' hs hstep
    refine ⟨g e, ?_⟩
    rw [← commutes s e hs, hstep, Option.map_some]
  · intro s d t hs hstep
    rcases hg d with ⟨e, rfl⟩
    rw [← commutes s e hs] at hstep
    rcases Option.map_eq_some_iff.mp hstep with ⟨s', hs', heq⟩
    exact ⟨e, s', hs', heq⟩

theorem Covering.reachable (h : M.Covering N inv f) {s : σ} (hs : M.Reachable s) :
    N.Reachable (f s) := by
  induction hs with
  | init hs => exact Reachable.init (h.init _ hs)
  | @step s s' e hs hstep ih =>
      rcases h.step s e s' (h.holds.reachable hs) hstep with ⟨d, hd⟩
      exact ih.step d hd

/-- Every reachable state of `N` lies below one of `M`. -/
theorem Covering.exists_reachable (h : M.Covering N inv f) {t : τ} (ht : N.Reachable t) :
    ∃ s, M.Reachable s ∧ f s = t := by
  induction ht with
  | init ht =>
      rcases h.start _ ht with ⟨s, hs, heq⟩
      exact ⟨s, Reachable.init hs, heq⟩
  | @step t t' d _ hstep ih =>
      rcases ih with ⟨s, hs, rfl⟩
      rcases h.lift s d t' (h.holds.reachable hs) hstep with ⟨e, s', he, heq⟩
      exact ⟨s', hs.step e he, heq⟩

theorem Covering.stuck_iff (h : M.Covering N inv f) {s : σ} (hs : M.Reachable s) :
    M.Stuck s ↔ N.Stuck (f s) := by
  have hinv := h.holds.reachable hs
  constructor
  · intro hstuck d
    by_contra hd
    rcases Option.ne_none_iff_exists'.mp hd with ⟨t, ht⟩
    rcases h.lift s d t hinv ht with ⟨e, s', he, -⟩
    rw [hstuck e] at he
    cases he
  · intro hstuck e
    by_contra he
    rcases Option.ne_none_iff_exists'.mp he with ⟨s', hs'⟩
    rcases h.step s e s' hinv hs' with ⟨d, hd⟩
    rw [hstuck d] at hd
    cases hd

/-- Both machines deadlock or none. -/
theorem Covering.deadlockFree_iff (h : M.Covering N inv f) : M.DeadlockFree ↔ N.DeadlockFree := by
  constructor
  · intro hfree t ht hstuck
    rcases h.exists_reachable ht with ⟨s, hs, rfl⟩
    exact hfree s hs ((h.stuck_iff hs).mpr hstuck)
  · intro hfree s hs hstuck
    exact hfree (f s) (h.reachable hs) ((h.stuck_iff hs).mp hstuck)

end Coverings

/-! ## Restrictions -/

/-- The machine without the events that are not allowed. -/
def restrict (M : Machine σ ε) (allowed : ε → Bool) : Machine σ ε where
  init := M.init
  step s e := if allowed e then M.step s e else none

theorem restrict_step_eq_some {M : Machine σ ε} {allowed : ε → Bool} {s s' : σ} {e : ε} :
    (M.restrict allowed).step s e = some s' ↔ allowed e = true ∧ M.step s e = some s' :=
  Option.ite_none_right_eq_some

/-- A run without those events is a run. -/
theorem Reachable.run_restrict {M : Machine σ ε} {allowed : ε → Bool} {s t : σ} {es : List ε}
    (hs : M.Reachable s) (hrun : (M.restrict allowed).run s es = some t) : M.Reachable t := by
  induction es generalizing s with
  | nil =>
      rw [run_nil, Option.some.injEq] at hrun
      exact hrun ▸ hs
  | cons e es ih =>
      rcases run_cons_eq_some.mp hrun with ⟨s', hstep, hrest⟩
      exact ih (hs.step e (restrict_step_eq_some.mp hstep).2) hrest

/-! ## Interleavings -/

/-- The interleaving of a family: one member steps at a time. -/
def family {ι : Type w} [DecidableEq ι] (M : Machine σ ε) : Machine (ι → σ) (ι × ε) where
  init s := ∀ i, M.init (s i)
  step s e := (M.step (s e.1) e.2).map (Function.update s e.1)

/-- Each member of a family runs as the machine it is an instance of. -/
theorem family_projection {ι : Type w} [DecidableEq ι] (M : Machine σ ε) (i : ι) :
    (M.family (ι := ι)).Projection M (fun s => s i) := by
  constructor
  · intro s hs
    exact hs i
  · rintro s ⟨j, e⟩ s' hstep
    rcases Option.map_eq_some_iff.mp hstep with ⟨t, ht, rfl⟩
    by_cases hij : i = j
    · subst hij
      exact Or.inr ⟨e, by simpa using ht⟩
    · exact Or.inl (by simp [hij])

/-! ## Ranks -/

/-- `rank` strictly decreases with every step. -/
def Decreases (M : Machine σ ε) (rank : σ → ℕ) : Prop :=
  ∀ s e s', M.step s e = some s' → rank s' < rank s

/-- A rank that decreases with every step from a state with `inv` bounds the length of every
run from there. -/
theorem length_le_of_inv {M : Machine σ ε} {inv : σ → Prop} {rank : σ → ℕ}
    (h : ∀ s e s', inv s → M.step s e = some s' → inv s' ∧ rank s' < rank s) {s t : σ}
    {es : List ε} (hs : inv s) (hrun : M.run s es = some t) : es.length + rank t ≤ rank s := by
  induction es generalizing s with
  | nil =>
      rw [run_nil, Option.some.injEq] at hrun
      simp [hrun]
  | cons e es ih =>
      rcases run_cons_eq_some.mp hrun with ⟨s', hstep, hrest⟩
      obtain ⟨hs', hlt⟩ := h s e s' hs hstep
      have hle := ih hs' hrest
      rw [List.length_cons]
      omega

/-- A rank that every step takes one from says how long the run was. -/
theorem length_eq_of_inv {M : Machine σ ε} {inv : σ → Prop} {rank : σ → ℕ}
    (h : ∀ s e s', inv s → M.step s e = some s' → inv s' ∧ rank s' + 1 = rank s) {s t : σ}
    {es : List ε} (hs : inv s) (hrun : M.run s es = some t) :
    inv t ∧ es.length + rank t = rank s := by
  induction es generalizing s with
  | nil =>
      rw [run_nil, Option.some.injEq] at hrun
      subst hrun
      exact ⟨hs, Nat.zero_add _⟩
  | cons e es ih =>
      rcases run_cons_eq_some.mp hrun with ⟨s', hstep, hrest⟩
      obtain ⟨hs', hone⟩ := h s e s' hs hstep
      obtain ⟨ht, hlength⟩ := ih hs' hrest
      rw [List.length_cons]
      exact ⟨ht, by omega⟩

/-- Under a decreasing rank some run ends in a state where no event is enabled. -/
theorem exists_stuck_of_inv {M : Machine σ ε} {inv : σ → Prop} {rank : σ → ℕ}
    (h : ∀ s e s', inv s → M.step s e = some s' → inv s' ∧ rank s' < rank s) {s : σ}
    (hs : inv s) : ∃ es t, M.run s es = some t ∧ inv t ∧ M.Stuck t := by
  induction hrank : rank s using Nat.strongRecOn generalizing s with
  | ind n ih =>
      by_cases hstuck : M.Stuck s
      · exact ⟨[], s, rfl, hs, hstuck⟩
      · -- take any step, and go on from there
        rcases not_forall.mp hstuck with ⟨e, he⟩
        rcases Option.ne_none_iff_exists'.mp he with ⟨s', hstep⟩
        obtain ⟨hs', hlt⟩ := h s e s' hs hstep
        rcases ih (rank s') (by omega) hs' rfl with ⟨es, t, hrun, ht, hend⟩
        exact ⟨e :: es, t, run_cons_eq_some.mpr ⟨s', hstep, hrun⟩, ht, hend⟩

/-- A decreasing rank bounds the length of every run. -/
theorem Decreases.length_le {M : Machine σ ε} {rank : σ → ℕ} (h : M.Decreases rank) {s t : σ}
    {es : List ε} (hrun : M.run s es = some t) : es.length + rank t ≤ rank s :=
  length_le_of_inv (fun s e s' _ hstep => ⟨trivial, h s e s' hstep⟩) trivial hrun

end Machine
