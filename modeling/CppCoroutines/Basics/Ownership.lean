import CppCoroutines.Machine
import Mathlib.Logic.Function.Basic

/-!
# Owners of coroutine frames

`int_generator` of `yield2.cpp` and `resumable_thing` of `await1.cpp` own a coroutine by
the same special members: the move operations take the handle over, the destructor
destroys the frame. They differ in the suspension points of their promises, which
decide whether a call runs the body and whether a frame outlives the end of its body.
-/

namespace CppCoroutines.Ownership

/-- The two types. -/
inductive Holder where
  | intGenerator
  | resumableThing
deriving DecidableEq, Repr

/-- `initial_suspend()` is `suspend_always`. -/
def Holder.initialSuspend : Holder → Bool
  | .intGenerator => true
  | .resumableThing => false

/-- `final_suspend()` is `suspend_always`. -/
def Holder.finalSuspend : Holder → Bool
  | .intGenerator => true
  | .resumableThing => false

/-- A coroutine frame. -/
structure Frame where
  /-- the body has come to its end -/
  finished : Bool
  /-- history: how often the frame has been destroyed -/
  destroyed : ℕ
deriving DecidableEq, Repr

/-- `coroutine_handle<promise_type>`: null, or the number of a frame. -/
abbrev Handle := Option ℕ

/-- The variables that exist with their `_coroutine`, and the frames created so far. -/
structure State where
  vars : ℕ → Option Handle
  frames : List Frame
  /-- history: how often a frame has been used that was destroyed already -/
  danglingUses : ℕ

namespace State

/-- No variables, no coroutines. -/
def start : State where
  vars := fun _ => none
  frames := []
  danglingUses := 0

def setVar (s : State) (v : ℕ) (h : Option Handle) : State :=
  { s with vars := Function.update s.vars v h }

/-- The frame is used. -/
def touch (s : State) (f : ℕ) : State :=
  match s.frames[f]? with
  | some fr => if fr.destroyed = 0 then s else { s with danglingUses := s.danglingUses + 1 }
  | none => s

/-- The body runs to its next suspension or, if it finishes, to its end: `suspend_never`
there lets the frame be destroyed. -/
def runBody (k : Holder) (s : State) (f : ℕ) (finishes : Bool) : State :=
  let s := s.touch f
  if finishes then
    { s with
      frames := s.frames.modify f fun fr =>
        ⟨true, if k.finalSuspend then fr.destroyed else fr.destroyed + 1⟩ }
  else s

/-- `_coroutine.destroy()`. -/
def destroyFrame (s : State) (f : ℕ) : State :=
  let s := s.touch f
  { s with frames := s.frames.modify f fun fr => { fr with destroyed := fr.destroyed + 1 } }

/-- A call of a coroutine: `get_return_object()` initialises the variable. -/
def call (k : Holder) (s : State) (v : ℕ) (finishes : Bool) : State :=
  let f := s.frames.length
  let s := { s.setVar v (some (some f)) with frames := s.frames ++ [⟨false, 0⟩] }
  if k.initialSuspend then s else s.runBody k f finishes

/-- The destructor. -/
def destruct (k : Holder) (s : State) (v : ℕ) (h : Handle) : State :=
  let s := s.setVar v none
  match h with
  | none => s
  | some f =>
      match k with
      -- the destructor of `int_generator` prints `_coroutine.done()` first
      | .intGenerator => (s.touch f).destroyFrame f
      | .resumableThing => s.destroyFrame f

end State

/-- What a program does with variables of the type. -/
inductive Event where
  | create (v : ℕ) (finishes : Bool)
  | default (v : ℕ)
  | moveConstruct (v w : ℕ)
  | moveAssign (v w : ℕ)
  | resume (v : ℕ) (finishes : Bool)
  | destroy (v : ℕ)
deriving DecidableEq, Repr

/-- A new variable has a name that is free; the others are used while they exist, and only
a coroutine that has not finished is resumed. -/
def step (k : Holder) (s : State) : Event → Option State
  | .create v finishes => if s.vars v = none then some (s.call k v finishes) else none
  | .default v => if s.vars v = none then some (s.setVar v (some none)) else none
  | .moveConstruct v w =>
      match s.vars v, s.vars w with
      | none, some h => some ((s.setVar v (some h)).setVar w (some none))
      | _, _ => none
  | .moveAssign v w =>
      match s.vars v, s.vars w with
      | some _, some h => some (if v ≠ w then (s.setVar v (some h)).setVar w (some none) else s)
      | _, _ => none
  | .resume v finishes =>
      match s.vars v with
      | some (some f) =>
          if ∃ fr, s.frames[f]? = some fr ∧ fr.finished = false then some (s.runBody k f finishes)
          else none
      | _ => none
  | .destroy v => (s.vars v).map (s.destruct k v)

/-- Programs over any number of variables. -/
def machine (k : Holder) : Machine State Event where
  init s := s = State.start
  step := step k

/-- A variable holds a frame. -/
def State.Holds (s : State) (v f : ℕ) : Prop := s.vars v = some (some f)

/-- Every live frame is held by exactly one variable, no frame has been used after it was
destroyed, and without variables all frames have been destroyed exactly once. -/
structure Owned (s : State) : Prop where
  held : ∀ f fr, s.frames[f]? = some fr → fr.destroyed = 0 → ∃! v, s.Holds v f
  safe : s.danglingUses = 0
  released : (∀ v, s.vars v = none) → ∀ fr ∈ s.frames, fr.destroyed = 1

/-- The frame does not outlive the end of its body. -/
def Frame.gone (k : Holder) (fr : Frame) : Bool := fr.finished && !k.finalSuspend

/-- No variable is assigned another one while its own coroutine exists, and none is
destroyed while it holds the handle of a coroutine that is gone. -/
def KeepsOwner (k : Holder) (s : State) : Event → Prop
  | .moveAssign v w => v ≠ w →
      ∀ f fr, s.vars v = some (some f) → s.frames[f]? = some fr → fr.gone k = true
  | .destroy v => ∀ f fr, s.vars v = some (some f) → s.frames[f]? = some fr → fr.gone k = false
  | _ => True

/-! ## Steps that keep the owner -/

/-- A held frame has one holder and exists unless its body has ended; the others have been
destroyed once. -/
structure Good (k : Holder) (s : State) : Prop where
  unique : ∀ v w f, s.Holds v f → s.Holds w f → v = w
  held : ∀ v f, s.Holds v f →
    ∃ fr, s.frames[f]? = some fr ∧ fr.destroyed = if fr.gone k then 1 else 0
  free : ∀ f fr, s.frames[f]? = some fr → (∀ v, ¬ s.Holds v f) → fr.destroyed = 1
  safe : s.danglingUses = 0

section Steps

variable {k : Holder} {s s' : State}

theorem good_start : Good k State.start := by
  constructor
  · intro v w f h
    cases h
  · intro v f h
    cases h
  · intro f fr h
    cases h
  · rfl

theorem Good.owned (h : Good k s) : Owned s := by
  constructor
  · intro f fr hfr hlive
    by_cases hheld : ∃ v, s.Holds v f
    · obtain ⟨v, hv⟩ := hheld
      exact ⟨v, hv, fun w hw => h.unique w v f hw hv⟩
    · have hone := h.free f fr hfr fun v hv => hheld ⟨v, hv⟩
      omega
  · exact h.safe
  · intro hnone fr hfr
    obtain ⟨f, hf⟩ := List.mem_iff_getElem?.mp hfr
    apply h.free f fr hf
    intro v hv
    rw [State.Holds, hnone v] at hv
    cases hv

/-- Handles change places, and only those of coroutines that are gone are dropped. -/
theorem Good.rehold (h : Good k s) (hframes : s'.frames = s.frames)
    (hsafe : s'.danglingUses = s.danglingUses)
    (hunique : ∀ v w f, s'.Holds v f → s'.Holds w f → v = w)
    (hsub : ∀ v f, s'.Holds v f → ∃ w, s.Holds w f)
    (hdrop : ∀ v f fr, s.Holds v f → (∀ w, ¬ s'.Holds w f) → s.frames[f]? = some fr →
      fr.gone k = true) : Good k s' := by
  refine ⟨hunique, ?_, ?_, hsafe.trans h.safe⟩
  · intro v f hv
    obtain ⟨w, hw⟩ := hsub v f hv
    rw [hframes]
    exact h.held w f hw
  · intro f fr hfr hnone
    rw [hframes] at hfr
    by_cases hheld : ∃ v, s.Holds v f
    · obtain ⟨v, hv⟩ := hheld
      obtain ⟨fr', hfr', hdestroyed⟩ := h.held v f hv
      obtain rfl : fr' = fr := Option.some.inj (hfr'.symm.trans hfr)
      rw [hdestroyed, if_pos (hdrop v f fr' hv hnone hfr)]
    · exact h.free f fr hfr fun v hv => hheld ⟨v, hv⟩

theorem holds_setVar {v w f : ℕ} {h : Option Handle} :
    (s.setVar v h).Holds w f ↔ (w = v ∧ h = some (some f)) ∨ (w ≠ v ∧ s.Holds w f) := by
  unfold State.Holds State.setVar
  by_cases hw : w = v
  · subst hw
    simp
  · simp [hw]

/-- Using a frame that exists is safe. -/
theorem touch_of_live {f : ℕ} {fr : Frame} (hfr : s.frames[f]? = some fr)
    (hlive : fr.destroyed = 0) : s.touch f = s := by
  simp [State.touch, hfr, hlive]

theorem danglingUses_touch_of_destroyed {f : ℕ} {fr : Frame} (hfr : s.frames[f]? = some fr)
    (hgone : fr.destroyed ≠ 0) : (s.touch f).danglingUses = s.danglingUses + 1 := by
  simp [State.touch, hfr, hgone]

theorem danglingUses_le_touch (f : ℕ) : s.danglingUses ≤ (s.touch f).danglingUses := by
  unfold State.touch
  cases s.frames[f]? with
  | none => exact Nat.le_refl _
  | some fr =>
      by_cases hlive : fr.destroyed = 0
      · simp [hlive]
      · simp [hlive]

/-- A frame that is held changes, the others stay as they are. -/
theorem Good.modify {v f : ℕ} {fr : Frame} {g : Frame → Frame} (h : Good k s) (hv : s.Holds v f)
    (hfr : s.frames[f]? = some fr) (hg : (g fr).destroyed = if (g fr).gone k then 1 else 0) :
    Good k { s with frames := s.frames.modify f g } := by
  have hget : (s.frames.modify f g)[f]? = some (g fr) := by
    rw [List.getElem?_modify_eq, hfr]
    rfl
  refine ⟨h.unique, ?_, ?_, h.safe⟩
  · intro w f' hw
    show ∃ fr, (s.frames.modify f g)[f']? = some fr ∧ _
    by_cases hff : f = f'
    · subst hff
      exact ⟨g fr, hget, hg⟩
    · rw [List.getElem?_modify_ne _ _ hff]
      exact h.held w f' hw
  · intro f' fr' hfr' hnone
    have hff : f ≠ f' := by
      rintro rfl
      exact hnone v hv
    have hfr' : (s.frames.modify f g)[f']? = some fr' := hfr'
    rw [List.getElem?_modify_ne _ _ hff] at hfr'
    exact h.free f' fr' hfr' hnone

/-- A held coroutine that has not finished runs on. -/
theorem Good.runBody {v f : ℕ} {fr : Frame} {finishes : Bool} (h : Good k s) (hv : s.Holds v f)
    (hfr : s.frames[f]? = some fr) (hrunning : fr.finished = false) :
    Good k (s.runBody k f finishes) := by
  have hlive : fr.destroyed = 0 := by
    obtain ⟨fr', hfr', hdestroyed⟩ := h.held v f hv
    obtain rfl : fr' = fr := Option.some.inj (hfr'.symm.trans hfr)
    rw [hdestroyed]
    simp [Frame.gone, hrunning]
  rw [State.runBody, touch_of_live hfr hlive]
  cases finishes with
  | false => exact h
  | true =>
      apply h.modify hv hfr
      cases hfinal : k.finalSuspend
      · simp [Frame.gone, hfinal, hlive]
      · simp [Frame.gone, hfinal, hlive]

/-- A new frame is held by the new variable. -/
theorem Good.allocate {v : ℕ} (h : Good k s) (hv : s.vars v = none) :
    Good k { s.setVar v (some (some s.frames.length)) with frames := s.frames ++ [⟨false, 0⟩] } := by
  have hlt : ∀ w f, s.Holds w f → f < s.frames.length := by
    intro w f hw
    obtain ⟨fr, hfr, -⟩ := h.held w f hw
    exact (List.getElem?_eq_some_iff.mp hfr).1
  refine ⟨?_, ?_, ?_, h.safe⟩
  · intro w u f hw hu
    have hnew : ∀ {f}, some (some s.frames.length) = some (some f) → s.frames.length = f := by
      intro f hf
      simpa using hf
    rcases holds_setVar.mp hw with ⟨hwv, hf⟩ | ⟨-, hwold⟩
    · rcases holds_setVar.mp hu with ⟨huv, -⟩ | ⟨-, huold⟩
      · exact hwv.trans huv.symm
      · have hltu := hlt u f huold
        have hf := hnew hf
        omega
    · rcases holds_setVar.mp hu with ⟨-, hf⟩ | ⟨-, huold⟩
      · have hltw := hlt w f hwold
        have hf := hnew hf
        omega
      · exact h.unique w u f hwold huold
  · intro w f hw
    show ∃ fr, (s.frames ++ [⟨false, 0⟩])[f]? = some fr ∧ _
    rcases holds_setVar.mp hw with ⟨-, hf⟩ | ⟨-, hw⟩
    · obtain rfl : s.frames.length = f := by simpa using hf
      exact ⟨⟨false, 0⟩, by simp, rfl⟩
    · rw [List.getElem?_append_left (hlt w f hw)]
      exact h.held w f hw
  · intro f fr hfr hnone
    have hfr : (s.frames ++ [⟨false, 0⟩])[f]? = some fr := hfr
    have hne : f ≠ s.frames.length := by
      rintro rfl
      exact hnone v (holds_setVar.mpr (Or.inl ⟨rfl, rfl⟩))
    have hlen : f < s.frames.length := by
      have hf := (List.getElem?_eq_some_iff.mp hfr).1
      rw [List.length_append, List.length_singleton] at hf
      omega
    rw [List.getElem?_append_left hlen] at hfr
    refine h.free f fr hfr fun w hw => hnone w (holds_setVar.mpr (Or.inr ⟨?_, hw⟩))
    rintro rfl
    rw [State.Holds, hv] at hw
    cases hw

theorem Good.call {v : ℕ} {finishes : Bool} (h : Good k s) (hv : s.vars v = none) :
    Good k (s.call k v finishes) := by
  have hnew := h.allocate hv
  unfold State.call
  cases hinit : k.initialSuspend with
  | true =>
      simp only [if_true]
      exact hnew
  | false =>
      simp only [Bool.false_eq_true, if_false]
      have hfr : (s.frames ++ [(⟨false, 0⟩ : Frame)])[s.frames.length]? = some ⟨false, 0⟩ := by
        simp
      exact hnew.runBody (holds_setVar.mpr (Or.inl ⟨rfl, rfl⟩)) hfr rfl

theorem holds_move {v w u f : ℕ} {h : Handle} (hvw : v ≠ w) (hw : s.vars w = some h) :
    ((s.setVar v (some h)).setVar w (some none)).Holds u f ↔
      (u = v ∧ s.Holds w f) ∨ (u ≠ v ∧ u ≠ w ∧ s.Holds u f) := by
  rw [holds_setVar, holds_setVar]
  unfold State.Holds
  rw [hw]
  by_cases hu : u = v
  · subst hu
    simp [hvw]
  · simp [hu]

/-- The handle of one variable passes to another, whose own coroutine is gone if it has one. -/
theorem Good.move {v w : ℕ} {h : Handle} (hs : Good k s) (hvw : v ≠ w) (hw : s.vars w = some h)
    (hgone : ∀ f fr, s.Holds v f → s.frames[f]? = some fr → fr.gone k = true) :
    Good k ((s.setVar v (some h)).setVar w (some none)) := by
  have hholds : ∀ u f, ((s.setVar v (some h)).setVar w (some none)).Holds u f ↔
      (u = v ∧ s.Holds w f) ∨ (u ≠ v ∧ u ≠ w ∧ s.Holds u f) := fun u f => holds_move hvw hw
  refine hs.rehold rfl rfl ?_ ?_ ?_
  · intro a b f ha hb
    rcases (hholds a f).mp ha with ⟨hav, haold⟩ | ⟨-, haw, haold⟩
    · rcases (hholds b f).mp hb with ⟨hbv, -⟩ | ⟨-, hbw, hbold⟩
      · exact hav.trans hbv.symm
      · exact absurd (hs.unique b w f hbold haold) hbw
    · rcases (hholds b f).mp hb with ⟨-, hbold⟩ | ⟨-, -, hbold⟩
      · exact absurd (hs.unique a w f haold hbold) haw
      · exact hs.unique a b f haold hbold
  · intro u f hu
    rcases (hholds u f).mp hu with ⟨-, hu⟩ | ⟨-, -, hu⟩
    · exact ⟨w, hu⟩
    · exact ⟨u, hu⟩
  · intro u f fr hu hnone hfr
    by_cases huv : u = v
    · exact hgone f fr (huv ▸ hu) hfr
    · by_cases huw : u = w
      · exact absurd ((hholds v f).mpr (Or.inl ⟨rfl, huw ▸ hu⟩)) (hnone v)
      · exact absurd ((hholds u f).mpr (Or.inr ⟨huv, huw, hu⟩)) (hnone u)

/-- A coroutine that is held and not gone exists. -/
theorem Good.live {v f : ℕ} {fr : Frame} (h : Good k s) (hv : s.Holds v f)
    (hfr : s.frames[f]? = some fr) (hgone : fr.gone k = false) : fr.destroyed = 0 := by
  obtain ⟨fr', hfr', hdestroyed⟩ := h.held v f hv
  obtain rfl : fr' = fr := Option.some.inj (hfr'.symm.trans hfr)
  rw [hdestroyed, hgone]
  rfl

theorem Good.dropNull {v : ℕ} (h : Good k s) (hv : ∀ f, ¬ s.Holds v f) {h' : Option Handle}
    (hnull : ∀ f, h' ≠ some (some f)) : Good k (s.setVar v h') := by
  have hholds : ∀ u f, (s.setVar v h').Holds u f ↔ s.Holds u f := by
    intro u f
    rw [holds_setVar]
    constructor
    · rintro (⟨-, hf⟩ | ⟨-, hu⟩)
      · exact absurd hf (hnull f)
      · exact hu
    · intro hu
      refine Or.inr ⟨?_, hu⟩
      rintro rfl
      exact hv f hu
  refine h.rehold rfl rfl ?_ ?_ ?_
  · intro a b f ha hb
    exact h.unique a b f ((hholds a f).mp ha) ((hholds b f).mp hb)
  · intro u f hu
    exact ⟨u, (hholds u f).mp hu⟩
  · intro u f fr hu hnone
    exact absurd ((hholds u f).mpr hu) (hnone u)

/-- The destructor of a variable whose coroutine exists destroys it. -/
theorem Good.destruct {v : ℕ} {h : Handle} (hs : Good k s) (hv : s.vars v = some h)
    (hgone : ∀ f fr, s.vars v = some (some f) → s.frames[f]? = some fr → fr.gone k = false) :
    Good k (s.destruct k v h) := by
  cases h with
  | none =>
      refine hs.dropNull (fun f hf => ?_) (by simp)
      rw [State.Holds, hv] at hf
      cases hf
  | some f =>
      obtain ⟨fr, hfr, -⟩ := hs.held v f hv
      have hlive := hs.live hv hfr (hgone f fr hv hfr)
      have hfr' : (s.setVar v none).frames[f]? = some fr := hfr
      have hdestruct : s.destruct k v (some f) = { s.setVar v none with
          frames := s.frames.modify f fun fr => { fr with destroyed := fr.destroyed + 1 } } := by
        cases k with
        | intGenerator =>
            simp only [State.destruct, State.destroyFrame, touch_of_live hfr' hlive]
            rfl
        | resumableThing =>
            simp only [State.destruct, State.destroyFrame, touch_of_live hfr' hlive]
            rfl
      have hholds : ∀ u f', (s.destruct k v (some f)).Holds u f' ↔ u ≠ v ∧ s.Holds u f' := by
        intro u f'
        rw [hdestruct]
        show (s.setVar v none).Holds u f' ↔ _
        rw [holds_setVar]
        simp
      refine ⟨?_, ?_, ?_, ?_⟩
      · intro a b f' ha hb
        exact hs.unique a b f' ((hholds a f').mp ha).2 ((hholds b f').mp hb).2
      · intro u f' hu
        obtain ⟨huv, hu⟩ := (hholds u f').mp hu
        have hne : f ≠ f' := by
          rintro rfl
          exact huv (hs.unique u v f hu hv)
        rw [hdestruct]
        show ∃ fr, (s.frames.modify f _)[f']? = some fr ∧ _
        rw [List.getElem?_modify_ne _ _ hne]
        exact hs.held u f' hu
      · intro f' fr' hfr'' hnone
        rw [hdestruct] at hfr''
        have hfr'' : (s.frames.modify f fun fr => { fr with destroyed := fr.destroyed + 1 })[f']? =
            some fr' := hfr''
        by_cases hne : f = f'
        · subst hne
          rw [List.getElem?_modify_eq, hfr] at hfr''
          obtain rfl := Option.some.inj hfr''
          show fr.destroyed + 1 = 1
          omega
        · rw [List.getElem?_modify_ne _ _ hne] at hfr''
          refine hs.free f' fr' hfr'' fun u hu => hnone u ((hholds u f').mpr ⟨?_, hu⟩)
          rintro rfl
          rw [State.Holds, hv] at hu
          exact hne (by simpa using hu)
      · rw [hdestruct]
        exact hs.safe

/-! ## Runs -/

/-- Every operation that meets the condition keeps the owners. -/
theorem step_good {e : Event} (hs : Good k s) (hstep : step k s e = some s')
    (hkeeps : KeepsOwner k s e) : Good k s' := by
  cases e with
  | create v finishes =>
      obtain ⟨hv, heq⟩ := Option.ite_none_right_eq_some.mp hstep
      obtain rfl := Option.some.inj heq
      exact hs.call hv
  | default v =>
      obtain ⟨hv, heq⟩ := Option.ite_none_right_eq_some.mp hstep
      obtain rfl := Option.some.inj heq
      refine hs.dropNull (fun f hf => ?_) (by simp)
      rw [State.Holds, hv] at hf
      cases hf
  | moveConstruct v w =>
      cases hv : s.vars v with
      | some h => simp [step, hv] at hstep
      | none =>
          cases hw : s.vars w with
          | none => simp [step, hv, hw] at hstep
          | some h =>
              obtain rfl : (s.setVar v (some h)).setVar w (some none) = s' := by
                simpa [step, hv, hw] using hstep
              have hvw : v ≠ w := by
                rintro rfl
                rw [hv] at hw
                cases hw
              apply hs.move hvw hw
              intro f fr hf
              rw [State.Holds, hv] at hf
              cases hf
  | moveAssign v w =>
      cases hv : s.vars v with
      | none => simp [step, hv] at hstep
      | some h' =>
          cases hw : s.vars w with
          | none => simp [step, hv, hw] at hstep
          | some h =>
              by_cases hvw : v = w
              · -- self-assignment
                obtain rfl : s = s' := by
                  simpa [step, hv, hw, hvw] using hstep
                exact hs
              · obtain rfl : (s.setVar v (some h)).setVar w (some none) = s' := by
                  simpa [step, hv, hw, hvw] using hstep
                exact hs.move hvw hw (hkeeps hvw)
  | resume v finishes =>
      cases hv : s.vars v with
      | none => simp [step, hv] at hstep
      | some h =>
          cases h with
          | none => simp [step, hv] at hstep
          | some f =>
              simp only [step, hv] at hstep
              obtain ⟨⟨fr, hfr, hrunning⟩, heq⟩ := Option.ite_none_right_eq_some.mp hstep
              obtain rfl := Option.some.inj heq
              exact hs.runBody hv hfr hrunning
  | destroy v =>
      obtain ⟨h, hv, rfl⟩ := Option.map_eq_some_iff.mp hstep
      exact hs.destruct hv hkeeps

/-- An operation that does not meet it loses a coroutine or uses one that is gone. -/
theorem step_loses {e : Event} (hs : Good k s) (hstep : step k s e = some s')
    (hkeeps : ¬ KeepsOwner k s e) : ¬ Owned s' := by
  intro howned
  cases e with
  | create v finishes => exact hkeeps trivial
  | default v => exact hkeeps trivial
  | moveConstruct v w => exact hkeeps trivial
  | resume v finishes => exact hkeeps trivial
  | moveAssign v w =>
      simp only [KeepsOwner, not_forall, Bool.not_eq_true] at hkeeps
      obtain ⟨hvw, f, fr, hv, hfr, hgone⟩ := hkeeps
      cases hw : s.vars w with
      | none => simp [step, hv, hw] at hstep
      | some h =>
          obtain rfl : (s.setVar v (some h)).setVar w (some none) = s' := by
            simpa [step, hv, hw, hvw] using hstep
          -- the coroutine of the target is still there, and nothing holds it any more
          obtain ⟨u, hu, -⟩ := howned.held f fr hfr (hs.live hv hfr hgone)
          rcases (holds_move hvw hw).mp hu with ⟨-, hwf⟩ | ⟨huv, -, huf⟩
          · exact hvw (hs.unique v w f hv hwf)
          · exact huv (hs.unique u v f huf hv)
  | destroy v =>
      simp only [KeepsOwner, not_forall, Bool.not_eq_false] at hkeeps
      obtain ⟨f, fr, hv, hfr, hgone⟩ := hkeeps
      obtain ⟨h, hv', rfl⟩ := Option.map_eq_some_iff.mp hstep
      obtain rfl : some f = h := Option.some.inj (hv.symm.trans hv')
      have hdestroyed : fr.destroyed ≠ 0 := by
        obtain ⟨fr', hfr', hcount⟩ := hs.held v f hv
        obtain rfl : fr' = fr := Option.some.inj (hfr'.symm.trans hfr)
        simp [hcount, hgone]
      have hfr' : (s.setVar v none).frames[f]? = some fr := hfr
      have huse := danglingUses_touch_of_destroyed hfr' hdestroyed
      have hsafe := howned.safe
      cases k with
      | intGenerator =>
          have hle := danglingUses_le_touch (s := (s.setVar v none).touch f) f
          have hdef : (s.destruct .intGenerator v (some f)).danglingUses =
              (((s.setVar v none).touch f).touch f).danglingUses := rfl
          omega
      | resumableThing =>
          have hdef : (s.destruct .resumableThing v (some f)).danglingUses =
              ((s.setVar v none).touch f).danglingUses := rfl
          omega

/-- For both types and every sequence of operations on any number of variables: every live
frame is held by exactly one variable, no operation uses a frame that was destroyed, and all
frames are destroyed exactly once when all variables are, throughout the run, if and only if
no variable is move-assigned another one while its own coroutine exists and no variable is
destroyed while it holds the handle of a coroutine that is gone. -/
theorem owned_throughout_iff (k : Holder) {es : List Event}
    (hrun : (machine k).run State.start es = some s) :
    (machine k).Throughout Owned State.start es ↔
      (machine k).Along (KeepsOwner k) State.start es :=
  Machine.throughout_iff_along (fun _ => Good.owned) (fun _ _ _ => step_good)
    (fun _ _ _ => step_loses) good_start hrun

end Steps

/-- A generator is moved into an empty variable and destroyed there. -/
theorem owned_throughout_iff_moved :
    ∃ s, (machine .intGenerator).run State.start
        [.create 0 false, .default 1, .moveAssign 1 0, .destroy 1, .destroy 0] = some s ∧
      ((machine .intGenerator).Throughout Owned State.start
          [.create 0 false, .default 1, .moveAssign 1 0, .destroy 1, .destroy 0] ↔
        (machine .intGenerator).Along (KeepsOwner .intGenerator) State.start
          [.create 0 false, .default 1, .moveAssign 1 0, .destroy 1, .destroy 0]) := by
  have hrun : ∃ s, (machine .intGenerator).run State.start
      [.create 0 false, .default 1, .moveAssign 1 0, .destroy 1, .destroy 0] = some s := ⟨_, rfl⟩
  obtain ⟨s, hrun⟩ := hrun
  exact ⟨s, hrun, owned_throughout_iff .intGenerator hrun⟩

/-- A generator is assigned to a variable that has one, whose frame is then never destroyed;
a `resumable_thing` destroys its frame although the coroutine has run to its end. -/
theorem owners_fail :
    (¬ ∀ es s, (machine .intGenerator).run State.start es = some s →
      (machine .intGenerator).Throughout Owned State.start es) ∧
    ¬ ∀ es s, (machine .resumableThing).run State.start es = some s →
      (machine .resumableThing).Throughout Owned State.start es := by
  constructor
  · intro h
    have hrun : ∃ s, (machine .intGenerator).run State.start
        [.create 0 false, .create 1 false, .moveAssign 0 1, .destroy 0, .destroy 1] = some s ∧
        (∀ v, s.vars v = none) ∧ s.frames = [⟨false, 0⟩, ⟨false, 1⟩] := by
      refine ⟨_, rfl, ?_, rfl⟩
      intro v
      by_cases h0 : v = 0
      · subst h0
        rfl
      · by_cases h1 : v = 1
        · subst h1
          rfl
        · show Function.update (Function.update (Function.update (Function.update
            (Function.update (Function.update State.start.vars 0 _) 1 _) 0 _) 1 _) 0 none) 1 none v =
              none
          simp [h0, h1, State.start]
    obtain ⟨s, hrun, hnone, hframes⟩ := hrun
    have howned := Machine.throughout_iff.mp (h _ s hrun) _ List.prefix_rfl s hrun
    have hone := howned.released hnone ⟨false, 0⟩ (by rw [hframes]; exact List.mem_cons_self)
    cases hone
  · intro h
    have hrun : ∃ s, (machine .resumableThing).run State.start
        [.create 0 false, .resume 0 true, .destroy 0] = some s ∧ s.danglingUses = 1 := by
      refine ⟨_, rfl, rfl⟩
    obtain ⟨s, hrun, huses⟩ := hrun
    have howned := Machine.throughout_iff.mp (h _ s hrun) _ List.prefix_rfl s hrun
    have hsafe := howned.safe
    omega

end CppCoroutines.Ownership
