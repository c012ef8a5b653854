import CppCoroutines.Generator
import Mathlib.Algebra.Ring.Int.Defs

/-!
# Generator pipelines

The generators of `yield3.cpp`. A stage consumes its source in a range-for: it resumes
the source through the iterator, caches whether it is done, and yields what it makes of
the value, until the source is done or the stage breaks out of the loop. So a pipeline
is a nest of suspended coroutines, each driven by the one around it. The main result
relates what the outermost generator delivers to the lazy list the pipeline denotes.
-/

namespace CppCoroutines.Pipeline

open Stream' (Seq)

/-- Where a coroutine is suspended. -/
inductive Point where
  | initial
  | yielded
  | done
deriving DecidableEq, Repr

/-- The frame of a `generator<T>`: where it is suspended, and its promise. -/
structure Frame where
  point : Point
  /-- `_current_value` -/
  current : ℤ
  /-- history: how many values have been yielded -/
  delivered : ℕ
deriving DecidableEq, Repr

namespace Frame

/-- `initial_suspend()` always suspends. -/
def new : Frame := ⟨.initial, 0, 0⟩

/-- `yield_value(value)`. -/
def yield (f : Frame) (value : ℤ) : Frame := ⟨.yielded, value, f.delivered + 1⟩

/-- `final_suspend()` always suspends. -/
def finish (f : Frame) : Frame := { f with point := .done }

end Frame

/-- The iterator of the range-for over a source. -/
structure SourceIterator where
  /-- `_done` -/
  done : Bool
  /-- history: how many values have been read through it -/
  taken : ℕ
deriving DecidableEq, Repr

/-- The stages. -/
inductive Op where
  | takeUntil (limit : ℤ)
  | multiply (factor : ℤ)
  | add (addend : ℤ)
deriving DecidableEq, Repr

/-- The body of the range-for: what it yields for a value of the source, `none` for `break`. -/
def Op.body : Op → ℤ → Option ℤ
  | .takeUntil limit, v => if v < limit then some v else none
  | .multiply factor, v => some (v * factor)
  | .add addend, v => some (v + addend)

/-- A generator with the sources it drives. -/
inductive Gen where
  | seq (frame : Frame) (i : ℤ)
  | stage (op : Op) (frame : Frame) (it : SourceIterator) (source : Gen)
deriving DecidableEq, Repr

namespace Gen

def frame : Gen → Frame
  | .seq f _ => f
  | .stage _ f _ _ => f

/-- `_handle.done()`. -/
def done (g : Gen) : Bool := g.frame.point = .done

/-- `_handle.promise()._current_value`. -/
def value (g : Gen) : ℤ := g.frame.current

/-- `_handle.resume()`, `none` if the coroutine, or one it resumes, is done already. -/
def resume : Gen → Option Gen
  | .seq f i =>
      match f.point with
      | .initial => some (.seq (f.yield 0) 0)
      | .yielded => some (.seq (f.yield (i + 1)) (i + 1))
      | .done => none
  | .stage op f it g =>
      match f.point with
      | .done => none
      -- `begin()` and `operator++` both resume the source and look whether it is done
      | _ => g.resume.map fun g' =>
          if g'.done then .stage op f.finish { it with done := true } g'
          else
            let it := ⟨false, it.taken + 1⟩
            match op.body g'.value with
            | some v => .stage op (f.yield v) it g'
            | none => .stage op f.finish it g'

end Gen

/-- `seq<T>()`. -/
def seq : Gen := .seq Frame.new 0

/-- A stage that has not been resumed. -/
def stage (op : Op) (g : Gen) : Gen := .stage op Frame.new ⟨false, 0⟩ g

/-- `take_until(g, limit)`. -/
def takeUntil (g : Gen) (limit : ℤ) : Gen := stage (.takeUntil limit) g

/-- `multiply(g, factor)`. -/
def multiply (g : Gen) (factor : ℤ) : Gen := stage (.multiply factor) g

/-- `add(g, addend)`. -/
def add (g : Gen) (addend : ℤ) : Gen := stage (.add addend) g

/-! ## The iterator of a generator -/

/-- `generator<T>::iterator`. -/
structure Iterator where
  coro : Gen
  done : Bool
deriving DecidableEq, Repr

/-- `begin()`. -/
def begin (g : Gen) : Option Iterator := g.resume.map fun g' => ⟨g', g'.done⟩

/-- `operator++`. -/
def Iterator.next (it : Iterator) : Option Iterator := it.coro.resume.map fun g => ⟨g, g.done⟩

/-- The values up to the `k`-th, or to the end of the iteration. -/
def iterate : ℕ → Iterator → Option (List ℤ × Iterator)
  | 0, it => some ([], it)
  | k + 1, it =>
      if it.done then some ([], it)
      else it.next.bind fun it' =>
        (iterate k it').map fun p => (it.coro.value :: p.1, p.2)

/-- `std::accumulate(first, last, init)`, for at most this many tests of the loop. -/
def accumulate : ℕ → Iterator → ℤ → Option ℤ
  | 0, _, _ => none
  | fuel + 1, it, init =>
      if it.done then some init
      else it.next.bind fun it' => accumulate fuel it' (init + it.coro.value)

/-! ## Pipelines and what they denote -/

/-- A pipeline expression. -/
inductive Expr where
  | seq
  | takeUntil (source : Expr) (limit : ℤ)
  | multiply (source : Expr) (factor : ℤ)
  | add (source : Expr) (addend : ℤ)
deriving DecidableEq, Repr

namespace Expr

/-- The generators as they are created, none of them resumed. -/
def create : Expr → Gen
  | .seq => Pipeline.seq
  | .takeUntil e limit => Pipeline.takeUntil e.create limit
  | .multiply e factor => Pipeline.multiply e.create factor
  | .add e addend => Pipeline.add e.create addend

/-- The lazy list a pipeline stands for. -/
def denote : Expr → Seq ℤ
  | .seq => Seq.nats.map fun n : ℕ => (n : ℤ)
  | .takeUntil e limit => Generator.takeWhile (fun v => v < limit) e.denote
  | .multiply e factor => e.denote.map fun v => v * factor
  | .add e addend => e.denote.map fun v => v + addend

end Expr

/-- Every `take_until` in the nest that has broken out of its loop has taken one element
more than it has delivered. -/
def Gen.CutsAfterOne : Gen → Prop
  | .seq _ _ => True
  | .stage op f it g =>
      (∀ limit, op = .takeUntil limit → f.point = .done → it.done = false →
        g.frame.delivered = f.delivered + 1 ∧ it.taken = f.delivered + 1) ∧ g.CutsAfterOne

/-! ## Resumptions -/

namespace Gen

/-- A stage has passed on all it has taken; at its end the source is done too, unless the
stage has broken out of its loop with one value in hand. -/
def Inv : Gen → Prop
  | .seq f _ => f.point ≠ .done
  | .stage _ f it g => g.Inv ∧ it.taken = g.frame.delivered ∧
      if f.point = .done then
        if it.done then g.done = true ∧ it.taken = f.delivered
        else g.done = false ∧ it.taken = f.delivered + 1
      else g.done = false ∧ it.taken = f.delivered

theorem done_eq_false {g : Gen} : g.done = false ↔ g.frame.point ≠ .done := by
  simp [done]

/-- A stage that is not done resumes its source. -/
theorem resume_stage {op : Op} {f : Frame} {it : SourceIterator} {g g' : Gen} (hf : f.point ≠ .done)
    (hg : g.resume = some g') :
    (stage op f it g).resume = some
      (if g'.done then .stage op f.finish { it with done := true } g'
      else
        match op.body g'.value with
        | some v => .stage op (f.yield v) ⟨false, it.taken + 1⟩ g'
        | none => .stage op f.finish ⟨false, it.taken + 1⟩ g') := by
  cases hpoint : f.point with
  | done => exact absurd hpoint hf
  | initial => simp only [resume, hpoint, hg, Option.map_some]
  | yielded => simp only [resume, hpoint, hg, Option.map_some]

/-- A generator that is not done can be resumed, without resuming any that is done; it then
yields one more value or is done. -/
theorem resume_spec {g : Gen} (hinv : g.Inv) (hdone : g.done = false) :
    ∃ g', g.resume = some g' ∧ g'.Inv ∧
      g'.frame.delivered = g.frame.delivered + (if g'.done then 0 else 1) := by
  induction g with
  | seq f i =>
      cases hpoint : f.point with
      | initial =>
          have hres : (Gen.seq f i).resume = some (.seq (f.yield 0) 0) := by
            simp [resume, hpoint]
          exact ⟨_, hres, by simp [Inv, Frame.yield], rfl⟩
      | yielded =>
          have hres : (Gen.seq f i).resume = some (.seq (f.yield (i + 1)) (i + 1)) := by
            simp [resume, hpoint]
          exact ⟨_, hres, by simp [Inv, Frame.yield], rfl⟩
      | done => exact absurd hpoint hinv
  | stage op f it g ih =>
      have hf : f.point ≠ .done := done_eq_false.mp hdone
      obtain ⟨hg, htaken, hcount⟩ := hinv
      rw [if_neg hf] at hcount
      obtain ⟨g', hres, hg', hdelivered⟩ := ih hg hcount.1
      have hfinish : f.finish.point = .done := rfl
      refine ⟨_, resume_stage hf hres, ?_⟩
      cases hdone' : g'.done with
      | true =>
          -- the source is done, and so is the stage
          rw [hdone', if_pos rfl] at hdelivered
          rw [if_pos rfl]
          refine ⟨⟨hg', ?_, ?_⟩, rfl⟩
          · show it.taken = g'.frame.delivered
            omega
          · rw [if_pos hfinish, if_pos rfl]
            exact ⟨hdone', hcount.2⟩
      | false =>
          rw [hdone', if_neg (by simp)] at hdelivered
          rw [if_neg (by simp)]
          cases hbody : op.body g'.value with
          | some v =>
              refine ⟨⟨hg', ?_, ?_⟩, rfl⟩
              · show it.taken + 1 = g'.frame.delivered
                omega
              · rw [if_neg (by simp [Frame.yield])]
                refine ⟨hdone', ?_⟩
                show it.taken + 1 = f.delivered + 1
                omega
          | none =>
              -- `break`: the value that was taken is not delivered
              refine ⟨⟨hg', ?_, ?_⟩, rfl⟩
              · show it.taken + 1 = g'.frame.delivered
                omega
              · rw [if_pos hfinish, if_neg (by simp)]
                refine ⟨hdone', ?_⟩
                show it.taken + 1 = f.delivered + 1
                omega

theorem Inv.cutsAfterOne {g : Gen} (h : g.Inv) : g.CutsAfterOne := by
  induction g with
  | seq f i => trivial
  | stage op f it g ih =>
      obtain ⟨hg, htaken, hcount⟩ := h
      refine ⟨?_, ih hg⟩
      intro limit _ hf hit
      rw [if_pos hf, hit, if_neg (by simp)] at hcount
      omega

/-- What the owner of a generator can do with it. -/
def generator : Generator Gen ℤ where
  resume := resume
  done := done
  value := value

/-- What the generator yields from here on. -/
def values (g : Gen) : Seq ℤ := generator.values g

theorem values_of_done {g g' : Gen} (h : g.resume = some g') (hdone : g'.done = true) :
    g.values = Seq.nil := Generator.values_of_done (G := generator) h hdone

theorem values_of_yield {g g' : Gen} (h : g.resume = some g') (hdone : g'.done = false) :
    g.values = Seq.cons g'.value g'.values := Generator.values_of_yield (G := generator) h hdone

/-- `seq` at a `co_yield` goes on counting. -/
theorem values_seq_next {f : Frame} (hf : f.point = .yielded) (i : ℤ) :
    (Gen.seq f i).values = Seq.cons (i + 1) (Gen.seq (f.yield (i + 1)) (i + 1)).values := by
  have hres : (Gen.seq f i).resume = some (.seq (f.yield (i + 1)) (i + 1)) := by
    simp [resume, hf]
  exact values_of_yield hres rfl

theorem get?_values_seq {f : Frame} {i : ℤ} (hf : f.point = .yielded) (n : ℕ) :
    (Gen.seq f i).values.get? n = some (i + 1 + n) := by
  induction n generalizing f i with
  | zero =>
      rw [values_seq_next hf, Seq.get?_cons_zero]
      simp
  | succ n ih =>
      rw [values_seq_next hf, Seq.get?_cons_succ, ih rfl, Option.some.injEq]
      omega

/-- `seq` yields the numbers from 0 on. -/
theorem values_seq : Pipeline.seq.values = Seq.nats.map fun n : ℕ => (n : ℤ) := by
  have hres : Pipeline.seq.resume = some (.seq (Frame.new.yield 0) 0) := rfl
  apply Seq.ext
  intro n
  rw [values_of_yield hres rfl, Seq.map_get?, Seq.nats_get?, Option.map_some]
  cases n with
  | zero => rfl
  | succ n =>
      rw [Seq.get?_cons_succ, get?_values_seq rfl, Option.some.injEq]
      omega

/-- A stage yields what its loop makes of the values of the source. -/
theorem values_stage {op : Op} {f : Frame} {it : SourceIterator} {g : Gen}
    (hinv : (stage op f it g).Inv) (hf : f.point ≠ .done) :
    (stage op f it g).values = Generator.mapWhile op.body g.values := by
  refine Generator.values_eq_mapWhile
    (R := fun s g => ∃ f it, s = stage op f it g ∧ s.Inv ∧ s.done = false) ?_
    ⟨f, it, rfl, hinv, done_eq_false.mpr hf⟩
  rintro _ g ⟨f, it, rfl, hinv, hdone⟩
  have hf : f.point ≠ .done := done_eq_false.mp hdone
  have hsource : g.done = false := by
    have hcount := hinv.2.2
    rw [if_neg hf] at hcount
    exact hcount.1
  obtain ⟨g', hres, -, -⟩ := resume_spec hinv.1 hsource
  obtain ⟨s', hs', hs'inv, -⟩ := resume_spec hinv hdone
  refine ⟨s', g', hs', hres, ?_⟩
  have hs'eq := Option.some.inj (hs'.symm.trans (resume_stage hf hres))
  cases hdone' : g'.done with
  | true =>
      rw [hdone', if_pos rfl] at hs'eq
      refine Or.inl ⟨?_, Or.inl hdone'⟩
      rw [hs'eq]
      rfl
  | false =>
      rw [hdone', if_neg (by simp)] at hs'eq
      cases hbody : op.body g'.value with
      | some v =>
          rw [hbody] at hs'eq
          refine Or.inr ⟨?_, hdone', ?_, _, _, hs'eq, hs'inv, ?_⟩
          · rw [hs'eq]
            rfl
          · rw [hs'eq]
            exact hbody
          · rw [hs'eq]
            rfl
      | none =>
          rw [hbody] at hs'eq
          refine Or.inl ⟨?_, Or.inr ⟨hdone', hbody⟩⟩
          rw [hs'eq]
          rfl

end Gen

/-! ## The denotation -/

namespace Expr

theorem create_inv (e : Expr) : e.create.Inv ∧ e.create.done = false ∧
    e.create.frame.delivered = 0 := by
  have hstage : ∀ op g, g.Inv ∧ g.done = false ∧ g.frame.delivered = 0 →
      (stage op g).Inv ∧ (stage op g).done = false ∧ (stage op g).frame.delivered = 0 := by
    rintro op g ⟨hg, hdone, hzero⟩
    refine ⟨⟨hg, hzero.symm, ?_⟩, rfl, rfl⟩
    rw [if_neg (by simp [Frame.new])]
    exact ⟨hdone, rfl⟩
  induction e with
  | seq => exact ⟨by simp [create, Pipeline.seq, Gen.Inv, Frame.new], rfl, rfl⟩
  | takeUntil e limit ih => exact hstage _ _ ih
  | multiply e factor ih => exact hstage _ _ ih
  | add e addend ih => exact hstage _ _ ih

/-- A pipeline of coroutines yields the list it denotes. -/
theorem values_create (e : Expr) : e.create.values = e.denote := by
  have hstage : ∀ op (e : Expr), e.create.values = e.denote →
      (stage op e.create).values = Generator.mapWhile op.body e.denote := by
    intro op e ih
    have hinv : (stage op e.create).Inv := (create_inv (.add e 0)).1
    rw [← ih]
    exact Gen.values_stage hinv (by simp [Frame.new])
  induction e with
  | seq => exact Gen.values_seq
  | takeUntil e limit ih =>
      have hbody : (Op.takeUntil limit).body = fun v => if decide (v < limit) then some v else none := by
        funext v
        simp [Op.body]
      exact (hstage _ e ih).trans (by rw [hbody]; rfl)
  | multiply e factor ih => exact (hstage _ e ih).trans (Generator.mapWhile_some _ _)
  | add e addend ih => exact (hstage _ e ih).trans (Generator.mapWhile_some _ _)

end Expr

/-! ## Iterations -/

/-- What an iterator still has to deliver. -/
def Iterator.rest (it : Iterator) : Seq ℤ :=
  if it.done then Seq.nil else Seq.cons it.coro.value it.coro.values

/-- The iterator knows whether its coroutine is done. -/
def Iterator.Inv (it : Iterator) : Prop := it.coro.Inv ∧ it.done = it.coro.done

/-- Resuming a generator leaves an iterator over all it yields. -/
theorem resume_rest {g : Gen} (hinv : g.Inv) (hdone : g.done = false) :
    ∃ g', g.resume = some g' ∧ Iterator.Inv ⟨g', g'.done⟩ ∧
      Iterator.rest ⟨g', g'.done⟩ = g.values := by
  obtain ⟨g', hres, hg', -⟩ := Gen.resume_spec hinv hdone
  refine ⟨g', hres, ⟨hg', rfl⟩, ?_⟩
  cases hdone' : g'.done with
  | true => exact (Gen.values_of_done hres hdone').symm
  | false => exact (Gen.values_of_yield hres hdone').symm

/-- `operator++` before the end drops the first of what is left. -/
theorem next_rest {it : Iterator} (hinv : it.Inv) (hdone : it.done = false) :
    ∃ it', it.next = some it' ∧ it'.Inv ∧ it.rest = Seq.cons it.coro.value it'.rest := by
  obtain ⟨g', hres, hinv', hrest⟩ := resume_rest hinv.1 (hinv.2 ▸ hdone)
  refine ⟨⟨g', g'.done⟩, ?_, hinv', ?_⟩
  · rw [Iterator.next, hres, Option.map_some]
  · rw [hrest, Iterator.rest, if_neg (by simp [hdone])]

/-- An iteration delivers what is left, in order, and stops when nothing is. -/
theorem iterate_spec {k : ℕ} {it : Iterator} (hinv : it.Inv) :
    ∃ last, iterate k it = some (it.rest.take k, last) ∧ last.Inv ∧
      (last.done = true ↔ it.rest.get? k = none) := by
  induction k generalizing it with
  | zero =>
      refine ⟨it, rfl, hinv, ?_⟩
      cases hdone : it.done with
      | true => simp [Iterator.rest, hdone]
      | false => simp [Iterator.rest, hdone]
  | succ k ih =>
      cases hdone : it.done with
      | true =>
          have hrest : it.rest = Seq.nil := by
            rw [Iterator.rest, if_pos hdone]
          refine ⟨it, ?_, hinv, ?_⟩
          · rw [iterate, if_pos hdone, hrest, Seq.take_nil]
          · simp [hrest, hdone]
      | false =>
          obtain ⟨it', hnext, hinv', hrest⟩ := next_rest hinv hdone
          obtain ⟨last, hlast, hlastInv, hend⟩ := ih hinv'
          refine ⟨last, ?_, hlastInv, ?_⟩
          · rw [iterate, if_neg (by simp [hdone]), hnext, Option.bind_some, hlast, Option.map_some,
              hrest, Seq.take_succ_cons]
          · rw [hrest, Seq.get?_cons_succ]
            exact hend

/-- `std::accumulate` over a finite iteration adds up what is left. -/
theorem accumulate_spec {xs : List ℤ} {it : Iterator} {init : ℤ} {fuel : ℕ} (hinv : it.Inv)
    (hrest : it.rest = Seq.ofList xs) (hfuel : xs.length < fuel) :
    accumulate fuel it init = some (init + xs.sum) := by
  induction xs generalizing it init fuel with
  | nil =>
      obtain ⟨fuel, rfl⟩ := Nat.exists_eq_add_one.mpr hfuel
      have hdone : it.done = true := by
        cases hdone : it.done with
        | true => rfl
        | false => simp [Iterator.rest, hdone] at hrest
      rw [accumulate, if_pos hdone, List.sum_nil, Int.add_zero]
  | cons x xs ih =>
      have hpos : 0 < fuel := Nat.lt_of_le_of_lt (Nat.zero_le _) hfuel
      obtain ⟨fuel, rfl⟩ := Nat.exists_eq_add_one.mpr hpos
      have hdone : it.done = false := by
        cases hdone : it.done with
        | true => simp [Iterator.rest, hdone] at hrest
        | false => rfl
      obtain ⟨it', hnext, hinv', hcons⟩ := next_rest hinv hdone
      rw [hcons, Seq.ofList_cons, Seq.cons_eq_cons] at hrest
      have hacc : accumulate fuel it' (init + x) = some (init + x + xs.sum) :=
        ih hinv' hrest.2 (by simpa using hfuel)
      rw [accumulate, if_neg (by simp [hdone]), hnext, Option.bind_some, hrest.1, hacc,
        List.sum_cons, Int.add_assoc]

/-- For every pipeline and every `k`: iterating over the outermost generator delivers the
first `k` elements of what the pipeline denotes, and the end if there are no more; no
coroutine is resumed after it is done; every `take_until` that has been cut by its limit has
taken one element more than it has delivered; and `accumulate` over a finite pipeline
returns the sum of the denotation. -/
theorem pipeline_computes (e : Expr) :
    ∃ it, begin e.create = some it ∧
      (∀ k, ∃ last, iterate k it = some (e.denote.take k, last) ∧ last.coro.CutsAfterOne ∧
        (last.done = true ↔ e.denote.get? k = none)) ∧
      ∀ xs fuel, e.denote = Seq.ofList xs → xs.length < fuel →
        accumulate fuel it 0 = some xs.sum := by
  obtain ⟨hinv, hdone, -⟩ := e.create_inv
  obtain ⟨g, hres, hit, hrest⟩ := resume_rest hinv hdone
  rw [Expr.values_create] at hrest
  refine ⟨⟨g, g.done⟩, ?_, ?_, ?_⟩
  · rw [begin, hres, Option.map_some]
  · intro k
    obtain ⟨last, hlast, hlastInv, hend⟩ := iterate_spec (k := k) hit
    rw [hrest] at hlast hend
    exact ⟨last, hlast, hlastInv.1.cutsAfterOne, hend⟩
  · intro xs fuel hxs hfuel
    have hacc : accumulate fuel ⟨g, g.done⟩ 0 = some (0 + xs.sum) :=
      accumulate_spec hit (hrest.trans hxs) hfuel
    rwa [Int.zero_add] at hacc

/-- The pipeline of `main`. -/
example : (begin (add (multiply (takeUntil seq 10) 2) 110)).bind (fun it => accumulate 11 it 0) =
    some 1190 := by decide

end CppCoroutines.Pipeline
