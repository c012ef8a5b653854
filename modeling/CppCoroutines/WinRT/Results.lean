import CppCoroutines.WinRT.Completion
import Mathlib.Data.List.Iterate

/-!
# The results and the frame

What the calls of `GetResults` come to over the whole life of the promise, and when its frame
is destroyed.
-/

namespace CppCoroutines.WinRTPromise

open PoolAwaiter (AsyncStatus)

variable {α : Type}

/-! ## The results -/

/-- What was answered while the operation was started: nothing, or copies of the result so far. -/
def Early (kind : Kind α) (ending : Option (Except Exn α)) (early : List (Got α)) : Prop :=
  if kind.progress then
    ∃ n m v, (m ≠ 0 → ending = some (.ok v)) ∧
      early = List.replicate n (.value kind.empty) ++ List.replicate m (.value v)
  else ∃ n, early = List.replicate n .illegal

/-- What was answered from the end of the operation on: the value, and to each call what the one
before has left of it; or the exception of `Cancel` as long as it was there, and then that of the
body. -/
inductive Outcome (kind : Kind α) (p : Promise α) (cancelled : Bool)
    (ending : Option (Except Exn α)) : List (Got α) → Prop where
  | started : p.status = .started → (ending = none → p.result = kind.empty) →
      (∀ v, ending = some (.ok v) → p.result = v) → Outcome kind p cancelled ending []
  | completed (v : α) (k : ℕ) : p.status = .completed → ending = some (.ok v) →
      p.result = kind.leaves^[k] v →
      Outcome kind p cancelled ending ((List.iterate kind.leaves v k).map .value)
  | failed (e : Exn) (k l : ℕ) : p.status ≠ .started → p.status ≠ .completed →
      p.exception = some e → (k ≠ 0 → cancelled = true) →
      Outcome kind p cancelled ending
        (List.replicate k (.thrown .canceled) ++ List.replicate l (.thrown e))

/-- The answers so far. -/
def Answers (kind : Kind α) (s : State α) : Prop :=
  ∃ early rest, s.results = early ++ rest ∧ early.length = s.early ∧
    Early kind s.ending early ∧ Outcome kind s.promise s.cancelled s.ending rest

section Results

variable {kind : Kind α} {s s' : State α} {e : Event α}

/-- Before the end of the body the result is the empty one. -/
theorem Early.of_none {early : List (Got α)} (h : Early kind none early)
    (ending : Option (Except Exn α)) : Early kind ending early := by
  unfold Early at h ⊢
  split at h
  · rename_i hprogress
    rw [if_pos hprogress]
    rcases h with ⟨n, m, v, hm, heq⟩
    have hzero : m = 0 := by
      by_contra hne
      cases hm hne
    exact ⟨n, m, v, fun hne => absurd hzero hne, heq⟩
  · rename_i hprogress
    rw [if_neg hprogress]
    exact h

/-- One more call while the operation is started. -/
theorem Early.append {early : List (Got α)} (h : Early kind s.ending early)
    (hstarted : s.promise.status = .started)
    (hnone : s.ending = none → s.promise.result = kind.empty)
    (hvalue : ∀ v, s.ending = some (.ok v) → s.promise.result = v)
    (hnot : ∀ ex, s.ending ≠ some (.error ex)) :
    Early kind s.ending (early ++ [s.answer kind]) := by
  unfold Early at h ⊢
  split at h
  · rename_i hprogress
    rw [if_pos hprogress]
    have hanswer : s.answer kind = .value s.promise.result := by
      simp [State.answer, hstarted, hprogress]
    rcases h with ⟨n, m, v, hm, rfl⟩
    rw [hanswer, List.append_assoc]
    rcases hending : s.ending with - | ex | w
    · have hzero : m = 0 := by
        by_contra hne
        rw [hending] at hm
        cases hm hne
      refine ⟨n + 1, 0, v, fun hne => absurd rfl hne, ?_⟩
      rw [hzero, hnone hending, List.replicate_zero, List.nil_append, List.append_nil,
        ← List.replicate_succ']
    · exact absurd hending (hnot ex)
    · have hsame : List.replicate m (Got.value v) = List.replicate m (Got.value w) := by
        by_cases hzero : m = 0
        · rw [hzero]
          rfl
        · have hv := hm hzero
          rw [hending] at hv
          rw [Except.ok.inj (Option.some.inj hv)]
      refine ⟨n, m + 1, w, fun _ => rfl, ?_⟩
      rw [hsame, hvalue w hending, ← List.replicate_succ']
  · rename_i hprogress
    rw [if_neg hprogress]
    have hanswer : s.answer kind = .illegal := by simp [State.answer, hstarted, hprogress]
    rcases h with ⟨n, rfl⟩
    refine ⟨n + 1, ?_⟩
    rw [hanswer, ← List.replicate_succ']

/-- Nothing that `GetResults` depends on changes. -/
theorem Answers.congr (h : Answers kind s) (hresults : s'.results = s.results)
    (hearly : s'.early = s.early) (hstatus : s'.promise.status = s.promise.status)
    (hexception : s'.promise.exception = s.promise.exception)
    (hresult : s'.promise.result = s.promise.result) (hcancelled : s'.cancelled = s.cancelled)
    (hending : s'.ending = s.ending) : Answers kind s' := by
  rcases h with ⟨early, rest, hlist, hlength, hbefore, h⟩
  refine ⟨early, rest, hresults.trans hlist, hlength.trans hearly.symm, hending ▸ hbefore, ?_⟩
  rw [hcancelled, hending]
  cases h with
  | started hs hnone hv =>
      exact .started (hstatus.trans hs) (fun hend => hresult.trans (hnone hend))
        fun v hend => hresult.trans (hv v hend)
  | completed v k hs hend hv => exact .completed v k (hstatus.trans hs) hend (hresult.trans hv)
  | failed e k l hs hc he hk =>
      exact .failed e k l (hstatus ▸ hs) (hstatus ▸ hc) (hexception.trans he) hk

/-- The body has not thrown while the operation is started. -/
theorem StatusInv.not_thrown (hs : StatusInv s) (hstarted : s.promise.status = .started)
    (ex : Exn) : s.ending ≠ some (.error ex) := by
  intro hending
  have hstatus := hs.status
  rw [hstarted, hending] at hstatus
  cases ex <;> cases hstatus

theorem Answers.getResults (hs : StatusInv s) (h : Answers kind s) :
    Answers kind (s.getResults kind) := by
  rcases h with ⟨early, rest, hlist, hlength, hbefore, h⟩
  have hlist' : (s.getResults kind).results = early ++ (rest ++ [s.answer kind]) := by
    show s.results ++ [s.answer kind] = _
    rw [hlist, List.append_assoc]
  have hlate : s.promise.status ≠ .started → early.length = (s.getResults kind).early :=
    fun hne => hlength.trans (if_neg hne).symm
  cases h with
  | started hst hnone hv =>
      have hresult : (s.getResults kind).promise.result = s.promise.result := by
        simp [State.getResults, hst]
      refine ⟨early ++ [s.answer kind], [], ?_, ?_,
        hbefore.append hst hnone hv (hs.not_thrown hst),
        .started hst (fun hend => hresult.trans (hnone hend))
          fun v hend => hresult.trans (hv v hend)⟩
      · rw [hlist', List.nil_append, List.append_nil]
      · have hearly : (s.getResults kind).early = s.early + 1 := if_pos hst
        rw [hearly, List.length_append, hlength, List.length_singleton]
  | completed v k hst hend hv =>
      have hanswer : s.answer kind = .value (kind.leaves^[k] v) := by simp [State.answer, hst, hv]
      have hresult : (s.getResults kind).promise.result = kind.leaves^[k + 1] v := by
        rw [Function.iterate_succ_apply']
        simp [State.getResults, hst, hv]
      refine ⟨early, _, hlist', hlate (by rw [hst]; nofun), hbefore, ?_⟩
      have hvalues : (List.iterate kind.leaves v k).map Got.value ++ [s.answer kind] =
          (List.iterate kind.leaves v (k + 1)).map .value := by
        rw [hanswer, List.iterate_add, List.map_append]
        rfl
      rw [hvalues]
      exact .completed v (k + 1) hst hend hresult
  | failed e k l hne hc he hk =>
      have hanswer : s.answer kind = .thrown e := by
        cases hstatus : s.promise.status with
        | started => exact absurd hstatus hne
        | completed => exact absurd hstatus hc
        | _ => simp [State.answer, hstatus, he]
      refine ⟨early, _, hlist', hlate hne, hbefore, ?_⟩
      rw [hanswer, List.append_assoc, ← List.replicate_succ']
      exact .failed e k (l + 1) hne hc he hk

/-- The body ends with an exception; `Cancel` may have been there before. -/
theorem Answers.throws (hs : StatusInv s) (h : Answers kind s) (hbody : s.body = .running)
    (ex : Exn) : Answers kind (s.throws ex) := by
  have hstarted : (s.throws ex).promise.status ≠ .started := by cases ex <;> nofun
  have hcompleted : (s.throws ex).promise.status ≠ .completed := by cases ex <;> nofun
  have hrunning := hs.running hbody
  have hnone := hs.ending.mpr hbody
  rcases h with ⟨early, rest, hlist, hlength, hbefore, h⟩
  rw [hnone] at hbefore
  cases h with
  | started _ _ _ =>
      exact ⟨early, [], hlist, hlength, hbefore.of_none _,
        .failed ex 0 0 hstarted hcompleted rfl nofun⟩
  | completed v k _ hend _ =>
      rw [hnone] at hend
      cases hend
  | failed e k l hne _ he hk =>
      -- the exception so far is that of `Cancel`
      have hcancelled : s.cancelled = true := by
        by_contra hnot
        rw [if_neg hnot] at hrunning
        exact hne hrunning
      have hexception := hs.exception
      rw [he, hnone, hcancelled] at hexception
      obtain rfl : e = .canceled := Option.some.inj hexception
      refine ⟨early, _, hlist, hlength, hbefore.of_none _, ?_⟩
      rw [← List.replicate_add, ← List.append_nil (List.replicate (k + l) _)]
      exact .failed ex (k + l) 0 hstarted hcompleted rfl fun _ => hcancelled

theorem Answers.cancel (h : Answers kind s) : Answers kind s.cancel := by
  unfold State.cancel
  split
  · rename_i hstarted
    rcases h with ⟨early, rest, hlist, hlength, hbefore, h⟩
    cases h with
    | started _ _ _ =>
        exact ⟨early, [], hlist, hlength, hbefore,
          .failed .canceled 0 0 nofun nofun rfl fun _ => rfl⟩
    | completed v k hst _ _ =>
        rw [hst] at hstarted
        cases hstarted
    | failed e k l hne _ _ _ => exact absurd hstarted hne
  · exact h

theorem Answers.setCompleted (hs : StatusInv s) (h : Answers kind s) (hbody : s.body = .ended) :
    Answers kind s.setCompleted := by
  rcases h with ⟨early, rest, hlist, hlength, hbefore, h⟩
  cases h with
  | started hst _ hv =>
      rcases hending : s.ending with - | ex | v
      · rw [hs.ending.mp hending] at hbody
        cases hbody
      · exact absurd hending (hs.not_thrown hst ex)
      · exact ⟨early, [], hlist, hlength, hbefore,
          .completed v 0 (if_pos hst) hending (hv v hending)⟩
  | completed v k hst hend hv =>
      refine ⟨early, _, hlist, hlength, hbefore, .completed v k ?_ hend hv⟩
      simp [State.setCompleted, hst]
  | failed e k l hne hnc he hk =>
      have hsame : s.setCompleted.promise.status = s.promise.status := if_neg hne
      exact ⟨early, _, hlist, hlength, hbefore,
        .failed e k l (hsame ▸ hne) (hsame ▸ hnc) he hk⟩

/-- While the body runs nothing but `Cancel` has ended the operation. -/
theorem Answers.returns (hs : StatusInv s) (h : Answers kind s) (hbody : s.body = .running)
    (value : α) : Answers kind (s.returns value) := by
  have hnone := hs.ending.mpr hbody
  rcases h with ⟨early, rest, hlist, hlength, hbefore, h⟩
  rw [hnone] at hbefore
  cases h with
  | started hst _ _ =>
      refine ⟨early, [], hlist, hlength, hbefore.of_none _, .started hst ?_ ?_⟩
      · intro hend
        cases hend
      · exact fun v hv => Except.ok.inj (Option.some.inj hv)
  | completed v k _ hend _ =>
      rw [hnone] at hend
      cases hend
  | failed e k l hne hnc he hk =>
      exact ⟨early, _, hlist, hlength, hbefore.of_none _, .failed e k l hne hnc he hk⟩

theorem step_answers (hs : StatusInv s) (h : Answers kind s) (hstep : step kind s e = some s') :
    Answers kind s' := by
  cases e with
  | returns value =>
      rcases Option.ite_none_right_eq_some.mp hstep with ⟨hbody, heq⟩
      rw [← Option.some.inj heq]
      exact h.returns hs hbody value
  | throws ex =>
      rcases Option.ite_none_right_eq_some.mp hstep with ⟨hbody, heq⟩
      rw [← Option.some.inj heq]
      exact h.throws hs hbody ex
  | setCompleted =>
      rcases Option.ite_none_right_eq_some.mp hstep with ⟨hbody, heq⟩
      rw [← Option.some.inj heq]
      exact h.setCompleted hs hbody
  | invokeCompleted =>
      simp only [step] at hstep
      split at hstep
      · rw [← Option.some.inj hstep]
        exact h.congr rfl rfl rfl rfl rfl rfl rfl
      · rw [← Option.some.inj hstep]
        exact h.congr rfl rfl rfl rfl rfl rfl rfl
      · cases hstep
  | completed i handler =>
      rcases Option.ite_none_right_eq_some.mp hstep with ⟨-, heq⟩
      rw [← Option.some.inj heq]
      unfold State.completed
      split
      · exact h
      · split <;> exact h.congr rfl rfl rfl rfl rfl rfl rfl
  | invoke i =>
      simp only [step] at hstep
      split at hstep
      · rw [← Option.some.inj hstep]
        exact h.congr rfl rfl rfl rfl rfl rfl rfl
      · cases hstep
  | cancel i =>
      rcases Option.ite_none_right_eq_some.mp hstep with ⟨-, heq⟩
      rw [← Option.some.inj heq]
      exact h.cancel
  | getResults i =>
      rcases Option.ite_none_right_eq_some.mp hstep with ⟨-, heq⟩
      rw [← Option.some.inj heq]
      exact h.getResults hs
  | _ =>
      rcases Option.ite_none_right_eq_some.mp hstep with ⟨-, heq⟩
      rw [← Option.some.inj heq]
      exact h.congr rfl rfl rfl rfl rfl rfl rfl

theorem answers_new (kind : Kind α) : Answers kind (State.new kind) := by
  refine ⟨[], [], rfl, rfl, ?_, .started rfl (fun _ => rfl) nofun⟩
  unfold Early
  split
  · exact ⟨0, 0, kind.empty, fun h => absurd rfl h, rfl⟩
  · exact ⟨0, rfl⟩

theorem answers_reachable (hs : (machine kind).Reachable s) : Answers kind s := by
  have hinv : (machine kind).Inductive fun s => StatusInv s ∧ Answers kind s := by
    constructor
    · rintro s rfl
      exact ⟨statusInv_new kind, answers_new kind⟩
    · rintro s e s' ⟨hs, h⟩ hstep
      exact ⟨step_statusInv hs hstep, step_answers hs h hstep⟩
  exact (hinv.reachable hs).2

/-- The exception that is stored is that of the body, or that of `Cancel`. -/
theorem StatusInv.exception_cases (h : StatusInv s) {ex : Exn}
    (hex : s.promise.exception = some ex) :
    s.ending = some (.error ex) ∨ s.cancelled = true ∧ ex = .canceled := by
  rw [h.exception] at hex
  unfold exceptionOf at hex
  split at hex
  · rename_i hending
    rw [Option.some.inj hex] at hending
    exact Or.inl hending
  · cases hcancelled : s.cancelled with
    | false =>
        rw [hcancelled] at hex
        cases hex
    | true =>
        rw [hcancelled] at hex
        exact Or.inr ⟨rfl, (Option.some.inj hex).symm⟩

/-- The value is there only if nobody has cancelled. -/
theorem StatusInv.not_cancelled (h : StatusInv s) (hcompleted : s.promise.status = .completed)
    {v : α} (hending : s.ending = some (.ok v)) : s.cancelled = false := by
  have hstatus := h.status
  rw [hcompleted, hending] at hstatus
  cases hcancelled : s.cancelled with
  | false => rfl
  | true =>
      rw [hcancelled] at hstatus
      cases hstatus

/-- What the calls of `GetResults` are answered once the operation has ended. -/
def Late (kind : Kind α) (cancelled : Bool) (ending : Option (Except Exn α)) (late : List (Got α)) :
    Prop :=
  late = [] ∨
    (∃ v k, ending = some (.ok v) ∧ cancelled = false ∧
      late = (List.iterate kind.leaves v k).map .value) ∨
    ∃ ex k l, (k ≠ 0 → cancelled = true) ∧ (l ≠ 0 → ending = some (.error ex)) ∧
      late = List.replicate k (.thrown .canceled) ++ List.replicate l (.thrown ex)

theorem Outcome.late (hs : StatusInv s) {rest : List (Got α)}
    (h : Outcome kind s.promise s.cancelled s.ending rest) :
    Late kind s.cancelled s.ending rest := by
  cases h with
  | started _ _ _ => exact Or.inl rfl
  | completed v k hst hend _ =>
      exact Or.inr (Or.inl ⟨v, k, hend, hs.not_cancelled hst hend, rfl⟩)
  | failed ex k l _ _ hex hk =>
      right
      right
      rcases hs.exception_cases hex with hending | ⟨hcancelled, rfl⟩
      · exact ⟨ex, k, l, hk, fun _ => hending, rfl⟩
      · refine ⟨.canceled, k + l, 0, fun _ => hcancelled, fun hne => absurd rfl hne, ?_⟩
        rw [← List.replicate_add, List.replicate_zero, List.append_nil]

/-- A status that was told to the handler is there to stay: the operation has ended. -/
theorem Justified.not_started {status : AsyncStatus} (hs : StatusInv s)
    (h : Justified s.cancelled s.ending s.body.settled status) : s.promise.status ≠ .started := by
  rw [hs.status]
  cases hstatus : status with
  | started => exact absurd hstatus h.started
  | completed =>
      rcases h.completed hstatus with ⟨hsettled, v, hv⟩
      rw [hv, hsettled]
      cases s.cancelled <;> nofun
  | error =>
      rcases h.error hstatus with ⟨code, hcode⟩
      rw [hcode]
      nofun
  | canceled =>
      rcases h.canceled hstatus with hcancelled | hcanceled
      · rw [hcancelled]
        unfold statusOf
        split <;> nofun
      · rw [hcanceled]
        nofun

/-- An operation that has ended stays so. -/
theorem step_not_started (hs : s.promise.status ≠ .started)
    (hstep : step kind s e = some s') : s'.promise.status ≠ .started := by
  cases e with
  | throws ex =>
      rcases Option.ite_none_right_eq_some.mp hstep with ⟨-, heq⟩
      rw [← Option.some.inj heq]
      cases ex <;> nofun
  | setCompleted =>
      rcases Option.ite_none_right_eq_some.mp hstep with ⟨-, heq⟩
      rw [← Option.some.inj heq]
      show (if s.promise.status = .started then AsyncStatus.completed else s.promise.status) ≠ _
      rw [if_neg hs]
      exact hs
  | invokeCompleted =>
      simp only [step] at hstep
      split at hstep
      · rw [← Option.some.inj hstep]
        exact hs
      · rw [← Option.some.inj hstep]
        exact hs
      · cases hstep
  | completed i handler =>
      rcases Option.ite_none_right_eq_some.mp hstep with ⟨-, heq⟩
      rw [← Option.some.inj heq, (completed_frame s i handler).2.2.1]
      exact hs
  | invoke i =>
      simp only [step] at hstep
      split at hstep
      · rw [← Option.some.inj hstep]
        exact hs
      · cases hstep
  | cancel i =>
      rcases Option.ite_none_right_eq_some.mp hstep with ⟨-, heq⟩
      rw [← Option.some.inj heq]
      unfold State.cancel
      rw [if_neg hs]
      exact hs
  | _ =>
      rcases Option.ite_none_right_eq_some.mp hstep with ⟨-, heq⟩
      rw [← Option.some.inj heq]
      exact hs

/-- Only `GetResults` answers. -/
theorem step_results (hstep : step kind s e = some s') :
    s'.results = s.results ∨ s'.results = s.results ++ [s.answer kind] := by
  cases e with
  | getResults i =>
      rcases Option.ite_none_right_eq_some.mp hstep with ⟨-, heq⟩
      rw [← Option.some.inj heq]
      exact Or.inr rfl
  | invokeCompleted =>
      simp only [step] at hstep
      split at hstep
      · rw [← Option.some.inj hstep]
        exact Or.inl rfl
      · rw [← Option.some.inj hstep]
        exact Or.inl rfl
      · cases hstep
  | completed i handler =>
      rcases Option.ite_none_right_eq_some.mp hstep with ⟨-, heq⟩
      rw [← Option.some.inj heq]
      left
      unfold State.completed
      split
      · rfl
      · split <;> rfl
  | invoke i =>
      simp only [step] at hstep
      split at hstep
      · rw [← Option.some.inj hstep]
        exact Or.inl rfl
      · cases hstep
  | cancel i =>
      rcases Option.ite_none_right_eq_some.mp hstep with ⟨-, heq⟩
      rw [← Option.some.inj heq]
      left
      unfold State.cancel
      split <;> rfl
  | _ =>
      rcases Option.ite_none_right_eq_some.mp hstep with ⟨-, heq⟩
      rw [← Option.some.inj heq]
      exact Or.inl rfl

/-- An answer that `await_resume` can return or throw. -/
def Got.Answered (g : Got α) : Prop := (∃ v, g = .value v) ∨ ∃ ex, g = .thrown ex

/-- With the status `Error` or `Canceled` there is an exception to throw. -/
theorem StatusInv.answered (hs : StatusInv s) (hended : s.promise.status ≠ .started) :
    (s.answer kind).Answered := by
  unfold State.answer
  split
  · exact Or.inl ⟨_, rfl⟩
  · rename_i hst
    exact absurd hst hended
  · exact Or.inr ⟨_, rfl⟩
  · rename_i hnull hcompleted _
    rw [hs.exception] at hnull
    unfold exceptionOf at hnull
    split at hnull
    · cases hnull
    · rename_i hok
      have hcancelled : s.cancelled = false := by
        cases hc : s.cancelled with
        | false => rfl
        | true =>
            rw [hc] at hnull
            cases hnull
      have hst := hs.status
      rw [hcancelled] at hst
      rcases hending : s.ending with - | ex | v
      · rw [hending] at hst
        exact absurd hst hended
      · exact absurd hending (hok ex)
      · rw [hending] at hst
        cases hsettled : s.body.settled with
        | false =>
            rw [hsettled] at hst
            exact absurd hst hended
        | true =>
            rw [hsettled] at hst
            exact absurd hst hcompleted

/-- A coroutine that the handler continues asks for the results: whatever happens in between,
from the first invocation on every call of `GetResults` returns a value or throws an exception,
and none is illegal. -/
theorem answered_after_invocation (hs : (machine kind).Reachable s) (hinvoked : s.invocations ≠ [])
    {es : List (Event α)} (hrun : (machine kind).run s es = some s') :
    ∃ new, s'.results = s.results ++ new ∧ ∀ g ∈ new, g.Answered := by
  rcases reachable_inv hs with ⟨hstatus, hhandler⟩
  rcases List.exists_mem_of_ne_nil _ hinvoked with ⟨v, hv⟩
  have hended : s.promise.status ≠ .started := (hhandler.invoked v hv).not_started hstatus
  clear hhandler hinvoked hv hs
  induction es generalizing s with
  | nil =>
      rw [Machine.run_nil, Option.some.injEq] at hrun
      rw [hrun]
      exact ⟨[], (List.append_nil _).symm, nofun⟩
  | cons e es ih =>
      rcases Machine.run_cons_eq_some.mp hrun with ⟨t, hstep, hrest⟩
      rcases ih hrest (step_statusInv hstatus hstep) (step_not_started hended hstep)
        with ⟨new, hnew, hall⟩
      rcases step_results hstep with hsame | hone
      · exact ⟨new, by rw [hnew, hsame], hall⟩
      · refine ⟨s.answer kind :: new, by rw [hnew, hone, List.append_assoc]; rfl, ?_⟩
        intro g hg
        rcases List.mem_cons.mp hg with rfl | hg
        · exact hstatus.answered hended
        · exact hall g hg

/-- `Cancel` before the handler is registered: it is invoked at once, and the call of
`GetResults` that follows throws, although the body is to return a value. -/
theorem answered_after_invocation_canceled :
    ∃ s s' : State ℕ,
      (machine (.scalar 0)).run (State.new (.scalar 0))
        [.cancel 0, .completed 0 (some 7), .invoke 0] = some s ∧
      (machine (.scalar 0)).run s [.returns 5, .setCompleted, .getResults 0] = some s' ∧
      s'.results = [.thrown .canceled] ∧
      ∃ new, s'.results = s.results ++ new ∧ ∀ g ∈ new, g.Answered := by
  have hrun : ∃ s s' : State ℕ,
      (machine (.scalar 0)).run (State.new (.scalar 0))
        [.cancel 0, .completed 0 (some 7), .invoke 0] = some s ∧
      (machine (.scalar 0)).run s [.returns 5, .setCompleted, .getResults 0] = some s' ∧
      s.invocations.length = 1 ∧ s'.results = [.thrown .canceled] := ⟨_, _, rfl, rfl, rfl, rfl⟩
  obtain ⟨s, s', hrun, hrest, hlength, hresults⟩ := hrun
  have hinvoked : s.invocations ≠ [] := List.ne_nil_of_length_pos (by omega)
  exact ⟨s, s', hrun, hrest, hresults,
    answered_after_invocation ((Machine.Reachable.init rfl).run hrun) hinvoked hrest⟩

/-! ## The frame -/

/-- A reference that has not been released. -/
def Holder.held : Holder → ℕ
  | .gone => 0
  | _ => 1

/-- The references that have not been released: those of the holders and that of the coroutine. -/
def State.held (s : State α) : ℕ :=
  (s.holders.map Holder.held).sum + if s.body = .finished then 0 else 1

structure FrameInv (s : State α) : Prop where
  references : s.promise.references = s.held
  destroyed : s.destroyed = if s.held = 0 then 1 else 0

theorem frameInv_new (kind : Kind α) : FrameInv (State.new kind) := ⟨rfl, rfl⟩

/-- The references stay where they are. -/
theorem FrameInv.congr (h : FrameInv s) (hreferences : s'.promise.references = s.promise.references)
    (hdestroyed : s'.destroyed = s.destroyed) (hheld : s'.held = s.held) : FrameInv s' where
  references := by rw [hreferences, hheld]; exact h.references
  destroyed := by rw [hdestroyed, hheld]; exact h.destroyed

theorem held_congr (hholders : (s'.holders.map Holder.held).sum = (s.holders.map Holder.held).sum)
    (hbody : s'.body = .finished ↔ s.body = .finished) : s'.held = s.held := by
  unfold State.held
  rw [hholders]
  simp only [hbody]

/-- `subtract_reference`, for one of the references held. -/
theorem FrameInv.subtract (h : FrameInv s) (hheld : s'.held + 1 = s.held)
    (hreferences : s'.promise.references = s.promise.references - 1)
    (hdestroyed : s'.destroyed =
      if s.promise.references - 1 = 0 then s.destroyed + 1 else s.destroyed) : FrameInv s' := by
  have hone : s.promise.references - 1 = s'.held := by
    rw [h.references]
    omega
  have hzero : s.destroyed = 0 := by
    rw [h.destroyed, if_neg]
    omega
  refine ⟨hreferences.trans hone, ?_⟩
  rw [hdestroyed, hone, hzero]

/-- A holder that goes from one use of its reference to another still holds it. -/
theorem held_set {l : List Holder} {i : ℕ} {a b : Holder} (hi : l[i]? = some a)
    (hab : b.held = a.held) : ((l.set i b).map Holder.held).sum = (l.map Holder.held).sum := by
  have hset := Executor.sum_map_set Holder.held hi b
  omega

theorem FrameInv.completed (h : FrameInv s) {i : ℕ} (hidle : s.Idle i) (handler : Option ℕ) :
    FrameInv (s.completed i handler) := by
  unfold State.completed
  split
  · exact h
  · split
    · exact h.congr rfl rfl rfl
    · cases handler with
      | none => exact h.congr rfl rfl rfl
      | some handler =>
          exact h.congr rfl rfl
            (held_congr (held_set (b := .invoking handler s.promise.status) hidle rfl) Iff.rfl)

theorem step_frameInv (h : FrameInv s) (hstep : step kind s e = some s') : FrameInv s' := by
  cases e with
  | returns value =>
      rcases Option.ite_none_right_eq_some.mp hstep with ⟨hbody, heq⟩
      rw [← Option.some.inj heq]
      refine h.congr rfl rfl (held_congr rfl ?_)
      rw [hbody]
      exact iff_of_false (fun h => by cases h) (fun h => by cases h)
  | throws ex =>
      rcases Option.ite_none_right_eq_some.mp hstep with ⟨hbody, heq⟩
      rw [← Option.some.inj heq]
      refine h.congr rfl rfl (held_congr rfl ?_)
      rw [hbody]
      exact iff_of_false (fun h => by cases h) (fun h => by cases h)
  | setCompleted =>
      rcases Option.ite_none_right_eq_some.mp hstep with ⟨hbody, heq⟩
      rw [← Option.some.inj heq]
      refine h.congr rfl rfl (held_congr rfl ?_)
      rw [hbody]
      exact iff_of_false (fun h => by cases h) (fun h => by cases h)
  | invokeCompleted =>
      simp only [step] at hstep
      split at hstep
      · rename_i hbody
        rw [← Option.some.inj hstep]
        refine h.congr rfl rfl (held_congr rfl ?_)
        rw [hbody]
        exact iff_of_false (fun h => by cases h) (fun h => by cases h)
      · rename_i hbody
        rw [← Option.some.inj hstep]
        refine h.congr rfl rfl (held_congr rfl ?_)
        rw [hbody]
        exact iff_of_false (fun h => by cases h) (fun h => by cases h)
      · cases hstep
  | finalRelease =>
      rcases Option.ite_none_right_eq_some.mp hstep with ⟨hbody, heq⟩
      rw [← Option.some.inj heq]
      refine h.subtract ?_ rfl rfl
      unfold State.held
      rw [hbody]
      rfl
  | completed i handler =>
      rcases Option.ite_none_right_eq_some.mp hstep with ⟨hidle, heq⟩
      rw [← Option.some.inj heq]
      exact h.completed hidle handler
  | invoke i =>
      simp only [step] at hstep
      split at hstep
      · rename_i hi
        rw [← Option.some.inj hstep]
        exact h.congr rfl rfl (held_congr (held_set (b := .idle) hi rfl) Iff.rfl)
      · cases hstep
  | cancel i =>
      rcases Option.ite_none_right_eq_some.mp hstep with ⟨-, heq⟩
      rw [← Option.some.inj heq]
      unfold State.cancel
      split
      · exact h.congr rfl rfl rfl
      · exact h
  | getResults i =>
      rcases Option.ite_none_right_eq_some.mp hstep with ⟨-, heq⟩
      rw [← Option.some.inj heq]
      exact h.congr rfl rfl rfl
  | addRef i =>
      rcases Option.ite_none_right_eq_some.mp hstep with ⟨hidle, heq⟩
      rw [← Option.some.inj heq]
      have hone : 1 ≤ s.held := by
        have hset := Executor.sum_map_set Holder.held hidle .gone
        simp only [Holder.held] at hset
        unfold State.held
        omega
      have hheld : State.held { s with
          promise := { s.promise with references := s.promise.references + 1 }
          holders := s.holders ++ [.idle] } = s.held + 1 := by
        unfold State.held
        rw [List.map_append, List.sum_append, Nat.add_right_comm]
        rfl
      refine ⟨?_, ?_⟩
      · rw [hheld, ← h.references]
      · rw [hheld, if_neg (Nat.succ_ne_zero _)]
        have hdestroyed := h.destroyed
        rw [if_neg (by omega)] at hdestroyed
        exact hdestroyed
  | release i =>
      rcases Option.ite_none_right_eq_some.mp hstep with ⟨hidle, heq⟩
      rw [← Option.some.inj heq]
      refine h.subtract ?_ rfl rfl
      have hset := Executor.sum_map_set Holder.held hidle .gone
      show ((s.holders.set i .gone).map Holder.held).sum + (if s.body = .finished then 0 else 1) + 1 =
        (s.holders.map Holder.held).sum + if s.body = .finished then 0 else 1
      simp only [Holder.held] at hset
      omega

theorem frameInv_reachable (hs : (machine kind).Reachable s) : FrameInv s := by
  have hinv : (machine kind).Inductive FrameInv := by
    constructor
    · rintro s rfl
      exact frameInv_new kind
    · intro s e s' h hstep
      exact step_frameInv h hstep
  exact hinv.reachable hs

theorem held_eq_zero_iff : s.held = 0 ↔ s.body = .finished ∧ ∀ h ∈ s.holders, h = .gone := by
  unfold State.held
  rw [Nat.add_eq_zero_iff, List.sum_eq_zero_iff, and_comm]
  refine and_congr ?_ ?_
  · split <;> simp_all
  · rw [List.forall_mem_map]
    refine forall₂_congr fun h _ => ?_
    cases h with
    | gone => exact iff_of_true rfl rfl
    | _ => exact iff_of_false nofun nofun

/-- Whoever still holds a reference can go on: nobody waits for anybody. -/
theorem exists_step_of_held (kind : Kind α) (hheld : s.held ≠ 0) :
    ∃ e, (machine kind).step s e ≠ none := by
  rw [ne_eq, held_eq_zero_iff, not_and_or] at hheld
  rcases hheld with hbody | hholders
  · cases hb : s.body with
    | running => exact ⟨.throws .canceled, by simp [machine, step, hb]⟩
    | ended => exact ⟨.setCompleted, by simp [machine, step, hb]⟩
    | invoking handler status =>
        refine ⟨.invokeCompleted, ?_⟩
        cases handler <;> simp [machine, step, hb]
    | releasing => exact ⟨.finalRelease, by simp [machine, step, hb]⟩
    | finished => exact absurd hb hbody
  · push Not at hholders
    rcases hholders with ⟨holder, hmem, hne⟩
    rcases List.getElem?_of_mem hmem with ⟨i, hi⟩
    cases holder with
    | idle => exact ⟨.release i, by simp [machine, step, State.Idle, hi]⟩
    | invoking handler status => exact ⟨.invoke i, by simp [machine, step, hi]⟩
    | gone => exact absurd rfl hne

/-- Nobody uses the promise any more. -/
theorem stuck_of_held (hheld : s.held = 0) : (machine kind).Stuck s := by
  rcases held_eq_zero_iff.mp hheld with ⟨hbody, hholders⟩
  have hgone : ∀ (i : ℕ) (holder : Holder), s.holders[i]? = some holder → holder = .gone :=
    fun i holder hi => hholders holder (List.mem_of_getElem? hi)
  have hidle : ∀ i, ¬ s.Idle i := by
    intro i hi
    cases hgone i _ hi
  intro e
  cases e with
  | invoke i =>
      show step kind s (.invoke i) = none
      simp only [step]
      split
      · rename_i hi
        cases hgone i _ hi
      · rfl
  | _ => simp [machine, step, hbody, hidle]

/-- In every run the frame of the coroutine is destroyed at most once, by whoever gives up the
last reference: the coroutine in `final_suspend`, or a holder in `Release`. It is destroyed once
the coroutine is over and all references are gone, and not before; from then on nobody can touch
it, and until then somebody can always go on. -/
theorem frame_destroyed_once (hs : (machine kind).Reachable s) :
    s.destroyed ≤ 1 ∧ (s.destroyed = 1 ↔ s.body = .finished ∧ ∀ h ∈ s.holders, h = .gone) ∧
      ((machine kind).Stuck s ↔ s.destroyed = 1) := by
  have hdestroyed := (frameInv_reachable hs).destroyed
  have hone : s.destroyed = 1 ↔ s.held = 0 := by
    rw [hdestroyed]
    split <;> simp_all
  refine ⟨?_, ?_, ?_⟩
  · rw [hdestroyed]
    split <;> omega
  · rw [hone, held_eq_zero_iff]
  · rw [hone]
    refine ⟨fun hstuck => ?_, stuck_of_held⟩
    by_contra hheld
    rcases exists_step_of_held kind hheld with ⟨e, he⟩
    exact he (hstuck e)

/-- The caller copies its reference and releases both; the coroutine is the last. -/
theorem frame_destroyed_once_by_coroutine : ∃ s : State ℕ, (machine (.scalar 0)).Reachable s ∧
    s.holders = [.gone, .gone] ∧ s.destroyed = 1 ∧
    ((machine (.scalar 0)).Stuck s ↔ s.destroyed = 1) := by
  have hrun : ∃ s : State ℕ,
      (machine (.scalar 0)).run (State.new (.scalar 0)) [.addRef 0, .release 0, .returns 5,
        .release 1, .setCompleted, .invokeCompleted, .finalRelease] = some s ∧
      s.holders = [.gone, .gone] ∧ s.destroyed = 1 := ⟨_, rfl, rfl, rfl⟩
  obtain ⟨s, hrun, hholders, hdestroyed⟩ := hrun
  have hs : (machine (.scalar 0)).Reachable s := (Machine.Reachable.init rfl).run hrun
  exact ⟨s, hs, hholders, hdestroyed, (frame_destroyed_once hs).2.2⟩

end Results

end CppCoroutines.WinRTPromise
