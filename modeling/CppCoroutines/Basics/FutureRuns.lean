import CppCoroutines.Basics.Future

/-!
# What the futures come to

Whatever the order in which the threads run, a coroutine of futures computes what its body
computes when every `co_await` is a call.
-/

namespace CppCoroutines.Future

variable {ε α : Type}

/-! ## The steps -/

/-- The steps, with what they require. -/
inductive Step (s : State ε α) : Event → State ε α → Prop where
  | go {j : ℕ} {c : Coroutine ε α} {b : Body ε α} : s.coroutines[j]? = some c →
      c.code = .running b → Step s (.go j) (s.go j c b)
  | proceed {j m : ℕ} {c g : Coroutine ε α} {next : Except ε α → Body ε α} :
      s.coroutines[j]? = some c → c.code = .calling m next → s.coroutines[m]? = some g →
      g.control = .returned →
      Step s (.proceed j) (s.setCoroutine j { c with code := .awaiting (.coroutine m) next })
  | ready {j : ℕ} {c : Coroutine ε α} {fut : Fut} {next : Except ε α → Body ε α} {r : Except ε α} :
      s.coroutines[j]? = some c → c.code = .awaiting fut next → s.fetch fut = some r →
      Step s (.await j) (s.setCoroutine j { c with code := .running (next r) })
  | suspend {j : ℕ} {c : Coroutine ε α} {fut : Fut} {next : Except ε α → Body ε α} :
      s.coroutines[j]? = some c → c.code = .awaiting fut next → s.fetch fut = none →
      Step s (.await j) (s.suspend j c fut next)
  | leave {j : ℕ} {c : Coroutine ε α} : s.coroutines[j]? = some c → c.control = .leaving →
      Step s (.leave j) (s.setCoroutine j { c with control := .returned })
  | work {t : ℕ} {x : Task ε α} : s.tasks[t]? = some x → x.deferred = false → x.ready = false →
      Step s (.work t) { s with tasks := s.tasks.set t { x with ready := true } }
  | resume {i : ℕ} {w : Waiter} {r : Except ε α} : s.waiters[i]? = some w →
      s.fetch w.fut = some r →
      Step s (.resume i) ({ s with waiters := s.waiters.eraseIdx i }.resume w.coro)
  | get {c : Coroutine ε α} {r : Except ε α} : s.got = none → s.coroutines[0]? = some c →
      c.control = .returned → c.value = some r → Step s .get { s with got := some r }

theorem step_cases {s s' : State ε α} {e : Event} (hstep : step s e = some s') : Step s e s' := by
  cases e with
  | go j =>
      simp only [step] at hstep
      split at hstep
      · rename_i c hc
        split at hstep
        · rename_i b hb
          rw [← Option.some.inj hstep]
          exact .go hc hb
        · cases hstep
      · cases hstep
  | proceed j =>
      simp only [step] at hstep
      split at hstep
      · rename_i c hc
        split at hstep
        · rename_i m next hcode
          rcases Option.ite_none_right_eq_some.mp hstep with ⟨hreturned, heq⟩
          rcases Option.map_eq_some_iff.mp hreturned with ⟨g, hg, hcontrol⟩
          rw [← Option.some.inj heq]
          exact .proceed hc hcode hg hcontrol
        · cases hstep
      · cases hstep
  | await j =>
      simp only [step] at hstep
      split at hstep
      · rename_i c hc
        split at hstep
        · rename_i fut next hcode
          split at hstep
          · rename_i r hr
            rw [← Option.some.inj hstep]
            exact .ready hc hcode hr
          · rename_i hnone
            rw [← Option.some.inj hstep]
            exact .suspend hc hcode hnone
        · cases hstep
      · cases hstep
  | leave j =>
      simp only [step] at hstep
      split at hstep
      · rename_i c hc
        rcases Option.ite_none_right_eq_some.mp hstep with ⟨hleaving, heq⟩
        rw [← Option.some.inj heq]
        exact .leave hc hleaving
      · cases hstep
  | work t =>
      simp only [step] at hstep
      split at hstep
      · rename_i x hx
        rcases Option.ite_none_right_eq_some.mp hstep with ⟨⟨hdeferred, hready⟩, heq⟩
        rw [← Option.some.inj heq]
        exact .work hx hdeferred hready
      · cases hstep
  | resume i =>
      simp only [step] at hstep
      split at hstep
      · rename_i w hw
        rcases Option.ite_none_right_eq_some.mp hstep with ⟨hready, heq⟩
        rcases Option.isSome_iff_exists.mp hready with ⟨r, hr⟩
        rw [← Option.some.inj heq]
        exact .resume hw hr
      · cases hstep
  | get =>
      rcases Option.ite_none_right_eq_some.mp hstep with ⟨⟨hnone, hreturned⟩, heq⟩
      rcases Option.map_eq_some_iff.mp hreturned with ⟨c, hc, hcontrol⟩
      rcases Option.map_eq_some_iff.mp heq with ⟨r, hr, rfl⟩
      rcases Option.bind_eq_some_iff.mp hr with ⟨c', hc', hvalue⟩
      obtain rfl : c = c' := Option.some.inj (hc.symm.trans hc')
      exact .get hnone hc hcontrol hvalue

/-! ## The invariant -/

/-- What a future is going to come to. -/
def State.denote (s : State ε α) : Fut → Option (Except ε α)
  | .task t => s.tasks[t]?.map Task.result
  | .coroutine j => s.coroutines[j]?.map fun c => c.body.eval

/-- A coroutine awaits only the coroutines that it has called, which are younger. -/
def Fut.After (j : ℕ) : Fut → Prop
  | .task _ => True
  | .coroutine m => j < m

/-- From here the body comes to `r`. -/
def Code.Comes (s : State ε α) (j : ℕ) (r : Except ε α) : Code ε α → Prop
  | .running b => b.eval = r
  | .calling m next => j < m ∧ ∃ x, s.denote (.coroutine m) = some x ∧ (next x).eval = r
  | .awaiting fut next => fut.After j ∧ ∃ x, s.denote fut = some x ∧ (next x).eval = r
  | .suspended fut next => fut.After j ∧ ∃ x, s.denote fut = some x ∧ (next x).eval = r
  | .finished => True

/-- What a coroutine is suspended on. -/
def Code.suspendedOn : Code ε α → Option Fut
  | .suspended fut _ => some fut
  | _ => none

def Code.isOver : Code ε α → Bool
  | .finished => true
  | _ => false

structure CoroutineInv (s : State ε α) (j : ℕ) (c : Coroutine ε α) : Prop where
  comes : c.code.Comes s j c.body.eval
  value : c.value = if c.code.isOver then some c.body.eval else none
  control : c.control = .within → c.code.suspendedOn = none ∧ c.code.isOver = false
  resumptions : c.suspensions = c.resumptions + c.code.suspendedOn.toList.length

/-- What coroutine number `j` is suspended on. -/
def State.suspendedOn (s : State ε α) (j : ℕ) : Option Fut :=
  s.coroutines[j]?.bind fun c => c.code.suspendedOn

/-- A suspended coroutine has a thread that waits for its future, and no other has one. -/
structure Waits (s : State ε α) : Prop where
  mem : ∀ w, w ∈ s.waiters ↔ s.suspendedOn w.coro = some w.fut
  nodup : s.waiters.Nodup

structure Inv (b : Body ε α) (s : State ε α) : Prop where
  root : ∃ c, s.coroutines[0]? = some c ∧ c.body = b
  coroutines : ∀ j c, s.coroutines[j]? = some c → CoroutineInv s j c
  waits : Waits s
  got : ∀ r, s.got = some r → r = b.eval
  faults : s.faults = []

section Steps

variable {b : Body ε α} {s s' : State ε α} {j : ℕ} {c c' : Coroutine ε α}

theorem inv_start (b : Body ε α) : Inv b (State.start b) where
  root := ⟨Coroutine.new b, rfl, rfl⟩
  coroutines := by
    intro j c hc
    cases j with
    | zero =>
        obtain rfl : Coroutine.new b = c := Option.some.inj hc
        exact ⟨rfl, rfl, fun _ => ⟨rfl, rfl⟩, rfl⟩
    | succ j => cases hc
  waits := by
    refine ⟨fun w => ?_, List.nodup_nil⟩
    refine iff_of_false nofun ?_
    show ((State.start b).coroutines[w.coro]?.bind _) ≠ _
    rcases w with ⟨coro, fut⟩
    cases coro with
    | zero => nofun
    | succ coro => nofun
  got := nofun
  faults := rfl

/-- What `get` finds is what the future comes to. -/
theorem Inv.denote_of_fetch (h : Inv b s) {fut : Fut} {r : Except ε α}
    (hr : s.fetch fut = some r) : s.denote fut = some r := by
  cases fut with
  | task t =>
      rcases Option.bind_eq_some_iff.mp hr with ⟨x, hx, hready⟩
      rcases Option.ite_none_right_eq_some.mp hready with ⟨-, heq⟩
      show s.tasks[t]?.map Task.result = some r
      rw [hx, ← heq]
      rfl
  | coroutine m =>
      rcases Option.bind_eq_some_iff.mp hr with ⟨c, hc, hvalue⟩
      show s.coroutines[m]?.map _ = some r
      rw [(h.coroutines m c hc).value] at hvalue
      rw [hc, ← (Option.ite_none_right_eq_some.mp hvalue).2]
      rfl

/-- Coroutines and tasks keep what they come to. -/
def Grows (s s' : State ε α) : Prop := ∀ fut r, s.denote fut = some r → s'.denote fut = some r

theorem CoroutineInv.mono (h : CoroutineInv s j c) (hgrows : Grows s s') :
    CoroutineInv s' j c where
  comes := by
    have hcomes := h.comes
    cases hcode : c.code with
    | calling m next =>
        rw [hcode] at hcomes
        rcases hcomes with ⟨hlt, x, hx, heval⟩
        exact ⟨hlt, x, hgrows _ _ hx, heval⟩
    | awaiting fut next =>
        rw [hcode] at hcomes
        rcases hcomes with ⟨hafter, x, hx, heval⟩
        exact ⟨hafter, x, hgrows _ _ hx, heval⟩
    | suspended fut next =>
        rw [hcode] at hcomes
        rcases hcomes with ⟨hafter, x, hx, heval⟩
        exact ⟨hafter, x, hgrows _ _ hx, heval⟩
    | running b =>
        rw [hcode] at hcomes
        exact hcomes
    | finished => trivial
  value := h.value
  control := h.control
  resumptions := h.resumptions

theorem denote_task {t : ℕ} (s : State ε α) :
    s.denote (.task t) = s.tasks[t]?.map Task.result := rfl

theorem denote_coroutine {m : ℕ} (s : State ε α) :
    s.denote (.coroutine m) = s.coroutines[m]?.map fun c => c.body.eval := rfl

/-- A coroutine changes, but not its body. -/
theorem grows_set (hj : s.coroutines[j]? = some c)
    (hcoroutines : s'.coroutines = s.coroutines.set j c') (hbody : c'.body = c.body) (htasks : s'.tasks = s.tasks) :
    Grows s s' := by
  intro fut r hr
  cases fut with
  | task t =>
      rw [denote_task, htasks]
      exact hr
  | coroutine m =>
      rw [denote_coroutine] at hr ⊢
      rw [hcoroutines]
      rcases eq_or_ne j m with rfl | hne
      · rw [hj] at hr
        rw [List.getElem?_set_self', hj]
        show some c'.body.eval = some r
        rw [hbody]
        exact hr
      · rw [List.getElem?_set_ne hne]
        exact hr

theorem grows_setCoroutine (hj : s.coroutines[j]? = some c) (hbody : c'.body = c.body) :
    Grows s (s.setCoroutine j c') := grows_set hj rfl hbody rfl

theorem suspendedOn_set (hj : s.coroutines[j]? = some c)
    (hcoroutines : s'.coroutines = s.coroutines.set j c') (i : ℕ) :
    s'.suspendedOn i = if j = i then c'.code.suspendedOn else s.suspendedOn i := by
  unfold State.suspendedOn
  rw [hcoroutines]
  split
  · rename_i heq
    rw [← heq, List.getElem?_set_self', hj]
    rfl
  · rename_i hne
    rw [List.getElem?_set_ne hne]

/-- No coroutine is suspended or resumed. -/
theorem Waits.congr (h : Waits s) (hwaiters : s'.waiters = s.waiters)
    (hsuspended : ∀ i, s'.suspendedOn i = s.suspendedOn i) : Waits s' := by
  refine ⟨fun w => ?_, ?_⟩
  · rw [hwaiters, hsuspended]
    exact h.mem w
  · rw [hwaiters]
    exact h.nodup

/-- One coroutine changes, and neither was nor is suspended. -/
theorem Waits.set (h : Waits s) (hj : s.coroutines[j]? = some c)
    (hcoroutines : s'.coroutines = s.coroutines.set j c') (hwaiters : s'.waiters = s.waiters)
    (hsame : c'.code.suspendedOn = c.code.suspendedOn) : Waits s' := by
  refine h.congr hwaiters fun i => ?_
  rw [suspendedOn_set hj hcoroutines]
  split
  · rename_i heq
    rw [← heq, hsame]
    unfold State.suspendedOn
    rw [hj]
    rfl
  · rfl

/-- One coroutine changes. -/
theorem Inv.set (h : Inv b s) (hj : s.coroutines[j]? = some c)
    (hcoroutines : s'.coroutines = s.coroutines.set j c') (hbody : c'.body = c.body) (htasks : s'.tasks = s.tasks)
    (hgot : s'.got = s.got) (hfaults : s'.faults = s.faults) (hwaits : Waits s')
    (hc' : CoroutineInv s' j c') : Inv b s' where
  root := by
    rcases h.root with ⟨c₀, hc₀, hroot⟩
    rw [hcoroutines]
    rcases eq_or_ne j 0 with rfl | hne
    · obtain rfl : c = c₀ := Option.some.inj (hj.symm.trans hc₀)
      refine ⟨c', ?_, hbody.trans hroot⟩
      rw [List.getElem?_set_self', hj]
      rfl
    · exact ⟨c₀, by rw [List.getElem?_set_ne hne]; exact hc₀, hroot⟩
  coroutines := by
    intro i x hx
    rw [hcoroutines] at hx
    rcases eq_or_ne j i with rfl | hne
    · rw [List.getElem?_set_self', hj] at hx
      obtain rfl : c' = x := Option.some.inj hx
      exact hc'
    · rw [List.getElem?_set_ne hne] at hx
      exact (h.coroutines i x hx).mono (grows_set hj hcoroutines hbody htasks)
  waits := hwaits
  got := by rw [hgot]; exact h.got
  faults := hfaults.trans h.faults

/-- The tasks change, but not what they come to. -/
theorem Inv.tasks (h : Inv b s) (hcoroutines : s'.coroutines = s.coroutines)
    (hwaiters : s'.waiters = s.waiters) (hgot : s'.got = s.got) (hfaults : s'.faults = s.faults)
    (hgrows : Grows s s') : Inv b s' where
  root := by rw [hcoroutines]; exact h.root
  coroutines := by
    intro i x hx
    rw [hcoroutines] at hx
    exact (h.coroutines i x hx).mono hgrows
  waits := by
    refine h.waits.congr hwaiters fun i => ?_
    unfold State.suspendedOn
    rw [hcoroutines]
  got := by rw [hgot]; exact h.got
  faults := hfaults.trans h.faults

theorem grows_pushTask (s : State ε α) (x : Task ε α) :
    Grows s { s with tasks := s.tasks ++ [x] } := by
  intro fut r hr
  cases fut with
  | coroutine m => exact hr
  | task t =>
      rcases Option.map_eq_some_iff.mp hr with ⟨y, hy, hresult⟩
      show (s.tasks ++ [x])[t]?.map Task.result = some r
      rw [List.getElem?_append_left (List.getElem?_eq_some_iff.mp hy).1, hy, ← hresult]
      rfl

theorem grows_work {t : ℕ} {x : Task ε α} (hx : s.tasks[t]? = some x) :
    Grows s { s with tasks := s.tasks.set t { x with ready := true } } := by
  intro fut r hr
  cases fut with
  | coroutine m => exact hr
  | task i =>
      rcases eq_or_ne t i with rfl | hne
      · rw [denote_task, hx] at hr
        show (s.tasks.set t _)[t]?.map Task.result = some r
        rw [List.getElem?_set_self', hx]
        exact hr
      · show (s.tasks.set t _)[i]?.map Task.result = some r
        rw [List.getElem?_set_ne hne]
        exact hr

/-! ## The steps keep it -/

/-- A coroutine is called. -/
def State.push (s : State ε α) (callee : Body ε α) : State ε α :=
  { s with coroutines := s.coroutines ++ [Coroutine.new callee] }

theorem push_of_lt (callee : Body ε α) {i : ℕ} {x : Coroutine ε α}
    (hx : s.coroutines[i]? = some x) : (s.push callee).coroutines[i]? = some x :=
  (List.getElem?_append_left (List.getElem?_eq_some_iff.mp hx).1).trans hx

/-- The coroutine that is called is the last one. -/
theorem push_cases {callee : Body ε α} {i : ℕ} {x : Coroutine ε α}
    (hx : (s.push callee).coroutines[i]? = some x) :
    s.coroutines[i]? = some x ∨ i = s.coroutines.length ∧ x = Coroutine.new callee := by
  rcases lt_trichotomy i s.coroutines.length with hlt | rfl | hgt
  · exact Or.inl ((List.getElem?_append_left hlt).symm.trans hx)
  · exact Or.inr ⟨rfl, (Option.some.inj (List.getElem?_concat_length.symm.trans hx)).symm⟩
  · have hnone : (s.push callee).coroutines[i]? = none := by
      apply List.getElem?_eq_none
      show (s.coroutines ++ [_]).length ≤ i
      rw [List.length_append, List.length_singleton]
      exact hgt
    rw [hnone] at hx
    cases hx

theorem grows_push (s : State ε α) (callee : Body ε α) : Grows s (s.push callee) := by
  intro fut r hr
  cases fut with
  | task t => exact hr
  | coroutine m =>
      rcases Option.map_eq_some_iff.mp hr with ⟨x, hx, heval⟩
      rw [denote_coroutine, push_of_lt callee hx, ← heval]
      rfl

theorem Inv.push (h : Inv b s) (callee : Body ε α) : Inv b (s.push callee) where
  root := by
    rcases h.root with ⟨c, hc, hbody⟩
    exact ⟨c, push_of_lt callee hc, hbody⟩
  coroutines := by
    intro i x hx
    rcases push_cases hx with hold | ⟨-, rfl⟩
    · exact (h.coroutines i x hold).mono (grows_push s callee)
    · exact ⟨rfl, rfl, fun _ => ⟨rfl, rfl⟩, rfl⟩
  waits := by
    refine h.waits.congr rfl fun i => ?_
    unfold State.suspendedOn
    cases hi : s.coroutines[i]? with
    | some x => rw [push_of_lt callee hi]
    | none =>
        cases hnew : (s.push callee).coroutines[i]? with
        | none => rfl
        | some x =>
            rcases push_cases hnew with hold | ⟨-, rfl⟩
            · rw [hi] at hold
              cases hold
            · rfl
  got := h.got
  faults := h.faults

theorem leave_ne_within (c : Control) : c.leave ≠ .within := by
  cases c <;> nofun

/-- The body has ended: the promise is set, for the first time. -/
theorem Inv.finish (h : Inv b s) (hj : s.coroutines[j]? = some c) {r : Except ε α}
    (hcode : c.code = .running (.done r)) : Inv b (s.finish j c r) := by
  have hc := h.coroutines j c hj
  have hvalue : c.value = none := by rw [hc.value, hcode]; rfl
  have hcomes := hc.comes
  have hres := hc.resumptions
  rw [hcode] at hcomes hres
  unfold State.finish
  rw [hvalue]
  refine h.set hj rfl rfl rfl rfl rfl (h.waits.set hj rfl rfl ?_) ?_
  · rw [hcode]
    rfl
  · exact ⟨trivial, congrArg some hcomes, fun hw => absurd hw (leave_ne_within _), hres⟩

/-- The body has come to a `co_await`. -/
theorem Inv.go (h : Inv b s) (hj : s.coroutines[j]? = some c) {body : Body ε α}
    (hcode : c.code = .running body) : Inv b (s.go j c body) := by
  have hc := h.coroutines j c hj
  have hcomes := hc.comes
  have hvalue : c.value = none := by rw [hc.value, hcode]; rfl
  have hres := hc.resumptions
  rw [hcode] at hcomes hres
  cases body with
  | done r => exact h.finish hj hcode
  | async deferred r next =>
      have hpushed : Inv b { s with tasks := s.tasks ++ [⟨deferred, r, false⟩] } :=
        h.tasks rfl rfl rfl rfl (grows_pushTask s _)
      refine hpushed.set hj rfl rfl rfl rfl rfl (hpushed.waits.set hj rfl rfl ?_) ?_
      · rw [hcode]
        rfl
      · refine ⟨⟨trivial, r, ?_, hcomes⟩, hvalue, fun _ => ⟨rfl, rfl⟩, hres⟩
        show (s.tasks ++ [_])[s.tasks.length]?.map Task.result = some r
        rw [List.getElem?_concat_length]
        rfl
  | call callee next =>
      have hpushed := h.push callee
      have hj' := push_of_lt callee hj
      have hlt : j < s.coroutines.length := (List.getElem?_eq_some_iff.mp hj).1
      have hset : (s.go j c (.call callee next)).coroutines =
          (s.push callee).coroutines.set j { c with code := .calling s.coroutines.length next } :=
        (List.set_append_left j _ hlt).symm
      refine hpushed.set hj' hset rfl rfl rfl rfl (hpushed.waits.set hj' hset rfl ?_) ?_
      · rw [hcode]
        rfl
      · refine ⟨⟨hlt, callee.eval, ?_, hcomes⟩, hvalue, fun _ => ⟨rfl, rfl⟩, hres⟩
        refine grows_set hj' hset rfl rfl _ _ ?_
        show (s.coroutines ++ [_])[s.coroutines.length]?.map _ = _
        rw [List.getElem?_concat_length]
        rfl

/-- The future is not ready: a thread is spawned that waits for it. -/
theorem Inv.suspend (h : Inv b s) (hj : s.coroutines[j]? = some c) {fut : Fut}
    {next : Except ε α → Body ε α} (hcode : c.code = .awaiting fut next) :
    Inv b (s.suspend j c fut next) := by
  have hc := h.coroutines j c hj
  have hcomes := hc.comes
  have hvalue : c.value = none := by rw [hc.value, hcode]; rfl
  have hres := hc.resumptions
  rw [hcode] at hcomes hres
  have hnone : s.suspendedOn j = none := by
    unfold State.suspendedOn
    rw [hj]
    show c.code.suspendedOn = none
    rw [hcode]
    rfl
  have hnew : (⟨j, fut⟩ : Waiter) ∉ s.waiters := by
    rw [h.waits.mem, hnone]
    nofun
  refine h.set hj rfl rfl rfl rfl rfl ⟨fun w => ?_, ?_⟩ ?_
  · have hset : (s.suspend j c fut next).coroutines = s.coroutines.set j { c with
        code := .suspended fut next
        control := c.control.leave
        suspensions := c.suspensions + 1 } := rfl
    rw [suspendedOn_set hj hset]
    show w ∈ s.waiters ++ [⟨j, fut⟩] ↔ _
    rw [List.mem_append, h.waits.mem, List.mem_singleton]
    rcases w with ⟨coro, fut'⟩
    rcases eq_or_ne j coro with rfl | hne
    · rw [if_pos rfl]
      show s.suspendedOn j = some fut' ∨ _ ↔ some fut = some fut'
      rw [hnone, Waiter.mk.injEq, Option.some.injEq]
      constructor
      · rintro (hnot | ⟨-, rfl⟩)
        · cases hnot
        · rfl
      · rintro rfl
        exact Or.inr ⟨rfl, rfl⟩
    · rw [if_neg hne, Waiter.mk.injEq]
      exact or_iff_left fun hw => hne hw.1.symm
  · exact List.nodup_append.mpr ⟨h.waits.nodup, List.nodup_singleton _, fun w hw x hx => by
      rw [List.mem_singleton.mp hx]
      exact fun heq => hnew (heq ▸ hw)⟩
  · refine ⟨?_, hvalue, fun hw => absurd hw (leave_ne_within _), ?_⟩
    · rcases hcomes with ⟨hafter, x, hx, heval⟩
      have hgrows : Grows s (s.suspend j c fut next) := grows_set hj rfl rfl rfl
      exact ⟨hafter, x, hgrows _ _ hx, heval⟩
    · show c.suspensions + 1 = c.resumptions + 1
      rw [hres]
      rfl

/-- The thread of an awaiter finds its coroutine suspended, and resumes it. -/
theorem Inv.resume (h : Inv b s) {i : ℕ} {w : Waiter} {r : Except ε α}
    (hw : s.waiters[i]? = some w) (hr : s.fetch w.fut = some r) :
    ∃ c next, s.coroutines[w.coro]? = some c ∧ c.code = .suspended w.fut next ∧
      { s with waiters := s.waiters.eraseIdx i }.resume w.coro =
        { s.setCoroutine w.coro { c with
            code := .running (next r)
            resumptions := c.resumptions + 1 } with
          waiters := s.waiters.eraseIdx i } := by
  have hsuspended := (h.waits.mem w).mp (List.mem_of_getElem? hw)
  rcases Option.bind_eq_some_iff.mp hsuspended with ⟨c, hc, hon⟩
  cases hcode : c.code with
  | suspended fut next =>
      rw [hcode] at hon
      obtain rfl : fut = w.fut := Option.some.inj hon
      refine ⟨c, next, hc, hcode, ?_⟩
      have hfetch : State.fetch { s with waiters := s.waiters.eraseIdx i } w.fut = some r := by
        rw [← hr]
        cases w.fut <;> rfl
      unfold State.resume
      simp only [hc, hcode, hfetch]
      rfl
  | _ =>
      rw [hcode] at hon
      cases hon

theorem mem_eraseIdx {ws : List Waiter} (hnodup : ws.Nodup) {i : ℕ} {w : Waiter}
    (hw : ws[i]? = some w) (x : Waiter) : x ∈ ws.eraseIdx i ↔ x ≠ w ∧ x ∈ ws := by
  rcases List.getElem?_eq_some_iff.mp hw with ⟨hi, rfl⟩
  rw [← hnodup.erase_getElem i hi, hnodup.mem_erase_iff]

theorem Inv.resumed (h : Inv b s) {i : ℕ} {w : Waiter} {r : Except ε α}
    (hw : s.waiters[i]? = some w) (hr : s.fetch w.fut = some r) :
    Inv b ({ s with waiters := s.waiters.eraseIdx i }.resume w.coro) := by
  rcases h.resume hw hr with ⟨c, next, hj, hcode, heq⟩
  have hc := h.coroutines w.coro c hj
  have hcomes := hc.comes
  have hvalue : c.value = none := by rw [hc.value, hcode]; rfl
  have hres := hc.resumptions
  rw [hcode] at hcomes hres
  rw [heq]
  refine h.set hj rfl rfl rfl rfl rfl ⟨fun x => ?_, ?_⟩ ?_
  · -- the thread that ends is the one of the coroutine that goes on
    show x ∈ s.waiters.eraseIdx i ↔ _
    let c' : Coroutine ε α := { c with
      code := .running (next r)
      resumptions := c.resumptions + 1 }
    have hset : { s.setCoroutine w.coro c' with waiters := s.waiters.eraseIdx i }.coroutines =
        s.coroutines.set w.coro c' := rfl
    rw [mem_eraseIdx h.waits.nodup hw, h.waits.mem, suspendedOn_set hj hset]
    rcases x with ⟨coro, fut⟩
    rcases eq_or_ne w.coro coro with rfl | hne
    · rw [if_pos rfl]
      refine iff_of_false ?_ nofun
      rintro ⟨hdiffers, hsuspended⟩
      have hon := (h.waits.mem w).mp (List.mem_of_getElem? hw)
      apply hdiffers
      rw [hon] at hsuspended
      exact congrArg (Waiter.mk w.coro) (Option.some.inj hsuspended).symm
    · rw [if_neg hne]
      refine and_iff_right fun heq => hne ?_
      rw [← heq]
  · exact h.waits.nodup.sublist (List.eraseIdx_sublist _ _)
  · refine ⟨?_, hvalue, fun _ => ⟨rfl, rfl⟩, ?_⟩
    · rcases hcomes with ⟨-, x, hx, heval⟩
      obtain rfl : r = x := Option.some.inj ((h.denote_of_fetch hr).symm.trans hx)
      exact heval
    · show c.suspensions = c.resumptions + 1 + 0
      rw [hres]
      rfl

theorem step_inv {e : Event} (h : Inv b s) (hstep : step s e = some s') : Inv b s' := by
  cases step_cases hstep with
  | go hj hcode => exact h.go hj hcode
  | @proceed j m c g next hj hcode hg hreturned =>
      have hc := h.coroutines j c hj
      have hcomes := hc.comes
      have hvalue : c.value = none := by rw [hc.value, hcode]; rfl
      have hres := hc.resumptions
      rw [hcode] at hcomes hres
      rcases hcomes with ⟨hlt, x, hx, heval⟩
      refine h.set hj rfl rfl rfl rfl rfl (h.waits.set hj rfl rfl ?_) ?_
      · rw [hcode]
        rfl
      · have hgrows : Grows s
            (s.setCoroutine j { c with code := .awaiting (.coroutine m) next }) :=
          grows_setCoroutine hj rfl
        exact ⟨⟨hlt, x, hgrows _ _ hx, heval⟩, hvalue, fun _ => ⟨rfl, rfl⟩, hres⟩
  | @ready j c fut next r hj hcode hr =>
      have hc := h.coroutines j c hj
      have hcomes := hc.comes
      have hvalue : c.value = none := by rw [hc.value, hcode]; rfl
      have hres := hc.resumptions
      rw [hcode] at hcomes hres
      rcases hcomes with ⟨-, x, hx, heval⟩
      obtain rfl : r = x := Option.some.inj ((h.denote_of_fetch hr).symm.trans hx)
      refine h.set hj rfl rfl rfl rfl rfl (h.waits.set hj rfl rfl ?_) ?_
      · rw [hcode]
        rfl
      · exact ⟨heval, hvalue, fun _ => ⟨rfl, rfl⟩, hres⟩
  | suspend hj hcode _ => exact h.suspend hj hcode
  | @leave j c hj hleaving =>
      have hc := h.coroutines j c hj
      refine h.set hj rfl rfl rfl rfl rfl (h.waits.set hj rfl rfl rfl) ?_
      have hgrows : Grows s (s.setCoroutine j { c with control := .returned }) :=
        grows_setCoroutine hj rfl
      have hmono := hc.mono hgrows
      exact ⟨hmono.comes, hc.value, nofun, hc.resumptions⟩
  | work hx _ _ => exact h.tasks rfl rfl rfl rfl (grows_work hx)
  | resume hw hr => exact h.resumed hw hr
  | @get c r _ hc _ hvalue =>
      rcases h.root with ⟨c₀, hc₀, hroot⟩
      obtain rfl : c = c₀ := Option.some.inj (hc.symm.trans hc₀)
      have hr := (h.coroutines 0 c hc).value
      rw [hvalue] at hr
      have hgot : r = b.eval := by
        rw [← hroot]
        exact (Option.some.inj (Option.ite_none_right_eq_some.mp hr.symm).2).symm
      have hgrows : Grows s { s with got := some r } := by
        intro fut x hx
        cases fut <;> exact hx
      refine ⟨h.root, fun j x hx => (h.coroutines j x hx).mono hgrows, ?_, ?_, h.faults⟩
      · exact h.waits.congr rfl fun _ => rfl
      · intro x hx
        rw [← Option.some.inj hx]
        exact hgot

end Steps

end CppCoroutines.Future
