import CppCoroutines.Executor.Stop

/-!
# Coroutines that are resumed when the loop is stopped

For coroutines that call no others: their local variables as a function of the results they
have found, and what becomes of them where each handler that is destroyed resumes its coroutine
with an error which ends it.
-/

universe u v w x y

namespace Executor

variable {σ : Type u} {Op : Type v} {Reply : Type w} {Env : Type x} {Out : Type y}

/-! ## The results found -/

/-- What the `await_resume`s of a coroutine have found, in order. -/
def State.repliesOf (s : State σ Op Reply Out) (i : ℕ) : List Reply :=
  (s.yielded.filter fun d => d.coro = i).map Delivery.reply

/-- A property of the local variables, the results found and whether the coroutine has ended,
after a piece of its code, which is no call. -/
def Turn.Holds (Q : σ → List Reply → Bool → Prop) (rs : List Reply) : Turn σ Op Out → Prop
  | .await l _ => Q l rs false
  | .finish l _ => Q l rs true
  | .call _ _ => False

/-- The code keeps such a property. -/
structure Code.Keeps (code : Code σ Op Reply Env Out) (Q : σ → List Reply → Bool → Prop) :
    Prop where
  complete : ∀ l op reply l' rs, Q l rs false → code.complete l op reply = some l' → Q l' rs false
  start : ∀ l env, Q l [] false → (code.start l env).Holds Q []
  resume : ∀ l op reply env rs, Q l rs false →
    (code.resume l op reply env).Holds Q (rs ++ [reply])

structure Code.CallsNothing (code : Code σ Op Reply Env Out) : Prop where
  start : ∀ l env l' child, code.start l env ≠ .call l' child
  resume : ∀ l op reply env l' child, code.resume l op reply env ≠ .call l' child
  proceed : ∀ l env l' child, code.proceed l env ≠ .call l' child

/-- Whether a coroutine has ended; between two events it is not running. -/
def Status.hasEnded : Status Op Reply Out → Option Bool
  | .starting | .suspended _ _ | .resumed _ _ _ => some false
  | .finished _ => some true
  | .running | .calling _ | .destroyed => none

/-- A coroutine as it stands between two events. -/
structure Task.Stands (Q : σ → List Reply → Bool → Prop) (rs : List Reply)
    (t : Task σ Op Reply Out) : Prop where
  caller : t.caller = none
  fresh : t.status = .starting → rs = []
  holds : ∃ ended, t.status.hasEnded = some ended ∧ Q t.locals rs ended

def State.AllStand (Q : σ → List Reply → Bool → Prop) (s : State σ Op Reply Out) : Prop :=
  ∀ (j : ℕ) (t : Task σ Op Reply Out), s.tasks[j]? = some t → t.Stands Q (s.repliesOf j)

section Replies

variable {code : Code σ Op Reply Env Out} {Q : σ → List Reply → Bool → Prop}
  {s s' : State σ Op Reply Out} {roots : List σ}

/-- One coroutine is replaced, and the others have found nothing. -/
theorem stands_set {i : ℕ} {t' : Task σ Op Reply Out}
    (h : s.AllStand Q)
    (htasks : s'.tasks = s.tasks.set i t')
    (hreplies : ∀ j, j ≠ i → s'.repliesOf j = s.repliesOf j)
    (ht' : t'.Stands Q (s'.repliesOf i)) :
    s'.AllStand Q := by
  intro j t hj
  rw [htasks] at hj
  rcases eq_or_ne i j with rfl | hne
  · rw [List.getElem?_set_self'] at hj
    rcases Option.map_eq_some_iff.mp hj with ⟨-, -, rfl⟩
    exact ht'
  · rw [List.getElem?_set_ne hne] at hj
    rw [hreplies j hne.symm]
    exact h j t hj

/-- The destructor of a handler leaves the local variables alone. -/
theorem stands_drop [DecidableEq Op] (h : s.AllStand Q) (hd : Handler Op) (error : Reply) :
    (s.drop (fun _ => .resume error) hd).AllStand Q := by
  show (State.release _ hd (.resumed hd.number hd.op error)).AllStand Q
  unfold State.release
  split
  · rename_i locals number op caller ht
    have hstands := h hd.coro _ ht
    rcases hstands.holds with ⟨ended, hended, hQ⟩
    obtain rfl : false = ended := Option.some.inj hended
    exact stands_set h rfl (fun _ _ => rfl) ⟨hstands.caller, nofun, false, rfl, hQ⟩
  · exact h

theorem stands_invoke [DecidableEq Op] (hkeeps : code.Keeps Q)
    (h : s.AllStand Q) {hd : Handler Op}
    {reply : Reply} (hstep : s.invoke code hd reply = some s') :
    s'.AllStand Q := by
  unfold State.invoke at hstep
  split at hstep
  · rename_i locals number op caller ht
    split at hstep
    · rcases Option.map_eq_some_iff.mp hstep with ⟨l, hl, rfl⟩
      have hstands := h hd.coro _ ht
      rcases hstands.holds with ⟨ended, hended, hQ⟩
      obtain rfl : false = ended := Option.some.inj hended
      exact stands_set h rfl (fun _ _ => rfl)
        ⟨hstands.caller, nofun, false, rfl, hkeeps.complete _ _ _ _ _ hQ hl⟩
    · rw [← Option.some.inj hstep]
      exact h
  · rw [← Option.some.inj hstep]
    exact h

/-- A piece of code that is no call. -/
theorem stands_perform {i : ℕ} {t : Task σ Op Reply Out}
    (hcaller : t.caller = none) (h : s.AllStand Q)
    {turn : Turn σ Op Out} (hholds : turn.Holds Q ((s.goOn i t).repliesOf i))
    (hreplies : ∀ j, j ≠ i → (s.goOn i t).repliesOf j = s.repliesOf j) :
    ((s.goOn i t).perform i t.caller turn).AllStand Q := by
  rw [hcaller]
  cases turn with
  | await l op =>
      have htasks : ((s.goOn i t).suspend i l op).tasks =
          s.tasks.set i ⟨l, .suspended (s.goOn i t).started.length op, none⟩ := List.set_set _
      exact stands_set h htasks hreplies ⟨rfl, nofun, false, rfl, hholds⟩
  | finish l out =>
      have htasks : ((s.goOn i t).finish i l out).tasks = s.tasks.set i ⟨l, .finished out, none⟩ :=
        List.set_set _
      exact stands_set h htasks hreplies ⟨rfl, nofun, true, rfl, hholds⟩
  | call l child => exact hholds.elim

theorem stands_advance [DecidableEq Op] (hkeeps : code.Keeps Q)
    (h : s.AllStand Q) {i : ℕ} {env : Env}
    (hstep : step code s (.advance i env) = some s') :
    s'.AllStand Q := by
  rcases Option.bind_eq_some_iff.mp hstep with ⟨t, ht, hmap⟩
  rcases Option.map_eq_some_iff.mp hmap with ⟨turn, hturn, rfl⟩
  have hstands := h i t ht
  rcases hstands.holds with ⟨ended, hended, hQ⟩
  rcases t.turn_cases hturn with ⟨hstatus, rfl⟩ | ⟨hstatus, -⟩ | ⟨number, op, reply, hstatus, rfl⟩
  · rw [hstatus] at hended
    obtain rfl : false = ended := Option.some.inj hended
    have hyielded : (s.goOn i t).yielded = s.yielded := by
      unfold State.goOn
      rw [hstatus]
    have hreplies : ∀ j, (s.goOn i t).repliesOf j = s.repliesOf j := by
      intro j
      unfold State.repliesOf
      rw [hyielded]
    have hnil := hstands.fresh hstatus
    refine stands_perform hstands.caller h ?_ fun j _ => hreplies j
    rw [hreplies, hnil]
    rw [hnil] at hQ
    exact hkeeps.start _ _ hQ
  · rw [hstatus] at hended
    cases hended
  · rw [hstatus] at hended
    obtain rfl : false = ended := Option.some.inj hended
    have hyielded : (s.goOn i t).yielded = s.yielded ++ [⟨number, i, reply⟩] := by
      unfold State.goOn
      rw [hstatus]
    refine stands_perform hstands.caller h ?_ ?_
    · have hreplies : (s.goOn i t).repliesOf i = s.repliesOf i ++ [reply] := by
        unfold State.repliesOf
        rw [hyielded, List.filter_append, List.map_append]
        simp
      rw [hreplies]
      exact hkeeps.resume _ _ _ _ _ hQ
    · intro j hj
      unfold State.repliesOf
      rw [hyielded, List.filter_append]
      simp [hj.symm]

/-- Without calls there is no coroutine but those that are called first. -/
theorem length_reachable [DecidableEq Op] (hcalls : code.CallsNothing)
    (hs : (machine code roots).Reachable s) : s.tasks.length = roots.length := by
  have hinv : (machine code roots).Inductive fun s => s.tasks.length = roots.length := by
    constructor
    · rintro s rfl
      exact List.length_map _
    · intro s e s' h hstep
      cases e with
      | invoke hd reply =>
          have hinvoke := (Option.ite_none_right_eq_some.mp hstep).2
          unfold State.invoke at hinvoke
          split at hinvoke
          · split at hinvoke
            · rcases Option.map_eq_some_iff.mp hinvoke with ⟨l, -, rfl⟩
              exact (List.length_set ..).trans h
            · rw [← Option.some.inj hinvoke]
              exact h
          · rw [← Option.some.inj hinvoke]
            exact h
      | advance i env =>
          rcases Option.bind_eq_some_iff.mp hstep with ⟨t, -, hmap⟩
          rcases Option.map_eq_some_iff.mp hmap with ⟨turn, hturn, rfl⟩
          have hlength : (s.goOn i t).tasks.length = roots.length :=
            (List.length_set ..).trans h
          have hret : ∀ (s : State σ Op Reply Out) (c : Option ℕ),
              (s.ret c).tasks.length = s.tasks.length := by
            intro s c
            cases c with
            | none => rfl
            | some p => exact List.length_modify ..
          cases turn with
          | await l op => exact (hret _ _).trans ((List.length_set ..).trans hlength)
          | finish l out => exact (hret _ _).trans ((List.length_set ..).trans hlength)
          | call l child =>
              rcases t.turn_cases hturn with ⟨-, heq⟩ | ⟨-, heq⟩ | ⟨number, op, reply, -, heq⟩
              · exact absurd heq (hcalls.start _ _ _ _)
              · exact absurd heq (hcalls.proceed _ _ _ _)
              · exact absurd heq (hcalls.resume _ _ _ _ _ _)
  exact hinv.reachable hs

/-- What the code keeps holds of every coroutine in every run. -/
theorem stands_reachable [DecidableEq Op] (hkeeps : code.Keeps Q) (hroots : ∀ l ∈ roots, Q l [] false)
    (hs : (machine code roots).Reachable s) :
    s.AllStand Q := by
  have hinv : (machine code roots).Inductive (State.AllStand Q) := by
    constructor
    · rintro s rfl j t hj
      rcases List.mem_map.mp (List.mem_of_getElem? hj) with ⟨l, hl, rfl⟩
      exact ⟨rfl, fun _ => rfl, false, rfl, hroots l hl⟩
    · intro s e s' h hstep
      cases e with
      | invoke hd reply =>
          exact stands_invoke hkeeps h (Option.ite_none_right_eq_some.mp hstep).2
      | advance i env => exact stands_advance hkeeps h hstep
  exact hinv.reachable hs

end Replies

/-! ## Destroying the handlers -/

/-- The loop has been stopped: a handler that is left is destroyed, or a coroutine whose turn it
is goes on. -/
inductive DropEvent (Op : Type v) (Env : Type x) where
  | drop (h : Handler Op)
  | advance (i : ℕ) (env : Env)
deriving DecidableEq, Repr

def dropStep [DecidableEq Op] (code : Code σ Op Reply Env Out) (onDrop : Op → OnDrop Reply)
    (s : State σ Op Reply Out) : DropEvent Op Env → Option (State σ Op Reply Out)
  | .drop h => if s.pending.contains h then some (s.drop onDrop h) else none
  | .advance i env => step code s (.advance i env)

/-- The handlers that are left in `s₀` are destroyed, in any order, and each may be destroyed
before or after the coroutines that the others resume have gone on. -/
def dropMachine [DecidableEq Op] (code : Code σ Op Reply Env Out) (onDrop : Op → OnDrop Reply)
    (s₀ : State σ Op Reply Out) : Machine (State σ Op Reply Out) (DropEvent Op Env) where
  init s := s = s₀
  step := dropStep code onDrop

/-- A result that ends every coroutine that finds it. -/
def Code.EndsWith (code : Code σ Op Reply Env Out) (error : Reply) : Prop :=
  ∀ l op env, ∃ l' out, code.resume l op error env = .finish l' out

/-- No code is being executed. -/
def State.Idle [DecidableEq Op] (code : Code σ Op Reply Env Out) (s : State σ Op Reply Out) :
    Prop :=
  ∀ i env, step code s (.advance i env) = none

/-- What has become of a coroutine since: nothing, or its handler has been destroyed, which
resumes it with `error`, or it has ended. -/
inductive Follows (error : Reply) (s₀ s : State σ Op Reply Out) (i : ℕ) : Prop where
  | same (hst : s.status i = s₀.status i) (hreplies : s.repliesOf i = s₀.repliesOf i)
  | resumed {number : ℕ} {op : Op} (hst₀ : s₀.status i = some (.suspended number op))
      (hst : s.status i = some (.resumed number op error))
      (hreplies : s.repliesOf i = s₀.repliesOf i)
  | ended {number : ℕ} {op : Op} {out : Out} (hst₀ : s₀.status i = some (.suspended number op))
      (hst : s.status i = some (.finished out))
      (hreplies : s.repliesOf i = s₀.repliesOf i ++ [error])

/-- What happens to the other coroutines does not matter. -/
theorem Follows.frame {error : Reply} {s₀ s s' : State σ Op Reply Out} {i : ℕ}
    (h : Follows error s₀ s i) (hst : s'.status i = s.status i)
    (hreplies : s'.repliesOf i = s.repliesOf i) : Follows error s₀ s' i := by
  cases h with
  | same heq hr => exact .same (hst.trans heq) (hreplies.trans hr)
  | resumed hst₀ hresumed hr => exact .resumed hst₀ (hst.trans hresumed) (hreplies.trans hr)
  | ended hst₀ hended hr => exact .ended hst₀ (hst.trans hended) (hreplies.trans hr)

/-- The handlers that are left are those of the coroutines that are still suspended. -/
structure Dropping (error : Reply) (s₀ s : State σ Op Reply Out) : Prop where
  suspended : ∀ h, h ∈ s.pending ↔ s.status h.coro = some (.suspended h.number h.op)
  distinct : s.pending.Nodup
  callers : ∀ i, s.caller i = none
  follows : ∀ i, Follows error s₀ s i
  settled : ∀ i, s.promises.filter (fun p => p.1 = i) = s.outcome i
  faults : s.faults = []

/-- The coroutine `t` of a handler that is destroyed. -/
def State.resumeDropped [DecidableEq Op] (s : State σ Op Reply Out) (h : Handler Op)
    (error : Reply) (t : Task σ Op Reply Out) : State σ Op Reply Out :=
  { s with
    tasks := s.tasks.set h.coro ⟨t.locals, .resumed h.number h.op error, t.caller⟩
    pending := s.pending.erase h
    released := s.released ++ [h.coro] }

section Dropping

variable [DecidableEq Op] {code : Code σ Op Reply Env Out} {roots : List σ} {error : Reply}
  {s₀ s s' : State σ Op Reply Out}

/-- Between two pieces of code nothing has been called. -/
theorem Inv.callers_of_idle [Inhabited Env] (h : Inv s) (hidle : s.Idle code) (i : ℕ) :
    s.caller i = none := by
  refine Option.eq_none_iff_forall_ne_some.mpr fun p hp => ?_
  have hcalling := h.stacked.caller i p hp
  rcases h.rest default hidle hcalling with ⟨number, op, hst⟩ | ⟨out, hst⟩
  · cases hst
  · cases hst

theorem dropping_init [Inhabited Env] (hs : (machine code roots).Reachable s)
    (hidle : s.Idle code) : Dropping error s s := by
  have hinv := inv_reachable hs
  constructor
  · intro h
    exact hinv.ledger.mem_pending
  · exact hinv.ledger.nodup.1.of_map
  · exact hinv.callers_of_idle hidle
  · exact fun i => .same rfl rfl
  · exact hinv.settled
  · exact hinv.ledger.faults

/-- A coroutine is resumed by the destructor of its handler. -/
theorem State.drop_resume {h : Handler Op}
    (hst : s.status h.coro = some (.suspended h.number h.op)) :
    ∃ t, s.tasks[h.coro]? = some t ∧
      s.drop (fun _ => .resume error) h = s.resumeDropped h error t := by
  obtain ⟨⟨locals, st, caller⟩, ht, hst'⟩ := State.status_eq_some.mp hst
  obtain rfl : st = .suspended h.number h.op := hst'
  refine ⟨_, ht, ?_⟩
  simp only [State.drop, State.release, State.resumeDropped, ht]

theorem dropping_drop (hd : Dropping error s₀ s) {h : Handler Op} (hmem : h ∈ s.pending) :
    Dropping error s₀ (s.drop (fun _ => .resume error) h) := by
  have hst := (hd.suspended h).mp hmem
  obtain ⟨t, ht, hdrop⟩ : ∃ t, _ ∧ _ = s.resumeDropped h error t := State.drop_resume hst
  rw [hdrop]
  have hstatus : ∀ j, (s.resumeDropped h error t).status j = _ := State.status_set ht rfl
  have hcaller : ∀ j, (s.resumeDropped h error t).caller j = _ := State.caller_set ht rfl
  constructor
  · intro h'
    show h' ∈ s.pending.erase h ↔ _
    rw [hstatus, hd.distinct.mem_erase_iff, hd.suspended]
    by_cases hcoro : h'.coro = h.coro
    · -- a coroutine is suspended in one awaiter
      rw [if_pos hcoro, hcoro, hst]
      constructor
      · rintro ⟨hne, heq⟩
        rw [Option.some.injEq, Status.suspended.injEq] at heq
        obtain ⟨number, coro, op⟩ := h
        obtain ⟨number', coro', op'⟩ := h'
        simp_all
      · intro heq
        cases heq
    · rw [if_neg hcoro]
      constructor
      · exact fun hsuspended => hsuspended.2
      · exact fun hsuspended => ⟨fun heq => hcoro (congrArg Handler.coro heq), hsuspended⟩
  · exact hd.distinct.erase h
  · intro i
    rw [hcaller]
    split
    · rename_i hi
      have hnone := hd.callers h.coro
      rwa [State.caller, ht, Option.bind_some] at hnone
    · exact hd.callers i
  · intro i
    by_cases hi : i = h.coro
    · subst hi
      have hst' := hstatus h.coro
      rw [if_pos rfl] at hst'
      cases hd.follows h.coro with
      | same heq hreplies => exact .resumed (heq ▸ hst) hst' hreplies
      | resumed hst₀ hresumed hreplies =>
          rw [hresumed] at hst
          cases hst
      | ended hst₀ hended hreplies =>
          rw [hended] at hst
          cases hst
    · refine (hd.follows i).frame ?_ rfl
      rw [hstatus, if_neg hi]
  · intro i
    refine (hd.settled i).trans ?_
    unfold State.outcome
    rw [hstatus]
    by_cases hi : i = h.coro
    · rw [hi, if_pos rfl, hst]
    · rw [if_neg hi]
  · exact hd.faults

/-- What is executed after the stop is what is left of a coroutine that has been resumed. -/
theorem Dropping.resumed_of_turn [Inhabited Env] (hs₀ : (machine code roots).Reachable s₀)
    (hidle : s₀.Idle code) (hd : Dropping error s₀ s) {i : ℕ} {t : Task σ Op Reply Out}
    (ht : s.tasks[i]? = some t) {env : Env} {turn : Turn σ Op Out}
    (hturn : t.turn code env = some turn) :
    ∃ number op, s₀.status i = some (.suspended number op) ∧
      t.status = .resumed number op error ∧ s.repliesOf i = s₀.repliesOf i ∧
      code.resume t.locals op error env = turn := by
  have hst : s.status i = some t.status := State.status_eq_some.mpr ⟨t, ht, rfl⟩
  cases hd.follows i with
  | same heq hreplies =>
      rcases (inv_reachable hs₀).rest env hidle (heq ▸ hst) with ⟨number, op, h⟩ | ⟨out, h⟩
      · rw [Task.turn, h] at hturn
        cases hturn
      · rw [Task.turn, h] at hturn
        cases hturn
  | resumed hst₀ hresumed hreplies =>
      have hstatus := Option.some.inj (hst.symm.trans hresumed)
      rw [Task.turn, hstatus] at hturn
      exact ⟨_, _, hst₀, hstatus, hreplies, Option.some.inj hturn⟩
  | ended hst₀ hended hreplies =>
      have hstatus := Option.some.inj (hst.symm.trans hended)
      rw [Task.turn, hstatus] at hturn
      cases hturn

/-- It goes on to its end. -/
structure Ended (error : Reply) (s₀ s s' : State σ Op Reply Out) (i : ℕ)
    (t : Task σ Op Reply Out) (number : ℕ) (op : Op) (locals : σ) (out : Out) : Prop where
  before : s.tasks[i]? = some t
  suspended : s₀.status i = some (.suspended number op)
  resumed : t.status = .resumed number op error
  replies : s.repliesOf i = s₀.repliesOf i
  tasks : s'.tasks = s.tasks.set i ⟨locals, .finished out, none⟩
  pending : s'.pending = s.pending
  yielded : s'.yielded = s.yielded ++ [⟨number, i, error⟩]
  promises : s'.promises = s.promises ++ [(i, out)]
  faults : s'.faults = s.faults

theorem Dropping.advance_cases [Inhabited Env] (hends : code.EndsWith error)
    (hs₀ : (machine code roots).Reachable s₀) (hidle : s₀.Idle code)
    (hd : Dropping error s₀ s) {i : ℕ} {env : Env}
    (hstep : step code s (.advance i env) = some s') :
    ∃ t number op locals out, Ended error s₀ s s' i t number op locals out := by
  rcases Option.bind_eq_some_iff.mp hstep with ⟨t, ht, hmap⟩
  rcases Option.map_eq_some_iff.mp hmap with ⟨turn, hturn, rfl⟩
  have hcaller : t.caller = none := by
    have hnone := hd.callers i
    rwa [State.caller, ht, Option.bind_some] at hnone
  rcases hd.resumed_of_turn hs₀ hidle ht hturn with ⟨number, op, hst₀, hstatus, hreplies, rfl⟩
  rcases hends t.locals op env with ⟨locals, out, hfinish⟩
  rw [hfinish, hcaller]
  refine ⟨t, number, op, locals, out, ht, hst₀, hstatus, hreplies, List.set_set _, rfl, ?_, rfl,
    rfl⟩
  show (s.goOn i t).yielded = _
  unfold State.goOn
  rw [hstatus]

omit [DecidableEq Op] in
theorem dropping_advance (hd : Dropping error s₀ s) {i number : ℕ} {op : Op}
    {t : Task σ Op Reply Out} {locals : σ} {out : Out}
    (h : Ended error s₀ s s' i t number op locals out) : Dropping error s₀ s' := by
  have hst : s.status i = some (.resumed number op error) :=
    State.status_eq_some.mpr ⟨t, h.before, h.resumed⟩
  have hstatus := State.status_set h.before h.tasks
  constructor
  · intro hdl
    rw [h.pending, hd.suspended, hstatus]
    split
    · rename_i hi
      rw [hi, hst]
      constructor
      · nofun
      · nofun
    · rfl
  · rw [h.pending]
    exact hd.distinct
  · intro j
    rw [State.caller_set h.before h.tasks]
    split
    · rfl
    · exact hd.callers j
  · intro j
    by_cases hj : j = i
    · subst hj
      have hended := hstatus j
      rw [if_pos rfl] at hended
      refine .ended h.suspended hended ?_
      rw [← h.replies]
      unfold State.repliesOf
      rw [h.yielded, List.filter_append, List.map_append]
      simp
    · refine (hd.follows j).frame ?_ ?_
      · rw [hstatus, if_neg hj]
      · unfold State.repliesOf
        rw [h.yielded, List.filter_append]
        simp [Ne.symm hj]
  · intro j
    have hsettled := hd.settled j
    unfold State.outcome at hsettled ⊢
    rw [h.promises, List.filter_append, hsettled, hstatus]
    by_cases hj : j = i
    · subst hj
      rw [hst, if_pos rfl]
      simp
    · rw [if_neg hj]
      simp [Ne.symm hj]
  · rw [h.faults]
    exact hd.faults

/-! ### How long it takes -/

/-- It has been resumed and has not gone on yet. -/
def Task.isResumed (t : Task σ Op Reply Out) : Bool :=
  match t.status with
  | .resumed _ _ _ => true
  | _ => false

/-- The steps that are left: a handler is destroyed and its coroutine goes on. -/
def State.dropsLeft (s : State σ Op Reply Out) : ℕ :=
  2 * s.pending.length + s.tasks.countP Task.isResumed

theorem countP_set_add {α : Type u} {p : α → Bool} {l : List α} {i : ℕ} {a : α}
    (h : l[i]? = some a) (b : α) :
    (l.set i b).countP p + (p a).toNat = l.countP p + (p b).toNat := by
  rcases List.getElem?_eq_some_iff.mp h with ⟨hi, rfl⟩
  rw [List.countP_set hi]
  cases hold : p l[i] with
  | false => cases hnew : p b <;> simp
  | true =>
      have hpos : 0 < l.countP p := List.countP_pos_iff.mpr ⟨_, List.getElem_mem hi, hold⟩
      cases hnew : p b <;> simp <;> omega

theorem dropsLeft_drop (hd : Dropping error s₀ s) {h : Handler Op} (hmem : h ∈ s.pending) :
    (s.drop (fun _ => .resume error) h).dropsLeft + 1 = s.dropsLeft := by
  have hst := (hd.suspended h).mp hmem
  obtain ⟨t, ht, hdrop⟩ : ∃ t, _ ∧ _ = s.resumeDropped h error t := State.drop_resume hst
  have hstatus : t.status = .suspended h.number h.op := by
    rwa [State.status, ht, Option.map_some, Option.some.injEq] at hst
  have hcount := countP_set_add (p := Task.isResumed) ht
    ⟨t.locals, .resumed h.number h.op error, t.caller⟩
  have hlength := List.length_erase_of_mem hmem
  have hpos := List.length_pos_of_mem hmem
  rw [hdrop]
  simp only [State.dropsLeft, State.resumeDropped]
  simp only [Task.isResumed, hstatus, Bool.toNat_false, Bool.toNat_true] at hcount
  omega

omit [DecidableEq Op] in
theorem dropsLeft_advance {i number : ℕ} {op : Op} {t : Task σ Op Reply Out} {locals : σ}
    {out : Out} (h : Ended error s₀ s s' i t number op locals out) :
    s'.dropsLeft + 1 = s.dropsLeft := by
  have hcount := countP_set_add (p := Task.isResumed) h.before ⟨locals, .finished out, none⟩
  simp only [Task.isResumed, h.resumed, Bool.toNat_false, Bool.toNat_true] at hcount
  simp only [State.dropsLeft, h.tasks, h.pending]
  omega

/-! ### The end -/

theorem dropping_step [Inhabited Env] (hends : code.EndsWith error)
    (hs₀ : (machine code roots).Reachable s₀) (hidle : s₀.Idle code) (e : DropEvent Op Env)
    (hd : Dropping error s₀ s)
    (hstep : (dropMachine code (fun _ => .resume error) s₀).step s e = some s') :
    Dropping error s₀ s' ∧ s'.dropsLeft + 1 = s.dropsLeft := by
  cases e with
  | drop h =>
      rcases Option.ite_none_right_eq_some.mp hstep with ⟨hcontains, hdrop⟩
      rw [← Option.some.inj hdrop]
      have hmem := List.contains_iff_mem.mp hcontains
      exact ⟨dropping_drop hd hmem, dropsLeft_drop hd hmem⟩
  | advance i env =>
      rcases hd.advance_cases hends hs₀ hidle hstep with ⟨t, number, op, locals, out, h⟩
      exact ⟨dropping_advance hd h, dropsLeft_advance h⟩

/-- No coroutine that is idle has been resumed. -/
theorem dropsLeft_of_idle [Inhabited Env] (hidle : s.Idle code) :
    s.dropsLeft = 2 * s.pending.length := by
  have hnone : s.tasks.countP Task.isResumed = 0 := by
    refine List.countP_eq_zero.mpr fun t ht hresumed => ?_
    rcases List.mem_iff_getElem?.mp ht with ⟨i, hi⟩
    have hstep := hidle i default
    unfold Task.isResumed at hresumed
    split at hresumed
    · rename_i number op reply hstatus
      simp [step, hi, Task.turn, hstatus] at hstep
    · cases hresumed
  rw [State.dropsLeft, hnone, Nat.add_zero]

/-- The handlers are destroyed in two steps each, and no run goes on after that. -/
theorem dropping_run [Inhabited Env] (hends : code.EndsWith error)
    (hs₀ : (machine code roots).Reachable s₀) (hidle : s₀.Idle code)
    {es : List (DropEvent Op Env)}
    (hrun : (dropMachine code (fun _ => .resume error) s₀).run s₀ es = some s) :
    Dropping error s₀ s ∧ es.length + s.dropsLeft = 2 * s₀.pending.length := by
  rw [← dropsLeft_of_idle hidle]
  exact Machine.length_eq_of_inv
    (fun s e s' hd hstep => dropping_step hends hs₀ hidle e hd hstep) (dropping_init hs₀ hidle) hrun

theorem Dropping.stuck_iff [Inhabited Env] (hends : code.EndsWith error)
    (hs₀ : (machine code roots).Reachable s₀) (hidle : s₀.Idle code) (hd : Dropping error s₀ s) :
    (dropMachine code (fun _ => .resume error) s₀).Stuck s ↔ s.dropsLeft = 0 := by
  constructor
  · intro hstuck
    have hpending : s.pending = [] := by
      refine List.eq_nil_iff_forall_not_mem.mpr fun h hmem => ?_
      have hdrop := hstuck (.drop h)
      simp only [dropMachine, dropStep, if_pos (List.contains_iff_mem.mpr hmem)] at hdrop
      cases hdrop
    -- whoever has been resumed can go on
    have hidle' : s.Idle code := fun i env => hstuck (.advance i env)
    rw [dropsLeft_of_idle hidle', hpending, List.length_nil]
  · intro hzero e
    by_contra hne
    rcases Option.ne_none_iff_exists'.mp hne with ⟨s', hstep⟩
    have hleft := (dropping_step hends hs₀ hidle e hd hstep).2
    omega

omit [DecidableEq Op] in
theorem pending_of_dropsLeft (h : s.dropsLeft = 0) : s.pending = [] := by
  refine List.eq_nil_of_length_eq_zero ?_
  unfold State.dropsLeft at h
  omega

/-- What the code keeps holds of the coroutines after the stop. -/
theorem stands_dropped {Q : σ → List Reply → Bool → Prop} (hkeeps : code.Keeps Q)
    (hs₀ : s₀.AllStand Q) {es : List (DropEvent Op Env)}
    (hrun : (dropMachine code (fun _ => .resume error) s₀).run s₀ es = some s) :
    s.AllStand Q := by
  have hinv : (dropMachine code (fun _ => .resume error) s₀).Inductive (State.AllStand Q) := by
    constructor
    · rintro s rfl
      exact hs₀
    · intro s e s' h hstep
      cases e with
      | advance i env => exact stands_advance hkeeps h hstep
      | drop hd =>
          rcases Option.ite_none_right_eq_some.mp hstep with ⟨-, hdrop⟩
          rw [← Option.some.inj hdrop]
          exact stands_drop h hd error
  exact hinv.reachable ((Machine.Reachable.init rfl).run hrun)

/-- Where nothing is left to do each coroutine that was suspended has found the error, and has
ended. -/
theorem Dropping.ended_of_stuck [Inhabited Env]
    (hd : Dropping error s₀ s)
    (hstuck : (dropMachine code (fun _ => .resume error) s₀).Stuck s) {i number : ℕ} {op : Op}
    (hst₀ : s₀.status i = some (.suspended number op)) :
    ∃ out, s.status i = some (.finished out) ∧ s.repliesOf i = s₀.repliesOf i ++ [error] := by
  cases hd.follows i with
  | same heq hreplies =>
      -- its handler can be destroyed
      have hmem := (hd.suspended ⟨number, i, op⟩).mpr (heq.trans hst₀)
      have hdrop := hstuck (.drop ⟨number, i, op⟩)
      simp only [dropMachine, dropStep, if_pos (List.contains_iff_mem.mpr hmem)] at hdrop
      cases hdrop
  | resumed _ hresumed hreplies =>
      -- it can go on
      obtain ⟨t, ht, hstatus⟩ := State.status_eq_some.mp hresumed
      have hstep := hstuck (.advance i default)
      simp [dropMachine, dropStep, step, ht, Task.turn, hstatus] at hstep
  | ended _ hended hreplies => exact ⟨_, hended, hreplies⟩

end Dropping

end Executor
