import CppCoroutines.WinRT.PoolAwaiter

/-!
# The awaiter against the framework's

`await_adapter<Async, false>` hands its operation a `disconnect_aware_handler`, which
completes from its call operator or, if it is never called, from its destructor.
`pool_awaiter` hands the same operation a lambda. Below one operation drives both: it
moves the handler it was given, calls it at most once, destroys its copies, or refuses
it, and the two awaiters see each of these steps together.
-/

namespace CppCoroutines.Disconnect

open PoolAwaiter (AsyncStatus)

/-- The coroutine goes on with what `await_resume` makes of the status, or with the
exception that left `await_suspend`. -/
inductive Continuation where
  | resumed (status : AsyncStatus)
  | threw
deriving DecidableEq, Repr

/-- What must not happen: a moved-from handler is used, or an awaiter whose coroutine has
gone on. -/
inductive Fault where
  | nullAwaiter
  | nullHandle
  | awaiterDead
deriving DecidableEq, Repr

/-- The members of `await_adapter`, which `pool_awaiter` inherits, and their history. -/
structure AwaitAdapter where
  suspending : Bool
  status : AsyncStatus
  /-- history: what the exchange of `await_suspend` returned -/
  found : Option Bool
  /-- history: the continuations of the coroutine -/
  continuations : List Continuation
  faults : List Fault
deriving DecidableEq, Repr

namespace AwaitAdapter

def new : AwaitAdapter where
  suspending := true
  status := .started
  found := none
  continuations := []
  faults := []

def fault (a : AwaitAdapter) (f : Fault) : AwaitAdapter := { a with faults := a.faults ++ [f] }

/-- The coroutine goes on. -/
def resume (a : AwaitAdapter) : AwaitAdapter :=
  { a with continuations := a.continuations ++ [.resumed a.status] }

/-- The exception of `Completed()` leaves `await_suspend`. -/
def throw (a : AwaitAdapter) : AwaitAdapter :=
  { a with continuations := a.continuations ++ [.threw] }

/-- A member is used through a pointer that may be null, and the awaiter dead. -/
def reach (a : AwaitAdapter) (pointer : Bool) : AwaitAdapter :=
  if pointer = false then a.fault .nullAwaiter
  else if a.continuations = [] then a
  else a.fault .awaiterDead

/-- `return suspending.exchange(false)`, at the end of both `await_suspend`s: the coroutine
goes on if it returns false. -/
def awaitSuspend (a : AwaitAdapter) : AwaitAdapter :=
  if a.suspending = true then { a with suspending := false, found := some true }
  else { a with suspending := false, found := some false }.resume

/-- `disconnect_aware_handler::Complete()`, of an object with the given `m_handle`. -/
def complete (a : AwaitAdapter) (handle : Bool) : AwaitAdapter :=
  -- the resumption is deferred to `await_suspend`
  if a.suspending = true then { a with suspending := false }
  else if handle = true then { a with suspending := false }.resume
  else { a with suspending := false }.fault .nullHandle

end AwaitAdapter

/-- A `disconnect_aware_handler`: whether `m_awaiter` and `m_handle` are set, and whether
its destructor has not run. -/
structure DisconnectAwareHandler where
  awaiter : Bool
  handle : Bool
  alive : Bool
deriving DecidableEq, Repr

namespace DisconnectAwareHandler

/-- The object that `register_completed_callback` constructs. -/
def new : DisconnectAwareHandler := ⟨true, true, true⟩

/-- Storage without an object. -/
def none : DisconnectAwareHandler := ⟨false, false, false⟩

end DisconnectAwareHandler

/-- The call of the handler: whether `await_suspend` was yet to exchange, and whether
`TrySubmitThreadpoolCallback` succeeds in it. -/
structure Call where
  early : Bool
  submits : Bool
deriving DecidableEq, Repr

/-- The lambda has left the coroutine to `await_suspend`, or it has submitted it. -/
def Call.keeps (c : Call) : Bool := c.early || c.submits

/-- One operation, awaited through both awaiters. -/
structure State where
  framework : AwaitAdapter
  handlers : ℕ → DisconnectAwareHandler
  /-- how many handler objects have been constructed -/
  constructed : ℕ
  pool : AwaitAdapter
  /-- the callbacks submitted to the pool that have not run -/
  submitted : ℕ
  /-- `Completed()` has thrown -/
  refused : Bool
  /-- the operation's call of its handler -/
  call : Option Call

namespace State

/-- Both `await_suspend`s up to `Completed()`. -/
def start : State where
  framework := .new
  handlers := Function.update (fun _ => .none) 0 .new
  constructed := 1
  pool := .new
  submitted := 0
  refused := false
  call := none

def setHandler (s : State) (i : ℕ) (h : DisconnectAwareHandler) : State :=
  { s with handlers := Function.update s.handlers i h }

/-- `Complete()` leaves `m_handle` null, whoever resumes. -/
def complete (s : State) (i : ℕ) : State :=
  { s with
    framework := (s.framework.reach (s.handlers i).awaiter).complete (s.handlers i).handle
    handlers := Function.update s.handlers i { s.handlers i with handle := false } }

/-- `disconnect_aware_handler::operator()`. -/
def callHandler (s : State) (i : ℕ) (status : AsyncStatus) : State :=
  { s with
    framework := { s.framework.reach (s.handlers i).awaiter with status := status } }.complete i

/-- `~disconnect_aware_handler()`. -/
def destroyHandler (s : State) (i : ℕ) : State :=
  let s' := if (s.handlers i).handle = true then s.complete i else s
  s'.setHandler i { s'.handlers i with alive := false }

/-- The defaulted move constructor: `movable_primitive` detaches both members. -/
def moveHandler (s : State) (i : ℕ) : State :=
  { s with
    handlers := Function.update
      (Function.update s.handlers i { s.handlers i with awaiter := false, handle := false })
      s.constructed { s.handlers i with alive := true }
    constructed := s.constructed + 1 }

/-- The lambda of `pool_awaiter::await_suspend`: it submits if it finds the flag cleared.
The operation swallows what it throws where `TrySubmitThreadpoolCallback` fails. -/
def callLambda (s : State) (status : AsyncStatus) (submits : Bool) : State :=
  let a := s.pool.reach true
  { s with
    pool := { a with status := status, suspending := false }
    submitted := if a.suspending = false ∧ submits = true then s.submitted + 1 else s.submitted }

end State

/-- The steps of the operation, of the two `await_suspend`s, and of the pool. -/
inductive Event where
  | move (i : ℕ)
  | invoke (i : ℕ) (status : AsyncStatus) (submits : Bool)
  | destroy (i : ℕ)
  | exchange
  | refuse
  | run
deriving DecidableEq, Repr

/-- One step. The lambda is copied where the handler is moved, and has no destructor. -/
def step (s : State) : Event → Option State
  | .move i => if (s.handlers i).alive = true then some (s.moveHandler i) else none
  -- the object the operation has kept is called, and not twice
  | .invoke i status submits =>
      if (s.handlers i).alive = true ∧ (s.handlers i).awaiter = true ∧ s.call = none then
        some { (s.callHandler i status).callLambda status submits with
          call := some ⟨s.pool.found.isNone, submits⟩ }
      else none
  | .destroy i => if (s.handlers i).alive = true then some (s.destroyHandler i) else none
  | .exchange =>
      if s.pool.found = none ∧ s.refused = false then
        some { s with framework := s.framework.awaitSuspend, pool := s.pool.awaitSuspend }
      else none
  -- an operation that refuses the handler has let go of it
  | .refuse =>
      if s.pool.found = none ∧ s.refused = false ∧
          ∀ i < s.constructed, (s.handlers i).alive = false then
        some { s with framework := s.framework.throw, pool := s.pool.throw, refused := true }
      else none
  | .run =>
      if 0 < s.submitted then
        some { s with pool := s.pool.resume, submitted := s.submitted - 1 }
      else none

/-- The operation from `Completed()` on. -/
def machine : Machine State Event where
  init s := s = State.start
  step := step

/-! ## The handler objects -/

/-- The invariant of the handler objects: until the handler has completed, one object
holds both pointers; afterwards no object holds a handle, and none can be called for the
first time. -/
structure HandlersInv (completed called : Bool) (handlers : ℕ → DisconnectAwareHandler)
    (constructed : ℕ) : Prop where
  fresh : ∀ j, constructed ≤ j → (handlers j).alive = false
  holder : completed = false → called = false ∧ ∃ i, handlers i = .new ∧
    ∀ j, j ≠ i → (handlers j).awaiter = false ∧ (handlers j).handle = false
  empty : completed = true → ∀ j, (handlers j).handle = false
  uncalled : completed = true → called = false →
    ∀ j, (handlers j).alive = true → (handlers j).awaiter = false

variable {completed called : Bool} {handlers : ℕ → DisconnectAwareHandler} {constructed i : ℕ}

theorem handlersInv_start : HandlersInv false false State.start.handlers 1 where
  fresh j hj := by
    show (Function.update (fun _ => DisconnectAwareHandler.none) 0 .new j).alive = false
    rw [Function.update_of_ne (by omega)]
    rfl
  holder _ := by
    refine ⟨rfl, 0, rfl, ?_⟩
    intro j hj
    show (Function.update (fun _ => DisconnectAwareHandler.none) 0 .new j).awaiter = false ∧
      (Function.update (fun _ => DisconnectAwareHandler.none) 0 .new j).handle = false
    rw [Function.update_of_ne hj]
    exact ⟨rfl, rfl⟩
  empty := nofun
  uncalled := nofun

/-- An object with a handle is the one that has not completed. -/
theorem HandlersInv.of_handle (h : HandlersInv completed called handlers constructed)
    (hhandle : (handlers i).handle = true) :
    completed = false ∧ called = false ∧ handlers i = .new ∧
      ∀ j, j ≠ i → (handlers j).awaiter = false ∧ (handlers j).handle = false := by
  cases completed with
  | true =>
      rw [h.empty rfl i] at hhandle
      cases hhandle
  | false =>
      rcases h.holder rfl with ⟨hcalled, k, hk, hothers⟩
      by_cases hik : i = k
      · subst hik
        exact ⟨rfl, hcalled, hk, hothers⟩
      · rw [(hothers i hik).2] at hhandle
        cases hhandle

/-- An object that can be called for the first time has not completed. -/
theorem HandlersInv.of_callable (h : HandlersInv completed false handlers constructed)
    (halive : (handlers i).alive = true) (hawaiter : (handlers i).awaiter = true) :
    (handlers i).handle = true := by
  cases completed with
  | true =>
      rw [h.uncalled rfl rfl i halive] at hawaiter
      cases hawaiter
  | false =>
      rcases h.holder rfl with ⟨-, k, hk, hothers⟩
      by_cases hik : i = k
      · rw [hik, hk]
        rfl
      · rw [(hothers i hik).1] at hawaiter
        cases hawaiter

/-- Something is left to destroy until the handler has completed. -/
theorem HandlersInv.completed_of_dead (h : HandlersInv completed called handlers constructed)
    (hdead : ∀ j, (handlers j).alive = false) : completed = true := by
  cases completed with
  | true => rfl
  | false =>
      rcases h.holder rfl with ⟨-, k, hk, -⟩
      have halive := hdead k
      rw [hk] at halive
      cases halive

/-- The handler completes, and what is left of its object is not called again. -/
theorem HandlersInv.complete (h : HandlersInv completed called handlers constructed)
    (hhandle : (handlers i).handle = true) {called' : Bool} {x : DisconnectAwareHandler}
    (hx : x.handle = false) (hcallable : x.alive = true → called' = true) :
    HandlersInv true called' (Function.update handlers i x) constructed := by
  rcases h.of_handle hhandle with ⟨-, -, hi, hothers⟩
  refine ⟨?_, nofun, ?_, ?_⟩
  · intro j hj
    have hne : j ≠ i := by
      rintro rfl
      have hdead := h.fresh j hj
      rw [hi] at hdead
      cases hdead
    rw [Function.update_of_ne hne]
    exact h.fresh j hj
  · intro _ j
    by_cases hj : j = i
    · subst hj
      rw [Function.update_self]
      exact hx
    · rw [Function.update_of_ne hj]
      exact (hothers j hj).2
  · intro _ hcalled j
    by_cases hj : j = i
    · subst hj
      rw [Function.update_self]
      intro halive
      rw [hcallable halive] at hcalled
      cases hcalled
    · rw [Function.update_of_ne hj]
      exact fun _ => (hothers j hj).1

/-- An object without a handle is destroyed. -/
theorem HandlersInv.destroy (h : HandlersInv completed called handlers constructed)
    (hhandle : (handlers i).handle = false) :
    HandlersInv completed called
      (Function.update handlers i { handlers i with alive := false }) constructed := by
  refine ⟨?_, ?_, ?_, ?_⟩
  · intro j hj
    by_cases hji : j = i
    · subst hji
      rw [Function.update_self]
    · rw [Function.update_of_ne hji]
      exact h.fresh j hj
  · intro hcompleted
    rcases h.holder hcompleted with ⟨hcalled, k, hk, hothers⟩
    have hki : k ≠ i := by
      rintro rfl
      rw [hk] at hhandle
      cases hhandle
    refine ⟨hcalled, k, ?_, ?_⟩
    · rw [Function.update_of_ne hki]
      exact hk
    · intro j hj
      by_cases hji : j = i
      · subst hji
        rw [Function.update_self]
        exact hothers j hj
      · rw [Function.update_of_ne hji]
        exact hothers j hj
  · intro hcompleted j
    by_cases hji : j = i
    · subst hji
      rw [Function.update_self]
      exact hhandle
    · rw [Function.update_of_ne hji]
      exact h.empty hcompleted j
  · intro hcompleted hcalled j halive
    by_cases hji : j = i
    · subst hji
      rw [Function.update_self] at halive
      cases halive
    · rw [Function.update_of_ne hji] at halive ⊢
      exact h.uncalled hcompleted hcalled j halive

/-- What the objects hold after a move: all of it is in the new one. -/
theorem moveHandler_cases (handlers : ℕ → DisconnectAwareHandler) {constructed i : ℕ}
    (hi : i < constructed) (j : ℕ) :
    let handlers' := Function.update
      (Function.update handlers i { handlers i with awaiter := false, handle := false })
      constructed { handlers i with alive := true }
    j = constructed ∧ handlers' j = { handlers i with alive := true } ∨
      j = i ∧ handlers' j = { handlers i with awaiter := false, handle := false } ∨
      j ≠ constructed ∧ j ≠ i ∧ handlers' j = handlers j := by
  intro handlers'
  by_cases hnew : j = constructed
  · subst hnew
    exact Or.inl ⟨rfl, Function.update_self ..⟩
  · have hold : handlers' j = _ := Function.update_of_ne hnew ..
    by_cases hj : j = i
    · subst hj
      rw [Function.update_self] at hold
      exact Or.inr (Or.inl ⟨rfl, hold⟩)
    · rw [Function.update_of_ne hj] at hold
      exact Or.inr (Or.inr ⟨hnew, hj, hold⟩)

/-- Moving the handler moves what it holds. -/
theorem HandlersInv.move (h : HandlersInv completed called handlers constructed)
    (halive : (handlers i).alive = true) :
    HandlersInv completed called
      (Function.update
        (Function.update handlers i { handlers i with awaiter := false, handle := false })
        constructed { handlers i with alive := true }) (constructed + 1) := by
  have hi : i < constructed := by
    by_contra hge
    rw [h.fresh i (by omega)] at halive
    cases halive
  refine ⟨?_, ?_, ?_, ?_⟩
  · intro j hj
    rcases moveHandler_cases handlers hi j with ⟨hjc, -⟩ | ⟨hji, -⟩ | ⟨-, -, heq⟩
    · omega
    · omega
    · rw [heq]
      exact h.fresh j (by omega)
  · intro hcompleted
    rcases h.holder hcompleted with ⟨hcalled, k, hk, hothers⟩
    constructor
    · exact hcalled
    · by_cases hki : k = i
      · -- the holder itself is moved
        subst hki
        refine ⟨constructed, ?_, ?_⟩
        · rw [Function.update_self, hk]
          rfl
        · intro j hj
          rcases moveHandler_cases handlers hi j with ⟨hjc, -⟩ | ⟨-, heq⟩ | ⟨-, hji, heq⟩
          · exact absurd hjc hj
          · rw [heq]
            exact ⟨rfl, rfl⟩
          · rw [heq]
            exact hothers j hji
      · refine ⟨k, ?_, ?_⟩
        · rcases moveHandler_cases handlers hi k with ⟨hkc, -⟩ | ⟨hki', -⟩ | ⟨-, -, heq⟩
          · have hdead := h.fresh k hkc.ge
            rw [hk] at hdead
            cases hdead
          · exact absurd hki' hki
          · exact heq.trans hk
        · intro j hj
          rcases moveHandler_cases handlers hi j with ⟨-, heq⟩ | ⟨-, heq⟩ | ⟨-, -, heq⟩
          · rw [heq]
            exact hothers i (Ne.symm hki)
          · rw [heq]
            exact ⟨rfl, rfl⟩
          · rw [heq]
            exact hothers j hj
  · intro hcompleted j
    rcases moveHandler_cases handlers hi j with ⟨-, heq⟩ | ⟨-, heq⟩ | ⟨-, -, heq⟩
    · rw [heq]
      exact h.empty hcompleted i
    · rw [heq]
    · rw [heq]
      exact h.empty hcompleted j
  · intro hcompleted hcalled j hj
    rcases moveHandler_cases handlers hi j with ⟨-, heq⟩ | ⟨-, heq⟩ | ⟨-, -, heq⟩
    · rw [heq]
      exact h.uncalled hcompleted hcalled i halive
    · rw [heq]
    · rw [heq] at hj ⊢
      exact h.uncalled hcompleted hcalled j hj

/-! ## The two awaiters -/

variable {a : AwaitAdapter} {r q : Rendezvous}

theorem reach_of_nil (h : a.continuations = []) : a.reach true = a := by
  unfold AwaitAdapter.reach
  rw [if_neg nofun, if_pos h]

/-- `Complete()` through an awaiter whose coroutine has not gone on. -/
theorem complete_spec (hflag : a.suspending = r.flag) (hnil : a.continuations = [])
    (hwaker : r.wakerFound = none) :
    (a.complete true).suspending = false ∧ (a.complete true).found = a.found ∧
      (a.complete true).faults = a.faults ∧
      (a.complete true).continuations.length = r.exchangeWaker.met.toNat := by
  rw [Rendezvous.flag_eq_waiter hwaker] at hflag
  rw [Rendezvous.met_exchangeWaker hwaker]
  unfold AwaitAdapter.complete
  cases hfound : r.waiterFound with
  | none =>
      rw [hfound, Option.isNone_none] at hflag
      rw [if_pos hflag]
      exact ⟨rfl, rfl, rfl, congrArg List.length hnil⟩
  | some found =>
      rw [hfound, Option.isNone_some] at hflag
      rw [if_neg (by rw [hflag]; exact nofun), if_pos rfl]
      refine ⟨rfl, rfl, rfl, ?_⟩
      show (a.continuations ++ [_]).length = 1
      rw [hnil]
      rfl

/-- The exchange of `await_suspend`. -/
theorem awaitSuspend_spec (a : AwaitAdapter) :
    a.awaitSuspend.suspending = false ∧ a.awaitSuspend.found = some a.suspending ∧
      a.awaitSuspend.faults = a.faults ∧
      a.awaitSuspend.continuations.length = a.continuations.length + (!a.suspending).toNat := by
  unfold AwaitAdapter.awaitSuspend
  cases hsuspending : a.suspending with
  | true => exact ⟨rfl, rfl, rfl, rfl⟩
  | false =>
      rw [if_neg nofun]
      refine ⟨rfl, rfl, rfl, ?_⟩
      show (a.continuations ++ [_]).length = _
      rw [List.length_append]
      rfl

variable {s s' : State} {status : AsyncStatus} {submits : Bool}

/-- The invariant of the framework's awaiter: its coroutine has been continued once if
the handler and `await_suspend` have both been at the flag. -/
structure FrameworkInv (r : Rendezvous) (s : State) : Prop where
  flag : s.framework.suspending = r.flag
  found : s.framework.found = r.waiterFound
  faults : s.framework.faults = []
  continued : s.framework.continuations.length = (s.refused || r.met).toNat
  refused : s.refused = true → r = .waker ∧ ∀ j, (s.handlers j).alive = false
  handlers : HandlersInv r.wakerFound.isSome s.call.isSome s.handlers s.constructed

/-- The invariant of `pool_awaiter`: only a call of the lambda meets `await_suspend`. -/
structure PoolInv (q : Rendezvous) (s : State) : Prop where
  flag : s.pool.suspending = q.flag
  found : s.pool.found = q.waiterFound
  faults : s.pool.faults = []
  called : q.wakerFound = s.call.map Call.early
  continued : s.pool.continuations.length + s.submitted =
    (s.refused || (s.pool.found.isSome && s.call.any Call.keeps)).toNat

/-- With an object alive the operation has not refused its handler. -/
theorem FrameworkInv.not_refused (h : FrameworkInv r s) {i : ℕ}
    (halive : (s.handlers i).alive = true) : s.refused = false := by
  cases hrefused : s.refused with
  | false => rfl
  | true =>
      rw [(h.refused hrefused).2 i] at halive
      cases halive

/-- The handler completes once, through a live awaiter. -/
theorem FrameworkInv.of_handle (h : FrameworkInv r s) {i : ℕ}
    (hhandle : (s.handlers i).handle = true) :
    r.wakerFound = none ∧ s.handlers i = .new ∧ s.refused = false ∧
      s.framework.continuations = [] := by
  rcases h.handlers.of_handle hhandle with ⟨hcompleted, -, hnew, -⟩
  have hwaker : r.wakerFound = none :=
    Option.isNone_iff_eq_none.mp (Option.isSome_eq_false_iff.mp hcompleted)
  have hrefused := h.not_refused (i := i) (by rw [hnew]; rfl)
  refine ⟨hwaker, hnew, hrefused, ?_⟩
  have hcontinued := h.continued
  unfold Rendezvous.met at hcontinued
  rw [hrefused, hwaker, Option.isSome_none, Bool.and_false] at hcontinued
  exact List.eq_nil_of_length_eq_zero hcontinued

theorem FrameworkInv.move (h : FrameworkInv r s) {i : ℕ}
    (halive : (s.handlers i).alive = true) : FrameworkInv r (s.moveHandler i) := by
  refine ⟨h.flag, h.found, h.faults, h.continued, ?_, ?_⟩
  · intro htrue
    exact absurd ((h.not_refused halive).symm.trans htrue) Bool.false_ne_true
  · exact h.handlers.move halive

/-- The operation calls the handler. -/
theorem FrameworkInv.invoke (h : FrameworkInv r s) {i : ℕ} (halive : (s.handlers i).alive = true)
    (hawaiter : (s.handlers i).awaiter = true) (hcall : s.call = none) (c : Call) :
    FrameworkInv r.exchangeWaker
      { (s.callHandler i status).callLambda status submits with call := some c } := by
  have hhandle : (s.handlers i).handle = true := by
    have hhandlers := h.handlers
    rw [hcall] at hhandlers
    exact hhandlers.of_callable halive hawaiter
  rcases h.of_handle hhandle with ⟨hwaker, -, hrefused, hnil⟩
  rcases Rendezvous.exchangeWaker_spec hwaker with ⟨hfound, hother, hcleared⟩
  have hreach : ({ s.framework.reach (s.handlers i).awaiter with status := status }
      : AwaitAdapter).reach (s.handlers i).awaiter = { s.framework with status := status } := by
    rw [hawaiter, reach_of_nil hnil]
    exact reach_of_nil hnil
  rcases complete_spec (a := { s.framework with status := status }) h.flag hnil hwaker with
    ⟨hsuspending, hkeeps, hfaults, hlength⟩
  have hframework : (s.callHandler i status).framework =
      ({ s.framework with status := status } : AwaitAdapter).complete true := by
    show (AwaitAdapter.reach _ _).complete (s.handlers i).handle = _
    rw [hhandle]
    exact congrArg (·.complete true) hreach
  refine ⟨?_, ?_, ?_, ?_, ?_, ?_⟩
  · show (s.callHandler i status).framework.suspending = _
    rw [hframework, hsuspending, hcleared]
  · show (s.callHandler i status).framework.found = _
    rw [hframework, hkeeps, hother]
    exact h.found
  · show (s.callHandler i status).framework.faults = _
    rw [hframework, hfaults]
    exact h.faults
  · show (s.callHandler i status).framework.continuations.length = (s.refused || _).toNat
    rw [hframework, hlength, hrefused, Bool.false_or]
  · intro htrue
    exact absurd (hrefused.symm.trans htrue) Bool.false_ne_true
  · rw [hfound]
    exact h.handlers.complete hhandle rfl fun _ => rfl

/-- An object is destroyed: it completes if it still has its handle. -/
theorem FrameworkInv.destroy (h : FrameworkInv r s) {i : ℕ}
    (halive : (s.handlers i).alive = true) :
    ∃ r', FrameworkInv r' (s.destroyHandler i) ∧ r'.waiterFound = r.waiterFound := by
  have hrefused := h.not_refused halive
  cases hhandle : (s.handlers i).handle with
  | true =>
      rcases h.of_handle hhandle with ⟨hwaker, hnew, -, hnil⟩
      rcases Rendezvous.exchangeWaker_spec hwaker with ⟨hfound, hother, hcleared⟩
      rcases complete_spec h.flag hnil hwaker with ⟨hsuspending, hkeeps, hfaults, hlength⟩
      have hdestroy : s.destroyHandler i = (s.complete i).setHandler i
          { (s.complete i).handlers i with alive := false } := by
        unfold State.destroyHandler
        rw [if_pos hhandle]
      have hframework : (s.destroyHandler i).framework = s.framework.complete true := by
        rw [hdestroy]
        show (s.framework.reach (s.handlers i).awaiter).complete (s.handlers i).handle = _
        rw [hhandle, hnew]
        exact congrArg (·.complete true) (reach_of_nil hnil)
      refine ⟨r.exchangeWaker, ⟨?_, ?_, ?_, ?_, ?_, ?_⟩, hother⟩
      · rw [hframework, hsuspending, hcleared]
      · rw [hframework, hkeeps, hother]
        exact h.found
      · rw [hframework, hfaults]
        exact h.faults
      · rw [hframework, hlength, hdestroy]
        show _ = (s.refused || _).toNat
        rw [hrefused, Bool.false_or]
      · rw [hdestroy]
        intro htrue
        exact absurd (hrefused.symm.trans htrue) Bool.false_ne_true
      · rw [hfound, hdestroy]
        show HandlersInv _ s.call.isSome
          (Function.update (Function.update s.handlers i { s.handlers i with handle := false }) i
            { (s.complete i).handlers i with alive := false }) s.constructed
        rw [Function.update_idem]
        apply h.handlers.complete hhandle
        · show (Function.update s.handlers i { s.handlers i with handle := false } i).handle = false
          rw [Function.update_self]
        · exact nofun
  | false =>
      have hdestroy : s.destroyHandler i = s.setHandler i { s.handlers i with alive := false } := by
        unfold State.destroyHandler
        rw [if_neg (by rw [hhandle]; exact nofun)]
      rw [hdestroy]
      refine ⟨r, ⟨h.flag, h.found, h.faults, h.continued, ?_, h.handlers.destroy hhandle⟩, rfl⟩
      intro htrue
      exact absurd (hrefused.symm.trans htrue) Bool.false_ne_true

/-- `await_suspend` comes to its end. -/
theorem FrameworkInv.exchange (h : FrameworkInv r s) (hfound : s.framework.found = none)
    (hrefused : s.refused = false) :
    FrameworkInv r.exchangeWaiter
      { s with framework := s.framework.awaitSuspend, pool := s.pool.awaitSuspend } := by
  have hwaiter : r.waiterFound = none := h.found.symm.trans hfound
  rcases Rendezvous.exchangeWaiter_spec hwaiter with ⟨hnow, hother, hcleared⟩
  rcases awaitSuspend_spec s.framework with ⟨hsuspending, hreturned, hfaults, hlength⟩
  refine ⟨?_, ?_, ?_, ?_, ?_, ?_⟩
  · exact hsuspending.trans hcleared.symm
  · exact hreturned.trans (h.flag ▸ hnow.symm)
  · exact hfaults.trans h.faults
  · -- nothing has been continued before the two have met
    have hcontinued := h.continued
    unfold Rendezvous.met at hcontinued
    rw [hrefused, hwaiter, Option.isSome_none, Bool.false_and, Bool.or_self] at hcontinued
    show s.framework.awaitSuspend.continuations.length =
      (s.refused || r.exchangeWaiter.met).toNat
    rw [hlength, hcontinued, h.flag, Rendezvous.flag_eq_waker hwaiter,
      Rendezvous.met_exchangeWaiter hwaiter, hrefused]
    cases r.wakerFound <;> rfl
  · intro htrue
    exact absurd (hrefused.symm.trans htrue) Bool.false_ne_true
  · rw [hother]
    exact h.handlers

/-- `Completed()` throws: by then the handler has completed in its destructor. -/
theorem FrameworkInv.refuse (h : FrameworkInv r s) (hfound : s.framework.found = none)
    (hrefused : s.refused = false) (hdead : ∀ i < s.constructed, (s.handlers i).alive = false) :
    FrameworkInv r
      { s with framework := s.framework.throw, pool := s.pool.throw, refused := true } := by
  have hwaiter : r.waiterFound = none := h.found.symm.trans hfound
  have hall : ∀ i, (s.handlers i).alive = false := by
    intro i
    by_cases hi : i < s.constructed
    · exact hdead i hi
    · exact h.handlers.fresh i (by omega)
  have hwaker : r = .waker := by
    have hcompleted := h.handlers.completed_of_dead hall
    cases r with
    | waker => rfl
    | nobody => cases hcompleted
    | waiter => cases hcompleted
    | waiterThenWaker => cases hwaiter
    | wakerThenWaiter => cases hwaiter
  refine ⟨h.flag, h.found, h.faults, ?_, fun _ => ⟨hwaker, hall⟩, h.handlers⟩
  have hcontinued := h.continued
  rw [hrefused, hwaker] at hcontinued
  show (s.framework.continuations ++ [_]).length = 1
  rw [List.length_append, hcontinued]
  rfl

/-- Nothing has happened to the coroutine before the lambda is called or `await_suspend`
comes to its end. -/
theorem PoolInv.nothing (h : PoolInv q s) (hrefused : s.refused = false)
    (hnot : s.call = none ∨ s.pool.found = none) :
    s.pool.continuations = [] ∧ s.submitted = 0 := by
  have hcontinued := h.continued
  have hzero : (s.pool.found.isSome && s.call.any Call.keeps) = false := by
    rcases hnot with hcall | hfound
    · rw [hcall, Option.any_none, Bool.and_false]
    · rw [hfound, Option.isSome_none, Bool.false_and]
  rw [hrefused, hzero] at hcontinued
  rcases Nat.add_eq_zero_iff.mp hcontinued with ⟨hlength, hsubmitted⟩
  exact ⟨List.eq_nil_of_length_eq_zero hlength, hsubmitted⟩

/-- The operation calls the lambda. -/
theorem PoolInv.invoke (h : PoolInv q s) (hrefused : s.refused = false) (hcall : s.call = none)
    (i : ℕ) :
    PoolInv q.exchangeWaker { (s.callHandler i status).callLambda status submits with
      call := some ⟨s.pool.found.isNone, submits⟩ } := by
  have hwaker : q.wakerFound = none := by
    rw [h.called, hcall]
    rfl
  rcases h.nothing hrefused (Or.inl hcall) with ⟨hnil, hsubmitted⟩
  rcases Rendezvous.exchangeWaker_spec hwaker with ⟨hfound, hother, hcleared⟩
  have hflag : q.flag = s.pool.found.isNone := by
    rw [Rendezvous.flag_eq_waiter hwaker, h.found]
  refine ⟨hcleared.symm, ?_, ?_, ?_, ?_⟩
  · show (s.pool.reach true).found = _
    rw [reach_of_nil hnil, hother]
    exact h.found
  · show (s.pool.reach true).faults = _
    rw [reach_of_nil hnil]
    exact h.faults
  · rw [hfound, hflag]
    rfl
  · show (s.pool.reach true).continuations.length +
        (if (s.pool.reach true).suspending = false ∧ submits = true then s.submitted + 1
          else s.submitted) =
      (s.refused || ((s.pool.reach true).found.isSome && (s.pool.found.isNone || submits))).toNat
    rw [reach_of_nil hnil, hnil, hsubmitted, hrefused, h.flag, hflag]
    cases s.pool.found <;> cases submits <;> rfl

/-- `await_suspend` comes to its end. -/
theorem PoolInv.exchange (h : PoolInv q s) (hfound : s.pool.found = none)
    (hrefused : s.refused = false) :
    PoolInv q.exchangeWaiter
      { s with framework := s.framework.awaitSuspend, pool := s.pool.awaitSuspend } := by
  have hwaiter : q.waiterFound = none := h.found.symm.trans hfound
  rcases h.nothing hrefused (Or.inr hfound) with ⟨hnil, hsubmitted⟩
  rcases Rendezvous.exchangeWaiter_spec hwaiter with ⟨hnow, hother, hcleared⟩
  rcases awaitSuspend_spec s.pool with ⟨hsuspending, hreturned, hfaults, hlength⟩
  refine ⟨?_, ?_, ?_, ?_, ?_⟩
  · exact hsuspending.trans hcleared.symm
  · exact hreturned.trans (h.flag ▸ hnow.symm)
  · exact hfaults.trans h.faults
  · exact hother.trans h.called
  · show s.pool.awaitSuspend.continuations.length + s.submitted =
      (s.refused || (s.pool.awaitSuspend.found.isSome && s.call.any Call.keeps)).toNat
    rw [hlength, hnil, hsubmitted, hreturned, hrefused, h.flag, Rendezvous.flag_eq_waker hwaiter,
      h.called]
    cases hcall : s.call with
    | none => rfl
    | some c =>
        -- the lambda was called before this exchange, and found the flag set
        have hcalled := h.called
        rw [hcall, Option.map_some] at hcalled
        have hearly : c.early = true := by
          by_contra hlate
          rw [Bool.not_eq_true] at hlate
          rw [hlate] at hcalled
          rw [Rendezvous.waiter_of_waker_false hcalled] at hwaiter
          cases hwaiter
        show 1 = ((c.early || c.submits)).toNat
        rw [hearly, Bool.true_or]
        rfl

/-- `Completed()` throws. -/
theorem PoolInv.refuse (h : PoolInv q s) (hfound : s.pool.found = none)
    (hrefused : s.refused = false) :
    PoolInv q
      { s with framework := s.framework.throw, pool := s.pool.throw, refused := true } := by
  rcases h.nothing hrefused (Or.inr hfound) with ⟨hnil, hsubmitted⟩
  refine ⟨h.flag, h.found, h.faults, h.called, ?_⟩
  show (s.pool.continuations ++ [_]).length + s.submitted = 1
  rw [hnil, hsubmitted]
  rfl

/-- The submitted callback runs. -/
theorem PoolInv.run (h : PoolInv q s) (hsubmitted : 0 < s.submitted) :
    PoolInv q { s with pool := s.pool.resume, submitted := s.submitted - 1 } := by
  refine ⟨h.flag, h.found, h.faults, h.called, Eq.trans ?_ h.continued⟩
  show (s.pool.continuations ++ [_]).length + (s.submitted - 1) = _
  rw [List.length_append, List.length_singleton]
  omega

/-! ## Runs -/

/-- The invariant of the two awaiters; their `await_suspend`s come to their ends at once. -/
structure Inv (r q : Rendezvous) (s : State) : Prop where
  framework : FrameworkInv r s
  pool : PoolInv q s
  together : r.waiterFound = none ↔ q.waiterFound = none

theorem inv_start : Inv .nobody .nobody State.start where
  framework :=
    { flag := rfl, found := rfl, faults := rfl, continued := rfl, refused := nofun,
      handlers := handlersInv_start }
  pool := { flag := rfl, found := rfl, faults := rfl, called := rfl, continued := rfl }
  together := Iff.rfl

/-- The destructor is none of `pool_awaiter`'s business. -/
theorem destroyHandler_pool (s : State) (i : ℕ) :
    (s.destroyHandler i).pool = s.pool ∧ (s.destroyHandler i).submitted = s.submitted ∧
      (s.destroyHandler i).refused = s.refused ∧ (s.destroyHandler i).call = s.call := by
  unfold State.destroyHandler
  split <;> exact ⟨rfl, rfl, rfl, rfl⟩

theorem PoolInv.destroy (h : PoolInv q s) (i : ℕ) : PoolInv q (s.destroyHandler i) := by
  rcases destroyHandler_pool s i with ⟨hpool, hsubmitted, hrefused, hcall⟩
  refine ⟨?_, ?_, ?_, ?_, ?_⟩
  · rw [hpool]
    exact h.flag
  · rw [hpool]
    exact h.found
  · rw [hpool]
    exact h.faults
  · rw [hcall]
    exact h.called
  · rw [hpool, hsubmitted, hrefused, hcall]
    exact h.continued

/-- Every step keeps the invariant. -/
theorem inv_step {e : Event} (h : Inv r q s) (hstep : step s e = some s') :
    ∃ r' q', Inv r' q' s' := by
  cases e with
  | move i =>
      rcases Option.ite_none_right_eq_some.mp hstep with ⟨halive, heq⟩
      cases heq
      have hpool : PoolInv q (s.moveHandler i) :=
        ⟨h.pool.flag, h.pool.found, h.pool.faults, h.pool.called, h.pool.continued⟩
      exact ⟨r, q, h.framework.move halive, hpool, h.together⟩
  | invoke i status submits =>
      rcases Option.ite_none_right_eq_some.mp hstep with ⟨⟨halive, hawaiter, hcall⟩, heq⟩
      cases heq
      refine ⟨r.exchangeWaker, q.exchangeWaker,
        h.framework.invoke halive hawaiter hcall _,
        h.pool.invoke (h.framework.not_refused halive) hcall i, ?_⟩
      rw [Rendezvous.waiterFound_exchangeWaker, Rendezvous.waiterFound_exchangeWaker]
      exact h.together
  | destroy i =>
      rcases Option.ite_none_right_eq_some.mp hstep with ⟨halive, heq⟩
      cases heq
      rcases h.framework.destroy halive with ⟨r', hframework, hwaiter⟩
      exact ⟨r', q, hframework, h.pool.destroy i, hwaiter ▸ h.together⟩
  | exchange =>
      rcases Option.ite_none_right_eq_some.mp hstep with ⟨⟨hfound, hrefused⟩, heq⟩
      cases heq
      have hwaiter : q.waiterFound = none := h.pool.found.symm.trans hfound
      have hwaiter' : r.waiterFound = none := h.together.mpr hwaiter
      refine ⟨r.exchangeWaiter, q.exchangeWaiter,
        h.framework.exchange (h.framework.found.trans hwaiter') hrefused,
        h.pool.exchange hfound hrefused, ?_⟩
      rw [(Rendezvous.exchangeWaiter_spec hwaiter).1, (Rendezvous.exchangeWaiter_spec hwaiter').1]
      exact iff_of_false nofun nofun
  | refuse =>
      rcases Option.ite_none_right_eq_some.mp hstep with ⟨⟨hfound, hrefused, hdead⟩, heq⟩
      cases heq
      have hwaiter : r.waiterFound = none := h.together.mpr (h.pool.found.symm.trans hfound)
      exact ⟨r, q, h.framework.refuse (h.framework.found.trans hwaiter) hrefused hdead,
        h.pool.refuse hfound hrefused, h.together⟩
  | run =>
      rcases Option.ite_none_right_eq_some.mp hstep with ⟨hsubmitted, heq⟩
      cases heq
      have hframework : FrameworkInv r
          { s with pool := s.pool.resume, submitted := s.submitted - 1 } :=
        ⟨h.framework.flag, h.framework.found, h.framework.faults, h.framework.continued,
          h.framework.refused, h.framework.handlers⟩
      exact ⟨r, q, hframework, h.pool.run hsubmitted, h.together⟩

theorem inv_reachable (h : machine.Reachable s) : ∃ r q, Inv r q s := by
  have hinductive : machine.Inductive fun s => ∃ r q, Inv r q s := by
    constructor
    · rintro s rfl
      exact ⟨.nobody, .nobody, inv_start⟩
    · rintro s e s' ⟨r, q, hs⟩ hstep
      exact inv_step hs hstep
  exact hinductive.reachable h

/-! ## What the operation has to do -/

/-- The operation throws from `Completed()`, or calls its handler before `await_suspend`
exchanges, or calls it later and the submission succeeds. -/
def keepsCoroutine (exchanged : Bool) : List Event → Bool
  | [] => false
  | .refuse :: _ => true
  | .invoke _ _ submits :: events => (!exchanged || submits) || keepsCoroutine exchanged events
  | .exchange :: events => keepsCoroutine true events
  | .move _ :: events => keepsCoroutine exchanged events
  | .destroy _ :: events => keepsCoroutine exchanged events
  | .run :: events => keepsCoroutine exchanged events

/-- What the operation has done so far. -/
def State.kept (s : State) : Bool := s.refused || s.call.any Call.keeps

theorem found_reach (a : AwaitAdapter) (pointer : Bool) : (a.reach pointer).found = a.found := by
  unfold AwaitAdapter.reach
  split
  · rfl
  · split <;> rfl

/-- Each step moves the head of the run into the state. -/
theorem kept_step {e : Event} (hstep : step s e = some s') (events : List Event) :
    (s'.kept || keepsCoroutine s'.pool.found.isSome events) =
      (s.kept || keepsCoroutine s.pool.found.isSome (e :: events)) := by
  cases e with
  | move i =>
      rcases Option.ite_none_right_eq_some.mp hstep with ⟨-, heq⟩
      cases heq
      rfl
  | invoke i status submits =>
      rcases Option.ite_none_right_eq_some.mp hstep with ⟨⟨-, -, hcall⟩, heq⟩
      cases heq
      show ((s.refused || (s.pool.found.isNone || submits)) ||
          keepsCoroutine (s.pool.reach true).found.isSome events) =
        ((s.refused || s.call.any Call.keeps) || ((!s.pool.found.isSome || submits) ||
          keepsCoroutine s.pool.found.isSome events))
      rw [found_reach, hcall, Option.any_none, Bool.or_false, Option.not_isSome, Bool.or_assoc]
  | destroy i =>
      rcases Option.ite_none_right_eq_some.mp hstep with ⟨-, heq⟩
      cases heq
      rcases destroyHandler_pool s i with ⟨hpool, -, hrefused, hcall⟩
      unfold State.kept
      rw [hpool, hrefused, hcall]
      rfl
  | exchange =>
      rcases Option.ite_none_right_eq_some.mp hstep with ⟨-, heq⟩
      cases heq
      rcases awaitSuspend_spec s.pool with ⟨-, hreturned, -, -⟩
      show (s.kept || keepsCoroutine s.pool.awaitSuspend.found.isSome events) = _
      rw [hreturned]
      rfl
  | refuse =>
      rcases Option.ite_none_right_eq_some.mp hstep with ⟨-, heq⟩
      cases heq
      show (true || s.call.any Call.keeps || _) = (s.kept || true)
      rw [Bool.true_or, Bool.true_or, Bool.or_true]
  | run =>
      rcases Option.ite_none_right_eq_some.mp hstep with ⟨-, heq⟩
      cases heq
      rfl

/-- What the operation has done is read off the run. -/
theorem kept_run {t : State} {events : List Event} (hrun : machine.run s events = some t) :
    t.kept = (s.kept || keepsCoroutine s.pool.found.isSome events) := by
  induction events generalizing s with
  | nil =>
      rw [Machine.run_nil, Option.some.injEq] at hrun
      rw [hrun]
      exact (Bool.or_false _).symm
  | cons e events ih =>
      rcases Machine.run_cons_eq_some.mp hrun with ⟨s', hstep, hrest⟩
      rw [ih hrest]
      exact kept_step hstep events

/-- The coroutine of `pool_awaiter` is suspended and no party holds a pending resumption:
`await_suspend` has come to its end, nothing is in the pool, and no handler is left that
the operation may still call. -/
def State.Lost (s : State) : Prop :=
  s.pool.continuations = [] ∧ s.pool.found ≠ none ∧ s.submitted = 0 ∧
    ∀ i, (s.handlers i).alive = true → (s.handlers i).awaiter = true → s.call ≠ none

/-- An operation that has done its part does not lose the coroutine. -/
theorem PoolInv.not_kept (h : PoolInv q s) (hlost : s.Lost) : s.kept = false := by
  rcases hlost with ⟨hnil, hfound, hsubmitted, -⟩
  have hcontinued := h.continued
  rw [hnil, hsubmitted, Option.isSome_iff_ne_none.mpr hfound, Bool.true_and] at hcontinued
  show (s.refused || s.call.any Call.keeps) = false
  exact Bool.toNat_eq_zero.mp hcontinued.symm

/-- Where nothing is left to happen, both `await_suspend`s have come to their ends, every
object is destroyed and the pool is empty. -/
theorem stuck_iff : machine.Stuck s ↔
    (s.refused = true ∨ s.pool.found ≠ none) ∧ (∀ i, (s.handlers i).alive = false) ∧
      s.submitted = 0 := by
  constructor
  · intro hstuck
    have hdead : ∀ i, (s.handlers i).alive = false := by
      intro i
      have hdestroy : step s (.destroy i) = none := hstuck (.destroy i)
      by_contra halive
      simp [step, halive] at hdestroy
    refine ⟨?_, hdead, ?_⟩
    · by_contra hnot
      obtain ⟨hrefused, hfound⟩ := not_or.mp hnot
      have hexchange : step s .exchange = none := hstuck .exchange
      simp [step, not_not.mp hfound, hrefused] at hexchange
    · have hrun : step s .run = none := hstuck .run
      by_contra hsubmitted
      simp [step, Nat.pos_of_ne_zero hsubmitted] at hrun
  · rintro ⟨hended, hdead, hsubmitted⟩ e
    have hnot : ¬(s.pool.found = none ∧ s.refused = false) := by
      rintro ⟨hfound, hrefused⟩
      rcases hended with htrue | hne
      · rw [hrefused] at htrue
        cases htrue
      · exact hne hfound
    show step s e = none
    cases e with
    | move i => simp [step, hdead]
    | invoke i status submits => simp [step, hdead]
    | destroy i => simp [step, hdead]
    | exchange => exact if_neg hnot
    | refuse => exact if_neg fun h => hnot ⟨h.1, h.2.1⟩
    | run => simp [step, hsubmitted]

/-- The framework continues its coroutine in every run that has come to its end. -/
theorem Inv.framework_continued (h : Inv r q s) (hstuck : machine.Stuck s) :
    s.framework.continuations.length = 1 := by
  obtain ⟨hended, hdead, -⟩ := stuck_iff.mp hstuck
  have hcompleted := h.framework.handlers.completed_of_dead hdead
  have hboth : (s.refused || r.met) = true := by
    rcases hended with hrefused | hfound
    · rw [hrefused, Bool.true_or]
    · have hwaiter : r.waiterFound ≠ none := by
        intro hnone
        exact hfound (h.pool.found.trans (h.together.mp hnone))
      unfold Rendezvous.met
      rw [Option.isSome_iff_ne_none.mpr hwaiter, hcompleted, Bool.and_self, Bool.or_true]
  rw [h.framework.continued, hboth]
  rfl

/-- `pool_awaiter` continues its coroutine if the operation has done its part. -/
theorem Inv.pool_continued (h : Inv r q s) (hstuck : machine.Stuck s) :
    s.pool.continuations.length = s.kept.toNat := by
  obtain ⟨hended, -, hsubmitted⟩ := stuck_iff.mp hstuck
  have hcontinued := h.pool.continued
  rw [hsubmitted, Nat.add_zero] at hcontinued
  rw [hcontinued]
  unfold State.kept
  rcases hended with hrefused | hfound
  · rw [hrefused, Bool.true_or, Bool.true_or]
  · rw [Option.isSome_iff_ne_none.mpr hfound, Bool.true_and]

/-- Along every run of the operation: neither awaiter is used through a null pointer or
after its coroutine has gone on, and what has done its part is not lost. At the end of the
run the framework has continued its coroutine once; that `pool_awaiter` then has, too,
comes down to what the operation did. -/
theorem keeps_coroutine_iff {events : List Event}
    (hrun : machine.run State.start events = some s) :
    s.framework.faults = [] ∧ s.pool.faults = [] ∧
      (s.Lost → keepsCoroutine false events = false) ∧
      (machine.Stuck s →
        s.framework.continuations.length = 1 ∧
          ((s.framework.continuations.length = 1 →
              s.pool.continuations.length = 1 ∧ ¬ s.Lost) ↔
            keepsCoroutine false events = true)) := by
  have hreachable : machine.Reachable s := (Machine.Reachable.init rfl).run hrun
  obtain ⟨r, q, hinv⟩ := inv_reachable hreachable
  have hkept : s.kept = keepsCoroutine false events := kept_run hrun
  have hlost : s.Lost → keepsCoroutine false events = false := by
    intro h
    rw [← hkept]
    exact hinv.pool.not_kept h
  refine ⟨hinv.framework.faults, hinv.pool.faults, hlost, ?_⟩
  intro hstuck
  have honce := hinv.framework_continued hstuck
  have hpool := hinv.pool_continued hstuck
  constructor
  · exact honce
  · constructor
    · intro hkeeps
      rw [← hkept]
      apply Bool.toNat_eq_one.mp
      rw [← hpool]
      exact (hkeeps honce).1
    · intro hkeeps _
      constructor
      · rw [hpool, hkept, hkeeps]
        rfl
      · intro h
        rw [hlost h] at hkeeps
        cases hkeeps

/-- The handler is moved into a delegate and called there once `await_suspend` has
returned; the coroutine goes on in the pool. -/
theorem keeps_coroutine_iff_submitted :
    ∃ s, machine.run State.start
        [.move 0, .destroy 0, .exchange, .invoke 1 .completed true, .destroy 1, .run] = some s ∧
      machine.Stuck s ∧ s.framework.continuations = [.resumed .completed] ∧
      s.pool.continuations = [.resumed .completed] ∧ ¬ s.Lost ∧
      ((s.framework.continuations.length = 1 → s.pool.continuations.length = 1 ∧ ¬ s.Lost) ↔
        keepsCoroutine false
          [.move 0, .destroy 0, .exchange, .invoke 1 .completed true, .destroy 1, .run] = true) := by
  have hrun : ∃ s, machine.run State.start
      [.move 0, .destroy 0, .exchange, .invoke 1 .completed true, .destroy 1, .run] = some s ∧
      machine.Stuck s ∧ s.framework.continuations = [.resumed .completed] ∧
      s.pool.continuations = [.resumed .completed] := by
    refine ⟨_, rfl, stuck_iff.mpr ⟨Or.inr nofun, ?_, rfl⟩, rfl, rfl⟩
    intro i
    match i with
    | 0 => rfl
    | 1 => rfl
    | i + 2 => rfl
  rcases hrun with ⟨s, hrun, hstuck, hframework, hpool⟩
  obtain ⟨-, -, -, hend⟩ := keeps_coroutine_iff hrun
  obtain ⟨honce, hiff⟩ := hend hstuck
  exact ⟨s, hrun, hstuck, hframework, hpool, (hiff.mpr rfl honce).2, hiff⟩

/-- An operation that releases the handler without calling it, and one whose late call
cannot submit: the framework's coroutine goes on, the one of `pool_awaiter` is lost. -/
theorem released_or_unsubmitted_lost :
    (∃ s, machine.run State.start [.move 0, .destroy 0, .exchange, .destroy 1] = some s ∧
      machine.Stuck s ∧ s.framework.continuations = [.resumed .started] ∧ s.Lost) ∧
    ∃ s, machine.run State.start
        [.move 0, .destroy 0, .exchange, .invoke 1 .completed false, .destroy 1] = some s ∧
      machine.Stuck s ∧ s.framework.continuations = [.resumed .completed] ∧ s.Lost := by
  constructor
  · refine ⟨_, rfl, stuck_iff.mpr ⟨Or.inr nofun, ?_, rfl⟩, rfl, rfl, nofun, rfl, ?_⟩
    · intro i
      match i with
      | 0 => rfl
      | 1 => rfl
      | i + 2 => rfl
    · intro i
      match i with
      | 0 => exact nofun
      | 1 => exact nofun
      | i + 2 => exact nofun
  · refine ⟨_, rfl, stuck_iff.mpr ⟨Or.inr nofun, ?_, rfl⟩, rfl, rfl, nofun, rfl, ?_⟩
    · intro i
      match i with
      | 0 => rfl
      | 1 => rfl
      | i + 2 => rfl
    · exact fun _ _ _ => nofun

end CppCoroutines.Disconnect
