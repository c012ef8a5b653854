import CppCoroutines.Classic.Server

/-!
# The lifetime of classic server sessions

`server` of `classic_server.cpp` allocates a session for every `async_accept`;
`handle_accept` starts it or deletes it, and a session that has started is
deleted through a posted `destroy`. Nothing but `op_count_` decides when. The
machine below interleaves any number of sessions with the accept loop.
-/

namespace CppCoroutines.ClassicServer

/-- The sessions of a server by order of allocation, the accepts in flight and
the history of deletions. -/
structure Server (n : ℕ) where
  sessions : ℕ → Session n
  /-- how many sessions `start_accept` has allocated -/
  created : ℕ
  /-- the sessions with an outstanding `async_accept` -/
  accepts : List ℕ
  /-- how many of the posted `destroy` tasks of a session have run -/
  destroysRun : ℕ → ℕ
  /-- history: the sessions deleted -/
  deleted : List ℕ

namespace Server

variable {n : ℕ}

/-- Replace one session. -/
def setSession (s : Server n) (i : ℕ) (t : Session n) : Server n :=
  { s with sessions := Function.update s.sessions i t }

@[simp] theorem setSession_self (s : Server n) (i : ℕ) (t : Session n) :
    (s.setSession i t).sessions i = t := by
  simp [setSession]

@[simp] theorem setSession_ne (s : Server n) {i j : ℕ} (t : Session n) (h : j ≠ i) :
    (s.setSession i t).sessions j = s.sessions j := by
  simp [setSession, h]

/-- `server::start_accept`. -/
def startAccept (s : Server n) : Server n :=
  { s with created := s.created + 1, accepts := s.accepts ++ [s.created] }

/-- `delete s`. -/
def delete (s : Server n) (i : ℕ) : Server n := { s with deleted := s.deleted ++ [i] }

/-- `server::handle_accept`; `setOptionErr` is what `set_option` yields in `start()`. -/
def handleAccept (s : Server n) (i : ℕ) (err setOptionErr : Option ErrorCode) : Server n :=
  let s :=
    match err with
    | none => s.setSession i ((s.sessions i).start setOptionErr)
    | some _ => s.delete i
  s.startAccept

/-- The constructor of `server`; `heaps` is what the arrays of each session happen to hold. -/
def new (heaps : ℕ → Slot → Block n) : Server n :=
  startAccept
    { sessions := fun i => Session.new (heaps i)
      created := 0
      accepts := []
      destroysRun := fun _ => 0
      deleted := [] }

/-- `session::destroy`, run by the io_service. -/
def destroy (s : Server n) (i : ℕ) : Server n :=
  { s with destroysRun := Function.update s.destroysRun i (s.destroysRun i + 1) }.delete i

@[simp] theorem destroysRun_destroy_self (s : Server n) (i : ℕ) :
    (s.destroy i).destroysRun i = s.destroysRun i + 1 := by
  simp [destroy, delete]

@[simp] theorem destroysRun_destroy_ne (s : Server n) {i j : ℕ} (h : j ≠ i) :
    (s.destroy i).destroysRun j = s.destroysRun j := by
  simp [destroy, delete, h]

end Server

/-- An accept completes, an operation of a session progresses or completes, or a
posted `destroy` runs. -/
inductive ServerEvent where
  | acceptDone (i : ℕ) (err setOptionErr : Option ErrorCode)
  | session (i : ℕ) (e : IoEvent)
  | destroy (i : ℕ)
deriving DecidableEq, Repr

/-- One event of the server. Nothing here keeps a handler from running on a
session that has been deleted: that it does not is proved below. -/
def serverStep {n : ℕ} (s : Server n) : ServerEvent → Option (Server n)
  | .acceptDone i err setOptionErr =>
      if i ∈ s.accepts then
        some ({ s with accepts := s.accepts.erase i }.handleAccept i err setOptionErr)
      else none
  | .session i e =>
      (step (s.sessions i) (.io e)).map fun t => s.setSession i t
  | .destroy i =>
      if s.destroysRun i < (s.sessions i).destroyPosts then some (s.destroy i) else none

/-- A server from its construction on. -/
def serverMachine (n : ℕ) : Machine (Server n) ServerEvent where
  init s := ∃ heaps, s = Server.new heaps
  step := serverStep

/-! ## The invariant -/

/-- One accept is outstanding, for the session allocated last; the sessions before
it have been started or deleted; deletions are the accept errors and the
`destroy` tasks that have run. -/
structure ServerInv {n : ℕ} (s : Server n) : Prop where
  session : ∀ i, Inv (s.sessions i)
  accepts : s.accepts = [s.created - 1]
  created : 0 < s.created
  started : ∀ i, (s.sessions i).started = true → i + 1 < s.created
  posted : ∀ i, s.destroysRun i ≤ (s.sessions i).destroyPosts
  deleted : ∀ i, s.deleted.count i =
    s.destroysRun i + if i + 1 < s.created ∧ (s.sessions i).started = false then 1 else 0

variable {n : ℕ} {s : Server n}

theorem server_init_inv (heaps : ℕ → Slot → Block n) : ServerInv (Server.new heaps) where
  session i := init_inv (heaps i)
  accepts := rfl
  created := Nat.one_pos
  started i h := by cases h
  posted i := Nat.le_refl _
  deleted i := by simp [Server.new, Server.startAccept]

/-- A session whose accept is outstanding has not been started. -/
theorem ServerInv.accepting (h : ServerInv s) {i : ℕ} (hi : i ∈ s.accepts) :
    i = s.created - 1 ∧ (s.sessions i).started = false := by
  have hpos := h.created
  rw [h.accepts, List.mem_singleton] at hi
  constructor
  · exact hi
  · by_contra hne
    have hlt := h.started i (by simpa using hne)
    omega

/-! ## One event -/

/-- The rest of the server does not notice that a started session goes on. -/
theorem ServerInv.session_step (h : ServerInv s) {i : ℕ} {e : IoEvent} {t : Session n}
    (hstep : step (s.sessions i) (.io e) = some t) : ServerInv (s.setSession i t) := by
  rcases step_io hstep with ⟨hbusy, hstarted⟩
  rcases (h.session i).running hbusy with ⟨-, hposts⟩
  have hinv : Inv t := step_inv _ _ _ (h.session i) hstep
  have hkeep : ∀ j, ((s.setSession i t).sessions j).started = (s.sessions j).started := by
    intro j
    by_cases hj : j = i
    · rw [hj, Server.setSession_self, hstarted]
    · rw [Server.setSession_ne _ _ hj]
  refine { h with session := ?_, started := ?_, posted := ?_, deleted := ?_ }
  · intro j
    by_cases hj : j = i
    · rw [hj, Server.setSession_self]
      exact hinv
    · rw [Server.setSession_ne _ _ hj]
      exact h.session j
  · intro j hj
    exact h.started j ((hkeep j).symm.trans hj)
  · intro j
    by_cases hj : j = i
    · -- a session with an operation in flight has not been posted
      have hle := h.posted i
      rw [hposts] at hle
      rw [hj]
      exact Nat.le_trans hle (Nat.zero_le _)
    · rw [Server.setSession_ne _ _ hj]
      exact h.posted j
  · intro j
    rw [hkeep j]
    exact h.deleted j

/-- A posted `destroy` deletes a session that has been started. -/
theorem ServerInv.destroy (h : ServerInv s) {i : ℕ}
    (hpost : s.destroysRun i < (s.sessions i).destroyPosts) : ServerInv (s.destroy i) := by
  refine { h with posted := ?_, deleted := ?_ }
  · intro j
    by_cases hj : j = i
    · rw [hj, Server.destroysRun_destroy_self]
      exact hpost
    · rw [Server.destroysRun_destroy_ne _ hj]
      exact h.posted j
  · intro j
    have hcount := h.deleted j
    show (s.deleted ++ [i]).count j = (s.destroy i).destroysRun j + _
    rw [List.count_append]
    by_cases hj : j = i
    · rw [hj] at hcount ⊢
      rw [Server.destroysRun_destroy_self, List.count_singleton_self, hcount]
      exact Nat.add_right_comm _ _ _
    · rw [Server.destroysRun_destroy_ne _ hj, List.count_singleton, if_neg]
      · exact hcount
      · simpa using Ne.symm hj

/-- Allocating the next session changes nothing about the ones before the last. -/
theorem ServerInv.deleted_startAccept (h : ServerInv s) {j : ℕ} (hj : j ≠ s.created - 1) :
    s.deleted.count j =
      s.destroysRun j + if j + 1 < s.created + 1 ∧ (s.sessions j).started = false then 1 else 0 := by
  have hpos := h.created
  have hiff : j + 1 < s.created + 1 ↔ j + 1 < s.created := by omega
  simp only [hiff]
  exact h.deleted j

/-- A session whose accept is outstanding has been neither posted nor deleted. -/
theorem ServerInv.accepting_counts (h : ServerInv s) {i : ℕ} (hi : i ∈ s.accepts) :
    s.destroysRun i = 0 ∧ s.deleted.count i = 0 := by
  rcases h.accepting hi with ⟨hlast, hnew⟩
  have hrun := h.posted i
  rw [(h.session i).fresh hnew] at hrun
  have hrun0 : s.destroysRun i = 0 := Nat.le_zero.mp hrun
  constructor
  · exact hrun0
  · rw [h.deleted i, hrun0, if_neg]
    omega

/-- A successful accept starts its session and is replaced by the next accept. -/
theorem ServerInv.accepted (h : ServerInv s) {i : ℕ} (hi : i ∈ s.accepts)
    (setOptionErr : Option ErrorCode) :
    ServerInv ({ s with accepts := [] }.handleAccept i none setOptionErr) := by
  rcases h.accepting hi with ⟨hlast, hnew⟩
  rcases h.accepting_counts hi with ⟨hrun, hcount⟩
  have hpos := h.created
  have hinv : Inv ((s.sessions i).start setOptionErr) := (h.session i).start hnew setOptionErr
  have hstart : ((s.sessions i).start setOptionErr).started = true := by
    cases setOptionErr <;> rfl
  -- the sessions after the handler, one by one
  have hself : ({ s with accepts := [] }.handleAccept i none setOptionErr).sessions i =
      (s.sessions i).start setOptionErr := Server.setSession_self _ _ _
  have hother : ∀ j, j ≠ i →
      ({ s with accepts := [] }.handleAccept i none setOptionErr).sessions j = s.sessions j :=
    fun j hj => Server.setSession_ne _ _ hj
  refine
    { session := ?_, accepts := rfl, created := Nat.succ_pos _, started := ?_, posted := ?_,
      deleted := ?_ }
  · intro j
    by_cases hj : j = i
    · rw [hj, hself]
      exact hinv
    · rw [hother j hj]
      exact h.session j
  · intro j hjs
    show j + 1 < s.created + 1
    by_cases hj : j = i
    · omega
    · rw [hother j hj] at hjs
      have := h.started j hjs
      omega
  · intro j
    show s.destroysRun j ≤ _
    by_cases hj : j = i
    · rw [hj, hrun]
      exact Nat.zero_le _
    · rw [hother j hj]
      exact h.posted j
  · intro j
    show s.deleted.count j = s.destroysRun j + if j + 1 < s.created + 1 ∧ _ then 1 else 0
    by_cases hj : j = i
    · rw [hj, hcount, hrun, hself, hstart]
      simp
    · rw [hother j hj]
      exact h.deleted_startAccept (hlast ▸ hj)

/-- A failed accept deletes its session and is replaced by the next accept. -/
theorem ServerInv.rejected (h : ServerInv s) {i : ℕ} (hi : i ∈ s.accepts) (err : ErrorCode)
    (setOptionErr : Option ErrorCode) :
    ServerInv ({ s with accepts := [] }.handleAccept i (some err) setOptionErr) := by
  rcases h.accepting hi with ⟨hlast, hnew⟩
  rcases h.accepting_counts hi with ⟨hrun, hcount⟩
  have hpos := h.created
  refine
    { session := h.session, accepts := rfl, created := Nat.succ_pos _, started := ?_,
      posted := h.posted, deleted := ?_ }
  · intro j hj
    exact Nat.lt_succ_of_lt (h.started j hj)
  · intro j
    show (s.deleted ++ [i]).count j =
      s.destroysRun j + if j + 1 < s.created + 1 ∧ (s.sessions j).started = false then 1 else 0
    rw [List.count_append]
    by_cases hj : j = i
    · rw [hj, hcount, hrun, hnew, List.count_singleton_self, if_pos]
      exact ⟨by omega, rfl⟩
    · rw [List.count_singleton, if_neg]
      · exact h.deleted_startAccept (hlast ▸ hj)
      · simpa using Ne.symm hj

theorem server_step_inv (s : Server n) (e : ServerEvent) (s' : Server n) (h : ServerInv s)
    (hstep : serverStep s e = some s') : ServerInv s' := by
  cases e with
  | acceptDone i err setOptionErr =>
      rcases Option.ite_none_right_eq_some.mp hstep with ⟨hi, heq⟩
      have herase : s.accepts.erase i = [] := by
        rw [h.accepts, (h.accepting hi).1]
        simp
      rw [← Option.some.inj heq, herase]
      cases err with
      | none => exact h.accepted hi setOptionErr
      | some err => exact h.rejected hi err setOptionErr
  | session i e =>
      rcases Option.map_eq_some_iff.mp hstep with ⟨t, ht, rfl⟩
      exact h.session_step ht
  | destroy i =>
      rcases Option.ite_none_right_eq_some.mp hstep with ⟨hpost, heq⟩
      rw [← Option.some.inj heq]
      exact h.destroy hpost

theorem server_inductive_inv (n : ℕ) : (serverMachine n).Inductive ServerInv := by
  constructor
  · intro s hs
    rcases hs with ⟨heaps, rfl⟩
    exact server_init_inv heaps
  · intro s e s' hs hstep
    exact server_step_inv s e s' hs hstep

/-! ## The server is its sessions -/

/-- What the server does to its sessions, one of them does on its own: a successful
accept starts one that has not been started, an I/O event is an event of its session,
and nothing else touches a session. -/
theorem server_refines_family (n : ℕ) :
    (serverMachine n).Simulation ((machine n).family (ι := ℕ))
      (fun s sessions => ServerInv s ∧ sessions = s.sessions) := by
  constructor
  · rintro s ⟨heaps, rfl⟩
    exact ⟨_, fun i => ⟨heaps i, rfl⟩, server_init_inv heaps, rfl⟩
  · rintro s e s' sessions ⟨h, rfl⟩ hstep
    have h' : ServerInv s' := server_step_inv s e s' h hstep
    cases e with
    | acceptDone i err setOptionErr =>
        obtain ⟨hi, heq⟩ := Option.ite_none_right_eq_some.mp hstep
        cases heq
        cases err with
        | none =>
            right
            have hnew : (s.sessions i).started = false := (h.accepting hi).2
            refine ⟨(i, .start setOptionErr), _, ?_, h', rfl⟩
            exact Option.map_eq_some_iff.mpr ⟨_, if_pos hnew, rfl⟩
        | some err =>
            left
            exact ⟨h', rfl⟩
    | session i e =>
        obtain ⟨t, ht, heq⟩ := Option.map_eq_some_iff.mp hstep
        cases heq
        right
        exact ⟨(i, .io e), _, Option.map_eq_some_iff.mpr ⟨t, ht, rfl⟩, h', rfl⟩
    | destroy i =>
        obtain ⟨-, heq⟩ := Option.ite_none_right_eq_some.mp hstep
        cases heq
        left
        exact ⟨h', rfl⟩

/-- Each session of a server is in a state that a session reaches on its own. -/
theorem server_session_reachable (hs : (serverMachine n).Reachable s) (i : ℕ) :
    (machine n).Reachable (s.sessions i) := by
  obtain ⟨sessions, hsessions, -, rfl⟩ := (server_refines_family n).reachable hs
  exact (Machine.family_projection (machine n) i).reachable hsessions

/-! ## Lifetime -/

theorem ServerInv.destroyPosts_le (h : ServerInv s) (i : ℕ) : (s.sessions i).destroyPosts ≤ 1 := by
  rw [(h.session i).posts]
  split <;> omega

/-- A deleted session was rejected by its accept, or its posted `destroy` has run. -/
theorem ServerInv.cause (h : ServerInv s) {i : ℕ} (hi : i ∈ s.deleted) :
    i + 1 < s.created ∧ (s.sessions i).started = false ∧ s.destroysRun i = 0 ∨
      s.destroysRun i = 1 ∧ (s.sessions i).destroyPosts = 1 := by
  have hcount := h.deleted i
  have hpos := List.count_pos_iff.mpr hi
  have hrun := h.posted i
  have hposts := h.destroyPosts_le i
  by_cases hrejected : i + 1 < s.created ∧ (s.sessions i).started = false
  · left
    have hnone : (s.sessions i).destroyPosts = 0 := by
      rw [(h.session i).fresh hrejected.2]
      rfl
    exact ⟨hrejected.1, hrejected.2, by omega⟩
  · right
    rw [if_neg hrejected] at hcount
    constructor <;> omega

/-- A session that is posted or deleted has nothing outstanding. -/
theorem ServerInv.gone (h : ServerInv s) {i : ℕ}
    (hgone : 0 < (s.sessions i).destroyPosts ∨ i ∈ s.deleted) :
    (s.sessions i).reads = [] ∧ (s.sessions i).writes = [] ∧ i ∉ s.accepts := by
  have hposted : 0 < (s.sessions i).destroyPosts →
      (s.sessions i).reads = [] ∧ (s.sessions i).writes = [] ∧ i ∉ s.accepts := by
    intro hpos
    have hidle : (s.sessions i).started = true ∧ (s.sessions i).reads = [] ∧
        (s.sessions i).writes = [] := by
      by_contra hne
      have := (h.session i).posts
      rw [if_neg hne] at this
      omega
    refine ⟨hidle.2.1, hidle.2.2, ?_⟩
    intro hi
    have hnew := (h.accepting hi).2
    rw [hidle.1] at hnew
    cases hnew
  rcases hgone with hpos | hi
  · exact hposted hpos
  · rcases h.cause hi with ⟨hlt, hnew, -⟩ | ⟨-, hone⟩
    · -- rejected by its accept: it never started anything
      rw [(h.session i).fresh hnew]
      refine ⟨rfl, rfl, ?_⟩
      intro hacc
      have := (h.accepting hacc).1
      omega
    · exact hposted (by omega)

/-- A session with nothing outstanding is deleted or will be. -/
theorem ServerInv.no_leak (h : ServerInv s) {i : ℕ} (hi : i < s.created)
    (hreads : (s.sessions i).reads = []) (hwrites : (s.sessions i).writes = [])
    (hacc : i ∉ s.accepts) : i ∈ s.deleted ∨ s.destroysRun i < (s.sessions i).destroyPosts := by
  have hcount := h.deleted i
  have hlt : i + 1 < s.created := by
    rw [h.accepts, List.mem_singleton] at hacc
    omega
  cases hstarted : (s.sessions i).started with
  | false =>
      left
      rw [if_pos ⟨hlt, hstarted⟩] at hcount
      exact List.count_pos_iff.mp (by omega)
  | true =>
      have hposts := (h.session i).posts
      rw [if_pos ⟨hstarted, hreads, hwrites⟩] at hposts
      by_cases hrun : s.destroysRun i = 0
      · right
        omega
      · left
        exact List.count_pos_iff.mp (by omega)

/-- The lifetime of the `i`-th session allocated, in one state of the server. -/
structure Lifetime (s : Server n) (i : ℕ) : Prop where
  ops : (s.sessions i).opCount = (s.sessions i).reads.length + (s.sessions i).writes.length
  ops_nonneg : 0 ≤ (s.sessions i).opCount
  deleted_once : s.deleted.count i ≤ 1
  posted_once : (s.sessions i).destroyPosts ≤ 1
  /-- deleted by `handle_accept` before it was started, or by its one `destroy` -/
  cause : i ∈ s.deleted →
    i + 1 < s.created ∧ (s.sessions i).started = false ∧ s.destroysRun i = 0 ∨
      s.destroysRun i = 1 ∧ (s.sessions i).destroyPosts = 1
  /-- with nothing outstanding it is deleted, or a `destroy` waits to run -/
  no_leak : (s.sessions i).reads = [] → (s.sessions i).writes = [] → i ∉ s.accepts →
    i ∈ s.deleted ∨ s.destroysRun i < (s.sessions i).destroyPosts
  /-- once posted or deleted it has nothing outstanding -/
  gone : 0 < (s.sessions i).destroyPosts ∨ i ∈ s.deleted →
    (s.sessions i).reads = [] ∧ (s.sessions i).writes = [] ∧ i ∉ s.accepts
  /-- and none of its handlers runs any more -/
  silent : 0 < (s.sessions i).destroyPosts ∨ i ∈ s.deleted →
    ∀ e s', serverStep s e = some s' →
      (∀ err setOptionErr, e ≠ .acceptDone i err setOptionErr) ∧ ∀ io, e ≠ .session i io

/-- In every reachable state of the server, every session allocated is counted,
posted and deleted as it should be, and exactly one accept is outstanding. -/
theorem sessions_lifetime (n : ℕ) (s : Server n) (hs : (serverMachine n).Reachable s) :
    (∀ i < s.created, Lifetime s i) ∧ s.accepts.length = 1 := by
  have h : ServerInv s := (server_inductive_inv n).reachable hs
  constructor
  · intro i hi
    have hops := (h.session i).ops
    refine
      { ops := hops, ops_nonneg := by omega, deleted_once := ?_, posted_once := h.destroyPosts_le i,
        cause := h.cause, no_leak := h.no_leak hi, gone := h.gone, silent := ?_ }
    · by_contra hmany
      have hmem : i ∈ s.deleted := List.count_pos_iff.mp (by omega)
      have hcount := h.deleted i
      rcases h.cause hmem with ⟨hlt, hnew, hrun⟩ | ⟨hrun, hone⟩
      · rw [if_pos ⟨hlt, hnew⟩] at hcount
        omega
      · -- a posted session has been started
        have hstarted : ¬ (i + 1 < s.created ∧ (s.sessions i).started = false) := by
          intro hnew
          rw [(h.session i).fresh hnew.2] at hone
          cases hone
        rw [if_neg hstarted] at hcount
        omega
    · intro hgone e s' hstep
      rcases h.gone hgone with ⟨hreads, hwrites, hacc⟩
      constructor
      · rintro err setOptionErr rfl
        exact hacc (Option.ite_none_right_eq_some.mp hstep).1
      · rintro io rfl
        rcases Option.map_eq_some_iff.mp hstep with ⟨t, ht, -⟩
        rcases (step_io ht).1 with hr | hw
        · exact hr hreads
        · exact hw hwrites
  · rw [h.accepts]
    rfl

/-- One session served to its end, one rejected by its accept, a third one pending. -/
theorem sessions_lifetime_two_gone :
    ∃ s : Server 1, (serverMachine 1).run (Server.new fun _ _ => Block.zero 1)
        [.acceptDone 0 none none, .acceptDone 1 (some (.other 1)) none,
          .session 0 (.readFailed ⟨.first, 1⟩ .eof), .destroy 0] = some s ∧
      s.deleted = [1, 0] ∧ s.accepts = [2] ∧
      (∀ i < s.created, Lifetime s i) ∧ s.accepts.length = 1 := by
  refine ⟨_, rfl, rfl, rfl, sessions_lifetime 1 _ ?_⟩
  have hinit : (serverMachine 1).Reachable (Server.new fun _ _ => Block.zero 1) :=
    Machine.Reachable.init ⟨_, rfl⟩
  exact (((hinit.step (.acceptDone 0 none none) rfl).step
    (.acceptDone 1 (some (.other 1)) none) rfl).step
    (.session 0 (.readFailed ⟨.first, 1⟩ .eof)) rfl).step (.destroy 0) rfl

end CppCoroutines.ClassicServer
