import CppCoroutines.Classic.Lifetime

/-!
# The connections of the classic server

`classic_server.cpp` with all its sessions. However they are interleaved, and whichever accepts,
reads and writes fail, each session sends back what it has read itself; and once it is deleted,
nothing more happens to it.
-/

namespace CppCoroutines.ClassicServer

variable {n : ℕ}

/-! ## One session -/

/-- What has been read and what has been sent stays. -/
structure Extends (s s' : Session n) : Prop where
  received : s.received <+: s'.received
  sent : s.sent <+: s'.sent

theorem Extends.refl (s : Session n) : Extends s s := ⟨List.prefix_refl _, List.prefix_refl _⟩

theorem Extends.trans {s s' s'' : Session n} (h : Extends s s') (h' : Extends s' s'') :
    Extends s s'' :=
  ⟨h.received.trans h'.received, h.sent.trans h'.sent⟩

theorem sent_destroyWhenIdle (s : Session n) : s.destroyWhenIdle.sent = s.sent :=
  congrArg Duplex.sent (Session.toDuplex_destroyWhenIdle s)

theorem sent_handleRead (s : Session n) (err : Option ErrorCode) (length : ℕ) :
    (s.handleRead err length).sent = s.sent := by
  unfold Session.handleRead
  cases err with
  | none =>
      by_cases hcount : s.unsentCount + 1 = 1
      · simp only [hcount, if_true]
        exact sent_destroyWhenIdle _
      · simp only [hcount, if_false]
        exact sent_destroyWhenIdle _
  | some err => exact sent_destroyWhenIdle _

theorem sent_handleWrite (s : Session n) (err : Option ErrorCode) :
    (s.handleWrite err).sent = s.sent := by
  unfold Session.handleWrite
  cases err with
  | none =>
      by_cases hcount : s.unsentCount - 1 = 1
      · simp only [hcount, if_true]
        exact sent_destroyWhenIdle _
      · simp only [hcount, if_false]
        exact sent_destroyWhenIdle _
  | some err => exact sent_destroyWhenIdle _

theorem step_extends {s s' : Session n} {e : Event} (hstep : step s e = some s') :
    Extends s s' := by
  have hreceived : s.received <+: s'.received := by
    rcases step_history hstep with ⟨heq, -⟩ | ⟨chunk, heq, -⟩ | ⟨heq, -⟩
    · exact heq ▸ List.prefix_refl _
    · exact heq ▸ List.prefix_append _ _
    · exact heq ▸ List.prefix_refl _
  refine ⟨hreceived, ?_⟩
  rcases e with setOptionErr | e
  · rcases Option.ite_none_right_eq_some.mp hstep with ⟨-, heq⟩
    rw [← Option.some.inj heq]
    cases setOptionErr <;> exact List.prefix_refl _
  · cases e with
    | readDone op chunk =>
        rcases Option.ite_none_right_eq_some.mp hstep with ⟨-, heq⟩
        rw [← Option.some.inj heq, sent_handleRead]
        exact List.prefix_refl _
    | readFailed op err =>
        rcases Option.ite_none_right_eq_some.mp hstep with ⟨-, heq⟩
        rw [← Option.some.inj heq, sent_handleRead]
        exact List.prefix_refl _
    | transmit op count =>
        rcases Option.ite_none_right_eq_some.mp hstep with ⟨-, heq⟩
        rw [← Option.some.inj heq]
        exact List.prefix_append _ _
    | writeDone op =>
        rcases Option.ite_none_right_eq_some.mp hstep with ⟨-, heq⟩
        rw [← Option.some.inj heq, sent_handleWrite]
        exact List.prefix_refl _
    | writeFailed op err =>
        rcases Option.ite_none_right_eq_some.mp hstep with ⟨-, heq⟩
        rw [← Option.some.inj heq, sent_handleWrite]
        exact List.prefix_refl _

theorem run_extends {s s' : Session n} {es : List Event} (hrun : (machine n).run s es = some s') :
    Extends s s' := by
  induction es generalizing s with
  | nil =>
      obtain rfl : s = s' := Option.some.inj hrun
      exact .refl s
  | cons e es ih =>
      rcases Machine.run_cons_eq_some.mp hrun with ⟨s₁, hstep, hrest⟩
      exact (step_extends hstep).trans (ih hrest)

/-- What is sent is the beginning of what has been read. -/
theorem Inv.sent_begins {s : Session n} (h : Inv s) : s.sent <+: s.received.flatten := by
  rcases h.sent_eq with ⟨tail, hsent, htail⟩
  have hsplit : s.received.flatten = (s.received.take s.written.length).flatten ++
      (s.received.drop s.written.length).flatten := by
    rw [← List.flatten_append, List.take_append_drop]
  rw [hsent, hsplit]
  exact (List.prefix_append_right_inj _).mpr htail

/-! ## All of them -/

section Server

variable {s s' : Server n}

/-- In a run of the server each session runs as it does on its own. -/
theorem server_run_session (hs : (serverMachine n).Reachable s) {events : List ServerEvent}
    (hrun : (serverMachine n).run s events = some s') (i : ℕ) :
    ∃ es, (machine n).run (s.sessions i) es = some (s'.sessions i) := by
  have h : ServerInv s := (server_inductive_inv n).reachable hs
  rcases (server_refines_family n).run ⟨h, rfl⟩ hrun with ⟨ds, sessions, hds, -, rfl⟩
  rcases (Machine.family_projection (machine n) i).simulation.run rfl hds with ⟨es, t, hes, rfl⟩
  exact ⟨es, hes⟩

/-- A deleted session stays as it is, and deleted. -/
theorem ServerInv.deleted_step (h : ServerInv s) {i : ℕ} (hi : i ∈ s.deleted) {e : ServerEvent}
    (hstep : serverStep s e = some s') : s'.sessions i = s.sessions i ∧ i ∈ s'.deleted := by
  rcases h.gone (Or.inr hi) with ⟨hreads, hwrites, hacc⟩
  cases e with
  | acceptDone j err setOptionErr =>
      rcases Option.ite_none_right_eq_some.mp hstep with ⟨hj, heq⟩
      have hne : i ≠ j := by
        rintro rfl
        exact hacc hj
      rw [← Option.some.inj heq]
      cases err with
      | none => exact ⟨Server.setSession_ne _ _ hne, hi⟩
      | some err => exact ⟨rfl, List.mem_append_left _ hi⟩
  | session j e =>
      rcases Option.map_eq_some_iff.mp hstep with ⟨t, ht, rfl⟩
      have hne : i ≠ j := by
        rintro rfl
        rcases (step_io ht).1 with hr | hw
        · exact hr hreads
        · exact hw hwrites
      exact ⟨Server.setSession_ne _ _ hne, hi⟩
  | destroy j =>
      rcases Option.ite_none_right_eq_some.mp hstep with ⟨-, heq⟩
      rw [← Option.some.inj heq]
      exact ⟨rfl, List.mem_append_left _ hi⟩

theorem deleted_run (hs : (serverMachine n).Reachable s) {i : ℕ} (hi : i ∈ s.deleted)
    {events : List ServerEvent} (hrun : (serverMachine n).run s events = some s') :
    s'.sessions i = s.sessions i := by
  induction events generalizing s with
  | nil =>
      obtain rfl : s = s' := Option.some.inj hrun
      rfl
  | cons e events ih =>
      rcases Machine.run_cons_eq_some.mp hrun with ⟨s₁, hstep, hrest⟩
      rcases ((server_inductive_inv n).reachable hs).deleted_step hi hstep with ⟨hsame, hi₁⟩
      rw [ih (hs.step e hstep) hi₁ hrest, hsame]

/-- A session that has been deleted, no write of which has failed, has sent back everything. -/
theorem ServerInv.echoed_of_deleted (h : ServerInv s) {i : ℕ} (hi : i ∈ s.deleted)
    (herr : (s.sessions i).writeErrors = 0) :
    (s.sessions i).sent = (s.sessions i).received.flatten := by
  rcases h.cause hi with ⟨-, hnew, -⟩ | ⟨-, hone⟩
  · rw [(h.session i).fresh hnew]
    rfl
  · exact ((h.session i).echoed (by omega) herr).1

/-- In every run of the server, for each session: what it has read and sent stays, and what it has
sent is the beginning of what it has read; if it is deleted and none of its writes has failed, it
has sent all of that, and nothing is read or sent any more. -/
theorem server_echoes (hs : (serverMachine n).Reachable s) {events : List ServerEvent}
    (hrun : (serverMachine n).run s events = some s') (i : ℕ) :
    Extends (s.sessions i) (s'.sessions i) ∧
      (s'.sessions i).sent <+: (s'.sessions i).received.flatten ∧
      (i ∈ s'.deleted → (s'.sessions i).writeErrors = 0 →
        (s'.sessions i).sent = (s'.sessions i).received.flatten) ∧
      (i ∈ s.deleted → s'.sessions i = s.sessions i) := by
  have h : ServerInv s' := (server_inductive_inv n).reachable (hs.run hrun)
  rcases server_run_session hs hrun i with ⟨es, hes⟩
  refine ⟨run_extends hes, (h.session i).sent_begins, ?_, ?_⟩
  · exact h.echoed_of_deleted
  · intro hi
    exact deleted_run hs hi hrun

/-- Two connections: the first client closes at once, the second one gets its byte back. -/
theorem server_echoes_two : ∃ s : Server 1,
    (serverMachine 1).run (Server.new fun _ _ => Block.zero 1)
        [.acceptDone 0 none none, .acceptDone 1 none none,
          .session 1 (.readDone ⟨.first, 1⟩ [5]), .session 0 (.readFailed ⟨.first, 1⟩ .eof),
          .session 1 (.transmit ⟨0, .first, 1, 0⟩ 1), .destroy 0] = some s ∧
      s.deleted = [0] ∧ (s.sessions 0).sent = (s.sessions 0).received.flatten ∧
      (s.sessions 1).sent = [5] ∧ (s.sessions 1).sent <+: (s.sessions 1).received.flatten := by
  have hinit : (serverMachine 1).Reachable (Server.new fun _ _ => Block.zero 1) :=
    Machine.Reachable.init ⟨_, rfl⟩
  have hrun : ∃ s, (serverMachine 1).run (Server.new fun _ _ => Block.zero 1)
        [.acceptDone 0 none none, .acceptDone 1 none none,
          .session 1 (.readDone ⟨.first, 1⟩ [5]), .session 0 (.readFailed ⟨.first, 1⟩ .eof),
          .session 1 (.transmit ⟨0, .first, 1, 0⟩ 1), .destroy 0] = some s ∧
      s.deleted = [0] ∧ (s.sessions 0).writeErrors = 0 ∧ (s.sessions 1).sent = [5] :=
    ⟨_, rfl, rfl, rfl, rfl⟩
  obtain ⟨s, hrun, hdeleted, herr, hsent⟩ := hrun
  have hmem : 0 ∈ s.deleted := by
    rw [hdeleted]
    exact List.mem_singleton_self 0
  exact ⟨s, hrun, hdeleted, (server_echoes hinit hrun 0).2.2.1 hmem herr, hsent,
    (server_echoes hinit hrun 1).2.1⟩

end Server

end CppCoroutines.ClassicServer
