import CppCoroutines.WinRT.Client

/-!
# The time-out of the WinRT clients

The waiting loop of `client` sleeps for a second at a time, which may last longer, and then
reads the clock. It compares what remains with 0 after it has cut off the fraction of a
second, so that the last second counts as none.
-/

namespace CppCoroutines.WinRTClient

/-- The sessions are not stopped, and the waiting loop is not left, before the time is up. -/
def NotEarly (clock : Clock) (args : Arguments) (c : Client) : Prop :=
  c.stop = true ∨ c.control.left = true →
    ∃ now, c.stoppedAt = some now ∧ c.started + args.timeout * clock.second ≤ now

/-- The clock is not read in the last second before `end`. -/
def NotInLastSecond (clock : Clock) (c : Client) (e : Event) : Prop :=
  ∀ now, e = .wake now → ¬ (c.endTime - clock.second < now ∧ now < c.endTime)

/-- The clock of the client at each point. -/
structure Timed (clock : Clock) (args : Arguments) (c : Client) : Prop where
  before : c.control.left = false → c.stop = false
  fresh : c.control = .launching → c.progress = []
  waiting : c.control = .waiting → c.endTime = c.started + args.timeout * clock.second
  /-- every suspension has taken a second -/
  last : c.control = .waiting → c.started + c.progress.length * clock.second ≤ c.last
  left : c.control.left = true → ∃ now, c.stoppedAt = some now ∧
    c.started + args.timeout * clock.second - clock.second < now
  /-- a suspension after which the loop goes on leaves another second -/
  reported : c.progress ≠ [] → c.progress.length < args.timeout

section Waiting

variable {clock : Clock} {args : Arguments} {c c' : Client}

/-- What is left is rounded down to 0 in the whole last second. -/
theorem remaining_le_zero_iff (c : Client) (clock : Clock) (now : ℤ) :
    c.remaining clock now ≤ 0 ↔ c.endTime - clock.second < now := by
  have hpos := clock.pos
  unfold Client.remaining
  constructor
  · intro hle
    by_contra hge
    -- a whole second is left
    have hone : 1 ≤ (c.endTime - now).tdiv clock.second :=
      Int.le_tdiv_of_mul_le hpos (by omega)
    omega
  · intro hlt
    rcases lt_or_ge (c.endTime - now) 0 with hneg | hnonneg
    · have hopp : 0 ≤ (-(c.endTime - now)).tdiv clock.second :=
        Int.tdiv_nonneg (by omega) (Int.le_of_lt hpos)
      rw [Int.neg_tdiv] at hopp
      omega
    · exact Int.le_of_eq (Int.tdiv_eq_zero_of_lt hnonneg (by omega))

/-- The loop is left. -/
theorem wake_of_lt {now : ℤ} (h : c.endTime - clock.second < now) : c.wake clock now =
    { c with control := .joining, stop := true, last := now, stoppedAt := some now } :=
  if_pos ((remaining_le_zero_iff c clock now).mpr h)

/-- The loop goes on. -/
theorem wake_of_ge {now : ℤ} (h : now ≤ c.endTime - clock.second) : c.wake clock now =
    { c with last := now, progress := c.progress ++ [Int16.ofInt (c.remaining clock now)] } :=
  if_neg fun hle => absurd ((remaining_le_zero_iff c clock now).mp hle) (Int.not_lt.mpr h)

/-- `client` is where it was with respect to the waiting loop, and the clock has not been
read. -/
structure SameClock (c c' : Client) : Prop where
  left : c'.control.left = c.control.left
  launching : c'.control = .launching → c.control = .launching
  waiting : c'.control = .waiting → c.control = .waiting
  stop : c'.stop = c.stop
  endTime : c'.endTime = c.endTime
  progress : c'.progress = c.progress
  started : c'.started = c.started
  last : c'.last = c.last
  stoppedAt : c'.stoppedAt = c.stoppedAt

/-- The join loop does not read the clock. -/
theorem join_sameClock (hcontrol : c.control = .joining) (hjoin : c.join = some c') :
    SameClock c c' := by
  have hleft : c.control.left = true := by
    rw [hcontrol]
    rfl
  unfold Client.join at hjoin
  split at hjoin
  · rw [← Option.some.inj hjoin]
    exact ⟨hleft.symm, nofun, nofun, rfl, rfl, rfl, rfl, rfl, rfl⟩
  · split at hjoin
    · cases hjoin
    · rw [← Option.some.inj hjoin]
      exact ⟨rfl, id, id, rfl, rfl, rfl, rfl, rfl, rfl⟩
    · rw [← Option.some.inj hjoin]
      exact ⟨hleft.symm, nofun, nofun, rfl, rfl, rfl, rfl, rfl, rfl⟩

/-- The clock is read at the beginning and after each suspension for a second only. -/
theorem step_clock {e : Event} (hstep : Client.step clock args c e = some c') :
    (∃ now, c.control = .launching ∧ c' = { c with
        control := .waiting
        endTime := now + args.timeout * clock.second
        started := now
        last := now }) ∨
      (∃ now, e = .wake now ∧ c.control = .waiting ∧ c.last + clock.second ≤ now ∧
        c' = c.wake clock now) ∨
      SameClock c c' := by
  cases e with
  | launch failure =>
      rcases Option.ite_none_right_eq_some.mp hstep with ⟨-, heq⟩
      rw [← Option.some.inj heq]
      exact Or.inr (Or.inr ⟨rfl, id, id, rfl, rfl, rfl, rfl, rfl, rfl⟩)
  | begin now =>
      rcases Option.ite_none_right_eq_some.mp hstep with ⟨⟨hcontrol, -⟩, heq⟩
      exact Or.inl ⟨now, hcontrol, (Option.some.inj heq).symm⟩
  | wake now =>
      rcases Option.ite_none_right_eq_some.mp hstep with ⟨⟨hcontrol, hsecond⟩, heq⟩
      exact Or.inr (Or.inl ⟨now, rfl, hcontrol, hsecond, (Option.some.inj heq).symm⟩)
  | session i io cancelled closing =>
      rcases Option.bind_eq_some_iff.mp hstep with ⟨f, -, hmap⟩
      rcases Option.map_eq_some_iff.mp hmap with ⟨f', -, rfl⟩
      exact Or.inr (Or.inr ⟨rfl, id, id, rfl, rfl, rfl, rfl, rfl, rfl⟩)
  | join =>
      rcases Option.ite_none_right_eq_some.mp hstep with ⟨hcontrol, hjoin⟩
      exact Or.inr (Or.inr (join_sameClock hcontrol hjoin))

/-- The clock has not been read. -/
theorem Timed.congr (h : Timed clock args c) (hsame : SameClock c c') : Timed clock args c' where
  before hleft := hsame.stop.trans (h.before (hsame.left.symm.trans hleft))
  fresh hcontrol := hsame.progress.trans (h.fresh (hsame.launching hcontrol))
  waiting hcontrol := by
    rw [hsame.endTime, hsame.started]
    exact h.waiting (hsame.waiting hcontrol)
  last hcontrol := by
    rw [hsame.progress, hsame.started, hsame.last]
    exact h.last (hsame.waiting hcontrol)
  left hleft := by
    rw [hsame.stoppedAt, hsame.started]
    exact h.left (hsame.left.symm.trans hleft)
  reported hne := by
    rw [hsame.progress] at hne ⊢
    exact h.reported hne

/-- The clock is read for `end`. -/
theorem Timed.begin (h : Timed clock args c) (hcontrol : c.control = .launching) (now : ℤ) :
    Timed clock args { c with
      control := .waiting
      endTime := now + args.timeout * clock.second
      started := now
      last := now } where
  before _ := h.before (by rw [hcontrol]; rfl)
  fresh := nofun
  waiting _ := rfl
  last _ := by simp [h.fresh hcontrol]
  left := nofun
  reported hne := absurd (h.fresh hcontrol) hne

/-- A suspension for a second is over, and another second is left. -/
theorem Timed.goOn (h : Timed clock args c) (hcontrol : c.control = .waiting) {now : ℤ}
    (hsecond : c.last + clock.second ≤ now) (hle : now ≤ c.endTime - clock.second) :
    Timed clock args (c.wake clock now) := by
  have hlast := h.last hcontrol
  have hlength : ((c.progress ++ [Int16.ofInt (c.remaining clock now)]).length : ℤ) =
      c.progress.length + 1 := by simp
  have hmul : ((c.progress.length : ℤ) + 1) * clock.second =
      c.progress.length * clock.second + clock.second := by rw [Int.add_mul, Int.one_mul]
  rw [wake_of_ge hle]
  refine { h with fresh := ?_, last := ?_, reported := ?_ }
  · intro hlaunching
    rw [hcontrol] at hlaunching
    cases hlaunching
  · intro _
    show c.started + ((c.progress ++ [_]).length : ℤ) * clock.second ≤ now
    rw [hlength, hmul]
    omega
  · intro _
    -- the seconds that have passed and the one that is left
    have hseconds : ((c.progress.length : ℤ) + 1 + 1) * clock.second ≤
        args.timeout * clock.second := by
      rw [h.waiting hcontrol] at hle
      rw [Int.add_mul, Int.one_mul, hmul]
      omega
    show ((c.progress ++ [_]).length : ℤ) < args.timeout
    rw [hlength]
    exact Int.le_of_mul_le_mul_right hseconds clock.pos

/-- The waiting loop is left. -/
theorem Timed.leave (h : Timed clock args c) (hcontrol : c.control = .waiting) {now : ℤ}
    (hgt : c.endTime - clock.second < now) : Timed clock args (c.wake clock now) := by
  rw [wake_of_lt hgt]
  rw [h.waiting hcontrol] at hgt
  exact
    { before := nofun, fresh := nofun, waiting := nofun, last := nofun,
      left := fun _ => ⟨now, rfl, hgt⟩, reported := h.reported }

theorem step_timed {e : Event} (h : Timed clock args c)
    (hstep : Client.step clock args c e = some c') : Timed clock args c' := by
  rcases step_clock hstep with
    ⟨now, hcontrol, rfl⟩ | ⟨now, -, hcontrol, hsecond, rfl⟩ | hsame
  · exact h.begin hcontrol now
  · rcases le_or_gt now (c.endTime - clock.second) with hle | hgt
    · exact h.goOn hcontrol hsecond hle
    · exact h.leave hcontrol hgt
  · exact h.congr hsame

theorem timed_new : Timed clock args Client.new where
  before _ := rfl
  fresh _ := rfl
  waiting := nofun
  last := nofun
  left := nofun
  reported hne := absurd rfl hne

theorem timed_reachable (hc : (machine clock args).Reachable c) : Timed clock args c := by
  induction hc with
  | init hinit =>
      obtain rfl : _ = Client.new := hinit
      exact timed_new
  | step _ _ hstep ih => exact step_timed ih hstep

/-- The loop goes round less than once for each second of the time-out. -/
theorem progress_length_lt (hc : (machine clock args).Reachable c) (hne : c.progress ≠ []) :
    c.progress.length < args.timeout :=
  (timed_reachable hc).reported hne

/-- The waiting loop is left less than a second before the time is up, if it is at all. -/
theorem stopped_within_second (hc : (machine clock args).Reachable c)
    (hleft : c.control.left = true) : ∃ now, c.stoppedAt = some now ∧
      c.started + args.timeout * clock.second - clock.second < now :=
  (timed_reachable hc).left hleft

/-- Before the waiting loop is left nothing is stopped early. -/
theorem Timed.notEarly_of_not_left (h : Timed clock args c) (hleft : c.control.left = false) :
    NotEarly clock args c := by
  rintro (hstop | hleft')
  · rw [h.before hleft] at hstop
    cases hstop
  · rw [hleft] at hleft'
    cases hleft'

/-- A reading that is not in the last second keeps the sessions from being stopped early. -/
theorem step_notEarly {e : Event} (h : Timed clock args c) (hearly : NotEarly clock args c)
    (hstep : Client.step clock args c e = some c') (hcond : NotInLastSecond clock c e) :
    NotEarly clock args c' := by
  have h' := step_timed h hstep
  rcases step_clock hstep with ⟨now, hcontrol, rfl⟩ | ⟨now, rfl, hcontrol, -, rfl⟩ | hsame
  · exact h'.notEarly_of_not_left rfl
  · rcases le_or_gt now (c.endTime - clock.second) with hle | hgt
    · apply h'.notEarly_of_not_left
      rw [wake_of_ge hle]
      show c.control.left = false
      rw [hcontrol]
      rfl
    · have hend : c.endTime ≤ now := by
        by_contra hlt
        exact hcond now rfl ⟨hgt, Int.not_le.mp hlt⟩
      rw [h.waiting hcontrol] at hend
      rw [wake_of_lt hgt]
      exact fun _ => ⟨now, rfl, hend⟩
  · intro hleft
    rw [hsame.stop, hsame.left] at hleft
    rw [hsame.stoppedAt, hsame.started]
    exact hearly hleft

/-- A reading in the last second stops them early. -/
theorem step_early {e : Event} (h : Timed clock args c)
    (hstep : Client.step clock args c e = some c') (hcond : ¬ NotInLastSecond clock c e) :
    ¬ NotEarly clock args c' := by
  intro hearly
  unfold NotInLastSecond at hcond
  push Not at hcond
  rcases hcond with ⟨now, rfl, hgt, hlt⟩
  rcases Option.ite_none_right_eq_some.mp hstep with ⟨⟨hcontrol, -⟩, heq⟩
  rw [← Option.some.inj heq, wake_of_lt hgt] at hearly
  rcases hearly (Or.inl rfl) with ⟨t, ht, hle⟩
  obtain rfl : now = t := Option.some.inj ht
  rw [h.waiting hcontrol] at hlt
  have hle' : c.started + args.timeout * clock.second ≤ now := hle
  omega

/-- A client that is to run for one second takes at least that long. -/
theorem not_early_of_le_one (htimeout : args.timeout ≤ 1)
    (hc : (machine clock args).Reachable c) : NotEarly clock args c := by
  induction hc with
  | init hinit =>
      obtain rfl : _ = Client.new := hinit
      exact timed_new.notEarly_of_not_left rfl
  | @step s s' e hs hstep ih =>
      have h := timed_reachable hs
      refine step_notEarly h ih hstep ?_
      rintro now rfl ⟨-, hlt⟩
      -- the first suspension is over, and the second with it
      rcases Option.ite_none_right_eq_some.mp hstep with ⟨⟨hcontrol, hsecond⟩, -⟩
      have hlast := h.last hcontrol
      have hpassed : 0 ≤ (s.progress.length : ℤ) * clock.second :=
        Int.mul_nonneg (Int.natCast_nonneg _) (Int.le_of_lt clock.pos)
      have hend : args.timeout * clock.second ≤ 1 * clock.second :=
        Int.mul_le_mul_of_nonneg_right htimeout (Int.le_of_lt clock.pos)
      rw [h.waiting hcontrol] at hlt
      omega

/-- In every run, for every time-out, clock and sequence of wake-ups: the sessions are never
stopped early if and only if the clock is never read in the last second before `end`. -/
theorem not_early_throughout_iff (hinit : (machine clock args).init c) {es : List Event}
    (hrun : (machine clock args).run c es = some c') :
    (machine clock args).Throughout (NotEarly clock args) c es ↔
      (machine clock args).Along (NotInLastSecond clock) c es := by
  obtain rfl : c = Client.new := hinit
  have hgood : Timed clock args Client.new ∧ NotEarly clock args Client.new :=
    ⟨timed_new, timed_new.notEarly_of_not_left rfl⟩
  refine Machine.throughout_iff_along (fun s (hs : Timed clock args s ∧ NotEarly clock args s) => hs.2)
    ?_ ?_ hgood hrun
  · intro s e s' hs hstep hcond
    exact ⟨step_timed hs.1 hstep, step_notEarly hs.1 hs.2 hstep hcond⟩
  · intro s e s' hs hstep hcond
    exact step_early hs.1 hstep hcond

/-- Two seconds of ten ticks, and no drift. -/
theorem not_early_throughout_iff_two :
    (machine ⟨10, by decide⟩ ⟨1024, 0, 2⟩).Throughout (NotEarly ⟨10, by decide⟩ ⟨1024, 0, 2⟩)
      Client.new [.begin 0, .wake 10, .wake 20] := by
  have hrun : ∃ c, (machine ⟨10, by decide⟩ ⟨1024, 0, 2⟩).run Client.new
      [.begin 0, .wake 10, .wake 20] = some c := ⟨_, rfl⟩
  rcases hrun with ⟨c, hrun⟩
  refine (not_early_throughout_iff rfl hrun).mpr ⟨nofun, ?_⟩
  intro s hs
  rw [← Option.some.inj hs]
  refine ⟨?_, ?_⟩
  · rintro now heq ⟨hgt, -⟩
    cases heq
    revert hgt
    decide
  · intro s hs
    rw [← Option.some.inj hs]
    refine ⟨?_, fun _ _ => trivial⟩
    rintro now heq ⟨-, hlt⟩
    cases heq
    revert hlt
    decide

/-- With a drift of two tenths of a second a client that is to run for two seconds stops its
sessions after 1.2. -/
theorem drift_stops_early :
    ¬ ∀ (clock : Clock) (args : Arguments), 1 ≤ args.timeout → ∀ (c c' : Client)
      (es : List Event), (machine clock args).init c → (machine clock args).run c es = some c' →
      (machine clock args).Throughout (NotEarly clock args) c es := by
  intro h
  have hrun : ∃ c, (machine ⟨10, by decide⟩ ⟨1024, 0, 2⟩).run Client.new [.begin 0, .wake 12] =
      some c ∧ c.stop = true ∧ c.stoppedAt = some 12 ∧ c.started = 0 :=
    ⟨_, rfl, rfl, rfl, rfl⟩
  rcases hrun with ⟨c, hrun, hstop, hstopped, hstarted⟩
  have hearly := Machine.throughout_iff.mp (h ⟨10, by decide⟩ ⟨1024, 0, 2⟩ (by decide) _ c _ rfl hrun)
    _ List.prefix_rfl c hrun
  rcases hearly (Or.inl hstop) with ⟨now, hnow, hle⟩
  rw [hstopped, Option.some.injEq] at hnow
  subst hnow
  rw [hstarted] at hle
  revert hle
  decide

end Waiting

end CppCoroutines.WinRTClient
