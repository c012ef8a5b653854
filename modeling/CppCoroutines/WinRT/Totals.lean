import CppCoroutines.Await.Client
import CppCoroutines.WinRT.Client
import CppCoroutines.Wrapping

/-!
# The totals of the WinRT clients

A session adds what its operations have transferred to two variables of 32 bits, and
`client` adds the variables of all sessions to two of 64 bits. The results of the
operations are arbitrary.
-/

namespace CppCoroutines.WinRTClient

open ClassicClient (Stats)

/-- The pair that a session has returned, if it has. -/
def returned (f : Frame) : Option (UInt32 × UInt32) :=
  match f.point with
  | .finished (.ok totals) => some totals
  | _ => none

namespace Client

/-- What the sessions have written, each of them one operation after another. -/
def written (c : Client) : List (List ℕ) := c.sessions.map fun f => f.locals.written

/-- What they have read. -/
def read (c : Client) : List (List ℕ) := c.sessions.map fun f => f.locals.read

/-- The bytes written by all sessions. -/
def totalWritten (c : Client) : ℕ := (c.written.map List.sum).sum

/-- The bytes read by all sessions. -/
def totalRead (c : Client) : ℕ := (c.read.map List.sum).sum

end Client

/-- The totals that are returned and printed are the sums of what was transferred, which
`size_t` counters for all of it would be too. -/
structure ExactTotals (c : Client) : Prop where
  session : ∀ f ∈ c.sessions, ∀ w r, returned f = some (w, r) →
    w.toNat = f.locals.written.sum ∧ r.toNat = f.locals.read.sum
  client : ∀ totals, c.printed = some totals → totals = (c.totalWritten, c.totalRead)
  sizeT : ∀ totals, c.printed = some totals →
    totals = (Wrapping.count (2 ^ 64) c.written.flatten, Wrapping.count (2 ^ 64) c.read.flatten)

/-! ## One session -/

/-- The two variables count what was transferred, modulo `2^32`. -/
structure Counts (s : Session) : Prop where
  bytesWritten : s.bytesWritten.toNat = Wrapping.count (2 ^ 32) s.written
  bytesRead : s.bytesRead.toNat = Wrapping.count (2 ^ 32) s.read

/-- And they are what a session returns. -/
structure SessionInv (f : Frame) : Prop where
  counts : Counts f.locals
  pair : ∀ totals, returned f = some totals → totals = (f.locals.bytesWritten, f.locals.bytesRead)

section Sessions

variable {s : Session}

theorem counts_new (blockSize : UInt32) : Counts (Session.new blockSize) := ⟨rfl, rfl⟩

theorem Counts.awaiting (h : Counts s) (op : Op) : SessionInv ⟨s, .awaiting op⟩ := ⟨h, nofun⟩

theorem Counts.finish (h : Counts s) (closing : Option Error) :
    SessionInv (s.finish closing) := by
  cases closing with
  | none => exact ⟨h, fun totals htotals => (Option.some.inj htotals).symm⟩
  | some e => exact ⟨h, nofun⟩

theorem Counts.fail (h : Counts s) (e : Error) (closing : Option Error) :
    SessionInv (s.fail e closing) := by
  have h' : Counts { s with cerr := s.cerr ++ [e.line] } := { h with }
  exact h'.finish closing

theorem Counts.loop (h : Counts s) (reply : Reply) : SessionInv (s.loop reply) := by
  unfold Session.loop
  split
  · exact h.awaiting _
  · exact h.finish reply.closing

/-- A write of this many bytes. -/
theorem Counts.wrote (h : Counts s) (count : UInt32) : Counts { s with
    bytesWritten := s.bytesWritten + count
    written := s.written ++ [count.toNat] } where
  bytesWritten := by
    show (s.bytesWritten + count).toNat = Wrapping.count (2 ^ 32) (s.written ++ [count.toNat])
    rw [UInt32.toNat_add, h.bytesWritten, Wrapping.count_append_singleton]
  bytesRead := h.bytesRead

/-- A read of this buffer. -/
theorem Counts.read (h : Counts s) (readData : Buffer) : Counts { s with
    bytesRead := s.bytesRead + readData.length
    buffer := readData
    read := s.read ++ [readData.data.length] } where
  bytesWritten := h.bytesWritten
  bytesRead := by
    have hlength : readData.length.toNat = readData.data.length := by
      refine UInt32.toNat_ofNat_of_lt' (Nat.lt_of_le_of_lt readData.le ?_)
      exact readData.capacity.toNat_lt
    show (s.bytesRead + readData.length).toNat =
      Wrapping.count (2 ^ 32) (s.read ++ [readData.data.length])
    rw [UInt32.toNat_add, h.bytesRead, hlength, Wrapping.count_append_singleton]

/-- A session goes on. -/
theorem session_step_inv {f f' : Frame} {reply : Reply} (h : SessionInv f)
    (hstep : session.step f reply = some f') : SessionInv f' := by
  rcases Coroutine.Program.step_eq_some.mp hstep with ⟨op, s', -, hcomplete, rfl⟩
  have hcounts : Counts f.locals := h.counts
  rcases reply with ⟨io, stop, cancelled, closing⟩
  cases io with
  | connected r =>
      cases op with
      | connectAsync =>
          obtain rfl := Option.some.inj hcomplete
          cases r with
          | ok _ => exact hcounts.loop _
          | error e => exact hcounts.fail e closing
      | writeAsync data => cases hcomplete
      | readAsync count => cases hcomplete
  | wrote r =>
      cases op with
      | connectAsync => cases hcomplete
      | writeAsync data =>
          cases r with
          | ok count =>
              obtain rfl := Option.some.inj hcomplete
              exact (hcounts.wrote count).awaiting _
          | error e =>
              obtain rfl := Option.some.inj hcomplete
              exact hcounts.fail e closing
      | readAsync count => cases hcomplete
  | read r =>
      cases op with
      | connectAsync => cases hcomplete
      | writeAsync data => cases hcomplete
      | readAsync count =>
          cases r with
          | ok readData =>
              obtain rfl := Option.some.inj hcomplete
              exact (hcounts.read readData).loop _
          | error e =>
              obtain rfl := Option.some.inj hcomplete
              exact hcounts.fail e closing

/-- A session that is launched. -/
theorem launched_inv (blockSize : UInt32) (failure : Option Error) :
    SessionInv (launched blockSize failure) := by
  cases failure with
  | none => exact (counts_new blockSize).awaiting _
  | some e => exact ⟨counts_new blockSize, nofun⟩

/-- A session that has returned waits for nothing any more. -/
theorem session_step_of_returned {f : Frame} {totals : UInt32 × UInt32}
    (h : returned f = some totals) (reply : Reply) : session.step f reply = none := by
  unfold returned at h
  unfold Coroutine.Program.step
  cases hpoint : f.point with
  | awaiting op =>
      rw [hpoint] at h
      cases h
  | finished out => rfl

end Sessions

/-! ## The client -/

/-- A total of the client counts what the variables of these sessions count. -/
def Added (total : UInt64) (sessions : List Frame) (bytes : Session → List ℕ) : Prop :=
  total.toNat = Wrapping.count (2 ^ 64)
    (sessions.map fun f => Wrapping.count (2 ^ 32) (bytes f.locals))

/-- The sessions that have been joined have returned, and their pairs have been added up. -/
structure ClientInv (c : Client) : Prop where
  sessions : ∀ f ∈ c.sessions, SessionInv f
  le : c.joined ≤ c.sessions.length
  joined : ∀ f ∈ c.sessions.take c.joined, (returned f).isSome = true
  written : Added c.stats.totalBytesWritten (c.sessions.take c.joined) Session.written
  read : Added c.stats.totalBytesRead (c.sessions.take c.joined) Session.read
  printed : ∀ totals, c.printed = some totals → c.control = .finished ∧
    c.joined = c.sessions.length ∧ totals = c.stats.print

section Clients

variable {clock : Clock} {args : Arguments} {c c' : Client}

theorem clientInv_new : ClientInv Client.new where
  sessions _ hf := nomatch hf
  le := Nat.zero_le _
  joined _ hf := nomatch hf
  written := rfl
  read := rfl
  printed := nofun

/-- Nothing is printed before the end. -/
theorem ClientInv.printed_of_ne (h : ClientInv c) (hcontrol : c.control ≠ .finished)
    (totals : ℕ × ℕ) : c.printed ≠ some totals :=
  fun htotals => hcontrol (h.printed totals htotals).1

/-- A client that has printed nothing goes on, without a change to its sessions and totals. -/
theorem ClientInv.congr (h : ClientInv c) (hcontrol : c.control ≠ .finished)
    (hsessions : c'.sessions = c.sessions) (hjoined : c'.joined = c.joined)
    (hstats : c'.stats = c.stats) (hprinted : c'.printed = c.printed) : ClientInv c' where
  sessions := hsessions ▸ h.sessions
  le := by
    rw [hjoined, hsessions]
    exact h.le
  joined := by
    rw [hjoined, hsessions]
    exact h.joined
  written := by
    rw [hjoined, hsessions, hstats]
    exact h.written
  read := by
    rw [hjoined, hsessions, hstats]
    exact h.read
  printed := by
    intro totals htotals
    rw [hprinted] at htotals
    exact absurd htotals (h.printed_of_ne hcontrol totals)

/-- The sessions change, but for those that are joined. -/
theorem ClientInv.setSessions (h : ClientInv c) {sessions : List Frame}
    (hsessions : ∀ f ∈ sessions, SessionInv f) (hle : c.joined ≤ sessions.length)
    (htake : sessions.take c.joined = c.sessions.take c.joined)
    (hlength : c.control = .finished → sessions.length = c.sessions.length) :
    ClientInv { c with sessions := sessions } where
  sessions := hsessions
  le := hle
  joined := by
    show ∀ f ∈ sessions.take c.joined, _
    rw [htake]
    exact h.joined
  written := by
    show Added _ (sessions.take c.joined) _
    rw [htake]
    exact h.written
  read := by
    show Added _ (sessions.take c.joined) _
    rw [htake]
    exact h.read
  printed := by
    intro totals htotals
    rcases h.printed totals htotals with ⟨hcontrol, hjoined, heq⟩
    exact ⟨hcontrol, hjoined.trans (hlength hcontrol).symm, heq⟩

/-- A session is launched behind those that are joined. -/
theorem ClientInv.launch (h : ClientInv c) {f : Frame} (hf : SessionInv f)
    (hcontrol : c.control = .launching) : ClientInv { c with sessions := c.sessions ++ [f] } := by
  apply h.setSessions
  · intro g hg
    rcases List.mem_append.mp hg with hold | hnew
    · exact h.sessions g hold
    · rw [List.mem_singleton.mp hnew]
      exact hf
  · rw [List.length_append]
    exact Nat.le_add_right_of_le h.le
  · exact List.take_append_of_le_length h.le
  · intro hfinished
    rw [hcontrol] at hfinished
    cases hfinished

/-- A session that goes on has not been joined. -/
theorem ClientInv.joined_le (h : ClientInv c) {i : ℕ} {f f' : Frame} {reply : Reply}
    (hf : c.sessions[i]? = some f) (hstep : session.step f reply = some f') : c.joined ≤ i := by
  by_contra hlt
  rcases List.getElem?_eq_some_iff.mp hf with ⟨hi, hget⟩
  have hmem : f ∈ c.sessions.take c.joined :=
    List.mem_take_iff_getElem.mpr ⟨i, by omega, hget⟩
  rcases Option.isSome_iff_exists.mp (h.joined f hmem) with ⟨totals, htotals⟩
  rw [session_step_of_returned htotals reply] at hstep
  cases hstep

/-- A session goes on. -/
theorem ClientInv.session (h : ClientInv c) {i : ℕ} {f f' : Frame} {reply : Reply}
    (hf : c.sessions[i]? = some f) (hstep : session.step f reply = some f') :
    ClientInv { c with sessions := c.sessions.set i f' } := by
  have hle := h.joined_le hf hstep
  apply h.setSessions
  · intro g hg
    rcases List.mem_or_eq_of_mem_set hg with hold | rfl
    · exact h.sessions g hold
    · exact session_step_inv (h.sessions f (List.mem_of_getElem? hf)) hstep
  · rw [List.length_set]
    exact h.le
  · exact List.take_set_of_le hle
  · exact fun _ => List.length_set

/-- One variable more is added. -/
theorem Added.succ {total : UInt64} {sessions : List Frame} {bytes : Session → List ℕ}
    (h : Added total sessions bytes) {f : Frame} {v : UInt32}
    (hv : v.toNat = Wrapping.count (2 ^ 32) (bytes f.locals)) :
    Added (total + v.toUInt64) (sessions ++ [f]) bytes := by
  unfold Added at h ⊢
  rw [List.map_append, List.map_singleton, Wrapping.count_append_singleton, UInt64.toNat_add,
    UInt32.toNat_toUInt64, h, hv]

/-- A session is joined, and its pair is added to the totals. -/
theorem ClientInv.add (h : ClientInv c) {f : Frame} {w r : UInt32}
    (hcontrol : c.control = .joining) (hf : c.sessions[c.joined]? = some f)
    (hreturned : returned f = some (w, r)) :
    ClientInv { c with stats := c.stats.add w.toUInt64 r.toUInt64, joined := c.joined + 1 } := by
  rcases List.getElem?_eq_some_iff.mp hf with ⟨hlt, hget⟩
  have hinv := h.sessions f (List.mem_of_getElem? hf)
  obtain ⟨rfl, rfl⟩ := Prod.mk.inj (hinv.pair _ hreturned)
  have htake : c.sessions.take (c.joined + 1) = c.sessions.take c.joined ++ [f] := by
    rw [List.take_succ_eq_append_getElem hlt, hget]
  constructor
  · exact h.sessions
  · exact hlt
  · show ∀ g ∈ c.sessions.take (c.joined + 1), _
    rw [htake]
    intro g hg
    rcases List.mem_append.mp hg with hold | hnew
    · exact h.joined g hold
    · rw [List.mem_singleton.mp hnew, hreturned]
      rfl
  · show Added _ (c.sessions.take (c.joined + 1)) _
    rw [htake]
    exact h.written.succ hinv.counts.bytesWritten
  · show Added _ (c.sessions.take (c.joined + 1)) _
    rw [htake]
    exact h.read.succ hinv.counts.bytesRead
  · intro totals htotals
    exact absurd htotals (h.printed_of_ne (by simp [hcontrol]) totals)

/-- The loop that joins the sessions goes round. -/
theorem ClientInv.join (h : ClientInv c) (hcontrol : c.control = .joining)
    (hjoin : c.join = some c') : ClientInv c' := by
  unfold Client.join at hjoin
  split at hjoin
  · rename_i hnone
    rw [← Option.some.inj hjoin]
    have hlength : c.joined = c.sessions.length :=
      Nat.le_antisymm h.le (List.getElem?_eq_none_iff.mp hnone)
    exact { h with printed := fun totals htotals => ⟨rfl, hlength, (Option.some.inj htotals).symm⟩ }
  · rename_i f hf
    split at hjoin
    · cases hjoin
    · rename_i w r hpoint
      rw [← Option.some.inj hjoin]
      have hreturned : returned f = some (w, r) := by
        unfold returned
        rw [hpoint]
      exact h.add hcontrol hf hreturned
    · rw [← Option.some.inj hjoin]
      exact h.congr (by simp [hcontrol]) rfl rfl rfl rfl

theorem step_clientInv {e : Event} (h : ClientInv c)
    (hstep : Client.step clock args c e = some c') : ClientInv c' := by
  cases e with
  | launch failure =>
      rcases Option.ite_none_right_eq_some.mp hstep with ⟨⟨hcontrol, -⟩, heq⟩
      rw [← Option.some.inj heq]
      exact h.launch (launched_inv args.blockSize failure) hcontrol
  | begin now =>
      rcases Option.ite_none_right_eq_some.mp hstep with ⟨⟨hcontrol, -⟩, heq⟩
      rw [← Option.some.inj heq]
      exact h.congr (by simp [hcontrol]) rfl rfl rfl rfl
  | wake now =>
      rcases Option.ite_none_right_eq_some.mp hstep with ⟨⟨hcontrol, -⟩, heq⟩
      rw [← Option.some.inj heq]
      unfold Client.wake
      split
      · exact h.congr (by simp [hcontrol]) rfl rfl rfl rfl
      · exact h.congr (by simp [hcontrol]) rfl rfl rfl rfl
  | session i io cancelled closing =>
      rcases Option.bind_eq_some_iff.mp hstep with ⟨f, hf, hmap⟩
      rcases Option.map_eq_some_iff.mp hmap with ⟨f', hf', rfl⟩
      exact h.session hf hf'
  | join =>
      rcases Option.ite_none_right_eq_some.mp hstep with ⟨hcontrol, hjoin⟩
      exact h.join hcontrol hjoin

theorem clientInv_reachable (hc : (machine clock args).Reachable c) : ClientInv c := by
  induction hc with
  | init hinit =>
      obtain rfl : _ = Client.new := hinit
      exact clientInv_new
  | step _ _ hstep ih => exact step_clientInv ih hstep

/-! ## When the totals are exact -/

/-- What a session returns is the sum as long as that fits into 32 bits. -/
theorem SessionInv.exact_iff {f : Frame} (h : SessionInv f) {w r : UInt32}
    (hreturned : returned f = some (w, r)) :
    (w.toNat = f.locals.written.sum ∧ r.toNat = f.locals.read.sum) ↔
      f.locals.written.sum < 2 ^ 32 ∧ f.locals.read.sum < 2 ^ 32 := by
  obtain ⟨rfl, rfl⟩ := Prod.mk.inj (h.pair _ hreturned)
  have hpos : 0 < 2 ^ 32 := by decide
  rw [h.counts.bytesWritten, h.counts.bytesRead, Wrapping.count_eq_sum_iff hpos,
    Wrapping.count_eq_sum_iff hpos]

/-- A total of the client is exact where the sessions' are. -/
theorem Added.eq_sum {total : UInt64} {sessions : List Frame} {bytes : Session → List ℕ}
    (h : Added total sessions bytes)
    (hlt : ((sessions.map fun f => bytes f.locals).map List.sum).sum < 2 ^ 64)
    (hsmall : ∀ f ∈ sessions, (bytes f.locals).sum < 2 ^ 32) :
    total.toNat = ((sessions.map fun f => bytes f.locals).map List.sum).sum := by
  have hpos : 0 < 2 ^ 32 := by decide
  have hparts : ∀ p ∈ sessions.map fun f => bytes f.locals, p.sum < 2 ^ 32 := by
    intro p hp
    rcases List.mem_map.mp hp with ⟨f, hf, rfl⟩
    exact hsmall f hf
  rw [← (Wrapping.count_map_count_eq_iff hpos hlt).mpr hparts, List.map_map]
  exact h

/-- One `size_t` counter for everything is exact. -/
theorem count_flatten_eq_sum {parts : List (List ℕ)} (hlt : (parts.map List.sum).sum < 2 ^ 64) :
    Wrapping.count (2 ^ 64) parts.flatten = (parts.map List.sum).sum := by
  rw [← List.sum_flatten] at hlt ⊢
  exact (Wrapping.count_eq_sum_iff (by decide)).mpr hlt

/-- For every block size, number of sessions and run that transfers less than `2^64` bytes,
with any results of the operations: the totals are exact if and only if each session that has
returned has written less than `2^32` bytes and read less than `2^32`. -/
theorem totals_exact_iff (hc : (machine clock args).Reachable c) (hwritten : c.totalWritten < 2 ^ 64)
    (hread : c.totalRead < 2 ^ 64) :
    ExactTotals c ↔ ∀ f ∈ c.sessions, (returned f).isSome = true →
      f.locals.written.sum < 2 ^ 32 ∧ f.locals.read.sum < 2 ^ 32 := by
  have h := clientInv_reachable hc
  constructor
  · intro hexact f hf hreturned
    rcases Option.isSome_iff_exists.mp hreturned with ⟨⟨w, r⟩, hpair⟩
    exact ((h.sessions f hf).exact_iff hpair).mp (hexact.session f hf w r hpair)
  · intro hsmall
    -- the totals are printed when all sessions have been joined
    have htotals : ∀ totals, c.printed = some totals → totals = (c.totalWritten, c.totalRead) := by
      intro totals hprinted
      rcases h.printed totals hprinted with ⟨-, hjoined, rfl⟩
      have htake : c.sessions.take c.joined = c.sessions := by
        rw [hjoined, List.take_length]
      have hall : ∀ f ∈ c.sessions, f.locals.written.sum < 2 ^ 32 ∧ f.locals.read.sum < 2 ^ 32 := by
        intro f hf
        have hjoined := h.joined f (by rw [htake]; exact hf)
        exact hsmall f hf hjoined
      have hw := h.written
      have hr := h.read
      rw [htake] at hw hr
      have hsumw := hw.eq_sum hwritten fun f hf => (hall f hf).1
      have hsumr := hr.eq_sum hread fun f hf => (hall f hf).2
      exact Prod.ext hsumw hsumr
    constructor
    · intro f hf w r hpair
      refine ((h.sessions f hf).exact_iff hpair).mpr (hsmall f hf ?_)
      rw [hpair]
      rfl
    · exact htotals
    · intro totals hprinted
      rw [htotals totals hprinted, count_flatten_eq_sum hwritten, count_flatten_eq_sum hread]
      rfl

/-- One session writes 1024 bytes and reads two. -/
theorem totals_exact_iff_small :
    ∃ c, (machine ⟨10, by decide⟩ ⟨1024, 1, 1⟩).Reachable c ∧ c.printed = some (1024, 2) ∧
      ExactTotals c := by
  have hrun : ∃ c, (machine ⟨10, by decide⟩ ⟨1024, 1, 1⟩).run Client.new
      [.launch none, .begin 0, .session 0 (.connected (.ok ())) false none,
        .session 0 (.wrote (.ok 1024)) false none, .wake 10,
        .session 0 (.read (.ok ⟨1024, [65, 66], by decide⟩)) false none, .join, .join] = some c ∧
      c.printed = some (1024, 2) ∧ c.written = [[1024]] ∧ c.read = [[2]] :=
    ⟨_, rfl, rfl, rfl, rfl⟩
  rcases hrun with ⟨c, hrun, hprinted, hwritten, hread⟩
  have hstart : (machine ⟨10, by decide⟩ ⟨1024, 1, 1⟩).Reachable Client.new :=
    Machine.Reachable.init rfl
  have hc := hstart.run hrun
  have hw : c.totalWritten = 1024 := by rw [Client.totalWritten, hwritten]; rfl
  have hr : c.totalRead = 2 := by rw [Client.totalRead, hread]; rfl
  refine ⟨c, hc, hprinted, (totals_exact_iff hc (by omega) (by omega)).mpr ?_⟩
  intro f hf _
  have hfw : f.locals.written ∈ c.written := List.mem_map_of_mem hf
  have hfr : f.locals.read ∈ c.read := List.mem_map_of_mem hf
  rw [hwritten, List.mem_singleton] at hfw
  rw [hread, List.mem_singleton] at hfr
  rw [hfw, hfr]
  decide

/-- Four rounds of `n` bytes, with any block size and any buffer that is read. -/
theorem run_four_rounds (blockSize n : UInt32) (b : Buffer) :
    ∃ c, (machine ⟨10, by decide⟩ ⟨blockSize, 1, 1⟩).run Client.new
        [.launch none, .begin 0, .session 0 (.connected (.ok ())) false none,
          .session 0 (.wrote (.ok n)) false none, .session 0 (.read (.ok b)) false none,
          .session 0 (.wrote (.ok n)) false none, .session 0 (.read (.ok b)) false none,
          .session 0 (.wrote (.ok n)) false none, .session 0 (.read (.ok b)) false none,
          .session 0 (.wrote (.ok n)) false none, .wake 10,
          .session 0 (.read (.ok b)) false none, .join, .join] = some c ∧
      c.printed = some (Stats.new.add (0 + n + n + n + n).toUInt64
        (0 + b.length + b.length + b.length + b.length).toUInt64).print ∧
      c.written = [[n.toNat, n.toNat, n.toNat, n.toNat]] ∧
      c.read = [[b.data.length, b.data.length, b.data.length, b.data.length]] :=
  ⟨_, rfl, rfl, rfl, rfl⟩

/-- A session with blocks of `2^30` bytes that makes four rounds has written `2^32` bytes; the
client prints 0. -/
theorem printed_zero :
    ¬ ∀ (clock : Clock) (args : Arguments) (c : Client), (machine clock args).Reachable c →
      c.totalWritten < 2 ^ 64 → c.totalRead < 2 ^ 64 → ExactTotals c := by
  intro h
  have hfull : (List.replicate 1073741824 (65 : Byte)).length ≤ (1073741824 : UInt32).toNat := by
    rw [List.length_replicate]
    decide
  rcases run_four_rounds 1073741824 1073741824 ⟨_, _, hfull⟩ with
    ⟨c, hrun, hprinted, hwritten, hread⟩
  have hstart : (machine ⟨10, by decide⟩ ⟨1073741824, 1, 1⟩).Reachable Client.new :=
    Machine.Reachable.init rfl
  have hw : c.totalWritten = 4294967296 := by
    rw [Client.totalWritten, hwritten]
    decide
  have hr : c.totalRead = 4294967296 := by
    rw [Client.totalRead, hread, List.length_replicate]
    decide
  have hexact := h _ _ c (hstart.run hrun) (by omega) (by omega)
  -- the four additions have wrapped around
  have hzero : (0 + 1073741824 + 1073741824 + 1073741824 + 1073741824 : UInt32) = 0 := by decide
  have htotals := (Prod.ext_iff.mp (hexact.client _ hprinted)).1
  rw [hw, hzero] at htotals
  have hprint : 0 = 4294967296 := htotals
  omega

end Clients

/-! ## `size_t` counters -/

/-- The totals that `classic_client.cpp` prints are `size_t` counters for all of its sessions. -/
theorem classic_totals {n : ℕ} {d : ClassicClient.Client n}
    (hd : (ClassicClient.clientMachine n).Reachable d) :
    d.destruct = (Wrapping.count (2 ^ 64) (d.sessions.map fun s => s.written).flatten,
      Wrapping.count (2 ^ 64) (d.sessions.map fun s => s.received.map List.length).flatten) := by
  have h : ClassicClient.ClientInv d := (ClassicClient.client_inductive_inv n).reachable hd
  rw [h.destruct_eq, Wrapping.count_eq_sum_mod, Wrapping.count_eq_sum_mod, List.sum_flatten,
    List.sum_flatten, List.map_map, List.map_map]
  rfl

/-- The totals of a session of `client.cpp` are `size_t` counters. -/
theorem await_totals {n : ℕ} {f : AwaitClient.Frame n}
    (hf : (AwaitClient.machine n).Reachable f) :
    f.locals.bytesWritten.toNat = Wrapping.count (2 ^ 64) f.locals.written ∧
      f.locals.bytesRead.toNat = Wrapping.count (2 ^ 64) (f.locals.received.map List.length) := by
  have h : AwaitClient.Inv f := (AwaitClient.inductive_inv n).reachable hf
  rw [h.history.bytesWritten, h.history.bytesRead, Wrapping.count_eq_sum_mod,
    Wrapping.count_eq_sum_mod]
  exact ⟨rfl, rfl⟩

end CppCoroutines.WinRTClient
