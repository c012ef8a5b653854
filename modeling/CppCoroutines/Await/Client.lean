import CppCoroutines.Await.Adapters
import CppCoroutines.Classic.Client
import Mathlib.Algebra.Order.BigOperators.Group.List
import Mathlib.Algebra.Order.Ring.Nat

/-!
# The coroutine client session

`session` of `client.cpp`: connect, then write and read in turns until `stop` is
set. The chunk that was read is swapped into the write buffer, but its length is
not: every write sends the whole block. The main result says in which runs that
is what the classic client would have sent.
-/

namespace CppCoroutines.AwaitClient

/-- The local variables of `session`, what it printed, and the history of its operations. -/
structure Session (n : ℕ) where
  readData : Block n
  writeData : Block n
  bytesWritten : UInt64
  bytesRead : UInt64
  socketOpen : Bool
  cerr : List LogLine
  /-- history: the chunks successfully read -/
  received : List (List Byte)
  /-- history: what each `async_write` was given -/
  issued : List Packet
  /-- history: the lengths of the writes that completed successfully -/
  written : List ℕ

/-- The completion of an operation, and the value of `stop` if the loop tests it next. -/
structure Reply where
  io : SessionReply
  stop : Bool
deriving DecidableEq, Repr

/-- A frame of the session; the promise is set to the two totals. -/
abbrev Frame (n : ℕ) := Coroutine.Frame (Session n) SessionOp (Outcome (UInt64 × UInt64))

namespace Session

variable {n : ℕ}

/-- The variables before the connection; the loop that fills `write_data` is the one of
the classic client. -/
def new : Session n where
  readData := Block.zero n
  writeData := ClassicClient.initialBlock n
  bytesWritten := 0
  bytesRead := 0
  socketOpen := true
  cerr := []
  received := []
  issued := []
  written := []

def print (s : Session n) (lines : List LogLine) : Session n := { s with cerr := s.cerr ++ lines }

/-- `socket.close()` and `co_return`. -/
def finish (s : Session n) : Frame n :=
  ⟨{ s with socketOpen := false }, .finished (.value (s.bytesWritten, s.bytesRead))⟩

/-- The `catch` clause, then the end of the coroutine. -/
def fail (s : Session n) (e : Thrown) : Frame n := (s.print [⟨"Exception: ", e⟩]).finish

/-- `while (!stop)`: write the block or leave. -/
def loop (s : Session n) (stop : Bool) : Frame n :=
  if stop = true then s.finish
  else ⟨{ s with issued := s.issued ++ [⟨s.writeData.front n, n⟩] }, .awaiting (.write n)⟩

/-- What Asio does with the buffers when an operation completes. -/
def complete (s : Session n) : SessionOp → Reply → Option (Session n)
  | .connect, ⟨.connected _, _⟩ => some s
  | .readSome, ⟨.read none chunk, _⟩ =>
      if chunk.length ≤ n then
        some { s with readData := s.readData.store chunk, received := s.received ++ [chunk] }
      else none
  | .readSome, ⟨.read (some _) [], _⟩ => some s
  | .write length, ⟨.wrote none transferred, _⟩ =>
      if transferred = length then some { s with written := s.written ++ [transferred] } else none
  | .write length, ⟨.wrote (some _) transferred, _⟩ =>
      if transferred ≤ length then some s else none
  | _, _ => none

/-- The body of the coroutine, from one `co_await` to the next. -/
def resume (s : Session n) : SessionOp → Reply → Frame n
  | .connect, ⟨.connected err, stop⟩ =>
      match awaitDone err with
      | .ok _ => s.loop stop
      | .error e => s.fail e
  | .write _, ⟨.wrote err transferred, _⟩ =>
      let s := s.print (awaitWrite err transferred).1
      match (awaitWrite err transferred).2 with
      | .ok count =>
          ⟨{ s with bytesWritten := s.bytesWritten + UInt64.ofNat count }, .awaiting .readSome⟩
      | .error e => s.fail e
  | .readSome, ⟨.read err chunk, stop⟩ =>
      let s := s.print (awaitReadSome err chunk.length).1
      match (awaitReadSome err chunk.length).2 with
      | .ok count =>
          let s := { s with bytesRead := s.bytesRead + UInt64.ofNat count }
          -- swap the buffers
          loop { s with readData := s.writeData, writeData := s.readData } stop
      | .error e => s.fail e
  | op, _ => ⟨s, .awaiting op⟩

end Session

/-- `session` of `client.cpp`. -/
def session (n : ℕ) :
    Coroutine.Program (Session n) SessionOp Reply (Outcome (UInt64 × UInt64)) where
  complete := Session.complete
  resume := Session.resume

/-- One session, from its first suspension on. -/
def machine (n : ℕ) : Machine (Frame n) Reply :=
  (session n).machine fun f => f = ⟨Session.new, .awaiting .connect⟩

/-! ## The invariant -/

/-- What the operations so far say about the point where the session stands. -/
def Phase {n : ℕ} (s : Session n) : Coroutine.Point SessionOp (Outcome (UInt64 × UInt64)) → Prop
  | .awaiting .connect => s.cerr = [] ∧ s.issued = [] ∧ s.received = [] ∧ s.written = [] ∧
      s.writeData = ClassicClient.initialBlock n
  | .awaiting (.write length) => s.cerr = [] ∧ length = n ∧
      s.issued.length = s.received.length + 1 ∧ s.written.length = s.received.length
  | .awaiting .readSome => s.cerr = [] ∧
      s.issued.length = s.received.length + 1 ∧ s.written.length = s.received.length + 1
  | .finished out => out = .value (s.bytesWritten, s.bytesRead) ∧
      (s.cerr = [] →
        s.issued.length = s.received.length ∧ s.written.length = s.received.length)

/-- Every write is of the whole block, and carries the chunk before it if that filled the
block. -/
structure History {n : ℕ} (s : Session n) : Prop where
  bytesWritten : s.bytesWritten = UInt64.ofNat s.written.sum
  bytesRead : s.bytesRead = UInt64.ofNat (s.received.map List.length).sum
  written : ∀ length ∈ s.written, length = n
  received : ∀ chunk ∈ s.received, chunk.length ≤ n
  lengths : ∀ p ∈ s.issued, p.length = n
  first : ∀ p, s.issued[0]? = some p → p = Packet.ofChunk (ClassicClient.initialBlock n).bytes
  later : ∀ i chunk p, s.received[i]? = some chunk → s.issued[i + 1]? = some p →
    chunk.length = n → p = Packet.ofChunk chunk

structure Inv {n : ℕ} (f : Frame n) : Prop where
  history : History f.locals
  phase : Phase f.locals f.point

variable {n : ℕ} {s : Session n}

theorem init_inv : Inv (⟨Session.new, .awaiting .connect⟩ : Frame n) where
  history :=
    { bytesWritten := rfl, bytesRead := rfl, written := nofun, received := nofun,
      lengths := nofun, first := nofun, later := nofun }
  phase := ⟨rfl, rfl, rfl, rfl, rfl⟩

/-- An exception leaves a line behind and ends the session. -/
theorem History.fail (h : History s) (e : Thrown) : Inv (s.fail e) := by
  constructor
  · exact { h with }
  · constructor
    · exact rfl
    · intro hnil
      simp [Session.fail, Session.finish, Session.print] at hnil

/-- The head of the loop: what the write buffer holds is what the next write carries. -/
theorem History.loop (h : History s) (hcerr : s.cerr = [])
    (hissued : s.issued.length = s.received.length) (hwritten : s.written.length = s.received.length)
    (hfirst : s.received = [] → s.writeData = ClassicClient.initialBlock n)
    (hlast : ∀ chunk, s.received.getLast? = some chunk → chunk.length = n →
      s.writeData.bytes = chunk) (stop : Bool) :
    Inv (s.loop stop) := by
  unfold Session.loop
  by_cases hstop : stop = true
  · rw [if_pos hstop]
    constructor
    · exact { h with }
    · exact ⟨rfl, fun _ => ⟨hissued, hwritten⟩⟩
  · rw [if_neg hstop]
    constructor
    · refine { h with lengths := ?_, first := ?_, later := ?_ }
      · intro p hp
        rcases List.mem_append.mp hp with hold | hnew
        · exact h.lengths p hold
        · rw [List.mem_singleton.mp hnew]
      · intro p hp
        have hp' : (s.issued ++ [⟨s.writeData.front n, n⟩])[0]? = some p := hp
        cases hnil : s.issued with
        | nil =>
            -- the first write
            have hreceived : s.received = [] := by
              rw [hnil] at hissued
              exact List.length_eq_zero_iff.mp hissued.symm
            rw [hnil] at hp'
            rw [← Option.some.inj hp', ← Packet.ofChunk_bytes, hfirst hreceived]
        | cons p' rest =>
            rw [hnil] at hp'
            apply h.first
            rw [hnil]
            exact hp'
      · intro i chunk p hchunk hp hlength
        have hp' : (s.issued ++ [⟨s.writeData.front n, n⟩])[i + 1]? = some p := hp
        rcases Nat.lt_or_ge (i + 1) s.issued.length with hlt | hge
        · rw [List.getElem?_append_left hlt] at hp'
          exact h.later i chunk p hchunk hp' hlength
        · -- the write that follows the chunk read last
          rcases List.getElem?_eq_some_iff.mp hchunk with ⟨hi, -⟩
          have hi' : i < s.received.length := hi
          have hindex : i = s.received.length - 1 := by omega
          have hzero : i + 1 - s.issued.length = 0 := by omega
          rw [List.getElem?_append_right hge, hzero] at hp'
          have hlast' : s.received.getLast? = some chunk := by
            rw [List.getLast?_eq_getElem?, ← hindex]
            exact hchunk
          rw [← Option.some.inj hp', ← Packet.ofChunk_bytes, hlast chunk hlast' hlength]
    · refine ⟨hcerr, rfl, ?_, hwritten⟩
      rw [List.length_append, hissued, List.length_singleton]

/-! ## One completion -/

theorem History.print (h : History s) (lines : List LogLine) : History (s.print lines) :=
  { h with }

/-- A write of the whole block completes, and the read starts. -/
theorem History.wrote (h : History s) (hphase : Phase s (.awaiting (.write n))) (stop : Bool) :
    Inv ((session n).resume { s with written := s.written ++ [n] } (.write n)
      ⟨.wrote none n, stop⟩) := by
  rcases hphase with ⟨hcerr, -, hissued, hwritten⟩
  constructor
  · refine { h with bytesWritten := ?_, written := ?_ }
    · show s.bytesWritten + UInt64.ofNat n = UInt64.ofNat (s.written ++ [n]).sum
      rw [ofNat_sum_append, h.bytesWritten]
    · intro length hlength
      rcases List.mem_append.mp hlength with hold | hnew
      · exact h.written length hold
      · exact List.mem_singleton.mp hnew
  · refine ⟨?_, hissued, ?_⟩
    · show s.cerr ++ [] = []
      rw [hcerr, List.append_nil]
    · show (s.written ++ [n]).length = s.received.length + 1
      rw [List.length_append, hwritten, List.length_singleton]

/-- A read completes, the buffers are swapped, and the loop goes on or ends. -/
theorem History.read (h : History s) (hphase : Phase s (.awaiting .readSome)) {chunk : List Byte}
    (hchunk : chunk.length ≤ n) (stop : Bool) :
    Inv ((session n).resume
      { s with readData := s.readData.store chunk, received := s.received ++ [chunk] } .readSome
      ⟨.read none chunk, stop⟩) := by
  rcases hphase with ⟨hcerr, hissued, hwritten⟩
  have hlength : (s.received ++ [chunk]).length = s.received.length + 1 := by
    rw [List.length_append, List.length_singleton]
  -- what the session has become when it reaches the head of the loop
  have hhistory : History
      { s with
        readData := s.writeData
        writeData := s.readData.store chunk
        bytesRead := s.bytesRead + UInt64.ofNat chunk.length
        cerr := s.cerr ++ []
        received := s.received ++ [chunk] } := by
    refine { h with bytesRead := ?_, received := ?_, later := ?_ }
    · show s.bytesRead + UInt64.ofNat chunk.length =
        UInt64.ofNat ((s.received ++ [chunk]).map List.length).sum
      rw [List.map_append, List.map_singleton, ofNat_sum_append, h.bytesRead]
    · intro c hc
      rcases List.mem_append.mp hc with hold | hnew
      · exact h.received c hold
      · rw [List.mem_singleton.mp hnew]
        exact hchunk
    · intro i c p hc hp hfull
      -- no write has followed the new chunk yet
      rcases List.getElem?_eq_some_iff.mp hp with ⟨hi, -⟩
      have hi' : i < s.received.length := by
        have hlt : i + 1 < s.issued.length := hi
        omega
      have hc' : (s.received ++ [chunk])[i]? = some c := hc
      rw [List.getElem?_append_left hi'] at hc'
      exact h.later i c p hc' hp hfull
  apply hhistory.loop
  · show s.cerr ++ [] = []
    rw [hcerr, List.append_nil]
  · exact hissued.trans hlength.symm
  · exact hwritten.trans hlength.symm
  · intro hnil
    exact absurd hnil (List.append_ne_nil_of_right_ne_nil _ (List.cons_ne_nil chunk []))
  · intro c hc hfull
    have hc' : (s.received ++ [chunk]).getLast? = some c := hc
    rw [List.getLast?_concat] at hc'
    rw [← Option.some.inj hc'] at hfull ⊢
    exact s.readData.bytes_store_of_length hfull

theorem resume_inv (s : Session n) (op : SessionOp) (reply : Reply) (s' : Session n)
    (h : Inv ⟨s, .awaiting op⟩) (hcomplete : (session n).complete s op reply = some s') :
    Inv ((session n).resume s' op reply) := by
  rcases h with ⟨hhistory, hphase⟩
  rcases reply with ⟨io, stop⟩
  cases op with
  | connect =>
      rcases io with err | _ | _
      · rw [← Option.some.inj hcomplete]
        cases err with
        | none =>
            rcases hphase with ⟨hcerr, hissued, hreceived, hwritten, hblock⟩
            apply History.loop hhistory hcerr
            · rw [hissued, hreceived]
              rfl
            · rw [hwritten, hreceived]
              rfl
            · exact fun _ => hblock
            · intro chunk hchunk
              rw [hreceived] at hchunk
              cases hchunk
        | some err => exact hhistory.fail _
      · cases hcomplete
      · cases hcomplete
  | readSome =>
      rcases io with _ | ⟨err, chunk⟩ | _
      · cases hcomplete
      · cases err with
        | none =>
            rcases Option.ite_none_right_eq_some.mp hcomplete with ⟨hchunk, heq⟩
            rw [← Option.some.inj heq]
            exact hhistory.read hphase hchunk stop
        | some err =>
            cases chunk with
            | nil =>
                rw [← Option.some.inj hcomplete]
                exact (hhistory.print _).fail _
            | cons b bytes => cases hcomplete
      · cases hcomplete
  | write length =>
      rcases io with _ | _ | ⟨err, transferred⟩
      · cases hcomplete
      · cases hcomplete
      · rcases hphase with ⟨hcerr, rfl, hissued, hwritten⟩
        cases err with
        | none =>
            rcases Option.ite_none_right_eq_some.mp hcomplete with ⟨rfl, heq⟩
            rw [← Option.some.inj heq]
            exact hhistory.wrote ⟨hcerr, rfl, hissued, hwritten⟩ stop
        | some err =>
            rcases Option.ite_none_right_eq_some.mp hcomplete with ⟨-, heq⟩
            rw [← Option.some.inj heq]
            exact (hhistory.print _).fail _

theorem inductive_inv (n : ℕ) : (machine n).Inductive Inv := by
  apply Coroutine.Program.inductive_of_resume
  · intro f hf
    rw [hf]
    exact init_inv
  · exact resume_inv

/-! ## What the session sends back -/

/-- The chunks that another write has followed: all that were read, but for the last one
once the session has returned. -/
def followed (f : Frame n) : List (List Byte) :=
  match f.point with
  | .awaiting _ => f.locals.received
  | .finished _ => f.locals.received.dropLast

/-- The session sends back what it received, as the classic client does, in one state. -/
structure SendsBack (f : Frame n) : Prop where
  first : ∀ p, f.locals.issued[0]? = some p → p = Packet.ofChunk (ClassicClient.initialBlock n).bytes
  /-- every later write carries the content and the length of the chunk before it -/
  later : ∀ i p, f.locals.issued[i + 1]? = some p →
    ∃ chunk, f.locals.received[i]? = some chunk ∧ p = Packet.ofChunk chunk
  written_le : f.locals.written.sum ≤ n + (f.locals.received.map List.length).sum
  /-- the two variables count these sums modulo `2^64` -/
  bytesWritten : f.locals.bytesWritten = UInt64.ofNat f.locals.written.sum
  bytesRead : f.locals.bytesRead = UInt64.ofNat (f.locals.received.map List.length).sum
  /-- the totals returned are these, and differ by at most a block -/
  totals : ∀ out, f.point = .finished out →
    out = .value (f.locals.bytesWritten, f.locals.bytesRead) ∧
      f.locals.written.sum ≤ (f.locals.received.map List.length).sum + n ∧
      (f.locals.received.map List.length).sum ≤ f.locals.written.sum + n

/-- Without errors there is at most one write more than chunks, none once the session has
returned, and at most the last write has not completed. -/
theorem Inv.counts {f : Frame n} (h : Inv f) (hcerr : f.locals.cerr = []) :
    f.locals.issued.length ≤ f.locals.received.length + 1 ∧
      f.locals.written.length ≤ f.locals.issued.length ∧
      (∀ out, f.point = .finished out →
        f.locals.written.length = f.locals.received.length) := by
  rcases f with ⟨s, point⟩
  have hphase : Phase s point := h.phase
  rcases point with op | out
  · rcases op with _ | _ | length
    · rcases hphase with ⟨-, hissued, hreceived, hwritten, -⟩
      simp [hissued, hreceived, hwritten]
    · rcases hphase with ⟨-, hissued, hwritten⟩
      exact ⟨Nat.le_of_eq hissued, Nat.le_of_eq (hwritten.trans hissued.symm), nofun⟩
    · rcases hphase with ⟨-, -, hissued, hwritten⟩
      refine ⟨Nat.le_of_eq hissued, ?_, nofun⟩
      rw [hwritten, hissued]
      exact Nat.le_succ _
  · rcases hphase.2 hcerr with ⟨hissued, hwritten⟩
    refine ⟨?_, ?_, fun _ _ => hwritten⟩
    · rw [hissued]
      exact Nat.le_succ _
    · rw [hissued, hwritten]

/-- Without errors, the chunks followed by a write are those before the last write. -/
theorem Inv.followed_eq {f : Frame n} (h : Inv f) (hcerr : f.locals.cerr = []) :
    followed f = f.locals.received.take (f.locals.issued.length - 1) := by
  rcases f with ⟨s, point⟩
  have hphase : Phase s point := h.phase
  rcases point with op | out
  · rcases op with _ | _ | length
    · rcases hphase with ⟨-, -, hreceived, -, -⟩
      simp [followed, hreceived]
    · rcases hphase with ⟨-, hissued, -⟩
      simp [followed, hissued]
    · rcases hphase with ⟨-, -, hissued, -⟩
      simp [followed, hissued]
  · rcases hphase.2 hcerr with ⟨hissued, -⟩
    simp [followed, hissued, List.dropLast_eq_take]

/-- The bytes written are whole blocks. -/
theorem History.sum_written (h : History s) : s.written.sum = s.written.length * n := by
  simpa using List.sum_eq_card_nsmul s.written n h.written

/-- The bytes read are at most as many whole blocks as chunks. -/
theorem History.sum_received_le (h : History s) :
    (s.received.map List.length).sum ≤ s.received.length * n := by
  simpa using List.sum_le_card_nsmul (s.received.map List.length) n (by simpa using h.received)

/-- Chunks that fill the block count as many bytes as blocks. -/
theorem le_sum_received {received : List (List Byte)} {k : ℕ} (hk : k ≤ received.length)
    (hfull : ∀ chunk ∈ received.take k, chunk.length = n) :
    k * n ≤ (received.map List.length).sum := by
  have hsum : ((received.take k).map List.length).sum = k * n := by
    have hlengths : ∀ length ∈ (received.take k).map List.length, length = n := by
      intro length hlength
      rcases List.mem_map.mp hlength with ⟨chunk, hchunk, rfl⟩
      exact hfull chunk hchunk
    have hcard := List.sum_eq_card_nsmul _ n hlengths
    rw [List.length_map, List.length_take_of_le hk] at hcard
    exact hcard
  conv_rhs => rw [← List.take_append_drop k received, List.map_append, List.sum_append]
  rw [← hsum]
  exact Nat.le_add_right _ _

/-- In every state of every run without errors, the session has sent back what it received
exactly when every chunk that a write has followed fills the whole block. -/
theorem sends_back_iff (n : ℕ) (f : Frame n) (hf : (machine n).Reachable f)
    (hok : f.locals.cerr = []) :
    SendsBack f ↔ ∀ chunk ∈ followed f, chunk.length = n := by
  have h : Inv f := (inductive_inv n).reachable hf
  rcases h.counts hok with ⟨hissued, hwritten, hfinished⟩
  rw [h.followed_eq hok]
  constructor
  · intro hback chunk hchunk
    rcases List.mem_take_iff_getElem.mp hchunk with ⟨i, hi, rfl⟩
    -- the write that followed the chunk is of the whole block
    have hlt : i + 1 < f.locals.issued.length := by omega
    have hp := List.getElem?_eq_getElem hlt
    rcases hback.later i _ hp with ⟨chunk, hchunk', heq⟩
    have hlength := h.history.lengths _ (List.getElem_mem hlt)
    rw [List.getElem?_eq_getElem (by omega), Option.some.injEq] at hchunk'
    rw [heq] at hlength
    rw [hchunk']
    exact hlength
  · intro hfull
    have hle : (f.locals.issued.length - 1) * n ≤ (f.locals.received.map List.length).sum :=
      le_sum_received (by omega) hfull
    have hsum := h.history.sum_written
    have hblocks : f.locals.written.sum ≤ n + (f.locals.received.map List.length).sum := by
      have hmul : f.locals.written.length * n ≤ (f.locals.issued.length - 1 + 1) * n :=
        Nat.mul_le_mul_right n (by omega)
      rw [Nat.succ_mul] at hmul
      omega
    refine
      { first := h.history.first, later := ?_, written_le := hblocks,
        bytesWritten := h.history.bytesWritten, bytesRead := h.history.bytesRead, totals := ?_ }
    · intro i p hp
      rcases List.getElem?_eq_some_iff.mp hp with ⟨hlt, -⟩
      have hi : i < f.locals.received.length := by omega
      have hchunk := List.getElem?_eq_getElem hi
      refine ⟨f.locals.received[i], hchunk, h.history.later i _ p hchunk hp ?_⟩
      apply hfull
      exact List.mem_take_iff_getElem.mpr ⟨i, by omega, rfl⟩
    · intro out hout
      have hphase := h.phase
      rw [hout] at hphase
      refine ⟨hphase.1, by omega, ?_⟩
      have hread := h.history.sum_received_le
      rw [hsum, hfinished out hout]
      exact Nat.le_trans hread (Nat.le_add_right _ _)

/-- A run of two rounds that ends with a short chunk. -/
theorem sends_back_iff_short_last :
    ∃ f : Frame 2, (machine 2).Reachable f ∧ f.locals.cerr = [] ∧
      f.locals.received = [[8, 9], [7]] ∧ SendsBack f := by
  have hrun : ∃ f : Frame 2, (machine 2).run ⟨Session.new, .awaiting .connect⟩
      [⟨.connected none, false⟩, ⟨.wrote none 2, false⟩, ⟨.read none [8, 9], false⟩,
        ⟨.wrote none 2, false⟩, ⟨.read none [7], true⟩] = some f ∧
      f.locals.cerr = [] ∧ f.locals.received = [[8, 9], [7]] ∧ followed f = [[8, 9]] :=
    ⟨_, rfl, rfl, rfl, rfl⟩
  rcases hrun with ⟨f, hrun, hcerr, hreceived, hfollowed⟩
  have hinit : (machine 2).Reachable ⟨Session.new, .awaiting .connect⟩ :=
    Machine.Reachable.init rfl
  have hf : (machine 2).Reachable f := hinit.run hrun
  refine ⟨f, hf, hcerr, hreceived, (sends_back_iff 2 f hf hcerr).mpr ?_⟩
  rw [hfollowed]
  decide

/-- After a chunk of one byte a session with blocks of two sends two bytes: the second one
is left over, and soon it has written more than its block and what it has read. -/
theorem session_sends_left_over :
    ∃ f : Frame 2, (machine 2).run ⟨Session.new, .awaiting .connect⟩
        [⟨.connected none, false⟩, ⟨.wrote none 2, false⟩, ⟨.read none [7], false⟩,
          ⟨.wrote none 2, false⟩] = some f ∧
      f.locals.cerr = [] ∧ f.locals.received = [[7]] ∧
      f.locals.issued = [⟨[0, 1], 2⟩, ⟨[7, 0], 2⟩] ∧ f.locals.bytesWritten = 4 ∧
      f.locals.bytesRead = 1 ∧ ¬ f.locals.bytesWritten ≤ 2 + f.locals.bytesRead :=
  ⟨_, rfl, rfl, rfl, rfl, rfl, rfl, by decide⟩

end CppCoroutines.AwaitClient
