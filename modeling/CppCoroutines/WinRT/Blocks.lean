import CppCoroutines.Asio
import CppCoroutines.Channel
import CppCoroutines.Machine

/-!
# Whole blocks

One session of `winrt_client.cpp` against one of `winrt_server.cpp`. Each side writes a
buffer as a whole and then insists on reading as many bytes as its own buffer holds,
`InputStreamOptions::None`. Both streams are FIFO and lose nothing; bytes that were
written arrive at any time. The main result says for which two block sizes the pair can
come to wait for input on both sides.
-/

namespace CppCoroutines.Blocks

/-- Where a session stands in its loop. -/
inductive Position where
  /-- in `WriteAsync(data)`, so many bytes of which have been delivered -/
  | writing (data : List Byte) (delivered : ℕ)
  /-- in `ReadAsync` -/
  | reading
  /-- the loop has been left -/
  | closed
deriving DecidableEq, Repr

/-- The client session from its first `WriteAsync` on. -/
structure Client where
  position : Position
  bytesWritten : UInt32
  bytesRead : UInt32
  /-- history: the reads that have completed -/
  rounds : ℕ
deriving DecidableEq, Repr

/-- The server session from its first `ReadAsync` on. -/
structure Server where
  position : Position
  /-- history: the reads that have completed -/
  blocks : ℕ
deriving DecidableEq, Repr

/-- The two sessions and the streams between them. -/
structure Pair where
  client : Client
  server : Server
  toServer : Channel Byte none
  toClient : Channel Byte none

/-- The data of the client at the start. -/
def initialData (bc : ℕ) : List Byte := (List.range bc).map fun i => UInt8.ofNat (i % 57 + 65)

/-- The sessions after the connection, with a client block of `bc` bytes. -/
def Pair.start (bc : ℕ) : Pair where
  client := ⟨.writing (initialData bc) 0, 0, 0, 0⟩
  server := ⟨.reading, 0⟩
  toServer := Channel.empty
  toClient := Channel.empty

/-- What can happen: `n` more bytes of a write are delivered, a write completes, a read
completes. -/
inductive Event where
  | clientDelivers (n : ℕ)
  | clientWritten
  | clientReads
  | serverDelivers (n : ℕ)
  | serverWritten
  | serverReads
deriving DecidableEq, Repr

/-- The next `n` bytes of a write go into the stream. -/
def deliver (p : Position) (out : Channel Byte none) (n : ℕ) : Option (Position × Channel Byte none) :=
  match p with
  | .writing data delivered =>
      if 0 < n ∧ delivered + n ≤ data.length then
        (out.send ((data.drop delivered).take n)).map fun out => (.writing data (delivered + n), out)
      else none
  | _ => none

/-- The length of a write that has been delivered. -/
def written (p : Position) : Option ℕ :=
  match p with
  | .writing data delivered => if delivered = data.length then some data.length else none
  | _ => none

/-- `ReadAsync(buffer, count, InputStreamOptions::None)` completes with `count` bytes. -/
def read (p : Position) (incoming : Channel Byte none) (count : ℕ) :
    Option (List Byte × Channel Byte none) :=
  if p = .reading then incoming.receive count else none

/-- The client loop after `WriteAsync` has returned this length. -/
def Client.wrote (c : Client) (length : ℕ) : Client :=
  { c with bytesWritten := c.bytesWritten + UInt32.ofNat length, position := .reading }

/-- The client loop after a read: the buffers are swapped and the loop writes again. -/
def Client.read (c : Client) (data : List Byte) : Client where
  position := .writing data 0
  bytesWritten := c.bytesWritten
  bytesRead := c.bytesRead + UInt32.ofNat data.length
  rounds := c.rounds + 1

/-- The server loop after a read: an empty one means that the client has closed. -/
def Server.read (s : Server) (data : List Byte) : Server where
  position := if data.length = 0 then .closed else .writing data 0
  blocks := s.blocks + 1

/-- The pair with client blocks of `bc` bytes and server blocks of `bs` bytes. -/
def step (bc bs : ℕ) (p : Pair) : Event → Option Pair
  | .clientDelivers n => (deliver p.client.position p.toServer n).map fun r =>
      { p with client := { p.client with position := r.1 }, toServer := r.2 }
  | .clientWritten => (written p.client.position).map fun length =>
      { p with client := p.client.wrote length }
  | .clientReads => (read p.client.position p.toClient bc).map fun r =>
      { p with client := p.client.read r.1, toClient := r.2 }
  | .serverDelivers n => (deliver p.server.position p.toClient n).map fun r =>
      { p with server := { p.server with position := r.1 }, toClient := r.2 }
  | .serverWritten => (written p.server.position).map fun _ =>
      { p with server := { p.server with position := .reading } }
  | .serverReads => (read p.server.position p.toServer bs).map fun r =>
      { p with server := p.server.read r.1, toServer := r.2 }

def machine (bc bs : ℕ) : Machine Pair Event where
  init p := p = Pair.start bc
  step := step bc bs

/-- Both sides wait for input, and neither stream holds what its reader insists on. -/
def BothWait (bc bs : ℕ) (p : Pair) : Prop :=
  p.client.position = .reading ∧ p.toClient.contents.length < bc ∧
    p.server.position = .reading ∧ p.toServer.contents.length < bs

/-! ## Bytes sent and bytes read -/

/-- What a write of the `k`-th block has delivered so far, in all. -/
def Sent (size k : ℕ) (p : Position) (total : ℕ) : Prop :=
  match p with
  | .writing data delivered =>
      data.length = size ∧ delivered ≤ size ∧ total = size * k + delivered
  | .reading => total = size * (k + 1)
  | .closed => False

/-- The client is one block ahead of what it has read; the server gives back the blocks it
has read; the streams hold the difference. -/
structure Inv (bc bs : ℕ) (p : Pair) : Prop where
  client : Sent bc p.client.rounds p.client.position
    (p.toServer.contents.length + bs * p.server.blocks)
  server : match p.server.position with
    | .writing data delivered => data.length = bs ∧ delivered ≤ bs ∧
        p.toClient.contents.length + bc * p.client.rounds + bs = bs * p.server.blocks + delivered
    | .reading => p.toClient.contents.length + bc * p.client.rounds = bs * p.server.blocks
    | .closed => False

section Steps

variable {bc bs : ℕ} {p p' : Pair}

theorem deliver_eq_some {p p' : Position} {out out' : Channel Byte none} {n : ℕ}
    (h : deliver p out n = some (p', out')) :
    ∃ data delivered, p = .writing data delivered ∧ p' = .writing data (delivered + n) ∧
      delivered + n ≤ data.length ∧ out'.contents.length = out.contents.length + n := by
  cases p with
  | writing data delivered =>
      obtain ⟨⟨-, hle⟩, hmap⟩ := Option.ite_none_right_eq_some.mp h
      obtain ⟨out'', hsend, heq⟩ := Option.map_eq_some_iff.mp hmap
      obtain ⟨rfl, rfl⟩ := Prod.mk.inj heq
      refine ⟨data, delivered, rfl, rfl, hle, ?_⟩
      rw [(Channel.send_eq_some.mp hsend).2, List.length_append, List.length_take,
        List.length_drop]
      omega
  | reading => cases h
  | closed => cases h

theorem written_eq_some {p : Position} {length : ℕ} (h : written p = some length) :
    ∃ data, p = .writing data data.length ∧ length = data.length := by
  cases p with
  | writing data delivered =>
      obtain ⟨hdelivered, heq⟩ := Option.ite_none_right_eq_some.mp h
      exact ⟨data, hdelivered ▸ rfl, (Option.some.inj heq).symm⟩
  | reading => cases h
  | closed => cases h

theorem read_eq_some {p : Position} {incoming rest : Channel Byte none} {count : ℕ}
    {data : List Byte} (h : read p incoming count = some (data, rest)) :
    p = .reading ∧ data.length = count ∧ 0 < count ∧
      incoming.contents.length = count + rest.contents.length := by
  obtain ⟨hp, hreceive⟩ := Option.ite_none_right_eq_some.mp h
  obtain ⟨hpos, hlength, heq⟩ := Channel.receive_eq_some.mp hreceive
  refine ⟨hp, hlength, hpos, ?_⟩
  rw [← heq, List.length_append, hlength]

theorem inv_start (bc bs : ℕ) : Inv bc bs (Pair.start bc) := by
  constructor
  · refine ⟨by simp [initialData], Nat.zero_le _, ?_⟩
    simp [Pair.start, Channel.empty]
  · simp [Pair.start, Channel.empty]

theorem step_inv {e : Event} (h : Inv bc bs p) (hstep : step bc bs p e = some p') :
    Inv bc bs p' := by
  obtain ⟨hclient, hserver⟩ := h
  cases e with
  | clientDelivers n =>
      obtain ⟨⟨pos, out⟩, hdeliver, rfl⟩ := Option.map_eq_some_iff.mp hstep
      obtain ⟨data, delivered, hpos, rfl, hle, hout⟩ := deliver_eq_some hdeliver
      rw [hpos] at hclient
      obtain ⟨hlength, -, htotal⟩ := hclient
      refine ⟨⟨hlength, hlength ▸ hle, ?_⟩, hserver⟩
      show out.contents.length + bs * p.server.blocks = bc * p.client.rounds + (delivered + n)
      omega
  | clientWritten =>
      obtain ⟨length, hwritten, rfl⟩ := Option.map_eq_some_iff.mp hstep
      obtain ⟨data, hpos, -⟩ := written_eq_some hwritten
      rw [hpos] at hclient
      obtain ⟨hlength, -, htotal⟩ := hclient
      refine ⟨?_, hserver⟩
      show p.toServer.contents.length + bs * p.server.blocks = bc * (p.client.rounds + 1)
      rw [Nat.mul_succ, htotal, hlength]
  | clientReads =>
      obtain ⟨⟨data, rest⟩, hread, rfl⟩ := Option.map_eq_some_iff.mp hstep
      obtain ⟨hpos, hlength, -, hrest⟩ := read_eq_some hread
      rw [hpos] at hclient
      refine ⟨⟨hlength, Nat.zero_le _, hclient⟩, ?_⟩
      -- the bytes leave the stream and are counted by the next round
      have hrounds : bc * (p.client.rounds + 1) = bc * p.client.rounds + bc := Nat.mul_succ _ _
      show match p.server.position with
        | .writing data delivered => data.length = bs ∧ delivered ≤ bs ∧
            rest.contents.length + bc * (p.client.rounds + 1) + bs =
              bs * p.server.blocks + delivered
        | .reading => rest.contents.length + bc * (p.client.rounds + 1) = bs * p.server.blocks
        | .closed => False
      cases hserverPos : p.server.position with
      | writing data delivered =>
          rw [hserverPos] at hserver
          obtain ⟨hdata, hdelivered, htotal⟩ := hserver
          exact ⟨hdata, hdelivered, by omega⟩
      | reading =>
          simp only [hserverPos] at hserver ⊢
          omega
      | closed => simp only [hserverPos] at hserver
  | serverDelivers n =>
      obtain ⟨⟨pos, out⟩, hdeliver, rfl⟩ := Option.map_eq_some_iff.mp hstep
      obtain ⟨data, delivered, hpos, rfl, hle, hout⟩ := deliver_eq_some hdeliver
      simp only [hpos] at hserver
      obtain ⟨hlength, -, htotal⟩ := hserver
      refine ⟨hclient, hlength, hlength ▸ hle, ?_⟩
      show out.contents.length + bc * p.client.rounds + bs =
        bs * p.server.blocks + (delivered + n)
      omega
  | serverWritten =>
      obtain ⟨length, hwritten, rfl⟩ := Option.map_eq_some_iff.mp hstep
      obtain ⟨data, hpos, -⟩ := written_eq_some hwritten
      simp only [hpos] at hserver
      obtain ⟨hlength, -, htotal⟩ := hserver
      refine ⟨hclient, ?_⟩
      show p.toClient.contents.length + bc * p.client.rounds = bs * p.server.blocks
      omega
  | serverReads =>
      obtain ⟨⟨data, rest⟩, hread, rfl⟩ := Option.map_eq_some_iff.mp hstep
      obtain ⟨hpos, hlength, hbs, hrest⟩ := read_eq_some hread
      simp only [hpos] at hserver
      have hblocks : bs * (p.server.blocks + 1) = bs * p.server.blocks + bs := Nat.mul_succ _ _
      constructor
      · show Sent bc p.client.rounds p.client.position
          (rest.contents.length + bs * (p.server.blocks + 1))
        have htotal : rest.contents.length + bs * (p.server.blocks + 1) =
            p.toServer.contents.length + bs * p.server.blocks := by omega
        rw [htotal]
        exact hclient
      · have hdata : (p.server.read data).position = .writing data 0 := by
          rw [Server.read, if_neg (by omega)]
        show match (p.server.read data).position with
          | .writing data delivered => data.length = bs ∧ delivered ≤ bs ∧
              p.toClient.contents.length + bc * p.client.rounds + bs =
                bs * (p.server.blocks + 1) + delivered
          | .reading => p.toClient.contents.length + bc * p.client.rounds =
              bs * (p.server.blocks + 1)
          | .closed => False
        rw [hdata]
        exact ⟨hlength, Nat.zero_le _, by omega⟩

theorem inv_reachable (h : (machine bc bs).Reachable p) : Inv bc bs p := by
  induction h with
  | init hinit =>
      obtain rfl : _ = Pair.start bc := hinit
      exact inv_start bc bs
  | step _ _ hstep ih => exact step_inv ih hstep

end Steps

/-! ## When both sides wait -/

section Waiting

variable {bc bs : ℕ} {p : Pair}

/-- A write in flight can go on. -/
theorem exists_write {p : Position} {data : List Byte} {delivered : ℕ} {out : Channel Byte none}
    (hp : p = .writing data delivered) (hle : delivered ≤ data.length) :
    (∃ n r, deliver p out n = some r) ∨ ∃ length, written p = some length := by
  subst hp
  by_cases hall : delivered = data.length
  · exact Or.inr ⟨data.length, if_pos hall⟩
  · obtain ⟨out', hsend, -⟩ := out.exists_send ((data.drop delivered).take 1) nofun
    refine Or.inl ⟨1, (.writing data (delivered + 1), out'), ?_⟩
    show (if 0 < 1 ∧ delivered + 1 ≤ data.length then _ else none) = _
    rw [if_pos (by omega), hsend, Option.map_some]

/-- A read completes once its bytes are there. -/
theorem exists_read {p : Position} {incoming : Channel Byte none} {count : ℕ}
    (hp : p = .reading) (hpos : 0 < count) (hle : count ≤ incoming.contents.length) :
    ∃ r, read p incoming count = some r := by
  rw [read, if_pos hp, Channel.receive, if_pos ⟨hpos, hle⟩]
  exact ⟨_, rfl⟩

/-- Nothing can happen any more exactly when both sides wait. -/
theorem stuck_iff (h : Inv bc bs p) (hbc : 1 ≤ bc) (hbs : 1 ≤ bs) :
    (machine bc bs).Stuck p ↔ BothWait bc bs p := by
  obtain ⟨hclient, hserver⟩ := h
  constructor
  · intro hstuck
    have hnone : ∀ e, step bc bs p e = none := hstuck
    have hclientPos : p.client.position = .reading := by
      cases hpos : p.client.position with
      | writing data delivered =>
          rw [hpos] at hclient
          have hgoes : (∃ n r, deliver p.client.position p.toServer n = some r) ∨
              ∃ length, written p.client.position = some length :=
            exists_write hpos (hclient.1 ▸ hclient.2.1)
          rcases hgoes with ⟨n, r, hr⟩ | ⟨length, hlength⟩
          · have := hnone (.clientDelivers n)
            simp [step, hr] at this
          · have := hnone .clientWritten
            simp [step, hlength] at this
      | reading => rfl
      | closed =>
          rw [hpos] at hclient
          exact hclient.elim
    have hserverPos : p.server.position = .reading := by
      cases hpos : p.server.position with
      | writing data delivered =>
          simp only [hpos] at hserver
          have hgoes : (∃ n r, deliver p.server.position p.toClient n = some r) ∨
              ∃ length, written p.server.position = some length :=
            exists_write hpos (hserver.1 ▸ hserver.2.1)
          rcases hgoes with ⟨n, r, hr⟩ | ⟨length, hlength⟩
          · have := hnone (.serverDelivers n)
            simp [step, hr] at this
          · have := hnone .serverWritten
            simp [step, hlength] at this
      | reading => rfl
      | closed => simp only [hpos] at hserver
    refine ⟨hclientPos, ?_, hserverPos, ?_⟩
    · by_contra hge
      obtain ⟨r, hr⟩ := exists_read hclientPos hbc (Nat.not_lt.mp hge)
      have := hnone .clientReads
      simp [step, hr] at this
    · by_contra hge
      obtain ⟨r, hr⟩ := exists_read hserverPos hbs (Nat.not_lt.mp hge)
      have := hnone .serverReads
      simp [step, hr] at this
  · rintro ⟨hclientPos, hclientLt, hserverPos, hserverLt⟩ e
    cases e with
    | clientDelivers n => simp [machine, step, hclientPos, deliver]
    | clientWritten => simp [machine, step, hclientPos, written]
    | clientReads => simp [machine, step, hclientPos, read, Channel.receive, hclientLt]
    | serverDelivers n => simp [machine, step, hserverPos, deliver]
    | serverWritten => simp [machine, step, hserverPos, written]
    | serverReads => simp [machine, step, hserverPos, read, Channel.receive, hserverLt]

/-- If the server block divides the client block, what the client has sent is always worth
whole server blocks. -/
theorem not_bothWait_of_dvd (h : Inv bc bs p) (hdvd : bs ∣ bc) : ¬ BothWait bc bs p := by
  rintro ⟨hclientPos, hclientLt, hserverPos, hserverLt⟩
  obtain ⟨hclient, hserver⟩ := h
  rw [hclientPos] at hclient
  simp only [hserverPos] at hserver
  have hsent : p.toServer.contents.length + bs * p.server.blocks = bc * (p.client.rounds + 1) :=
    hclient
  have hmul : bs ∣ p.toServer.contents.length := by
    have htotal : bs ∣ p.toServer.contents.length + bs * p.server.blocks := by
      rw [hsent]
      exact Nat.dvd_trans hdvd (Nat.dvd_mul_right bc _)
    exact (Nat.dvd_add_left (Nat.dvd_mul_right bs p.server.blocks)).mp htotal
  have hzero := Nat.eq_zero_of_dvd_of_lt hmul hserverLt
  rw [Nat.mul_succ] at hsent
  omega

/-- The server gives back one block more while the client waits. -/
theorem exists_round (hbs : 1 ≤ bs) (hp : (machine bc bs).Reachable p)
    (hserver : p.server.position = .reading) (hle : bs ≤ p.toServer.contents.length) :
    ∃ p', (machine bc bs).Reachable p' ∧ p'.client = p.client ∧ p'.server.position = .reading ∧
      p.toServer.contents.length = bs + p'.toServer.contents.length ∧
      p'.toClient.contents.length = p.toClient.contents.length + bs := by
  obtain ⟨⟨data, rest⟩, hread⟩ := exists_read hserver hbs hle
  obtain ⟨-, hlength, -, hrest⟩ := read_eq_some hread
  have hread' : (machine bc bs).step p .serverReads =
      some { p with server := ⟨.writing data 0, p.server.blocks + 1⟩, toServer := rest } := by
    have hne : data.length ≠ 0 := by omega
    simp [machine, step, hread, Server.read, List.length_eq_zero_iff.not.mp hne]
  obtain ⟨out, hsend, hout⟩ := p.toClient.exists_send (data.take bs) nofun
  have hdeliver : (machine bc bs).step
      { p with server := ⟨.writing data 0, p.server.blocks + 1⟩, toServer := rest }
      (.serverDelivers bs) = some { p with
        server := ⟨.writing data bs, p.server.blocks + 1⟩, toServer := rest, toClient := out } := by
    have hpos : 0 < bs := hbs
    simp [machine, step, deliver, hlength, hpos, hsend]
  have hwritten : (machine bc bs).step { p with
        server := ⟨.writing data bs, p.server.blocks + 1⟩, toServer := rest, toClient := out }
      .serverWritten = some { p with
        server := ⟨.reading, p.server.blocks + 1⟩, toServer := rest, toClient := out } := by
    simp [machine, step, written, hlength]
  have hp₁ := hp.step .serverReads hread'
  have hp₂ := hp₁.step (.serverDelivers bs) hdeliver
  refine ⟨_, hp₂.step .serverWritten hwritten, rfl, rfl, hrest, ?_⟩
  show out.contents.length = _
  rw [hout, List.length_append, List.length_take, hlength, Nat.min_self]

/-- The client sends its first block, the server gives back as many blocks as that holds. -/
theorem exists_blocks (hbc : 1 ≤ bc) (hbs : 1 ≤ bs) (j : ℕ) (hj : bs * j ≤ bc) :
    ∃ p, (machine bc bs).Reachable p ∧ p.client.position = .reading ∧
      p.server.position = .reading ∧ p.toServer.contents.length + bs * j = bc ∧
      p.toClient.contents.length = bs * j := by
  induction j with
  | zero =>
      obtain ⟨out, hsend, hout⟩ :=
        (Pair.start bc).toServer.exists_send ((initialData bc).take bc) nofun
      have hlength : (initialData bc).length = bc := by simp [initialData]
      have hdeliver : (machine bc bs).step (Pair.start bc) (.clientDelivers bc) = some { Pair.start bc with
          client := ⟨.writing (initialData bc) bc, 0, 0, 0⟩, toServer := out } := by
        have hsend' : Channel.send (Channel.empty : Channel Byte none) ((initialData bc).take bc) =
            some out := hsend
        have hpos : 0 < bc := hbc
        simp [machine, step, Pair.start, deliver, hlength, hpos, hsend']
      have hwritten : (machine bc bs).step { Pair.start bc with
            client := ⟨.writing (initialData bc) bc, 0, 0, 0⟩, toServer := out } .clientWritten =
          some { Pair.start bc with
            client := ⟨.reading, 0 + UInt32.ofNat bc, 0, 0⟩, toServer := out } := by
        simp [machine, step, written, hlength, Client.wrote]
      have hstart : (machine bc bs).Reachable (Pair.start bc) := Machine.Reachable.init rfl
      have hp₁ := hstart.step (.clientDelivers bc) hdeliver
      refine ⟨_, hp₁.step .clientWritten hwritten, rfl, rfl, ?_, rfl⟩
      show out.contents.length + bs * 0 = bc
      rw [hout, List.length_append, List.length_take, hlength, Nat.min_self]
      simp [Pair.start, Channel.empty]
  | succ j ih =>
      have hmul : bs * (j + 1) = bs * j + bs := Nat.mul_succ _ _
      obtain ⟨p, hp, hclient, hserver, htoServer, htoClient⟩ := ih (by omega)
      obtain ⟨p', hp', hclient', hserver', hleft, hback⟩ :=
        exists_round hbs hp hserver (by omega)
      exact ⟨p', hp', hclient' ▸ hclient, hserver', by omega, by omega⟩

/-- For all block sizes: no reachable state of the pair is without an enabled step, if and
only if the server block divides the client block. -/
theorem never_stuck_iff (hbc : 1 ≤ bc) (hbs : 1 ≤ bs) :
    (∀ p, (machine bc bs).Reachable p → ¬ (machine bc bs).Stuck p) ↔ bs ∣ bc := by
  constructor
  · intro h
    by_contra hdvd
    obtain ⟨p, hp, hclient, hserver, htoServer, htoClient⟩ :=
      exists_blocks hbc hbs (bc / bs) (Nat.mul_div_le bc bs)
    have hdiv := Nat.div_add_mod bc bs
    have hmod : 0 < bc % bs := Nat.emod_pos_of_not_dvd hdvd
    have hlt := Nat.mod_lt bc hbs
    refine h p hp ((stuck_iff (inv_reachable hp) hbc hbs).mpr ⟨hclient, ?_, hserver, ?_⟩)
    · omega
    · omega
  · intro hdvd p hp hstuck
    have hinv := inv_reachable hp
    exact not_bothWait_of_dvd hinv hdvd ((stuck_iff hinv hbc hbs).mp hstuck)

/-- A client block of two server blocks. -/
theorem never_stuck_iff_two_blocks :
    (∀ p, (machine 2048 1024).Reachable p → ¬ (machine 2048 1024).Stuck p) ↔ 1024 ∣ 2048 :=
  never_stuck_iff (by omega) (by omega)

/-- With client blocks of 1 byte and server blocks of 2 the pair waits for ever after one
write. -/
theorem one_byte_stuck :
    ¬ ∀ bc bs, 1 ≤ bc → 1 ≤ bs → ∀ p, (machine bc bs).Reachable p → ¬ (machine bc bs).Stuck p := by
  intro h
  have hblocks : ∃ p, (machine 1 2).Reachable p ∧ p.client.position = .reading ∧
      p.server.position = .reading ∧ p.toServer.contents.length + 2 * 0 = 1 ∧
      p.toClient.contents.length = 2 * 0 :=
    exists_blocks (by omega) (by omega) 0 (by omega)
  obtain ⟨p, hp, hclient, hserver, htoServer, htoClient⟩ := hblocks
  apply h 1 2 (by omega) (by omega) p hp
  exact (stuck_iff (inv_reachable hp) (by omega) (by omega)).mpr
    ⟨hclient, by omega, hserver, by omega⟩

end Waiting

end CppCoroutines.Blocks
