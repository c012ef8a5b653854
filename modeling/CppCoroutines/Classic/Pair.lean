import CppCoroutines.Channel
import CppCoroutines.Classic.Moves

/-!
# The closed classic system

One client session and one server session, with different block sizes, connected
by two FIFO byte channels. Nothing fails and nothing is stopped. A read takes any
positive number of the available bytes up to its block size, a write hands over its
bytes in any portions, and the handlers of the two sides interleave freely. The
main result is the conservation law: the bytes that go round are the client's
initial block, in order.
-/

namespace CppCoroutines

/-- What happens to the operations of one side. -/
inductive Progress where
  | read (op : ReadOp) (count : ℕ)
  | transmit (op : WriteOp) (count : ℕ)
  | writeDone (op : WriteOp)
deriving DecidableEq, Repr

/-- One side between the channel it reads from and the channel it writes to: `d` is
its double buffer and `handle` what it does with an event. -/
def Progress.step {n : ℕ} {capacity : Option ℕ} {σ : Type} (d : Duplex n)
    (handle : IoEvent → Option σ) (incoming outgoing : Channel Byte capacity) :
    Progress → Option (σ × Channel Byte capacity × Channel Byte capacity)
  | .read op count =>
      (incoming.receive count).bind fun r =>
        (handle (.readDone op r.1)).map fun s => (s, r.2, outgoing)
  | .transmit op count =>
      (outgoing.send ((d.heap op.buffer).slice op.transferred count)).bind fun outgoing =>
        (handle (.transmit op count)).map fun s => (s, incoming, outgoing)
  | .writeDone op => (handle (.writeDone op)).map fun s => (s, incoming, outgoing)

/-- The two sessions and the two channels between them. -/
structure Pair (bc bs : ℕ) (capacity : Option ℕ) where
  client : ClassicClient.Session bc
  server : ClassicServer.Session bs
  up : Channel Byte capacity
  down : Channel Byte capacity

namespace Pair

variable {bc bs : ℕ} {capacity : Option ℕ}

/-- The client has just been connected; the server session waits for its accept. -/
def new (garbage : Block bc) (heap : Slot → Block bs) : Pair bc bs capacity where
  client := { ClassicClient.Session.new garbage with connecting := false }.handleConnect none none
  server := ClassicServer.Session.new heap
  up := Channel.empty
  down := Channel.empty

/-- The accept completes, or one side goes on. -/
inductive Event where
  | accept
  | client (e : Progress)
  | server (e : Progress)
deriving DecidableEq, Repr

/-- One event. -/
def step (p : Pair bc bs capacity) : Event → Option (Pair bc bs capacity)
  | .accept => (ClassicServer.step p.server (.start none)).map fun s => { p with server := s }
  | .client e =>
      (e.step p.client.toDuplex (fun io => ClassicClient.step p.client (.io io)) p.down p.up).map
        fun r => { p with client := r.1, down := r.2.1, up := r.2.2 }
  | .server e =>
      (e.step p.server.toDuplex (fun io => ClassicServer.step p.server (.io io)) p.up p.down).map
        fun r => { p with server := r.1, up := r.2.1, down := r.2.2 }

/-- The pair from the connection on. -/
def machine (bc bs : ℕ) (capacity : Option ℕ) : Machine (Pair bc bs capacity) Event where
  init p := ∃ garbage heap, p = new garbage heap
  step := step

end Pair

/-! ## One side -/

/-- A step of one side is a successful event of its session; what it takes leaves the
one channel and what it transmits enters the other. -/
theorem Progress.step_cases {n : ℕ} {capacity : Option ℕ} {σ : Type} {d : Duplex n}
    {handle : IoEvent → Option σ} {incoming outgoing incoming' outgoing' : Channel Byte capacity}
    {e : Progress} {s : σ}
    (hstep : e.step d handle incoming outgoing = some (s, incoming', outgoing')) :
    ∃ io, io.Succeeds ∧ handle io = some s ∧
      io.taken.flatten ++ incoming'.contents = incoming.contents ∧
      outgoing'.contents = outgoing.contents ++ d.put io := by
  cases e with
  | read op k =>
      rcases Option.bind_eq_some_iff.mp hstep with ⟨⟨chunk, rest⟩, hreceive, hmap⟩
      rcases Option.map_eq_some_iff.mp hmap with ⟨s', hhandle, heq⟩
      rcases Channel.receive_eq_some.mp hreceive with ⟨hpos, hlength, hchunk⟩
      cases heq
      refine ⟨.readDone op chunk, ?_, hhandle, ?_, (List.append_nil _).symm⟩
      · exact List.length_pos_iff.mp (by omega)
      · simpa [IoEvent.taken] using hchunk
  | transmit op k =>
      rcases Option.bind_eq_some_iff.mp hstep with ⟨out, hsend, hmap⟩
      rcases Option.map_eq_some_iff.mp hmap with ⟨s', hhandle, heq⟩
      cases heq
      exact ⟨.transmit op k, trivial, hhandle, rfl, (Channel.send_eq_some.mp hsend).2⟩
  | writeDone op =>
      rcases Option.map_eq_some_iff.mp hstep with ⟨s', hhandle, heq⟩
      cases heq
      exact ⟨.writeDone op, trivial, hhandle, rfl, (List.append_nil _).symm⟩

namespace Pair

variable {bc bs : ℕ} {capacity : Option ℕ} {p : Pair bc bs capacity}

/-! ## The invariant -/

/-- Both sides keep their double-buffer invariant and nothing is missing on either;
what one side has sent is what the other has received and the channel between holds. -/
structure Inv (p : Pair bc bs capacity) : Prop where
  client : ClassicClient.Inv p.client
  clientDuplex : Duplex.Inv [(ClassicClient.initialBlock bc).bytes] p.client.unwrittenCount
    p.client.toDuplex
  clientLive : Duplex.Live [(ClassicClient.initialBlock bc).bytes] p.client.unwrittenCount
    p.client.toDuplex
  clientListening : Duplex.Listening p.client.unwrittenCount p.client.toDuplex
  server : ClassicServer.Inv p.server
  serverLive : Duplex.Live [] p.server.unsentCount p.server.toDuplex
  serverListening : p.server.started = true →
    Duplex.Listening p.server.unsentCount p.server.toDuplex
  up : p.client.sent = p.server.received.flatten ++ p.up.contents
  down : p.server.sent = p.client.received.flatten ++ p.down.contents

theorem init_inv (hbc : 0 < bc) (garbage : Block bc) (heap : Slot → Block bs) :
    Inv (new garbage heap : Pair bc bs capacity) := by
  have hblock : (ClassicClient.initialBlock bc).bytes ≠ [] :=
    List.length_pos_iff.mp (by rw [(ClassicClient.initialBlock bc).length_bytes]; exact hbc)
  refine
    { client := (ClassicClient.init_inv garbage).connectDone rfl none none
      clientDuplex := Duplex.inv_writeFirst (ClassicClient.Session.new garbage).heap
      clientLive := ⟨nofun, ?_, rfl⟩
      clientListening := nofun
      server := ClassicServer.init_inv heap
      serverLive := ⟨fun _ => rfl, nofun, rfl⟩
      serverListening := nofun
      up := rfl
      down := rfl }
  intro chunk hchunk
  rw [List.mem_singleton.mp hchunk]
  exact hblock

/-- The accept starts the first read of the server. -/
theorem Inv.accept (h : Inv p) {s : ClassicServer.Session bs}
    (hstep : ClassicServer.step p.server (.start none) = some s) :
    Inv { p with server := s } := by
  rcases Option.ite_none_right_eq_some.mp hstep with ⟨-, heq⟩
  have hserver := ClassicServer.step_inv _ _ _ h.server hstep
  rw [← Option.some.inj heq] at hserver ⊢
  refine { h with server := hserver, serverLive := ?_, serverListening := ?_ }
  · exact ⟨h.serverLive.writing, h.serverLive.nonempty, h.serverLive.written⟩
  · intro _ hnil
    simp [ClassicServer.Session.start, Duplex.asyncReadSome] at hnil

/-- The client goes on. -/
theorem Inv.client_step (h : Inv p) {io : IoEvent} (hio : io.Succeeds)
    {s : ClassicClient.Session bc} (hstep : ClassicClient.step p.client (.io io) = some s)
    {up down : Channel Byte capacity}
    (hdown : io.taken.flatten ++ down.contents = p.down.contents)
    (hup : up.contents = p.up.contents ++ p.client.toDuplex.put io) :
    Inv { p with client := s, up := up, down := down } := by
  have hmove := ClassicClient.step_moves h.clientDuplex h.clientLive hstep hio
  rcases hmove.history with ⟨hreceived, hsent⟩
  refine
    { h with
      client := ClassicClient.step_inv _ _ _ h.client hstep
      clientDuplex := hmove.inv h.clientDuplex
      clientLive := hmove.live h.clientDuplex h.clientLive
      clientListening := hmove.listening h.clientDuplex h.clientListening
      up := ?_
      down := ?_ }
  · show s.sent = p.server.received.flatten ++ up.contents
    rw [hsent, hup, ← List.append_assoc, ← h.up]
  · show p.server.sent = s.received.flatten ++ down.contents
    rw [hreceived, List.flatten_append, List.append_assoc, hdown]
    exact h.down

/-- The server goes on. -/
theorem Inv.server_step (h : Inv p) {io : IoEvent} (hio : io.Succeeds)
    {s : ClassicServer.Session bs} (hstep : ClassicServer.step p.server (.io io) = some s)
    {up down : Channel Byte capacity}
    (hup : io.taken.flatten ++ up.contents = p.up.contents)
    (hdown : down.contents = p.down.contents ++ p.server.toDuplex.put io) :
    Inv { p with server := s, up := up, down := down } := by
  have hmove := ClassicServer.step_moves h.server hstep hio
  rcases hmove.history with ⟨hreceived, hsent⟩
  rcases ClassicServer.step_io hstep with ⟨hbusy, -⟩
  rcases h.server.running hbusy with ⟨hstarted, -⟩
  refine
    { h with
      server := ClassicServer.step_inv _ _ _ h.server hstep
      serverLive := hmove.live h.server.duplex h.serverLive
      serverListening := fun _ => hmove.listening h.server.duplex (h.serverListening hstarted)
      up := ?_
      down := ?_ }
  · show p.client.sent = s.received.flatten ++ up.contents
    rw [hreceived, List.flatten_append, List.append_assoc, hup]
    exact h.up
  · show s.sent = p.client.received.flatten ++ down.contents
    rw [hsent, hdown, ← List.append_assoc, ← h.down]

theorem step_inv (p : Pair bc bs capacity) (e : Event) (p' : Pair bc bs capacity) (h : Inv p)
    (hstep : step p e = some p') : Inv p' := by
  cases e with
  | accept =>
      rcases Option.map_eq_some_iff.mp hstep with ⟨s, hs, rfl⟩
      exact h.accept hs
  | client e =>
      rcases Option.map_eq_some_iff.mp hstep with ⟨⟨s, down, up⟩, he, rfl⟩
      rcases Progress.step_cases he with ⟨io, hio, hs, hdown, hup⟩
      exact h.client_step hio hs hdown hup
  | server e =>
      rcases Option.map_eq_some_iff.mp hstep with ⟨⟨s, up, down⟩, he, rfl⟩
      rcases Progress.step_cases he with ⟨io, hio, hs, hup, hdown⟩
      exact h.server_step hio hs hup hdown

theorem inductive_inv (hbc : 0 < bc) : (machine bc bs capacity).Inductive Inv := by
  constructor
  · intro p hp
    rcases hp with ⟨garbage, heap, rfl⟩
    exact init_inv hbc garbage heap
  · intro p e p' hp hstep
    exact step_inv p e p' hp hstep

/-! ## Conservation -/

/-- The loop: what the client has read, followed by everything on its way to it, is
its initial block followed by what it has read. -/
theorem Inv.loop (h : Inv p) :
    ∃ rest, p.client.received.flatten ++ rest =
      (ClassicClient.initialBlock bc).bytes ++ p.client.received.flatten := by
  rcases h.server.duplex.sent_isPrefix with ⟨heldServer, hserver⟩
  rcases h.clientDuplex.sent_isPrefix with ⟨heldClient, hclient⟩
  refine ⟨p.down.contents ++ heldServer ++ p.up.contents ++ heldClient, ?_⟩
  rw [List.singleton_append, List.flatten_cons] at hclient
  rw [List.nil_append] at hserver
  calc
    _ = p.server.sent ++ heldServer ++ p.up.contents ++ heldClient := by
      simp only [h.down, List.append_assoc]
    _ = p.client.sent ++ heldClient := by rw [hserver, h.up]
    _ = _ := hclient

/-- The total length of what is on its way. -/
theorem Inv.total (h : Inv p) :
    p.client.toDuplex.held p.client.unwrittenCount + p.up.contents.length +
      p.server.toDuplex.held p.server.unsentCount + p.down.contents.length = bc := by
  have hclient := h.clientDuplex.length_sent h.clientLive
  have hserver := h.server.duplex.length_sent h.serverLive
  rw [List.singleton_append, List.flatten_cons, List.length_append,
    (ClassicClient.initialBlock bc).length_bytes, h.up, List.length_append] at hclient
  rw [List.nil_append, h.down, List.length_append] at hserver
  omega

/-- The initial block read cyclically. -/
theorem getElem?_initialBlock (i : ℕ) (hbc : 0 < bc) :
    (ClassicClient.initialBlock bc).bytes[i % bc]? = some (UInt8.ofNat (i % bc % 128)) := by
  have hlt : i % bc < bc := Nat.mod_lt i hbc
  simp [ClassicClient.initialBlock, hlt]

/-- The conservation law, in one state. -/
structure Conserves (p : Pair bc bs capacity) : Prop where
  /-- the bytes the client has read are its initial block, again and again -/
  repeats : Loop.Repeats (ClassicClient.initialBlock bc).bytes p.client.received.flatten
  byte : ∀ i < p.client.received.flatten.length,
    p.client.received.flatten[i]? = some (UInt8.ofNat (i % bc % 128))
  /-- what the client has written, is writing and has queued is its block and what it read -/
  written : p.client.written.sum + p.client.outstanding +
    p.client.toDuplex.queued p.client.unwrittenCount = bc + (p.client.received.map List.length).sum
  /-- the two counters count that, modulo `2^64` -/
  bytesWritten : p.client.bytesWritten = UInt64.ofNat p.client.written.sum
  bytesRead : p.client.bytesRead = UInt64.ofNat (p.client.received.map List.length).sum
  counters : p.client.bytesWritten + UInt64.ofNat p.client.outstanding +
    UInt64.ofNat (p.client.toDuplex.queued p.client.unwrittenCount) =
      UInt64.ofNat bc + p.client.bytesRead
  /-- the bytes on their way are as many as the block has -/
  total : p.client.toDuplex.held p.client.unwrittenCount + p.up.contents.length +
    p.server.toDuplex.held p.server.unsentCount + p.down.contents.length = bc
  /-- so that the totals never differ by more than a block -/
  written_le : p.client.written.sum ≤ (p.client.received.map List.length).sum + bc
  read_le : (p.client.received.map List.length).sum ≤ p.client.written.sum + bc

/-- In every reachable state of the pair, for any two block sizes and any segmentation,
bytes are conserved and stay in order. -/
theorem pair_conserves (bc bs : ℕ) (capacity : Option ℕ) (hbc : 0 < bc)
    (p : Pair bc bs capacity) (hp : (machine bc bs capacity).Reachable p) : Conserves p := by
  have h : Inv p := (inductive_inv hbc).reachable hp
  have hblock : (ClassicClient.initialBlock bc).bytes ≠ [] :=
    List.length_pos_iff.mp (by rw [(ClassicClient.initialBlock bc).length_bytes]; exact hbc)
  rcases h.loop with ⟨rest, hloop⟩
  have hrepeats := Loop.repeats_of_append_eq hblock hloop
  have hwritten := h.clientDuplex.sum_written h.clientLive
  rw [List.singleton_append, List.flatten_cons, List.length_append,
    (ClassicClient.initialBlock bc).length_bytes, List.length_flatten] at hwritten
  have houtstanding := h.clientDuplex.outstanding_le
  have hqueued := h.clientDuplex.queued_le
  refine
    { repeats := hrepeats, byte := ?_, written := hwritten, bytesWritten := h.client.bytesWritten,
      bytesRead := h.client.bytesRead, counters := ?_, total := h.total, written_le := ?_,
      read_le := ?_ }
  · intro i hi
    rw [hrepeats.getElem? hi, (ClassicClient.initialBlock bc).length_bytes]
    exact getElem?_initialBlock i hbc
  · rw [h.client.bytesWritten, h.client.bytesRead, ← UInt64.ofNat_add, ← UInt64.ofNat_add,
      ← UInt64.ofNat_add, hwritten]
  · omega
  · omega

/-- A block of two bytes through a server that reads one at a time. -/
theorem pair_conserves_two :
    ∃ p : Pair 2 1 none, (machine 2 1 none).Reachable p ∧ p.up.contents = [] ∧
      p.client.received = [[0]] ∧ p.server.received = [[0], [1]] ∧ Conserves p := by
  have hrun : ∃ p : Pair 2 1 none,
      (machine 2 1 none).run (new (Block.zero 2) fun _ => Block.zero 1)
        [.accept, .client (.transmit ⟨0, .second, 2, 0⟩ 2), .server (.read ⟨.first, 1⟩ 1),
          .server (.transmit ⟨0, .first, 1, 0⟩ 1), .client (.read ⟨.first, 2⟩ 1),
          .client (.writeDone ⟨0, .second, 2, 2⟩), .server (.read ⟨.second, 1⟩ 1)] = some p ∧
      p.up.contents = [] ∧ p.client.received = [[0]] ∧ p.server.received = [[0], [1]] :=
    ⟨_, rfl, rfl, rfl, rfl⟩
  rcases hrun with ⟨p, hrun, hup, hclient, hserver⟩
  have hinit : (machine 2 1 none).Reachable (new (Block.zero 2) fun _ => Block.zero 1) :=
    Machine.Reachable.init ⟨_, _, rfl⟩
  have hp : (machine 2 1 none).Reachable p := hinit.run hrun
  exact ⟨p, hp, hup, hclient, hserver, pair_conserves 2 1 none (by decide) p hp⟩

end Pair

end CppCoroutines
