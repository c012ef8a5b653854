import CppCoroutines.WinRT.Blocks

/-!
# The block goes round

The bytes that the two sessions of `Blocks` exchange. The server writes what it has read, and the
client what it has got back; whatever the two block sizes are and whenever the bytes of a write
are delivered, the client gets back the data that it has begun with.
-/

namespace CppCoroutines.Blocks

/-- What is left of a write. -/
def Position.undelivered : Position → List Byte
  | .writing data delivered => data.drop delivered
  | _ => []

/-- What the client has sent of its block, and has not read again. -/
def Position.sent (block : List Byte) : Position → List Byte
  | .writing data delivered => data.take delivered
  | .reading => block
  | .closed => []

/-- The client writes its first block again and again, and the bytes of it that have been sent are
in the stream to the server, with the server, or in the stream to the client. -/
structure GoesRound (bc : ℕ) (p : Pair) : Prop where
  data : ∀ data delivered, p.client.position = .writing data delivered → data = initialData bc
  connected : p.client.position ≠ .closed
  bytes : p.toClient.contents ++ p.server.position.undelivered ++ p.toServer.contents =
    p.client.position.sent (initialData bc)

section Steps

variable {bc bs : ℕ} {p p' : Pair}

theorem length_initialData (bc : ℕ) : (initialData bc).length = bc := by
  rw [initialData, List.length_map, List.length_range]

/-- What is delivered leaves the write. -/
theorem deliver_moves {p p' : Position} {out out' : Channel Byte none} {n : ℕ}
    (h : deliver p out n = some (p', out')) :
    ∃ data delivered, p = .writing data delivered ∧ p' = .writing data (delivered + n) ∧
      out'.contents = out.contents ++ (data.drop delivered).take n ∧
      p.undelivered = (data.drop delivered).take n ++ p'.undelivered := by
  cases p with
  | writing data delivered =>
      obtain ⟨-, hmap⟩ := Option.ite_none_right_eq_some.mp h
      obtain ⟨out'', hsend, heq⟩ := Option.map_eq_some_iff.mp hmap
      obtain ⟨rfl, rfl⟩ := Prod.mk.inj heq
      refine ⟨data, delivered, rfl, rfl, (Channel.send_eq_some.mp hsend).2, ?_⟩
      show data.drop delivered = (data.drop delivered).take n ++ data.drop (delivered + n)
      rw [← List.drop_drop, List.take_append_drop]
  | reading => cases h
  | closed => cases h

theorem read_contents {p : Position} {incoming rest : Channel Byte none} {count : ℕ}
    {data : List Byte} (h : read p incoming count = some (data, rest)) :
    incoming.contents = data ++ rest.contents := by
  obtain ⟨-, hreceive⟩ := Option.ite_none_right_eq_some.mp h
  exact (Channel.receive_eq_some.mp hreceive).2.2.symm

theorem goesRound_start (bc : ℕ) : GoesRound bc (Pair.start bc) := by
  constructor
  · intro data delivered hposition
    exact (Position.writing.inj hposition).1.symm
  · intro hposition
    cases hposition
  · show [] = (initialData bc).take 0
    exact List.take_zero.symm

/-- More of the client's block goes into the stream. -/
theorem GoesRound.clientDelivers (h : GoesRound bc p) {n : ℕ} {r : Position × Channel Byte none}
    (hdeliver : deliver p.client.position p.toServer n = some r) :
    GoesRound bc { p with client := { p.client with position := r.1 }, toServer := r.2 } := by
  obtain ⟨position, out⟩ := r
  obtain ⟨data, delivered, hposition, rfl, hout, -⟩ := deliver_moves hdeliver
  have hbytes := h.bytes
  rw [hposition] at hbytes
  constructor
  · intro data' delivered' heq
    rw [← (Position.writing.inj heq).1]
    exact h.data data delivered hposition
  · intro heq
    cases heq
  · show p.toClient.contents ++ p.server.position.undelivered ++ out.contents =
      data.take (delivered + n)
    rw [hout, ← List.append_assoc, hbytes, List.take_add]
    rfl

theorem GoesRound.clientWritten (h : GoesRound bc p) {length : ℕ}
    (hwritten : written p.client.position = some length) :
    GoesRound bc { p with client := p.client.wrote length } := by
  obtain ⟨data, hposition, -⟩ := written_eq_some hwritten
  have hbytes := h.bytes
  rw [hposition] at hbytes
  constructor
  · intro data' delivered heq
    cases heq
  · intro heq
    cases heq
  · show _ = initialData bc
    rw [← h.data data _ hposition]
    exact hbytes.trans (List.take_length)

/-- A whole block is back, so that nothing is left on the way. -/
theorem GoesRound.clientReads (h : GoesRound bc p) {data : List Byte} {rest : Channel Byte none}
    (hread : read p.client.position p.toClient bc = some (data, rest)) :
    GoesRound bc { p with client := p.client.read data, toClient := rest } := by
  obtain ⟨hposition, hlength, -, -⟩ := read_eq_some hread
  have hbytes := h.bytes
  rw [hposition, read_contents hread, List.append_assoc, List.append_assoc] at hbytes
  obtain ⟨hdata, hrest⟩ : data = initialData bc ∧
      rest.contents ++ (p.server.position.undelivered ++ p.toServer.contents) = [] := by
    apply List.append_inj
    · rw [List.append_nil]
      exact hbytes
    · rw [hlength, length_initialData]
  constructor
  · intro data' delivered heq
    rw [← (Position.writing.inj heq).1]
    exact hdata
  · intro heq
    cases heq
  · show rest.contents ++ p.server.position.undelivered ++ p.toServer.contents = data.take 0
    rw [List.append_assoc, hrest, List.take_zero]

theorem GoesRound.serverDelivers (h : GoesRound bc p) {n : ℕ} {r : Position × Channel Byte none}
    (hdeliver : deliver p.server.position p.toClient n = some r) :
    GoesRound bc { p with server := { p.server with position := r.1 }, toClient := r.2 } := by
  obtain ⟨position, out⟩ := r
  obtain ⟨data, delivered, -, -, hout, hleft⟩ := deliver_moves hdeliver
  refine { h with bytes := ?_ }
  have hbytes := h.bytes
  rw [hleft, ← List.append_assoc, ← hout] at hbytes
  exact hbytes

theorem GoesRound.serverWritten (h : GoesRound bc p) {length : ℕ}
    (hwritten : written p.server.position = some length) :
    GoesRound bc { p with server := { p.server with position := .reading } } := by
  obtain ⟨data, hposition, -⟩ := written_eq_some hwritten
  refine { h with bytes := ?_ }
  have hbytes := h.bytes
  have hnothing : p.server.position.undelivered = [] := by
    rw [hposition]
    exact List.drop_length
  rw [hnothing] at hbytes
  exact hbytes

/-- What the server has read it writes. -/
theorem GoesRound.serverReads (h : GoesRound bc p) {data : List Byte} {rest : Channel Byte none}
    (hread : read p.server.position p.toServer bs = some (data, rest)) :
    GoesRound bc { p with server := p.server.read data, toServer := rest } := by
  obtain ⟨hposition, hlength, hpos, -⟩ := read_eq_some hread
  refine { h with bytes := ?_ }
  have hbytes := h.bytes
  rw [hposition, read_contents hread, ← List.append_assoc] at hbytes
  have hwrites : (p.server.read data).position = .writing data 0 := by
    rw [Server.read, if_neg (by omega)]
  show p.toClient.contents ++ (p.server.read data).position.undelivered ++ rest.contents = _
  rw [hwrites]
  simpa only [Position.undelivered, List.drop_zero, List.append_nil] using hbytes

theorem step_goesRound {e : Event} (h : GoesRound bc p) (hstep : step bc bs p e = some p') :
    GoesRound bc p' := by
  cases e with
  | clientDelivers n =>
      obtain ⟨r, hdeliver, rfl⟩ := Option.map_eq_some_iff.mp hstep
      exact h.clientDelivers hdeliver
  | clientWritten =>
      obtain ⟨length, hwritten, rfl⟩ := Option.map_eq_some_iff.mp hstep
      exact h.clientWritten hwritten
  | clientReads =>
      obtain ⟨⟨data, rest⟩, hread, rfl⟩ := Option.map_eq_some_iff.mp hstep
      exact h.clientReads hread
  | serverDelivers n =>
      obtain ⟨r, hdeliver, rfl⟩ := Option.map_eq_some_iff.mp hstep
      exact h.serverDelivers hdeliver
  | serverWritten =>
      obtain ⟨length, hwritten, rfl⟩ := Option.map_eq_some_iff.mp hstep
      exact h.serverWritten hwritten
  | serverReads =>
      obtain ⟨⟨data, rest⟩, hread, rfl⟩ := Option.map_eq_some_iff.mp hstep
      exact h.serverReads hread

theorem goesRound_reachable (h : (machine bc bs).Reachable p) : GoesRound bc p := by
  induction h with
  | init hinit =>
      obtain rfl : _ = Pair.start bc := hinit
      exact goesRound_start bc
  | step _ _ hstep ih => exact step_goesRound ih hstep

end Steps

/-- Whatever the client writes is the data that it has begun with; and what it has sent of that
and not got back is on its way to it, with the server, or on its way to the server, in this order:
nothing is lost, repeated or reordered, and none of it is left when the client begins to write. -/
theorem block_goes_round {bc bs : ℕ} {p : Pair} (hp : (machine bc bs).Reachable p) :
    (∀ data delivered, p.client.position = .writing data delivered → data = initialData bc) ∧
      p.toClient.contents ++ p.server.position.undelivered ++ p.toServer.contents =
        p.client.position.sent (initialData bc) := by
  have h := goesRound_reachable hp
  exact ⟨h.data, h.bytes⟩

/-- Blocks of three and of two bytes: the first byte is on its way back, the second one is with
the server and the third one has not been sent. -/
theorem block_goes_round_three : ∃ p : Pair, (machine 3 2).Reachable p ∧
    p.client.position = .writing (initialData 3) 2 ∧ p.toClient.contents = [65] ∧
    p.server.position.undelivered = [66] ∧ p.toServer.contents = [] ∧
    p.toClient.contents ++ p.server.position.undelivered ++ p.toServer.contents =
      p.client.position.sent (initialData 3) := by
  have hrun : ∃ p, (machine 3 2).run (Pair.start 3)
      [.clientDelivers 1, .clientDelivers 1, .serverReads, .serverDelivers 1] = some p ∧
      p.client.position = .writing (initialData 3) 2 ∧ p.toClient.contents = [65] ∧
      p.server.position.undelivered = [66] ∧ p.toServer.contents = [] :=
    ⟨_, rfl, rfl, rfl, rfl, rfl⟩
  obtain ⟨p, hrun, hposition, hback, hserver, hon⟩ := hrun
  have hp : (machine 3 2).Reachable p := (Machine.Reachable.init rfl).run hrun
  exact ⟨p, hp, hposition, hback, hserver, hon, (block_goes_round hp).2⟩

end CppCoroutines.Blocks
