import CppCoroutines.Classic.Pair

/-!
# When the classic pair can deadlock

Each side stops reading while it has one chunk queued behind an unfinished write.
When both sides do so and both channels are full nothing can happen any more. The
conservation law says how many bytes such a state needs: both channels, and at
least two bytes on either side. A client block of that size does get there.
-/

namespace CppCoroutines.Pair

variable {bc bs : ℕ}

/-! ## A stuck state needs many bytes -/

section Blocked

variable {n : ℕ} {capacity : Option ℕ} {σ : Type} {pre : List (List Byte)} {count : ℤ}
  {d : Duplex n} {handle : IoEvent → Option σ} {incoming outgoing : Channel Byte capacity}

/-- A side that cannot go on has nothing to read unless it has stopped reading. -/
theorem incoming_eq_nil (hn : 0 < n) (h : Duplex.Inv pre count d)
    (hlisten : Duplex.Listening count d)
    (hhandle : ∀ io, d.Enabled io → ∃ s, handle io = some s)
    (hstuck : ∀ e : Progress, e.step d handle incoming outgoing = none) (hcount : count ≠ 2) :
    incoming.contents = [] := by
  by_contra hne
  rcases Channel.exists_receive_one hne with ⟨x, rest, hreceive, -⟩
  have henabled : d.Enabled (.readDone ⟨d.readData, n⟩ [x]) :=
    ⟨h.exists_read hlisten hcount, hn⟩
  rcases hhandle _ henabled with ⟨s, hs⟩
  have hnone := hstuck (.read ⟨d.readData, n⟩ 1)
  simp [Progress.step, hreceive, hs] at hnone

/-- A side that cannot go on but has a chunk to write finds its outgoing channel full,
with part of its write still to be transmitted. -/
theorem outgoing_full (h : Duplex.Inv pre count d) (hlive : Duplex.Live pre count d)
    (hhandle : ∀ io, d.Enabled io → ∃ s, handle io = some s)
    (hstuck : ∀ e : Progress, e.step d handle incoming outgoing = none) (hcount : count ≠ 0) :
    outgoing.Full ∧ 0 < (d.writes.map fun op => op.length - op.transferred).sum := by
  rcases h.exists_write hlive hcount with ⟨op, hop, hone, hcarries⟩
  have hlt : op.transferred < op.length := by
    by_contra hge
    have hdone : op.transferred = op.length := Nat.le_antisymm hcarries.transferred_le (by omega)
    have henabled : d.Enabled (.writeDone op) := ⟨hop, hdone⟩
    rcases hhandle _ henabled with ⟨s, hs⟩
    have hnone := hstuck (.writeDone op)
    simp [Progress.step, hs] at hnone
  constructor
  · have hslice : ((d.heap op.buffer).slice op.transferred 1).length = 1 :=
      Block.length_slice _ (Nat.le_trans hlt hcarries.length_le)
    apply Channel.full_of_send_eq_none hslice
    have henabled : d.Enabled (.transmit op 1) := ⟨hop, Nat.one_pos, hlt⟩
    rcases hhandle _ henabled with ⟨s, hs⟩
    have hnone := hstuck (.transmit op 1)
    cases hsend : outgoing.send ((d.heap op.buffer).slice op.transferred 1) with
    | none => rfl
    | some out => simp [Progress.step, hsend, hs] at hnone
  · rw [hone, List.map_singleton, List.sum_singleton]
    omega

/-- With two unsent chunks it holds at least two bytes. -/
theorem two_le_held (h : Duplex.Inv pre 2 d) (hlive : Duplex.Live pre 2 d)
    (hpos : 0 < (d.writes.map fun op => op.length - op.transferred).sum) : 2 ≤ d.held 2 := by
  have hqueued := h.queued_pos hlive
  unfold Duplex.held
  omega

/-- With nothing unsent it holds none. -/
theorem held_eq_zero (h : Duplex.Inv pre 0 d) : d.held 0 = 0 := by
  simp [Duplex.held, Duplex.queued, h.writes_eq_nil]

end Blocked

/-- A stuck state of the pair: both sides have two unsent chunks and both channels are
full, so that the client block fills both channels and four bytes more. -/
theorem Inv.of_stuck {capacity : Option ℕ} {p : Pair bc bs capacity} (h : Inv p) (hbc : 0 < bc)
    (hbs : 0 < bs) (hcapacity : capacity ≠ some 0) (hstuck : (machine bc bs capacity).Stuck p) :
    ∃ c, capacity = some c ∧ 2 * c + 4 ≤ bc := by
  -- the accept has been handled
  have hstarted : p.server.started = true := by
    by_contra hne
    have hnone := hstuck .accept
    simp [machine, step, ClassicServer.step, hne] at hnone
  have hclient : ∀ e : Progress, e.step p.client.toDuplex
      (fun io => ClassicClient.step p.client (.io io)) p.down p.up = none :=
    fun e => Option.map_eq_none_iff.mp (hstuck (.client e))
  have hserver : ∀ e : Progress, e.step p.server.toDuplex
      (fun io => ClassicServer.step p.server (.io io)) p.up p.down = none :=
    fun e => Option.map_eq_none_iff.mp (hstuck (.server e))
  have hdown := incoming_eq_nil hbc h.clientDuplex h.clientListening
    (fun io => ClassicClient.exists_step) hclient
  have hup := incoming_eq_nil hbs h.server.duplex (h.serverListening hstarted)
    (fun io => ClassicServer.exists_step) hserver
  have hupFull := outgoing_full h.clientDuplex h.clientLive
    (fun io => ClassicClient.exists_step) hclient
  have hdownFull := outgoing_full h.server.duplex h.serverLive
    (fun io => ClassicServer.exists_step) hserver
  have htotal := h.total
  -- a full channel is not empty
  have hne : ∀ ch : Channel Byte capacity, ch.Full → ch.contents ≠ [] := by
    intro ch hfull hnil
    rw [Channel.Full, hnil] at hfull
    exact hcapacity hfull
  have hserver2 : p.server.unsentCount = 2 := by
    by_contra h2
    -- nothing to read at the server: the client has nothing to write, and so on round the loop
    have hupNil := hup h2
    have hclient0 : p.client.unwrittenCount = 0 := by
      by_contra h0
      exact hne p.up (hupFull h0).1 hupNil
    have hdownNil : p.down.contents = [] := hdown (by omega)
    have hserver0 : p.server.unsentCount = 0 := by
      by_contra h0
      exact hne p.down (hdownFull h0).1 hdownNil
    have hheldClient := held_eq_zero (hclient0 ▸ h.clientDuplex)
    have hheldServer := held_eq_zero (hserver0 ▸ h.server.duplex)
    rw [hclient0, hserver0, hheldClient, hheldServer, hupNil, hdownNil] at htotal
    simp at htotal
    omega
  have hclient2 : p.client.unwrittenCount = 2 := by
    by_contra h2
    exact hne p.down (hdownFull (by omega)).1 (hdown h2)
  rcases hupFull (by omega) with ⟨hfullUp, hposClient⟩
  rcases hdownFull (by omega) with ⟨hfullDown, hposServer⟩
  have hheldClient := two_le_held (hclient2 ▸ h.clientDuplex) (hclient2 ▸ h.clientLive) hposClient
  have hheldServer := two_le_held (hserver2 ▸ h.server.duplex) (hserver2 ▸ h.serverLive) hposServer
  have hsame : p.up.contents.length = p.down.contents.length :=
    Option.some.inj (hfullUp.symm.trans hfullDown)
  refine ⟨p.up.contents.length, hfullUp, ?_⟩
  rw [hclient2, hserver2] at htotal
  omega

/-! ## A schedule that gets stuck -/

/-- An enabled event of the client is a move of its double buffer. -/
theorem Inv.client_can {capacity : Option ℕ} {p : Pair bc bs capacity} (h : Inv p) {io : IoEvent}
    (henabled : p.client.toDuplex.Enabled io) (hio : io.Succeeds) :
    ∃ s, ClassicClient.step p.client (.io io) = some s ∧
      p.client.toDuplex.Moves p.client.unwrittenCount io s.unwrittenCount s.toDuplex := by
  rcases ClassicClient.exists_step henabled with ⟨s, hs⟩
  exact ⟨s, hs, ClassicClient.step_moves h.clientDuplex h.clientLive hs hio⟩

/-- So is an enabled event of the server. -/
theorem Inv.server_can {capacity : Option ℕ} {p : Pair bc bs capacity} (h : Inv p) {io : IoEvent}
    (henabled : p.server.toDuplex.Enabled io) (hio : io.Succeeds) :
    ∃ s, ClassicServer.step p.server (.io io) = some s ∧
      p.server.toDuplex.Moves p.server.unsentCount io s.unsentCount s.toDuplex := by
  rcases ClassicServer.exists_step henabled with ⟨s, hs⟩
  exact ⟨s, hs, ClassicServer.step_moves h.server hs hio⟩

section Schedule

variable {c : ℕ} {p : Pair bc bs (some c)}

/-- A point of the schedule: the client transmits its block, `transferred` bytes of it
are gone; the server writes single bytes, `pending` of the current one is gone; and so
many bytes are in the two channels. -/
structure At (unwritten : ℤ) (transferred up : ℕ) (unsent : ℤ) (pending down : ℕ)
    (p : Pair bc bs (some c)) : Prop where
  reachable : (machine bc bs (some c)).Reachable p
  unwritten : p.client.unwrittenCount = unwritten
  clientWrites : ∀ op ∈ p.client.writes, op.length = bc ∧ op.transferred = transferred
  up : p.up.contents.length = up
  started : p.server.started = true
  unsent : p.server.unsentCount = unsent
  serverWrites : ∀ op ∈ p.server.writes, op.length = 1 ∧ op.transferred = pending
  down : p.down.contents.length = down

variable {unwritten unsent : ℤ} {transferred up pending down : ℕ}

theorem At.inv (hbc : 0 < bc) (h : At unwritten transferred up unsent pending down p) : Inv p :=
  (inductive_inv hbc).reachable h.reachable

theorem reachable_client {e : Progress} {s : ClassicClient.Session bc}
    {up down : Channel Byte (some c)} (hp : (machine bc bs (some c)).Reachable p)
    (he : e.step p.client.toDuplex (fun io => ClassicClient.step p.client (.io io)) p.down p.up =
      some (s, down, up)) :
    (machine bc bs (some c)).Reachable { p with client := s, up := up, down := down } :=
  hp.step (.client e) (Option.map_eq_some_iff.mpr ⟨_, he, rfl⟩)

theorem reachable_server {e : Progress} {s : ClassicServer.Session bs}
    {up down : Channel Byte (some c)} (hp : (machine bc bs (some c)).Reachable p)
    (he : e.step p.server.toDuplex (fun io => ClassicServer.step p.server (.io io)) p.up p.down =
      some (s, up, down)) :
    (machine bc bs (some c)).Reachable { p with server := s, up := up, down := down } :=
  hp.step (.server e) (Option.map_eq_some_iff.mpr ⟨_, he, rfl⟩)

/-- The client transmits `k` bytes of its block. -/
theorem At.client_transmits (hbc : 0 < bc)
    (h : At unwritten transferred up unsent pending down p) (hunwritten : unwritten ≠ 0) {k : ℕ}
    (hk : 0 < k) (hblock : transferred + k ≤ bc) (hroom : up + k ≤ c) :
    ∃ p' : Pair bc bs (some c),
      At unwritten (transferred + k) (up + k) unsent pending down p' := by
  have hinv := h.inv hbc
  rcases hinv.clientDuplex.exists_write hinv.clientLive (h.unwritten ▸ hunwritten)
    with ⟨op, hop, hone, hcarries⟩
  rcases h.clientWrites op hop with ⟨hlength, htransferred⟩
  have henabled : p.client.toDuplex.Enabled (.transmit op k) :=
    ⟨hop, hk, by rw [hlength, htransferred]; exact hblock⟩
  rcases hinv.client_can henabled trivial with ⟨s, hs, hmove⟩
  have hslice : ((p.client.heap op.buffer).slice op.transferred k).length = k :=
    Block.length_slice _ (by rw [htransferred]; exact hblock)
  rcases p.up.exists_send ((p.client.heap op.buffer).slice op.transferred k)
    (by rintro _ ⟨⟩; rw [hslice, h.up]; exact hroom) with ⟨out, hout, hcontents⟩
  rcases hmove.transmit_eq with ⟨hcount, hduplex⟩
  have hprogress : (Progress.transmit op k).step p.client.toDuplex
      (fun io => ClassicClient.step p.client (.io io)) p.down p.up = some (s, p.down, out) := by
    simp [Progress.step, hout, hs]
  refine ⟨_, reachable_client h.reachable hprogress, ?_, ?_, ?_, h.started, h.unsent,
    h.serverWrites, h.down⟩
  · exact hcount.trans h.unwritten
  · intro op' hop'
    have hmem : op' ∈ s.toDuplex.writes := hop'
    rw [hduplex, Duplex.transmit, hone] at hmem
    simp at hmem
    rw [hmem]
    exact ⟨hlength, by rw [htransferred]⟩
  · show out.contents.length = up + k
    rw [hcontents, List.length_append, hslice, h.up]

/-- The server reads one byte: it writes it at once or queues it. -/
theorem At.server_reads (hbc : 0 < bc) (hbs : 0 < bs)
    (h : At unwritten transferred (up + 1) unsent 0 down p) (hunsent : unsent ≠ 2) :
    ∃ p' : Pair bc bs (some c), At unwritten transferred up (unsent + 1) 0 down p' := by
  have hinv := h.inv hbc
  have hread := hinv.server.duplex.exists_read (hinv.serverListening h.started)
    (h.unsent ▸ hunsent)
  have hne : p.up.contents ≠ [] := List.length_pos_iff.mp (by rw [h.up]; omega)
  rcases Channel.exists_receive_one hne with ⟨x, rest, hreceive, hlength⟩
  have henabled : p.server.toDuplex.Enabled (.readDone ⟨p.server.readData, bs⟩ [x]) :=
    ⟨hread, hbs⟩
  rcases hinv.server_can henabled (List.cons_ne_nil x []) with ⟨s, hs, hmove⟩
  have hprogress : (Progress.read ⟨p.server.readData, bs⟩ 1).step p.server.toDuplex
      (fun io => ClassicServer.step p.server (.io io)) p.up p.down = some (s, rest, p.down) := by
    simp [Progress.step, hreceive, hs]
  have hrest : rest.contents.length = up := Nat.add_right_cancel (hlength.symm.trans h.up)
  have hstarted : s.started = true := (ClassicServer.step_io hs).2.trans h.started
  rcases hmove.readDone_cases with ⟨h0, hcount, hduplex⟩ | ⟨h1, hcount, hduplex⟩
  · refine ⟨_, reachable_server h.reachable hprogress, h.unwritten, h.clientWrites, hrest,
      hstarted, ?_, ?_, h.down⟩
    · rw [← h.unsent, h0]
      exact hcount
    · -- the byte is written at once
      intro op hop
      have hmem : op ∈ s.toDuplex.writes := hop
      have hnil : p.server.writes = [] := (h0 ▸ hinv.server.duplex).writes_eq_nil
      simp [hduplex, Duplex.swapWriteRead, Duplex.asyncWrite, Duplex.asyncReadSome,
        Duplex.setReadDataLength, Duplex.finishRead, Duplex.swap, hnil] at hmem
      rw [hmem]
      exact ⟨rfl, rfl⟩
  · refine ⟨_, reachable_server h.reachable hprogress, h.unwritten, h.clientWrites, hrest,
      hstarted, ?_, ?_, h.down⟩
    · rw [← h.unsent, h1]
      exact hcount
    · intro op hop
      have hmem : op ∈ s.toDuplex.writes := hop
      rw [hduplex] at hmem
      exact h.serverWrites op hmem

/-- The server transmits its byte. -/
theorem At.server_transmits (hbc : 0 < bc)
    (h : At unwritten transferred up unsent 0 down p) (hunsent : unsent ≠ 0) (hroom : down + 1 ≤ c) :
    ∃ p' : Pair bc bs (some c), At unwritten transferred up unsent 1 (down + 1) p' := by
  have hinv := h.inv hbc
  rcases hinv.server.duplex.exists_write hinv.serverLive (h.unsent ▸ hunsent)
    with ⟨op, hop, hone, hcarries⟩
  rcases h.serverWrites op hop with ⟨hlength, htransferred⟩
  have hle : op.transferred + 1 ≤ op.length := by omega
  have henabled : p.server.toDuplex.Enabled (.transmit op 1) := ⟨hop, Nat.one_pos, hle⟩
  rcases hinv.server_can henabled trivial with ⟨s, hs, hmove⟩
  have hslice : ((p.server.heap op.buffer).slice op.transferred 1).length = 1 :=
    Block.length_slice _ (Nat.le_trans hle hcarries.length_le)
  rcases p.down.exists_send ((p.server.heap op.buffer).slice op.transferred 1)
    (by rintro _ ⟨⟩; rw [hslice, h.down]; exact hroom) with ⟨out, hout, hcontents⟩
  rcases hmove.transmit_eq with ⟨hcount, hduplex⟩
  have hprogress : (Progress.transmit op 1).step p.server.toDuplex
      (fun io => ClassicServer.step p.server (.io io)) p.up p.down = some (s, p.up, out) := by
    simp [Progress.step, hout, hs]
  have hstarted : s.started = true := (ClassicServer.step_io hs).2.trans h.started
  refine ⟨_, reachable_server h.reachable hprogress, h.unwritten, h.clientWrites, h.up, hstarted,
    hcount.trans h.unsent, ?_, ?_⟩
  · intro op' hop'
    have hmem : op' ∈ s.toDuplex.writes := hop'
    rw [hduplex, Duplex.transmit, hone] at hmem
    simp at hmem
    rw [hmem]
    exact ⟨hlength, by rw [htransferred]⟩
  · show out.contents.length = down + 1
    rw [hcontents, List.length_append, hslice, h.down]

/-- The write of a byte that has been transmitted completes. -/
theorem At.server_finishes (hbc : 0 < bc) (h : At unwritten transferred up 1 1 down p) :
    ∃ p' : Pair bc bs (some c), At unwritten transferred up 0 0 down p' := by
  have hinv := h.inv hbc
  rcases hinv.server.duplex.exists_write hinv.serverLive (by rw [h.unsent]; omega)
    with ⟨op, hop, hone, -⟩
  rcases h.serverWrites op hop with ⟨hlength, htransferred⟩
  have henabled : p.server.toDuplex.Enabled (.writeDone op) :=
    ⟨hop, htransferred.trans hlength.symm⟩
  rcases hinv.server_can henabled trivial with ⟨s, hs, hmove⟩
  have hprogress : (Progress.writeDone op).step p.server.toDuplex
      (fun io => ClassicServer.step p.server (.io io)) p.up p.down = some (s, p.up, p.down) := by
    simp [Progress.step, hs]
  have hstarted : s.started = true := (ClassicServer.step_io hs).2.trans h.started
  rcases hmove.writeDone_cases with ⟨-, hcount, hduplex⟩ | ⟨htwo, -, -⟩
  · refine ⟨_, reachable_server h.reachable hprogress, h.unwritten, h.clientWrites, h.up, hstarted,
      hcount, ?_, h.down⟩
    intro op' hop'
    have hmem : op' ∈ s.toDuplex.writes := hop'
    simp [hduplex, Duplex.acknowledge, Duplex.finishWrite, hone] at hmem
  · rw [h.unsent] at htwo
    cases htwo

/-- The client reads one byte while it is still writing its block: it queues it. -/
theorem At.client_reads (hbc : 0 < bc)
    (h : At 1 transferred up unsent pending (down + 1) p) :
    ∃ p' : Pair bc bs (some c), At 2 transferred up unsent pending down p' := by
  have hinv := h.inv hbc
  have hread := hinv.clientDuplex.exists_read hinv.clientListening (by rw [h.unwritten]; omega)
  have hne : p.down.contents ≠ [] := List.length_pos_iff.mp (by rw [h.down]; omega)
  rcases Channel.exists_receive_one hne with ⟨x, rest, hreceive, hlength⟩
  have henabled : p.client.toDuplex.Enabled (.readDone ⟨p.client.readData, bc⟩ [x]) :=
    ⟨hread, hbc⟩
  rcases hinv.client_can henabled (List.cons_ne_nil x []) with ⟨s, hs, hmove⟩
  have hprogress : (Progress.read ⟨p.client.readData, bc⟩ 1).step p.client.toDuplex
      (fun io => ClassicClient.step p.client (.io io)) p.down p.up = some (s, rest, p.up) := by
    simp [Progress.step, hreceive, hs]
  have hrest : rest.contents.length = down := Nat.add_right_cancel (hlength.symm.trans h.down)
  rcases hmove.readDone_cases with ⟨hzero, -, -⟩ | ⟨-, hcount, hduplex⟩
  · rw [h.unwritten] at hzero
    cases hzero
  · refine ⟨_, reachable_client h.reachable hprogress, hcount, ?_, h.up, h.started, h.unsent,
      h.serverWrites, hrest⟩
    intro op hop
    have hmem : op ∈ s.toDuplex.writes := hop
    rw [hduplex] at hmem
    exact h.clientWrites op hmem

/-- One byte goes from the client through the idle server. -/
theorem At.round (hbc : 0 < bc) (hbs : 0 < bs) (h : At unwritten transferred 0 0 0 down p)
    (hunwritten : unwritten ≠ 0) (hblock : transferred + 1 ≤ bc) (hroom : down + 1 ≤ c) :
    ∃ p' : Pair bc bs (some c), At unwritten (transferred + 1) 0 0 0 (down + 1) p' := by
  rcases h.client_transmits hbc hunwritten Nat.one_pos hblock (by omega) with ⟨p₁, h₁⟩
  rcases h₁.server_reads hbc hbs (by omega) with ⟨p₂, h₂⟩
  rcases h₂.server_transmits hbc (by omega) hroom with ⟨p₃, h₃⟩
  exact h₃.server_finishes hbc

/-- Byte after byte fills the channel to the client, which has stopped reading. -/
theorem At.fill (hbc : 0 < bc) (hbs : 0 < bs) (h : At 2 1 0 0 0 0 p) :
    ∀ k, k ≤ c → k + 1 ≤ bc → ∃ p' : Pair bc bs (some c), At 2 (k + 1) 0 0 0 k p' := by
  intro k
  induction k with
  | zero => exact fun _ _ => ⟨p, h⟩
  | succ k ih =>
      intro hk hblock
      rcases ih (by omega) (by omega) with ⟨p', h'⟩
      exact h'.round hbc hbs (by omega) (by omega) hk

/-- The accept is handled right after the connection is made. -/
theorem exists_at_start : ∃ p : Pair bc bs (some c), At 1 0 0 0 0 0 p := by
  have hinit : (machine bc bs (some c)).Reachable
      (new (Block.zero bc) fun _ => Block.zero bs) := Machine.Reachable.init ⟨_, _, rfl⟩
  refine ⟨_, hinit.step .accept rfl, rfl, ?_, rfl, rfl, rfl, nofun, rfl⟩
  intro op hop
  rw [List.mem_singleton.mp hop]
  exact ⟨rfl, rfl⟩

/-- A side with two unsent chunks, part of the older one still to be transmitted into a
full channel, can do nothing. -/
theorem side_stuck {n : ℕ} {capacity : Option ℕ} {σ : Type} {pre : List (List Byte)}
    {d : Duplex n} {handle : IoEvent → Option σ} {incoming outgoing : Channel Byte capacity}
    (h : Duplex.Inv pre 2 d) (hfull : outgoing.Full)
    (hpart : ∀ op ∈ d.writes, op.transferred ≠ op.length)
    (hhandle : ∀ io, ¬ d.Enabled io → handle io = none) (e : Progress) :
    e.step d handle incoming outgoing = none := by
  cases e with
  | read op k =>
      apply Option.bind_eq_none_iff.mpr
      intro r _
      have hdisabled : ¬ d.Enabled (.readDone op r.1) := by
        rintro ⟨hop, -⟩
        rw [h.reads_eq_nil] at hop
        cases hop
      rw [hhandle _ hdisabled]
      rfl
  | transmit op k =>
      by_cases henabled : d.Enabled (.transmit op k)
      · -- there is something to transmit, but no room for it
        rcases henabled with ⟨hop, hk, hle⟩
        rcases h.write_eq hop with ⟨-, hcarries, -⟩
        have hslice := Block.length_slice (d.heap op.buffer) (Nat.le_trans hle hcarries.length_le)
        have hne : (d.heap op.buffer).slice op.transferred k ≠ [] :=
          List.length_pos_iff.mp (by omega)
        simp [Progress.step, hfull.send_eq_none hne]
      · apply Option.bind_eq_none_iff.mpr
        intro out _
        rw [hhandle _ henabled]
        rfl
  | writeDone op =>
      have hdisabled : ¬ d.Enabled (.writeDone op) := by
        rintro ⟨hop, hdone⟩
        exact hpart op hop hdone
      simp [Progress.step, hhandle _ hdisabled]

/-- Two chunks unsent on both sides and both channels full: the pair is stuck. -/
theorem At.stuck (hbc : 0 < bc) (h : At 2 transferred c 2 0 c p) (hblock : transferred < bc) :
    (machine bc bs (some c)).Stuck p := by
  have hinv := h.inv hbc
  intro e
  cases e with
  | accept => simp [machine, step, ClassicServer.step, h.started]
  | client e =>
      apply Option.map_eq_none_iff.mpr
      apply side_stuck (h.unwritten ▸ hinv.clientDuplex) (congrArg some h.up.symm)
      · intro op hop
        rw [(h.clientWrites op hop).1, (h.clientWrites op hop).2]
        exact Nat.ne_of_lt hblock
      · exact fun io => ClassicClient.step_eq_none
  | server e =>
      apply Option.map_eq_none_iff.mpr
      apply side_stuck (h.unsent ▸ hinv.server.duplex) (congrArg some h.down.symm)
      · intro op hop
        rw [(h.serverWrites op hop).1, (h.serverWrites op hop).2]
        decide
      · exact fun io => ClassicServer.step_eq_none

/-- A client block long enough to fill both channels and four bytes more can get stuck. -/
theorem exists_reachable_stuck (hbs : 0 < bs) (hc : 0 < c) (hbc : 2 * c + 4 ≤ bc) :
    ∃ p : Pair bc bs (some c), (machine bc bs (some c)).Reachable p ∧
      (machine bc bs (some c)).Stuck p := by
  have hpos : 0 < bc := by omega
  -- one byte comes round, so that the client has a second chunk and stops reading
  rcases exists_at_start with ⟨p₀, h₀⟩
  rcases h₀.round hpos hbs (by omega) (by omega) hc with ⟨p₁, h₁⟩
  rcases h₁.client_reads hpos with ⟨p₂, h₂⟩
  -- the channel to the client is filled, then the server gets two chunks that it cannot send
  rcases h₂.fill hpos hbs c (Nat.le_refl c) (by omega) with ⟨p₃, h₃⟩
  rcases h₃.client_transmits hpos (by omega) Nat.one_pos (by omega) (by omega) with ⟨p₄, h₄⟩
  rcases h₄.server_reads hpos hbs (by omega) with ⟨p₅, h₅⟩
  rcases h₅.client_transmits hpos (by omega) Nat.one_pos (by omega) (by omega) with ⟨p₆, h₆⟩
  rcases h₆.server_reads hpos hbs (by omega) with ⟨p₇, h₇⟩
  -- the rest of the room is filled with bytes that nobody reads
  rcases h₇.client_transmits hpos (by omega) hc (by omega) (by omega) with ⟨p, h⟩
  have hlast : At 2 (c + 3 + c) c 2 0 c p := by
    rw [Nat.zero_add] at h
    exact h
  exact ⟨p, h.reachable, hlast.stuck hpos (by omega)⟩

end Schedule

/-! ## The exact bound -/

/-- The pair with channels of capacity `c` in both directions never deadlocks exactly
when the client block is at most three bytes longer than both channels together. -/
theorem deadlock_free_iff (bc bs c : ℕ) (hbc : 0 < bc) (hbs : 0 < bs) (hc : 0 < c) :
    (∀ p, (machine bc bs (some c)).Reachable p → ¬ (machine bc bs (some c)).Stuck p) ↔
      bc ≤ 2 * c + 3 := by
  constructor
  · intro hfree
    by_contra hgt
    have hlong : 2 * c + 4 ≤ bc := by omega
    rcases exists_reachable_stuck hbs hc hlong with ⟨p, hp, hstuck⟩
    exact hfree p hp hstuck
  · intro hle p hp hstuck
    have hinv : Inv p := (inductive_inv hbc).reachable hp
    have hcapacity : some c ≠ some 0 := fun h0 => Nat.ne_of_gt hc (Option.some.inj h0)
    rcases hinv.of_stuck hbc hbs hcapacity hstuck with ⟨c', hc', hgt⟩
    rw [Option.some.injEq] at hc'
    omega

/-- Seven bytes through channels of two. -/
theorem deadlock_free_seven :
    7 ≤ 2 * 2 + 3 ∧ ∀ p, (machine 7 1 (some 2)).Reachable p → ¬ (machine 7 1 (some 2)).Stuck p := by
  have hle : 7 ≤ 2 * 2 + 3 := by omega
  exact ⟨hle, (deadlock_free_iff 7 1 2 (by omega) (by omega) (by omega)).mpr hle⟩

/-- A run of a client with blocks of six bytes and a server with blocks of one. -/
def deadlockEvents : List Event :=
  -- a byte comes round: the client queues it behind its block
  [ .accept, .client (.transmit ⟨0, .second, 6, 0⟩ 1), .server (.read ⟨.first, 1⟩ 1),
    .server (.transmit ⟨0, .first, 1, 0⟩ 1), .server (.writeDone ⟨0, .first, 1, 1⟩),
    .client (.read ⟨.first, 6⟩ 1),
    -- a second one stays in the channel
    .client (.transmit ⟨0, .second, 6, 1⟩ 1), .server (.read ⟨.second, 1⟩ 1),
    .server (.transmit ⟨1, .second, 1, 0⟩ 1), .server (.writeDone ⟨1, .second, 1, 1⟩),
    -- two more stay in the server, and a last one before it
    .client (.transmit ⟨0, .second, 6, 2⟩ 1), .server (.read ⟨.first, 1⟩ 1),
    .client (.transmit ⟨0, .second, 6, 3⟩ 1), .server (.read ⟨.second, 1⟩ 1),
    .client (.transmit ⟨0, .second, 6, 4⟩ 1)]

/-- Six bytes through channels of one deadlock: in the last state the client has one byte
of its block left to transmit and one queued, the server one and one, and both channels
hold their byte. -/
theorem six_bytes_deadlock :
    ∃ p : Pair 6 1 (some 1),
      (machine 6 1 (some 1)).run (new (Block.zero 6) fun _ => Block.zero 1) deadlockEvents =
        some p ∧
      (machine 6 1 (some 1)).Stuck p := by
  have hrun : ∃ p : Pair 6 1 (some 1),
      (machine 6 1 (some 1)).run (new (Block.zero 6) fun _ => Block.zero 1) deadlockEvents =
        some p ∧
      p.client.unwrittenCount = 2 ∧ p.client.writes = [⟨0, .second, 6, 5⟩] ∧
      p.up.contents.length = 1 ∧ p.server.started = true ∧ p.server.unsentCount = 2 ∧
      p.server.writes = [⟨2, .first, 1, 0⟩] ∧ p.down.contents.length = 1 :=
    ⟨_, rfl, rfl, rfl, rfl, rfl, rfl, rfl, rfl⟩
  rcases hrun with ⟨p, hrun, hunwritten, hclient, hup, hstarted, hunsent, hserver, hdown⟩
  have hinit : (machine 6 1 (some 1)).Reachable (new (Block.zero 6) fun _ => Block.zero 1) :=
    Machine.Reachable.init ⟨_, _, rfl⟩
  have hlast : At 2 5 1 2 0 1 p := by
    refine ⟨hinit.run hrun, hunwritten, ?_, hup, hstarted, hunsent, ?_, hdown⟩
    · intro op hop
      rw [hclient] at hop
      rw [List.mem_singleton.mp hop]
      exact ⟨rfl, rfl⟩
    · intro op hop
      rw [hserver] at hop
      rw [List.mem_singleton.mp hop]
      exact ⟨rfl, rfl⟩
  exact ⟨p, hrun, hlast.stuck (by omega) (by omega)⟩

end CppCoroutines.Pair
