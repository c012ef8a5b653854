import CppCoroutines.Await.Client
import CppCoroutines.Await.Server
import CppCoroutines.Channel
import CppCoroutines.HalfDuplex

/-!
# The coroutine pair

A session of `client.cpp` connected to a session of `server.cpp` or of `hard2.cpp` by two FIFO
byte channels. A coroutine waits for one operation at a time: while it writes it does not
read. A read takes any positive number of the available bytes up to the block size, a write
hands over its bytes in any portions. Nothing fails and nothing is stopped.
-/

namespace CppCoroutines.AwaitPair

/-! ## One side -/

/-- The code of a session, with what its surroundings need of it. -/
structure Party (σ Reply Out : Type) where
  program : Coroutine.Program σ SessionOp Reply Out
  /-- a completion, while nothing stops the session -/
  reply : SessionReply → Reply
  /-- the array that its writes are given -/
  outgoing : σ → List Byte

/-- A session, and how many bytes of its write have been transmitted. -/
structure Endpoint (σ Out : Type) where
  frame : Coroutine.Frame σ SessionOp Out
  transferred : ℕ
  /-- history: the bytes transmitted -/
  sent : List Byte

/-- What happens to the operation of one side. -/
inductive Progress where
  | read (count : ℕ)
  | transmit (count : ℕ)
  | written
deriving DecidableEq, Repr

variable {σ τ Reply Reply' Out Out' : Type} {capacity : Option ℕ}

/-- One side between the channel it reads from and the channel it writes to. -/
def Party.step (P : Party σ Reply Out) (e : Endpoint σ Out)
    (incoming outgoing : Channel Byte capacity) :
    Progress → Option (Endpoint σ Out × Channel Byte capacity × Channel Byte capacity)
  | .read count =>
      match e.frame.point with
      | .awaiting .readSome => (incoming.receive count).bind fun r =>
          (P.program.step e.frame (P.reply (.read none r.1))).map fun f =>
            (⟨f, 0, e.sent⟩, r.2, outgoing)
      | _ => none
  | .transmit count =>
      match e.frame.point with
      | .awaiting (.write length) =>
          if 0 < count ∧ e.transferred + count ≤ length then
            let bytes := ((P.outgoing e.frame.locals).drop e.transferred).take count
            (outgoing.send bytes).map fun outgoing =>
              (⟨e.frame, e.transferred + count, e.sent ++ bytes⟩, incoming, outgoing)
          else none
      | _ => none
  | .written =>
      match e.frame.point with
      | .awaiting (.write length) =>
          if e.transferred = length then
            (P.program.step e.frame (P.reply (.wrote none length))).map fun f =>
              (⟨f, 0, e.sent⟩, incoming, outgoing)
          else none
      | _ => none

/-! ## Both sides -/

/-- The two sessions and the channels between them. -/
structure Pair (σ τ Out Out' : Type) (capacity : Option ℕ) where
  client : Endpoint σ Out
  server : Endpoint τ Out'
  up : Channel Byte capacity
  down : Channel Byte capacity

inductive Event where
  | client (e : Progress)
  | server (e : Progress)
deriving DecidableEq, Repr

def step (P : Party σ Reply Out) (Q : Party τ Reply' Out') (p : Pair σ τ Out Out' capacity) :
    Event → Option (Pair σ τ Out Out' capacity)
  | .client e => (P.step p.client p.down p.up e).map fun r =>
      { p with client := r.1, down := r.2.1, up := r.2.2 }
  | .server e => (Q.step p.server p.up p.down e).map fun r =>
      { p with server := r.1, up := r.2.1, down := r.2.2 }

/-- The pair from these two frames on. -/
def machine (P : Party σ Reply Out) (Q : Party τ Reply' Out')
    (client : Coroutine.Frame σ SessionOp Out) (server : Coroutine.Frame τ SessionOp Out')
    (capacity : Option ℕ) : Machine (Pair σ τ Out Out' capacity) Event where
  init p := p = ⟨⟨client, 0, []⟩, ⟨server, 0, []⟩, Channel.empty, Channel.empty⟩
  step := step P Q

/-- `session` of `client.cpp`, as long as `stop` is not set. -/
def client (bc : ℕ) : Party (AwaitClient.Session bc) AwaitClient.Reply (Outcome (UInt64 × UInt64)) where
  program := AwaitClient.session bc
  reply io := ⟨io, false⟩
  outgoing s := s.writeData.bytes

/-- `session` of `server.cpp`. -/
def server (bs : ℕ) : Party (AwaitServer.Session bs) SessionReply (Outcome Unit) where
  program := AwaitServer.session bs
  reply := id
  outgoing s := s.writeData.bytes

/-- `session` of `hard2.cpp`. -/
def hard2 (bs : ℕ) : Party (Hard2.Session bs) SessionReply (Outcome Unit) where
  program := Hard2.session bs
  reply := id
  outgoing s := s.buf.bytes

/-- The client after the connection. -/
def connected (bc : ℕ) : AwaitClient.Frame bc := AwaitClient.Session.new.loop false

/-- The client of `client.cpp` and the server of `server.cpp`, connected. -/
def serverMachine (bc bs : ℕ) (capacity : Option ℕ) :=
  machine (client bc) (server bs) (connected bc) (AwaitServer.Session.start none) capacity

/-- The client of `client.cpp` and the server of `hard2.cpp`, connected. -/
def hard2Machine (bc bs : ℕ) (capacity : Option ℕ) :=
  machine (client bc) (hard2 bs) (connected bc) (Hard2.Session.start none) capacity

/-! ## Sessions that take turns -/

/-- What the session is doing, as far as the lengths go. -/
def Endpoint.activity (e : Endpoint σ Out) : HalfDuplex.Activity :=
  match e.frame.point with
  | .awaiting (.write length) => .sending (length - e.transferred)
  | _ => .receiving

/-- A session that reads and writes in turns: after a chunk it writes so much. -/
structure TakesTurns (P : Party σ Reply Out) (good : Coroutine.Frame σ SessionOp Out → Prop)
    (turns : HalfDuplex.Party) : Prop where
  point : ∀ f, good f → f.point = .awaiting .readSome ∨
    ∃ length, f.point = .awaiting (.write length) ∧ length ≤ (P.outgoing f.locals).length
  read : ∀ f chunk, good f → f.point = .awaiting .readSome → chunk.length ≤ turns.block →
    ∃ f', P.program.step f (P.reply (.read none chunk)) = some f' ∧ good f' ∧
      f'.point = .awaiting (.write (turns.answer chunk.length))
  tooLong : ∀ f chunk, good f → f.point = .awaiting .readSome → turns.block < chunk.length →
    P.program.step f (P.reply (.read none chunk)) = none
  written : ∀ f length, good f → f.point = .awaiting (.write length) →
    ∃ f', P.program.step f (P.reply (.wrote none length)) = some f' ∧ good f' ∧
      f'.point = .awaiting .readSome

/-- No more of a write has been transmitted than there is. -/
structure Endpoint.Inv (good : Coroutine.Frame σ SessionOp Out → Prop) (e : Endpoint σ Out) :
    Prop where
  good : good e.frame
  transferred : ∀ length, e.frame.point = .awaiting (.write length) → e.transferred ≤ length

/-- What one side does to its activity and to the lengths of its two channels. -/
def turn (capacity : Option ℕ) (turns : HalfDuplex.Party) (activity : HalfDuplex.Activity)
    (incoming outgoing : ℕ) : Progress → Option (HalfDuplex.Activity × ℕ × ℕ)
  | .read k =>
      if activity = .receiving ∧ 0 < k ∧ k ≤ turns.block ∧ k ≤ incoming then
        some (.sending (turns.answer k), incoming - k, outgoing)
      else none
  | .transmit k =>
      match activity with
      | .sending left =>
          if 0 < k ∧ k ≤ left ∧ ∀ c ∈ capacity, outgoing + k ≤ c then
            some (.sending (left - k), incoming, outgoing + k)
          else none
      | .receiving => none
  | .written => if activity = .sending 0 then some (.receiving, incoming, outgoing) else none

section Side

variable {P : Party σ Reply Out} {good : Coroutine.Frame σ SessionOp Out → Prop}
  {turns : HalfDuplex.Party} {e : Endpoint σ Out} {incoming outgoing : Channel Byte capacity}

/-- The lengths that a step of one side leaves. -/
def lengths (r : Endpoint σ Out × Channel Byte capacity × Channel Byte capacity) :
    HalfDuplex.Activity × ℕ × ℕ :=
  (r.1.activity, r.2.1.contents.length, r.2.2.contents.length)

theorem activity_of_reading (h : e.frame.point = .awaiting .readSome) :
    e.activity = .receiving := by
  rw [Endpoint.activity, h]

theorem activity_of_writing {length : ℕ} (h : e.frame.point = .awaiting (.write length)) :
    e.activity = .sending (length - e.transferred) := by
  rw [Endpoint.activity, h]

/-- A session that reads takes a chunk, if it is not too long, and answers. -/
theorem TakesTurns.step_read (h : TakesTurns P good turns) (he : e.Inv good) (k : ℕ) :
    (P.step e incoming outgoing (.read k)).map lengths =
        turn capacity turns e.activity incoming.contents.length outgoing.contents.length (.read k) ∧
      ∀ r, P.step e incoming outgoing (.read k) = some r → r.1.Inv good := by
  rcases h.point e.frame he.good with hpoint | ⟨length, hpoint, -⟩
  · rw [activity_of_reading hpoint]
    simp only [Party.step, hpoint, turn, true_and]
    cases hreceive : incoming.receive k with
    | none =>
        have hguard : ¬ (0 < k ∧ k ≤ turns.block ∧ k ≤ incoming.contents.length) := by
          rintro ⟨hk, -, hle⟩
          unfold Channel.receive at hreceive
          rw [if_pos ⟨hk, hle⟩] at hreceive
          cases hreceive
        rw [if_neg hguard]
        exact ⟨rfl, nofun⟩
    | some r =>
        rcases r with ⟨chunk, rest⟩
        rcases Channel.receive_eq_some.mp hreceive with ⟨hk, rfl, hcontents⟩
        have hrest : incoming.contents.length = chunk.length + rest.contents.length := by
          rw [← hcontents, List.length_append]
        rcases Nat.lt_or_ge turns.block chunk.length with hlong | hle
        · have hnone := h.tooLong e.frame chunk he.good hpoint hlong
          simp only [Option.bind_some, hnone]
          rw [if_neg (by omega)]
          exact ⟨rfl, nofun⟩
        · rcases h.read e.frame chunk he.good hpoint hle with ⟨f, hstep, hgood, hwrite⟩
          simp only [Option.bind_some, hstep, Option.map_some]
          rw [if_pos ⟨hk, hle, by omega⟩]
          constructor
          · have hactivity : (⟨f, 0, e.sent⟩ : Endpoint σ Out).activity =
                .sending (turns.answer chunk.length) := activity_of_writing hwrite
            simp [lengths, hactivity, hrest]
          · intro r hr
            rw [← Option.some.inj hr]
            exact ⟨hgood, fun _ _ => Nat.zero_le _⟩
  · rw [activity_of_writing hpoint]
    simp [Party.step, hpoint, turn]

/-- A session that writes transmits a part of what is left, if there is room for it. -/
theorem TakesTurns.step_transmit (h : TakesTurns P good turns) (he : e.Inv good) (k : ℕ) :
    (P.step e incoming outgoing (.transmit k)).map lengths =
        turn capacity turns e.activity incoming.contents.length outgoing.contents.length
          (.transmit k) ∧
      ∀ r, P.step e incoming outgoing (.transmit k) = some r → r.1.Inv good := by
  rcases h.point e.frame he.good with hpoint | ⟨length, hpoint, hlength⟩
  · rw [activity_of_reading hpoint]
    simp [Party.step, hpoint, turn]
  · rw [activity_of_writing hpoint]
    have htransferred := he.transferred length hpoint
    simp only [Party.step, hpoint, turn]
    by_cases hk : 0 < k ∧ e.transferred + k ≤ length
    · have hslice : (((P.outgoing e.frame.locals).drop e.transferred).take k).length = k := by
        rw [List.length_take, List.length_drop]
        omega
      rw [if_pos hk]
      cases hsend : outgoing.send (((P.outgoing e.frame.locals).drop e.transferred).take k) with
      | none =>
          have hguard : ¬ (0 < k ∧ k ≤ length - e.transferred ∧
              ∀ c ∈ capacity, outgoing.contents.length + k ≤ c) := by
            rintro ⟨-, -, hroom⟩
            rcases outgoing.exists_send _ (by rw [hslice]; exact hroom) with ⟨out, hout, -⟩
            rw [hsend] at hout
            cases hout
          rw [if_neg hguard]
          exact ⟨rfl, nofun⟩
      | some out =>
          rcases Channel.send_eq_some.mp hsend with ⟨hroom, hcontents⟩
          rw [hslice] at hroom
          rw [if_pos ⟨hk.1, by omega, hroom⟩]
          constructor
          · have hactivity : ∀ sent, (⟨e.frame, e.transferred + k, sent⟩ : Endpoint σ Out).activity =
                .sending (length - (e.transferred + k)) := fun _ => activity_of_writing hpoint
            simp [lengths, hactivity, hcontents, Nat.sub_sub]
            omega
          · intro r hr
            rw [← Option.some.inj hr]
            refine ⟨he.good, ?_⟩
            intro length' hpoint'
            have heq : length = length' := by
              rw [hpoint] at hpoint'
              cases hpoint'
              rfl
            exact heq ▸ hk.2
    · rw [if_neg hk, if_neg (by omega)]
      exact ⟨rfl, nofun⟩

/-- A write that has been transmitted completes, and the session reads. -/
theorem TakesTurns.step_written (h : TakesTurns P good turns) (he : e.Inv good) :
    (P.step e incoming outgoing .written).map lengths =
        turn capacity turns e.activity incoming.contents.length outgoing.contents.length .written ∧
      ∀ r, P.step e incoming outgoing .written = some r → r.1.Inv good := by
  rcases h.point e.frame he.good with hpoint | ⟨length, hpoint, -⟩
  · rw [activity_of_reading hpoint]
    simp [Party.step, hpoint, turn]
  · rw [activity_of_writing hpoint]
    have htransferred := he.transferred length hpoint
    simp only [Party.step, hpoint, turn, HalfDuplex.Activity.sending.injEq]
    by_cases hall : e.transferred = length
    · rcases h.written e.frame length he.good hpoint with ⟨f, hstep, hgood, hread⟩
      rw [if_pos hall, if_pos (by omega), hstep]
      constructor
      · have hactivity : (⟨f, 0, e.sent⟩ : Endpoint σ Out).activity = .receiving := activity_of_reading hread
        simp [lengths, hactivity]
      · intro r hr
        rw [← Option.some.inj hr]
        exact ⟨hgood, fun _ _ => Nat.zero_le _⟩
    · rw [if_neg hall, if_neg (by omega)]
      exact ⟨rfl, nofun⟩

/-- Every step of one side is a turn. -/
theorem TakesTurns.step_eq (h : TakesTurns P good turns) (he : e.Inv good)
    (incoming outgoing : Channel Byte capacity) (pr : Progress) :
    (P.step e incoming outgoing pr).map lengths =
        turn capacity turns e.activity incoming.contents.length outgoing.contents.length pr ∧
      ∀ r, P.step e incoming outgoing pr = some r → r.1.Inv good := by
  cases pr with
  | read k => exact h.step_read he k
  | transmit k => exact h.step_transmit he k
  | written => exact h.step_written he

end Side

/-! ## The pair by its lengths -/

/-- The two parties. -/
def sides (first second : HalfDuplex.Party) : HalfDuplex.Side → HalfDuplex.Party
  | .first => first
  | .second => second

def Pair.lengths (p : Pair σ τ Out Out' capacity) : HalfDuplex.State where
  activity
    | .first => p.client.activity
    | .second => p.server.activity
  channel
    | .first => p.up.contents.length
    | .second => p.down.contents.length

def Progress.event (i : HalfDuplex.Side) : Progress → HalfDuplex.Event
  | .read k => .receive i k
  | .transmit k => .send i k
  | .written => .sent i

def Event.event : Event → HalfDuplex.Event
  | .client e => e.event .first
  | .server e => e.event .second

theorem event_surjective : Function.Surjective Event.event := by
  rintro (⟨i, k⟩ | i | ⟨i, k⟩)
  · cases i with
    | first => exact ⟨.client (.transmit k), rfl⟩
    | second => exact ⟨.server (.transmit k), rfl⟩
  · cases i with
    | first => exact ⟨.client .written, rfl⟩
    | second => exact ⟨.server .written, rfl⟩
  · cases i with
    | first => exact ⟨.client (.read k), rfl⟩
    | second => exact ⟨.server (.read k), rfl⟩

/-- A step of the parties is a turn of one of them. -/
theorem step_turn (party : HalfDuplex.Side → HalfDuplex.Party) (s : HalfDuplex.State)
    (i : HalfDuplex.Side) (pr : Progress) :
    HalfDuplex.step capacity party s (pr.event i) =
      (turn capacity (party i) (s.activity i) (s.channel i.other) (s.channel i) pr).map fun r =>
        ⟨Function.update s.activity i r.1,
          Function.update (Function.update s.channel i.other r.2.1) i r.2.2⟩ := by
  have hne : i ≠ i.other := by cases i <;> decide
  cases pr with
  | read k =>
      simp only [Progress.event, HalfDuplex.step, turn]
      split
      · have hsame : Function.update (Function.update s.channel i.other (s.channel i.other - k)) i
            (s.channel i) = Function.update s.channel i.other (s.channel i.other - k) := by
          rw [← Function.update_of_ne hne (s.channel i.other - k) s.channel,
            Function.update_eq_self]
        simp [HalfDuplex.State.update, hsame]
      · rfl
  | transmit k =>
      simp only [Progress.event, HalfDuplex.step, turn]
      cases s.activity i with
      | receiving => rfl
      | sending left =>
          simp only
          split
          · simp [HalfDuplex.State.update]
          · rfl
  | written =>
      simp only [Progress.event, HalfDuplex.step, turn]
      split
      · simp [HalfDuplex.State.update]
      · rfl

section Lengths

variable {P : Party σ Reply Out} {Q : Party τ Reply' Out'}
  {goodP : Coroutine.Frame σ SessionOp Out → Prop} {goodQ : Coroutine.Frame τ SessionOp Out' → Prop}
  {first second : HalfDuplex.Party} {client : Coroutine.Frame σ SessionOp Out}
  {server : Coroutine.Frame τ SessionOp Out'}

structure Inv (goodP : Coroutine.Frame σ SessionOp Out → Prop)
    (goodQ : Coroutine.Frame τ SessionOp Out' → Prop) (p : Pair σ τ Out Out' capacity) : Prop where
  client : p.client.Inv goodP
  server : p.server.Inv goodQ

/-- The lengths take the same steps as the pair. -/
theorem step_lengths (hP : TakesTurns P goodP first) (hQ : TakesTurns Q goodQ second)
    {p : Pair σ τ Out Out' capacity} (hp : Inv goodP goodQ p) (e : Event) :
    (step P Q p e).map Pair.lengths =
      HalfDuplex.step capacity (sides first second) p.lengths e.event := by
  cases e with
  | client pr =>
      rw [Event.event, step_turn]
      have hturn := (hP.step_eq hp.client p.down p.up pr).1
      show _ = (turn capacity first p.client.activity p.down.contents.length
        p.up.contents.length pr).map _
      rw [← hturn]
      simp only [step, Option.map_map]
      congr 1
      funext r
      apply HalfDuplex.State.ext
      · funext i
        cases i <;> rfl
      · funext i
        cases i <;> rfl
  | server pr =>
      rw [Event.event, step_turn]
      have hturn := (hQ.step_eq hp.server p.up p.down pr).1
      show _ = (turn capacity second p.server.activity p.up.contents.length
        p.down.contents.length pr).map _
      rw [← hturn]
      simp only [step, Option.map_map]
      congr 1
      funext r
      apply HalfDuplex.State.ext
      · funext i
        cases i <;> rfl
      · funext i
        cases i <;> rfl

/-- The pair is a pair of parties that take turns. -/
theorem covering (hP : TakesTurns P goodP first) (hQ : TakesTurns Q goodQ second) {opening : ℕ}
    (hclient : goodP client ∧ client.point = .awaiting (.write opening))
    (hserver : goodQ server ∧ server.point = .awaiting .readSome) :
    (machine P Q client server capacity).Covering
      (HalfDuplex.machine capacity (sides first second) opening) (Inv goodP goodQ)
      Pair.lengths := by
  have hstart : (⟨⟨client, 0, []⟩, ⟨server, 0, []⟩, Channel.empty, Channel.empty⟩ :
      Pair σ τ Out Out' capacity).lengths = HalfDuplex.start opening := by
    have hwriting : (⟨client, 0, []⟩ : Endpoint σ Out).activity = .sending opening :=
      activity_of_writing hclient.2
    have hreading : (⟨server, 0, []⟩ : Endpoint τ Out').activity = .receiving :=
      activity_of_reading hserver.2
    apply HalfDuplex.State.ext
    · funext i
      cases i with
      | first => exact hwriting
      | second => exact hreading
    · funext i
      cases i <;> rfl
  apply Machine.covering_of_commutes event_surjective
  · constructor
    · rintro p rfl
      exact ⟨⟨hclient.1, fun _ _ => Nat.zero_le _⟩, ⟨hserver.1, fun _ _ => Nat.zero_le _⟩⟩
    · intro p e p' hp hstep
      cases e with
      | client pr =>
          rcases Option.map_eq_some_iff.mp hstep with ⟨r, hr, rfl⟩
          exact ⟨(hP.step_eq hp.client _ _ pr).2 r hr, hp.server⟩
      | server pr =>
          rcases Option.map_eq_some_iff.mp hstep with ⟨r, hr, rfl⟩
          exact ⟨hp.client, (hQ.step_eq hp.server _ _ pr).2 r hr⟩
  · rintro p rfl
    exact hstart
  · rintro t rfl
    exact ⟨_, rfl, hstart⟩
  · exact fun p e hp => step_lengths hP hQ hp e

end Lengths

/-! ## The three sessions -/

/-- The client answers every chunk with its whole block. -/
theorem client_takesTurns (bc : ℕ) : TakesTurns (client bc)
    (fun f => f.point = .awaiting .readSome ∨ f.point = .awaiting (.write bc)) ⟨bc, fun _ => bc⟩ := by
  constructor
  · rintro f (hpoint | hpoint)
    · exact Or.inl hpoint
    · refine Or.inr ⟨bc, hpoint, ?_⟩
      exact Nat.le_of_eq f.locals.writeData.length_bytes.symm
  · rintro ⟨s, point⟩ chunk - rfl hle
    refine ⟨_, Coroutine.Program.step_eq_some.mpr ⟨.readSome, _, rfl, if_pos hle, rfl⟩, ?_, ?_⟩
    · exact Or.inr rfl
    · rfl
  · rintro ⟨s, point⟩ chunk - rfl hlong
    have hnone : (client bc).program.complete s .readSome ⟨.read none chunk, false⟩ = none :=
      if_neg (Nat.not_le.mpr hlong)
    show ((client bc).program.complete s .readSome ⟨.read none chunk, false⟩).map _ = none
    rw [hnone]
    rfl
  · rintro ⟨s, point⟩ length - rfl
    refine ⟨_, Coroutine.Program.step_eq_some.mpr ⟨.write length, _, rfl, if_pos rfl, rfl⟩, ?_, ?_⟩
    · exact Or.inl rfl
    · rfl

/-- So does the server of `server.cpp`. -/
theorem server_takesTurns (bs : ℕ) : TakesTurns (server bs)
    (fun f => f.point = .awaiting .readSome ∨ f.point = .awaiting (.write bs)) ⟨bs, fun _ => bs⟩ := by
  constructor
  · rintro f (hpoint | hpoint)
    · exact Or.inl hpoint
    · refine Or.inr ⟨bs, hpoint, ?_⟩
      exact Nat.le_of_eq f.locals.writeData.length_bytes.symm
  · rintro ⟨s, point⟩ chunk - rfl hle
    refine ⟨_, Coroutine.Program.step_eq_some.mpr ⟨.readSome, _, rfl, if_pos hle, rfl⟩, ?_, ?_⟩
    · exact Or.inr rfl
    · rfl
  · rintro ⟨s, point⟩ chunk - rfl hlong
    have hnone : (server bs).program.complete s .readSome (.read none chunk) = none :=
      if_neg (Nat.not_le.mpr hlong)
    show ((server bs).program.complete s .readSome (.read none chunk)).map _ = none
    rw [hnone]
    rfl
  · rintro ⟨s, point⟩ length - rfl
    refine ⟨_, Coroutine.Program.step_eq_some.mpr ⟨.write length, _, rfl, if_pos rfl, rfl⟩, ?_, ?_⟩
    · exact Or.inl rfl
    · rfl

/-- The server of `hard2.cpp` answers with as much as it has read. -/
theorem hard2_takesTurns (bs : ℕ) : TakesTurns (hard2 bs)
    (fun f => f.point = .awaiting .readSome ∨ ∃ length ≤ bs, f.point = .awaiting (.write length))
    ⟨bs, id⟩ := by
  constructor
  · rintro f (hpoint | ⟨length, hle, hpoint⟩)
    · exact Or.inl hpoint
    · exact Or.inr ⟨length, hpoint, Nat.le_trans hle (Nat.le_of_eq f.locals.buf.length_bytes.symm)⟩
  · rintro ⟨s, point⟩ chunk - rfl hle
    refine ⟨_, Coroutine.Program.step_eq_some.mpr ⟨.readSome, _, rfl, if_pos hle, rfl⟩, ?_, ?_⟩
    · exact Or.inr ⟨chunk.length, hle, rfl⟩
    · rfl
  · rintro ⟨s, point⟩ chunk - rfl hlong
    have hnone : (hard2 bs).program.complete s .readSome (.read none chunk) = none :=
      if_neg (Nat.not_le.mpr hlong)
    show ((hard2 bs).program.complete s .readSome (.read none chunk)).map _ = none
    rw [hnone]
    rfl
  · rintro ⟨s, point⟩ length - rfl
    refine ⟨_, Coroutine.Program.step_eq_some.mpr ⟨.write length, _, rfl, if_pos rfl, rfl⟩, ?_, ?_⟩
    · exact Or.inl rfl
    · rfl

/-! ## When the pair can deadlock -/

theorem serverMachine_deadlockFree (bc bs : ℕ) (capacity : Option ℕ) :
    (serverMachine bc bs capacity).DeadlockFree ↔ (HalfDuplex.machine capacity
      (sides ⟨bc, fun _ => bc⟩ ⟨bs, fun _ => bs⟩) bc).DeadlockFree :=
  (covering (client_takesTurns bc) (server_takesTurns bs) ⟨Or.inr rfl, rfl⟩
    ⟨Or.inl rfl, rfl⟩).deadlockFree_iff

theorem hard2Machine_deadlockFree (bc bs : ℕ) (capacity : Option ℕ) :
    (hard2Machine bc bs capacity).DeadlockFree ↔ (HalfDuplex.machine capacity
      (sides ⟨bc, fun _ => bc⟩ ⟨bs, id⟩) bc).DeadlockFree :=
  (covering (client_takesTurns bc) (hard2_takesTurns bs) ⟨Or.inr rfl, rfl⟩
    ⟨Or.inl rfl, rfl⟩).deadlockFree_iff

/-- The coroutine client never deadlocks against the server of `server.cpp` exactly when the
channels take everything or both blocks are single bytes, and against that of `hard2.cpp`
exactly when the channels take everything or its own block is a single byte. -/
theorem coroutine_pair_deadlockFree_iff (bc bs : ℕ) (capacity : Option ℕ) (hbc : 0 < bc)
    (hbs : 0 < bs) (hcapacity : capacity ≠ some 0) :
    ((serverMachine bc bs capacity).DeadlockFree ↔ capacity = none ∨ bc = 1 ∧ bs = 1) ∧
      ((hard2Machine bc bs capacity).DeadlockFree ↔ capacity = none ∨ bc = 1) := by
  rw [serverMachine_deadlockFree, hard2Machine_deadlockFree]
  have hblock : ∀ answer answer' : ℕ → ℕ, ∀ i, 0 < (sides ⟨bc, answer⟩ ⟨bs, answer'⟩ i).block := by
    intro answer answer' i
    cases i with
    | first => exact hbc
    | second => exact hbs
  cases capacity with
  | none =>
      constructor
      · refine iff_of_true (HalfDuplex.deadlockFree_of_unbounded hbc (hblock _ _) ?_) (Or.inl rfl)
        intro i k _ _
        cases i with
        | first => exact hbc
        | second => exact hbs
      · refine iff_of_true (HalfDuplex.deadlockFree_of_unbounded hbc (hblock _ _) ?_) (Or.inl rfl)
        intro i k hk _
        cases i with
        | first => exact hbc
        | second => exact hk
  | some c =>
      have hc : 0 < c := Nat.pos_of_ne_zero fun hzero => hcapacity (congrArg some hzero)
      constructor
      · have hanswer : ∀ i, 0 < (sides ⟨bc, fun _ => bc⟩ ⟨bs, fun _ => bs⟩ i).answer 1 := by
          intro i
          cases i with
          | first => exact hbc
          | second => exact hbs
        refine (HalfDuplex.deadlockFree_iff_answers hc (hblock _ _) hanswer).trans ?_
        constructor
        · exact fun hone => Or.inr ⟨hone .first, hone .second⟩
        · rintro (hnone | ⟨hone, hone'⟩) i
          · cases hnone
          · cases i with
            | first => exact hone
            | second => exact hone'
      · have hanswer : ∀ i, 0 < (sides ⟨bc, fun _ => bc⟩ ⟨bs, id⟩ i).answer 1 := by
          intro i
          cases i with
          | first => exact hbc
          | second => exact Nat.one_pos
        refine (HalfDuplex.deadlockFree_iff_answers hc (hblock _ _) hanswer).trans ?_
        constructor
        · exact fun hone => Or.inr (hone .first)
        · rintro (hnone | hone) i
          · cases hnone
          · cases i with
            | first => exact hone
            | second => rfl

/-- Blocks of two bytes and of three, and channels for five. -/
theorem coroutine_pair_deadlocks_two :
    ¬ (serverMachine 2 3 (some 5)).DeadlockFree ∧ ¬ (hard2Machine 2 3 (some 5)).DeadlockFree := by
  have h := coroutine_pair_deadlockFree_iff 2 3 (some 5) (by decide) (by decide) (by decide)
  rw [h.1, h.2]
  decide

/-! ## What the client gets back -/

/-- What a step of one side does: its session goes on with what it has read or written, or
a part of the write goes into the channel. -/
inductive Party.Step (P : Party σ Reply Out) (e : Endpoint σ Out)
    (incoming outgoing : Channel Byte capacity) :
    Endpoint σ Out → Channel Byte capacity → Channel Byte capacity → Prop where
  | read {chunk : List Byte} {f : Coroutine.Frame σ SessionOp Out} {incoming' : Channel Byte capacity} :
      e.frame.point = .awaiting .readSome → incoming.contents = chunk ++ incoming'.contents →
      P.program.step e.frame (P.reply (.read none chunk)) = some f →
      Step P e incoming outgoing ⟨f, 0, e.sent⟩ incoming' outgoing
  | transmit {length k : ℕ} {outgoing' : Channel Byte capacity} :
      e.frame.point = .awaiting (.write length) → e.transferred + k ≤ length →
      outgoing'.contents =
        outgoing.contents ++ ((P.outgoing e.frame.locals).drop e.transferred).take k →
      Step P e incoming outgoing
        ⟨e.frame, e.transferred + k,
          e.sent ++ ((P.outgoing e.frame.locals).drop e.transferred).take k⟩ incoming outgoing'
  | written {f : Coroutine.Frame σ SessionOp Out} :
      e.frame.point = .awaiting (.write e.transferred) →
      P.program.step e.frame (P.reply (.wrote none e.transferred)) = some f →
      Step P e incoming outgoing ⟨f, 0, e.sent⟩ incoming outgoing

theorem Party.step_cases {P : Party σ Reply Out} {e e' : Endpoint σ Out}
    {incoming outgoing incoming' outgoing' : Channel Byte capacity} {pr : Progress}
    (hstep : P.step e incoming outgoing pr = some (e', incoming', outgoing')) :
    P.Step e incoming outgoing e' incoming' outgoing' := by
  cases pr with
  | read k =>
      simp only [Party.step] at hstep
      split at hstep
      · rename_i hpoint
        rcases Option.bind_eq_some_iff.mp hstep with ⟨⟨chunk, rest⟩, hreceive, hmap⟩
        rcases Option.map_eq_some_iff.mp hmap with ⟨f, hf, heq⟩
        rcases Channel.receive_eq_some.mp hreceive with ⟨-, -, hcontents⟩
        cases heq
        exact Party.Step.read hpoint hcontents.symm hf
      · cases hstep
  | transmit k =>
      simp only [Party.step] at hstep
      split at hstep
      · rename_i length hpoint
        rcases Option.ite_none_right_eq_some.mp hstep with ⟨⟨-, hle⟩, hmap⟩
        rcases Option.map_eq_some_iff.mp hmap with ⟨out, hsend, heq⟩
        cases heq
        exact Party.Step.transmit hpoint hle (Channel.send_eq_some.mp hsend).2
      · cases hstep
  | written =>
      simp only [Party.step] at hstep
      split at hstep
      · rename_i length hpoint
        rcases Option.ite_none_right_eq_some.mp hstep with ⟨rfl, hmap⟩
        rcases Option.map_eq_some_iff.mp hmap with ⟨f, hf, heq⟩
        cases heq
        exact Party.Step.written hpoint hf
      · cases hstep

/-- A chunk is read by the client. -/
theorem client_read {bc : ℕ} {f f' : AwaitClient.Frame bc} {chunk : List Byte}
    (hpoint : f.point = .awaiting .readSome)
    (hstep : (client bc).program.step f ((client bc).reply (.read none chunk)) = some f') :
    f'.locals.received = f.locals.received ++ [chunk] := by
  rcases f with ⟨s, point⟩
  obtain rfl : point = .awaiting .readSome := hpoint
  rcases Coroutine.Program.step_eq_some.mp hstep with ⟨op, l, hop, hcomplete, rfl⟩
  cases hop
  rcases Option.ite_none_right_eq_some.mp hcomplete with ⟨-, heq⟩
  rw [← Option.some.inj heq]
  rfl

/-- A write of the client completes. -/
theorem client_written {bc : ℕ} {f f' : AwaitClient.Frame bc} {length : ℕ}
    (hpoint : f.point = .awaiting (.write length))
    (hstep : (client bc).program.step f ((client bc).reply (.wrote none length)) = some f') :
    f'.locals.received = f.locals.received := by
  rcases f with ⟨s, point⟩
  obtain rfl : point = .awaiting (.write length) := hpoint
  rcases Coroutine.Program.step_eq_some.mp hstep with ⟨op, l, hop, hcomplete, rfl⟩
  cases hop
  rcases Option.ite_none_right_eq_some.mp hcomplete with ⟨-, heq⟩
  rw [← Option.some.inj heq]
  rfl

/-- A chunk is read by the server, which writes it. -/
theorem hard2_read {bs : ℕ} {f f' : Coroutine.Frame (Hard2.Session bs) SessionOp (Outcome Unit)}
    {chunk : List Byte} (hpoint : f.point = .awaiting .readSome)
    (hstep : (hard2 bs).program.step f ((hard2 bs).reply (.read none chunk)) = some f') :
    f'.locals.received = f.locals.received ++ [chunk] ∧ chunk.length ≤ bs ∧
      f'.point = .awaiting (.write chunk.length) ∧ f'.locals.buf.front chunk.length = chunk := by
  rcases f with ⟨s, point⟩
  obtain rfl : point = .awaiting .readSome := hpoint
  rcases Coroutine.Program.step_eq_some.mp hstep with ⟨op, l, hop, hcomplete, rfl⟩
  cases hop
  rcases Option.ite_none_right_eq_some.mp hcomplete with ⟨hle, heq⟩
  rw [← Option.some.inj heq]
  exact ⟨rfl, hle, rfl, s.buf.front_store hle⟩

/-- A write of the server completes, and the server reads. -/
theorem hard2_written {bs : ℕ} {f f' : Coroutine.Frame (Hard2.Session bs) SessionOp (Outcome Unit)}
    {length : ℕ} (hpoint : f.point = .awaiting (.write length))
    (hstep : (hard2 bs).program.step f ((hard2 bs).reply (.wrote none length)) = some f') :
    f'.locals.received = f.locals.received ∧ f'.point = .awaiting .readSome := by
  rcases f with ⟨s, point⟩
  obtain rfl : point = .awaiting (.write length) := hpoint
  rcases Coroutine.Program.step_eq_some.mp hstep with ⟨op, l, hop, hcomplete, rfl⟩
  cases hop
  rcases Option.ite_none_right_eq_some.mp hcomplete with ⟨-, heq⟩
  rw [← Option.some.inj heq]
  exact ⟨rfl, rfl⟩

/-- The part of its chunk that the server has not transmitted. -/
def held {bs : ℕ} (e : Endpoint (Hard2.Session bs) (Outcome Unit)) : List Byte :=
  match e.frame.point with
  | .awaiting (.write length) =>
      (e.frame.locals.buf.bytes.drop e.transferred).take (length - e.transferred)
  | _ => []

theorem held_of_writing {bs length : ℕ} {e : Endpoint (Hard2.Session bs) (Outcome Unit)}
    (h : e.frame.point = .awaiting (.write length)) :
    held e = (e.frame.locals.buf.bytes.drop e.transferred).take (length - e.transferred) := by
  rw [held, h]

theorem held_of_reading {bs : ℕ} {e : Endpoint (Hard2.Session bs) (Outcome Unit)}
    (h : e.frame.point = .awaiting .readSome) : held e = [] := by
  rw [held, h]

/-- What the client has sent is on its way: with the server, or on one of the channels. -/
structure Conserves {bc bs : ℕ} (p : Pair (AwaitClient.Session bc) (Hard2.Session bs)
    (Outcome (UInt64 × UInt64)) (Outcome Unit) capacity) : Prop where
  up : p.client.sent = p.server.frame.locals.received.flatten ++ p.up.contents
  down : p.server.sent = p.client.frame.locals.received.flatten ++ p.down.contents
  point : ∀ length, p.server.frame.point = .awaiting (.write length) → length ≤ bs
  echo : p.server.sent ++ held p.server = p.server.frame.locals.received.flatten

section Echo

variable {bc bs : ℕ} {p : Pair (AwaitClient.Session bc) (Hard2.Session bs)
  (Outcome (UInt64 × UInt64)) (Outcome Unit) capacity}

/-- The client goes on. -/
theorem Conserves.client_step (h : Conserves p)
    {e : Endpoint (AwaitClient.Session bc) (Outcome (UInt64 × UInt64))}
    {up down : Channel Byte capacity}
    (hstep : (AwaitPair.client bc).Step p.client p.down p.up e down up) :
    Conserves { p with client := e, up := up, down := down } := by
  have hup := h.up
  have hdown := h.down
  cases hstep with
  | read hpoint hcontents hf =>
      refine { h with up := hup, down := ?_ }
      show p.server.sent = _ ++ down.contents
      rw [client_read hpoint hf, List.flatten_append, List.flatten_singleton, List.append_assoc,
        ← hcontents]
      exact hdown
  | transmit hpoint hle hcontents =>
      refine { h with up := ?_, down := hdown }
      show p.client.sent ++ _ = _ ++ up.contents
      rw [hcontents, hup, List.append_assoc]
  | written hpoint hf =>
      refine { h with up := hup, down := ?_ }
      show p.server.sent = _ ++ p.down.contents
      rw [client_written hpoint hf]
      exact hdown

/-- The server goes on. -/
theorem Conserves.server_step (h : Conserves p)
    {e : Endpoint (Hard2.Session bs) (Outcome Unit)} {up down : Channel Byte capacity}
    (hstep : (hard2 bs).Step p.server p.up p.down e up down) :
    Conserves { p with server := e, up := up, down := down } := by
  have hup := h.up
  have hdown := h.down
  have hecho := h.echo
  cases hstep with
  | @read chunk f _ hpoint hcontents hf =>
      rcases hard2_read hpoint hf with ⟨hreceived, hle, hwrite, hfront⟩
      have hall : f.locals.received.flatten = p.server.frame.locals.received.flatten ++ chunk := by
        rw [hreceived, List.flatten_append, List.flatten_singleton]
      constructor
      · show p.client.sent = f.locals.received.flatten ++ up.contents
        rw [hall, List.append_assoc, ← hcontents]
        exact hup
      · exact hdown
      · intro length hlength
        rw [hwrite] at hlength
        cases hlength
        exact hle
      · have hheld : held ⟨f, 0, p.server.sent⟩ = chunk := (held_of_writing hwrite).trans hfront
        rw [held_of_reading hpoint, List.append_nil] at hecho
        show p.server.sent ++ held ⟨f, 0, p.server.sent⟩ = f.locals.received.flatten
        rw [hheld, hall, hecho]
  | @transmit length k _ hpoint hle hcontents =>
      refine { h with up := hup, down := ?_, echo := ?_ }
      · show p.server.sent ++ _ = _ ++ down.contents
        rw [hcontents, hdown, List.append_assoc]
      · -- what is transmitted is the first part of what is held
        have hsplit : length - p.server.transferred = k + (length - (p.server.transferred + k)) := by
          omega
        rw [held_of_writing hpoint, hsplit, List.take_add, List.drop_drop, ← List.append_assoc]
          at hecho
        refine Eq.trans ?_ hecho
        exact congrArg _ (held_of_writing hpoint)
  | @written f hpoint hf =>
      rcases hard2_written hpoint hf with ⟨hreceived, hread⟩
      constructor
      · show p.client.sent = f.locals.received.flatten ++ p.up.contents
        rw [hreceived]
        exact hup
      · exact hdown
      · intro length hlength
        rw [hread] at hlength
        cases hlength
      · have hheld : held ⟨f, 0, p.server.sent⟩ = [] := held_of_reading hread
        rw [held_of_writing hpoint, Nat.sub_self, List.take_zero] at hecho
        show p.server.sent ++ held ⟨f, 0, p.server.sent⟩ = f.locals.received.flatten
        rw [hheld, hreceived]
        exact hecho

theorem conserves_reachable (hp : (hard2Machine bc bs capacity).Reachable p) : Conserves p := by
  induction hp with
  | init hinit =>
      obtain rfl : _ = _ := hinit
      exact ⟨rfl, rfl, nofun, rfl⟩
  | @step p p' e _ hstep ih =>
      cases e with
      | client pr =>
          rcases Option.map_eq_some_iff.mp hstep with ⟨⟨e, down, up⟩, hr, rfl⟩
          exact ih.client_step (Party.step_cases hr)
      | server pr =>
          rcases Option.map_eq_some_iff.mp hstep with ⟨⟨e, up, down⟩, hr, rfl⟩
          exact ih.server_step (Party.step_cases hr)

/-- Against the server of `hard2.cpp` the client gets back what it has sent, in order, and all
that it has not got back is with the server, at most one block, or on its way. -/
theorem hard2_pair_conserves (hp : (hard2Machine bc bs capacity).Reachable p) :
    ∃ chunk : List Byte, chunk.length ≤ bs ∧
      p.client.frame.locals.received.flatten ++ p.down.contents ++ chunk ++ p.up.contents =
        p.client.sent := by
  have h := conserves_reachable hp
  refine ⟨held p.server, ?_, ?_⟩
  · unfold held
    split
    · rename_i length hpoint
      have hle := h.point length hpoint
      rw [List.length_take]
      omega
    · exact Nat.zero_le bs
  · rw [h.up, ← h.echo, h.down]

/-- A block of two bytes: the first one is back, the second one is with the server. -/
theorem hard2_pair_conserves_first :
    ∃ p : Pair (AwaitClient.Session 2) (Hard2.Session 3) (Outcome (UInt64 × UInt64)) (Outcome Unit)
        (some 5), (hard2Machine 2 3 (some 5)).Reachable p ∧
      p.client.frame.locals.received = [[0]] ∧ p.client.sent = [0, 1] ∧
      ∃ chunk : List Byte, chunk.length ≤ 3 ∧
        p.client.frame.locals.received.flatten ++ p.down.contents ++ chunk ++ p.up.contents =
          p.client.sent := by
  have hrun : ∃ p, (hard2Machine 2 3 (some 5)).run
      ⟨⟨connected 2, 0, []⟩, ⟨Hard2.Session.start none, 0, []⟩, Channel.empty, Channel.empty⟩
      [.client (.transmit 2), .server (.read 2), .server (.transmit 1), .client .written,
        .client (.read 1)] = some p ∧
      p.client.frame.locals.received = [[0]] ∧ p.client.sent = [0, 1] := ⟨_, rfl, rfl, rfl⟩
  rcases hrun with ⟨p, hrun, hreceived, hsent⟩
  have hstart : (hard2Machine 2 3 (some 5)).Reachable
      ⟨⟨connected 2, 0, []⟩, ⟨Hard2.Session.start none, 0, []⟩, Channel.empty, Channel.empty⟩ :=
    Machine.Reachable.init rfl
  have hp := hstart.run hrun
  exact ⟨p, hp, hreceived, hsent, hard2_pair_conserves hp⟩

end Echo

end CppCoroutines.AwaitPair
