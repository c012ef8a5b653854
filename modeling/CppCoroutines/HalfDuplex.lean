import CppCoroutines.Machine
import Mathlib.Algebra.Order.Group.Nat
import Mathlib.Logic.Function.Basic
import Mathlib.Tactic.Ring

/-!
# Parties that take turns

Two parties with a channel in each direction. A party waits for input, takes some of it, and
then sends an answer, the length of which depends on how much it took; while it sends it takes
nothing. The channels may be bounded. Only lengths matter here, so that the states count what
is in the channels. The main result says for which answers the two can block each other.
-/

namespace HalfDuplex

inductive Side where
  | first
  | second
deriving DecidableEq, Repr

def Side.other : Side → Side
  | .first => .second
  | .second => .first

/-- What a party is doing: it waits for input, or so much of its answer is left to be sent. -/
inductive Activity where
  | receiving
  | sending (left : ℕ)
deriving DecidableEq, Repr

/-- A party: how much it takes at most, and the length of its answer to that. -/
structure Party where
  block : ℕ
  answer : ℕ → ℕ

/-- `channel i` is what party `i` has sent and the other one has not taken. -/
@[ext]
structure State where
  activity : Side → Activity
  channel : Side → ℕ

inductive Event where
  | send (i : Side) (k : ℕ)
  /-- the answer has been sent -/
  | sent (i : Side)
  | receive (i : Side) (k : ℕ)
deriving DecidableEq, Repr

/-- What is left of the answer. -/
def Activity.left : Activity → ℕ
  | .receiving => 0
  | .sending left => left

def State.left (s : State) (i : Side) : ℕ := (s.activity i).left

/-- Party `i` does something, after which its own channel or the other one holds so much. -/
def State.update (s : State) (i j : Side) (activity : Activity) (channel : ℕ) : State where
  activity := Function.update s.activity i activity
  channel := Function.update s.channel j channel

def step (capacity : Option ℕ) (party : Side → Party) (s : State) : Event → Option State
  | .send i k =>
      match s.activity i with
      | .sending left =>
          if 0 < k ∧ k ≤ left ∧ ∀ c ∈ capacity, s.channel i + k ≤ c then
            some (s.update i i (.sending (left - k)) (s.channel i + k))
          else none
      | .receiving => none
  | .sent i =>
      if s.activity i = .sending 0 then some (s.update i i .receiving (s.channel i)) else none
  | .receive i k =>
      if s.activity i = .receiving ∧ 0 < k ∧ k ≤ (party i).block ∧ k ≤ s.channel i.other then
        some (s.update i i.other (.sending ((party i).answer k)) (s.channel i.other - k))
      else none

/-- The first party sends, the second one waits. -/
def start (opening : ℕ) : State where
  activity
    | .first => .sending opening
    | .second => .receiving
  channel _ := 0

def machine (capacity : Option ℕ) (party : Side → Party) (opening : ℕ) : Machine State Event where
  init s := s = start opening
  step := step capacity party

/-! ## What a step does -/

/-- What a step can do, guard by guard. -/
inductive Step (capacity : Option ℕ) (party : Side → Party) (s : State) : Event → State → Prop where
  | send {i : Side} {k left : ℕ} : s.activity i = .sending left → 0 < k → k ≤ left →
      (∀ c ∈ capacity, s.channel i + k ≤ c) →
      Step capacity party s (.send i k) (s.update i i (.sending (left - k)) (s.channel i + k))
  | sent {i : Side} : s.activity i = .sending 0 →
      Step capacity party s (.sent i) (s.update i i .receiving (s.channel i))
  | receive {i : Side} {k : ℕ} : s.activity i = .receiving → 0 < k → k ≤ (party i).block →
      k ≤ s.channel i.other →
      Step capacity party s (.receive i k)
        (s.update i i.other (.sending ((party i).answer k)) (s.channel i.other - k))

section Steps

variable {capacity : Option ℕ} {party : Side → Party} {s s' : State}

theorem step_cases {e : Event} (hstep : step capacity party s e = some s') :
    Step capacity party s e s' := by
  cases e with
  | send i k =>
      cases hactivity : s.activity i with
      | receiving => simp [step, hactivity] at hstep
      | sending left =>
          simp only [step, hactivity] at hstep
          rcases Option.ite_none_right_eq_some.mp hstep with ⟨⟨hk, hle, hroom⟩, heq⟩
          exact Option.some.inj heq ▸ Step.send hactivity hk hle hroom
  | sent i =>
      rcases Option.ite_none_right_eq_some.mp hstep with ⟨hactivity, heq⟩
      exact Option.some.inj heq ▸ Step.sent hactivity
  | receive i k =>
      rcases Option.ite_none_right_eq_some.mp hstep with ⟨⟨hactivity, hk, hblock, hle⟩, heq⟩
      exact Option.some.inj heq ▸ Step.receive hactivity hk hblock hle

/-- What is in flight, where the elements that a party sends have its weight. -/
def State.weight (w : Side → ℕ) (s : State) : ℕ :=
  w .first * (s.left .first + s.channel .first) + w .second * (s.left .second + s.channel .second)

/-- The elements in flight. -/
def State.total (s : State) : ℕ := s.weight fun _ => 1

theorem weight_send (w : Side → ℕ) {i : Side} {k left : ℕ} (h : s.activity i = .sending left)
    (hle : k ≤ left) :
    (s.update i i (.sending (left - k)) (s.channel i + k)).weight w = s.weight w := by
  have hsum : left - k + (s.channel i + k) = left + s.channel i := by omega
  cases i with
  | first => simp [State.weight, State.update, State.left, Activity.left, h, hsum]
  | second => simp [State.weight, State.update, State.left, Activity.left, h, hsum]

theorem weight_sent (w : Side → ℕ) {i : Side} (h : s.activity i = .sending 0) :
    (s.update i i .receiving (s.channel i)).weight w = s.weight w := by
  cases i with
  | first => simp [State.weight, State.update, State.left, Activity.left, h]
  | second => simp [State.weight, State.update, State.left, Activity.left, h]

/-- What is taken is lost, what is answered is new. -/
theorem weight_receive (w : Side → ℕ) {i : Side} {k n : ℕ} (h : s.activity i = .receiving)
    (hle : k ≤ s.channel i.other) :
    (s.update i i.other (.sending n) (s.channel i.other - k)).weight w + w i.other * k =
      s.weight w + w i * n := by
  have hsplit : s.channel i.other = s.channel i.other - k + k := by omega
  cases i with
  | first =>
      simp only [Side.other] at hsplit ⊢
      simp [State.weight, State.update, State.left, Activity.left, h]
      generalize hc : s.channel .second - k = c at *
      rw [hsplit]
      ring
  | second =>
      simp only [Side.other] at hsplit ⊢
      simp [State.weight, State.update, State.left, Activity.left, h]
      generalize hc : s.channel .first - k = c at *
      rw [hsplit]
      ring

theorem channel_add_left_le_total (s : State) (i : Side) : s.left i + s.channel i ≤ s.total := by
  cases i with
  | first => simp [State.total, State.weight]
  | second => simp [State.total, State.weight]

/-- What a party of a stuck state waits for: input that is not there, or room in its channel. -/
theorem stuck_cases {opening : ℕ} (hblock : ∀ i, 0 < (party i).block)
    (hstuck : (machine capacity party opening).Stuck s) (i : Side) :
    s.activity i = .receiving ∧ s.channel i.other = 0 ∨
      ∃ left, s.activity i = .sending left ∧ 0 < left ∧ ∃ c ∈ capacity, c ≤ s.channel i := by
  cases hactivity : s.activity i with
  | receiving =>
      left
      refine ⟨rfl, ?_⟩
      by_contra hne
      have hnone := hstuck (.receive i 1)
      have hguard : s.activity i = .receiving ∧ 0 < 1 ∧ 1 ≤ (party i).block ∧
          1 ≤ s.channel i.other := ⟨hactivity, Nat.one_pos, hblock i, by omega⟩
      simp only [machine, step, if_pos hguard] at hnone
      cases hnone
  | sending left =>
      right
      have hpos : 0 < left := by
        by_contra hzero
        have hnone := hstuck (.sent i)
        have hguard : s.activity i = .sending 0 := by
          rw [hactivity, Nat.eq_zero_of_not_pos hzero]
        simp only [machine, step, if_pos hguard] at hnone
        cases hnone
      refine ⟨left, rfl, hpos, ?_⟩
      by_contra hroom
      push Not at hroom
      have hnone := hstuck (.send i 1)
      have hguard : 0 < 1 ∧ 1 ≤ left ∧ ∀ c ∈ capacity, s.channel i + 1 ≤ c :=
        ⟨Nat.one_pos, hpos, hroom⟩
      simp only [machine, step, hactivity, if_pos hguard] at hnone
      cases hnone

/-- In a stuck state nothing is in flight, or a channel is full and more is to be sent into it. -/
theorem total_of_stuck {opening : ℕ} (hblock : ∀ i, 0 < (party i).block)
    (hstuck : (machine capacity party opening).Stuck s) :
    s.total = 0 ∨ ∃ c ∈ capacity, c < s.total := by
  have hfull : ∀ i left, s.activity i = .sending left → 0 < left →
      (∃ c ∈ capacity, c ≤ s.channel i) → ∃ c ∈ capacity, c < s.total := by
    rintro i left hactivity hpos ⟨c, hc, hle⟩
    have htotal := channel_add_left_le_total s i
    have hleft : s.left i = left := by rw [State.left, hactivity]; rfl
    exact ⟨c, hc, by omega⟩
  rcases stuck_cases hblock hstuck .first with ⟨hfirst, hdown⟩ | ⟨left, hactivity, hpos, hc⟩
  · rcases stuck_cases hblock hstuck .second with ⟨hsecond, hup⟩ | ⟨left, hactivity, hpos, hc⟩
    · left
      have hup' : s.channel .first = 0 := hup
      have hdown' : s.channel .second = 0 := hdown
      simp [State.total, State.weight, State.left, hfirst, hsecond, hup', hdown', Activity.left]
    · exact Or.inr (hfull _ left hactivity hpos hc)
  · exact Or.inr (hfull _ left hactivity hpos hc)

end Steps

/-! ## Parties that never block each other -/

section Free

variable {capacity : Option ℕ} {party : Side → Party} {opening : ℕ}

/-- As long as every answer has a length, something is in flight. -/
theorem total_pos (hopening : 0 < opening)
    (hanswer : ∀ i k, 0 < k → k ≤ (party i).block → 0 < (party i).answer k) {s : State}
    (hs : (machine capacity party opening).Reachable s) : 0 < s.total := by
  induction hs with
  | init hinit =>
      obtain rfl : _ = start opening := hinit
      simpa [State.total, State.weight, State.left, start, Activity.left] using hopening
  | @step s s' e _ hstep ih =>
      cases step_cases hstep with
      | send hactivity hk hle hroom =>
          rw [State.total, weight_send _ hactivity hle]
          exact ih
      | sent hactivity =>
          rw [State.total, weight_sent _ hactivity]
          exact ih
      | @receive i k hactivity hk hblock hle =>
          have hweight := weight_receive (fun _ => 1) (n := (party i).answer k) hactivity hle
          have hpos := hanswer i k hk hblock
          have hchannel := channel_add_left_le_total s i.other
          rw [State.total] at hchannel ⊢
          omega

/-- With channels that take everything no two parties block each other. -/
theorem deadlockFree_of_unbounded (hopening : 0 < opening) (hblock : ∀ i, 0 < (party i).block)
    (hanswer : ∀ i k, 0 < k → k ≤ (party i).block → 0 < (party i).answer k) :
    (machine none party opening).DeadlockFree := by
  intro s hs hstuck
  have hpos := total_pos hopening hanswer hs
  rcases total_of_stuck hblock hstuck with hzero | ⟨c, hc, -⟩
  · omega
  · cases hc

/-- One element that is answered by one goes to and fro. -/
theorem total_eq_one (hanswer : ∀ i, (party i).answer 1 = 1) {s : State}
    (hs : (machine capacity party 1).Reachable s) : s.total = 1 := by
  induction hs with
  | init hinit =>
      obtain rfl : _ = start 1 := hinit
      simp [State.total, State.weight, State.left, start, Activity.left]
  | @step s s' e _ hstep ih =>
      cases step_cases hstep with
      | send hactivity hk hle hroom =>
          rw [State.total, weight_send _ hactivity hle]
          exact ih
      | sent hactivity =>
          rw [State.total, weight_sent _ hactivity]
          exact ih
      | @receive i k hactivity hk hblock hle =>
          have hchannel := channel_add_left_le_total s i.other
          obtain rfl : k = 1 := by omega
          have hweight := weight_receive (fun _ => 1) (n := (party i).answer 1) hactivity hle
          rw [hanswer i] at hweight ⊢
          rw [State.total] at ih ⊢
          omega

end Free

/-! ## Parties that do -/

section Blocked

variable {capacity : Option ℕ} {party : Side → Party} {s s' : State}

/-- The events in which a party takes one element at most. -/
def single : Event → Bool
  | .receive _ k => k = 1
  | _ => true

/-- A party that can take something can take one element. -/
theorem stuck_of_single {opening : ℕ} (hblock : ∀ i, 0 < (party i).block)
    (hstuck : ((machine capacity party opening).restrict single).Stuck s) :
    (machine capacity party opening).Stuck s := by
  intro e
  cases e with
  | send i k => exact hstuck (.send i k)
  | sent i => exact hstuck (.sent i)
  | receive i k =>
      by_contra hne
      rcases Option.ne_none_iff_exists'.mp hne with ⟨s', hstep⟩
      rcases Option.ite_none_right_eq_some.mp hstep with ⟨⟨hactivity, hk, -, hle⟩, -⟩
      have hnone := hstuck (.receive i 1)
      have hguard : s.activity i = .receiving ∧ 0 < 1 ∧ 1 ≤ (party i).block ∧
          1 ≤ s.channel i.other := ⟨hactivity, Nat.one_pos, hblock i, by omega⟩
      simp [Machine.restrict, single, machine, step, hguard] at hnone

/-- What a party has to do before it takes anything again. -/
def Activity.burden : Activity → ℕ
  | .receiving => 0
  | .sending left => left + 1

def State.burden (s : State) : ℕ := (s.activity .first).burden + (s.activity .second).burden

/-- The channels hold at most `c`, and no answer is longer than `b`. -/
structure Bounded (c b : ℕ) (s : State) : Prop where
  channel : ∀ i, s.channel i ≤ c
  left : ∀ i, s.left i ≤ b

variable {c b : ℕ}

/-- Party `i` does something that keeps to the bounds. -/
theorem Bounded.update (h : Bounded c b s) {i j : Side} {activity : Activity} {n : ℕ}
    (hactivity : activity.left ≤ b) (hn : n ≤ c) : Bounded c b (s.update i j activity n) := by
  constructor
  · intro k
    show Function.update s.channel j n k ≤ c
    by_cases hk : k = j
    · rw [hk, Function.update_self]
      exact hn
    · rw [Function.update_of_ne hk]
      exact h.channel k
  · intro k
    show (Function.update s.activity i activity k).left ≤ b
    by_cases hk : k = i
    · rw [hk, Function.update_self]
      exact hactivity
    · rw [Function.update_of_ne hk]
      exact h.left k

theorem burden_update (s : State) (i j : Side) (activity : Activity) (n : ℕ) :
    (s.update i j activity n).burden + (s.activity i).burden = s.burden + activity.burden := by
  cases i with
  | first => simp [State.burden, State.update]; omega
  | second => simp [State.burden, State.update]; omega

theorem Bounded.weight_le (h : Bounded c b s) (w : Side → ℕ) :
    s.weight w ≤ (w .first + w .second) * (b + c) := by
  have hfirst := Nat.mul_le_mul_left (w .first) (Nat.add_le_add (h.left .first) (h.channel .first))
  have hsecond :=
    Nat.mul_le_mul_left (w .second) (Nat.add_le_add (h.left .second) (h.channel .second))
  rw [Nat.add_mul]
  exact Nat.add_le_add hfirst hsecond

/-- The rank of a state: the weight that the bounds leave room for, then the burden. -/
def rank (w : Side → ℕ) (c b : ℕ) (s : State) : ℕ :=
  (b + 2) * ((w .first + w .second) * (b + c) - s.weight w) + s.burden

/-- If an element weighs less than the answer to it, the weight grows whenever one is taken. -/
theorem rank_decreases (opening : ℕ) {w : Side → ℕ}
    (hw : ∀ i, w (Side.other i) < w i * (party i).answer 1) (hb : ∀ i, (party i).answer 1 ≤ b)
    (e : Event) (h : Bounded c b s)
    (hstep : ((machine (some c) party opening).restrict single).step s e = some s') :
    Bounded c b s' ∧ rank w c b s' < rank w c b s := by
  rcases Machine.restrict_step_eq_some.mp hstep with ⟨hsingle, hstep⟩
  cases step_cases hstep with
  | @send i k left hactivity hk hle hroom =>
      have hleft := h.left i
      rw [State.left, hactivity] at hleft
      have hleft : left ≤ b := hleft
      have hbound : Bounded c b (s.update i i (.sending (left - k)) (s.channel i + k)) :=
        h.update (Nat.le_trans (Nat.sub_le left k) hleft) (hroom c rfl)
      have hburden := burden_update s i i (.sending (left - k)) (s.channel i + k)
      rw [hactivity] at hburden
      refine ⟨hbound, ?_⟩
      unfold rank
      rw [weight_send w hactivity hle]
      simp only [Activity.burden] at hburden
      omega
  | @sent i hactivity =>
      have hbound : Bounded c b (s.update i i .receiving (s.channel i)) :=
        h.update (Nat.zero_le b) (h.channel i)
      have hburden := burden_update s i i .receiving (s.channel i)
      rw [hactivity] at hburden
      refine ⟨hbound, ?_⟩
      unfold rank
      rw [weight_sent w hactivity]
      simp only [Activity.burden] at hburden
      omega
  | @receive i k hactivity hk hblock hle =>
      obtain rfl : k = 1 := of_decide_eq_true hsingle
      have hbound : Bounded c b (s.update i i.other (.sending ((party i).answer 1))
          (s.channel i.other - 1)) :=
        h.update (hb i) (Nat.le_trans (Nat.sub_le _ 1) (h.channel i.other))
      have hburden := burden_update s i i.other (.sending ((party i).answer 1))
        (s.channel i.other - 1)
      rw [hactivity] at hburden
      simp only [Activity.burden] at hburden
      have hanswer := hb i
      have hgain := hw i
      have hweight := weight_receive w (n := (party i).answer 1) hactivity hle
      have hmax := hbound.weight_le w
      refine ⟨hbound, ?_⟩
      unfold rank
      -- the weight has grown by one at least, which is more than the new burden
      generalize (s.update i i.other _ _).weight w = after at *
      generalize (w .first + w .second) * (b + c) = bound at *
      have hroom : bound - after + 1 ≤ bound - s.weight w := by omega
      have hmul := Nat.mul_le_mul_left (b + 2) hroom
      rw [Nat.mul_add] at hmul
      omega

/-- Then there is a run in which they block each other. -/
theorem exists_stuck {opening : ℕ} {w : Side → ℕ} (hblock : ∀ i, 0 < (party i).block)
    (hw : ∀ i, w (Side.other i) < w i * (party i).answer 1) (hb : ∀ i, (party i).answer 1 ≤ b)
    (hopening : opening ≤ b) :
    ∃ s, (machine (some c) party opening).Reachable s ∧
      (machine (some c) party opening).Stuck s := by
  have hstart : Bounded c b (start opening) := by
    constructor
    · exact fun _ => Nat.zero_le c
    · intro i
      cases i with
      | first => exact hopening
      | second => exact Nat.zero_le b
  rcases Machine.exists_stuck_of_inv (fun s e s' => rank_decreases opening hw hb e)
    hstart with ⟨es, s, hrun, -, hstuck⟩
  refine ⟨s, ?_, stuck_of_single hblock hstuck⟩
  have hinit : (machine (some c) party opening).Reachable (start opening) :=
    Machine.Reachable.init rfl
  exact hinit.run_restrict hrun

end Blocked

/-! ## The exact condition -/

/-- Over bounded channels two parties never block each other if and only if both answer one
element by one. -/
theorem deadlockFree_iff_answers {party : Side → Party} {c : ℕ} (hc : 0 < c)
    (hblock : ∀ i, 0 < (party i).block) (hanswer : ∀ i, 0 < (party i).answer 1) :
    (machine (some c) party ((party .first).answer 1)).DeadlockFree ↔
      ∀ i, (party i).answer 1 = 1 := by
  constructor
  · intro hfree
    by_contra hne
    -- an element weighs less than its answer, if that of the longer answers weighs less
    have hw : ∃ w : Side → ℕ, ∀ i, w (Side.other i) < w i * (party i).answer 1 := by
      have hfirst := hanswer .first
      have hsecond := hanswer .second
      rcases Nat.lt_or_ge 1 ((party .first).answer 1) with hlong | hshort
      · refine ⟨fun i => match i with | .first => 2 | .second => 3, ?_⟩
        intro i
        cases i with
        | first => show 3 < 2 * _; omega
        | second => show 2 < 3 * _; omega
      · refine ⟨fun i => match i with | .first => 3 | .second => 2, ?_⟩
        have hlong : 1 < (party .second).answer 1 := by
          by_contra hshort'
          apply hne
          intro i
          cases i with
          | first => omega
          | second => omega
        intro i
        cases i with
        | first => show 2 < 3 * _; omega
        | second => show 3 < 2 * _; omega
    rcases hw with ⟨w, hw⟩
    have hb : ∀ i, (party i).answer 1 ≤ (party .first).answer 1 + (party .second).answer 1 := by
      intro i
      cases i with
      | first => exact Nat.le_add_right _ _
      | second => exact Nat.le_add_left _ _
    rcases exists_stuck (c := c) hblock hw hb (hb .first) with ⟨s, hs, hstuck⟩
    exact hfree s hs hstuck
  · intro hone s hs hstuck
    rw [hone .first] at hs hstuck
    have htotal := total_eq_one hone hs
    rcases total_of_stuck hblock hstuck with hzero | ⟨c', hc', hlt⟩
    · omega
    · obtain rfl : c = c' := Option.some.inj hc'
      omega

end HalfDuplex
