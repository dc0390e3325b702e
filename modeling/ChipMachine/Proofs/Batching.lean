import ChipMachine.Proofs.Coding
import ChipMachine.Proofs.Replaying
import ChipMachine.Proofs.Timers
import Mathlib.Algebra.Group.Nat.Defs

namespace ChipMachine

/-- The same machine with another number of instructions in a tick, or at another speed. -/
def Machine.atPace (m : Machine) (perTick speed : UInt64) : Machine :=
  { m with config := { m.config with perTick := perTick, speed := speed } }

def Outcome.atPace {α : Type} (o : Outcome α) (perTick speed : UInt64) : Outcome α :=
  { o with machine := o.machine.atPace perTick speed }

theorem Outcome.map_atPace {α β : Type} (f : α → β) (o : Outcome α) (perTick speed : UInt64) :
    (o.atPace perTick speed).map f = (o.map f).atPace perTick speed := rfl

theorem Config.batch_eq (c : Config) :
    c.batch = min (2 ^ 64 - 1) (c.perTick.toNat * c.speed.toNat) := rfl

/-- Every number of 64 bits is the size of some batch, and no other number is. -/
theorem exists_batch_iff (n : Nat) :
    (∃ perTick speed : UInt64, min (2 ^ 64 - 1) (perTick.toNat * speed.toNat) = n) ↔
      n < 2 ^ 64 := by
  constructor
  · rintro ⟨perTick, speed, rfl⟩
    exact Nat.lt_of_le_of_lt (Nat.min_le_left ..) (by decide)
  · intro hn
    have hword : (UInt64.ofNat n).toNat = n := UInt64.toNat_ofNat_of_lt' hn
    refine ⟨UInt64.ofNat n, 1, ?_⟩
    rw [hword, UInt64.toNat_one, Nat.mul_one, Nat.min_eq_right (Nat.le_sub_one_of_lt hn)]

namespace Machine

/-- A tick with a batch of at most `n` instructions. -/
def tickOf (m : Machine) (n : Nat) : Outcome (Except Fault Flow) :=
  let done := batch n m.ready []
  { done with events := .buzz (buzz m.core) :: (done.events ++ haltRecord done) }

theorem tick_eq (m : Machine) : m.tick = m.tickOf m.config.batch := rfl

section
variable {m : Machine} {n : Nat} {past : List Event}

theorem batch_succ_proceed (h : m.step.answer = .ok .proceed) :
    batch (n + 1) m past = batch n m.step.machine (m.step.events.reverseAux past) := by
  simp only [batch, h]

theorem batch_succ_stop (h : m.step.answer ≠ .ok .proceed) :
    batch (n + 1) m past =
      ⟨m.step.machine, (m.step.events.reverseAux past).reverse, m.step.answer⟩ := by
  simp only [batch]

/-- A batch that has gone on to its end is gone on with. -/
theorem batch_add_proceed (k : Nat) (h : (batch n m past).answer = .ok .proceed) :
    let more := batch k (batch n m past).machine []
    batch (n + k) m past = { more with events := (batch n m past).events ++ more.events } := by
  induction n generalizing m past with
  | zero =>
    rw [Nat.zero_add]
    exact batch_past k m past
  | succ n ih =>
    by_cases hgo : m.step.answer = .ok .proceed
    · rw [batch_succ_proceed hgo] at h ⊢
      rw [Nat.succ_add, batch_succ_proceed hgo]
      exact ih h
    · rw [batch_succ_stop hgo] at h
      exact absurd h hgo

/-- A batch that has stopped is not gone on with. -/
theorem batch_add_stop (k : Nat) (h : (batch n m past).answer ≠ .ok .proceed) :
    batch (n + k) m past = batch n m past := by
  induction n generalizing m past with
  | zero => exact absurd rfl h
  | succ n ih =>
    rw [Nat.succ_add]
    by_cases hgo : m.step.answer = .ok .proceed
    · rw [batch_succ_proceed hgo] at h ⊢
      rw [batch_succ_proceed hgo]
      exact ih h
    · rw [batch_succ_stop hgo, batch_succ_stop hgo]

/-- A batch is as many single steps as it takes to the first that does not go on. -/
theorem exists_steps_batch (k : Nat) (m : Machine) : ∃ j ≤ k,
    let steps := m.run (.replicate j .step)
    let whole := batch k m []
    steps.machine = whole.machine ∧ steps.events = whole.events ∧
      .flow (.ok .proceed) :: steps.answer =
        .replicate j (.flow (.ok .proceed)) ++ [.flow whole.answer] ∧
      (j < k → whole.answer ≠ .ok .proceed) := by
  induction k generalizing m with
  | zero => exact ⟨0, Nat.le_refl 0, rfl, rfl, rfl, fun h => absurd h (Nat.lt_irrefl 0)⟩
  | succ k ih =>
    by_cases hgo : m.step.answer = .ok .proceed
    · obtain ⟨j, hj, hmachine, hevents, hanswer, hstop⟩ := ih m.step.machine
      refine ⟨j + 1, Nat.succ_le_succ hj, ?_⟩
      rw [batch_succ_proceed hgo, batch_past, List.replicate_succ, run_cons]
      refine ⟨hmachine, ?_, ?_, fun h => hstop (Nat.lt_of_succ_lt_succ h)⟩
      · dsimp only
        rw [List.reverseAux_eq, List.append_nil, List.reverse_reverse]
        exact congrArg (m.step.events ++ ·) hevents
      · rw [List.replicate_succ, List.cons_append, ← hanswer]
        exact congrArg (fun result => _ :: Answer.flow result :: _) hgo
    · refine ⟨1, Nat.succ_le_succ (Nat.zero_le k), ?_⟩
      rw [batch_succ_stop hgo]
      refine ⟨rfl, ?_, rfl, fun _ => hgo⟩
      dsimp only
      rw [List.reverseAux_eq, List.append_nil, List.reverse_reverse]
      exact List.append_nil _

theorem step_halt (h : m.step.answer = .ok .halt) :
    m.core.fetch = 0x00FD ∧ m.step.machine = m.passed := by
  obtain ⟨_, hs⟩ | ⟨_, _, _, _, hs⟩ | ⟨i, t, hd, he, hs⟩ := m.step_cases
  · rw [hs] at h
    cases h
  · rw [hs] at h
    cases h
  · rw [hs] at h
    have hflow : i.flow = .halt := Except.ok.inj h
    cases i with
    | halt =>
      obtain rfl := Except.ok.inj he
      rw [hs]
      exact ⟨((Instruction.decode_eq_some_iff.mp hd).2).symm, rfl⟩
    | _ => cases hflow

/-- A batch halts where the last of its instructions is a halt, which it has just passed. -/
theorem batch_halt (h : (batch n m past).answer = .ok .halt) :
    ∃ earlier t, batchInstants n m = earlier ++ [t] ∧ t.core.fetch = 0x00FD ∧
      (batch n m past).machine = t.passed := by
  induction n generalizing m past with
  | zero => cases h
  | succ n ih =>
    by_cases hgo : m.step.answer = .ok .proceed
    · rw [batch_succ_proceed hgo] at h ⊢
      obtain ⟨earlier, t, hinstants, hlast⟩ := ih h
      refine ⟨m :: earlier, t, ?_, hlast⟩
      simp only [batchInstants, hgo, hinstants, List.cons_append]
    · rw [batch_succ_stop hgo] at h ⊢
      have hhalt : m.step.answer = .ok .halt := h
      refine ⟨[], m, ?_, step_halt hhalt⟩
      simp only [batchInstants, hhalt, List.nil_append]

end

section
variable (m : Machine) (perTick speed : UInt64)

theorem step_atPace : (m.atPace perTick speed).step = m.step.atPace perTick speed := by
  obtain ⟨hd, hs⟩ | ⟨i, fault, hd, he, hs⟩ | ⟨i, t, hd, he, hs⟩ := m.step_cases
  · rw [hs]
    exact step_unknown hd
  · rw [hs]
    exact step_refused hd he
  · rw [hs]
    exact step_done hd he

theorem batch_atPace (n : Nat) (past : List Event) :
    batch n (m.atPace perTick speed) past = (batch n m past).atPace perTick speed := by
  induction n generalizing m past with
  | zero => rfl
  | succ n ih =>
    have hanswer : (m.atPace perTick speed).step.answer = m.step.answer := by rw [step_atPace]; rfl
    by_cases hgo : m.step.answer = .ok .proceed
    · rw [batch_succ_proceed hgo, batch_succ_proceed (hanswer.trans hgo), step_atPace]
      exact ih ..
    · rw [batch_succ_stop hgo, batch_succ_stop (hanswer ▸ hgo), step_atPace]
      rfl

/-- Only the size of the batch tells a tick at one pace from a tick at another. -/
theorem tick_atPace : (m.atPace perTick speed).tick =
    (m.tickOf (m.atPace perTick speed).config.batch).atPace perTick speed := by
  have hready : (m.atPace perTick speed).ready = m.ready.atPace perTick speed := rfl
  rw [tick_eq, tickOf, tickOf, hready, batch_atPace]
  rfl

theorem rewind_atPace : (m.atPace perTick speed).rewind = m.rewind.atPace perTick speed := by
  cases hm : m.history with
  | nil =>
    rw [rewind_nil hm]
    exact rewind_nil hm
  | cons saved older =>
    rw [rewind_cons hm]
    exact rewind_cons hm

theorem load_atPace (source : ByteSource) :
    (m.atPace perTick speed).load source = (m.load source).atPace perTick speed := by
  obtain ⟨reason, n, hload⟩ | ⟨program, warnings, n, hload⟩ := load_cases source
  · simp only [hload, Outcome.atPace]
  · simp only [hload, Outcome.atPace, atPace]

end

section
variable {m : Machine} {op : Operation} {perTick speed : UInt64}

theorem apply_atPace (hop : ∀ speed, op ≠ .setSpeed speed)
    (h : (m.atPace perTick speed).config.batch = m.config.batch) :
    (m.atPace perTick speed).apply op = (m.apply op).atPace perTick speed := by
  cases op with
  | setSpeed speed => exact absurd rfl (hop speed)
  | load source => rw [apply, apply, load_atPace, Outcome.map_atPace]
  | step => rw [apply, apply, step_atPace, Outcome.map_atPace]
  | tick => rw [apply, apply, tick_atPace, h, ← tick_eq, Outcome.map_atPace]
  | rewind => rw [apply, apply, rewind_atPace, Outcome.map_atPace]
  | clearProgram =>
    -- taken apart, the machines need no comparison of their memories
    obtain ⟨core, history, config, entropy⟩ := m
    rfl
  | press | release | setKeypad | acknowledge => rfl

theorem apply_config (hop : ∀ speed, op ≠ .setSpeed speed) :
    (m.apply op).machine.config = m.config := by
  cases op with
  | setSpeed speed => exact absurd rfl (hop speed)
  | load source =>
    obtain ⟨memory, hm⟩ := m.load_machine source
    change (m.load source).machine.config = m.config
    rw [hm]
  | step => exact m.step_givens.1
  | tick => exact m.tick_givens.1
  | rewind =>
    change m.rewind.machine.config = m.config
    cases hm : m.history with
    | nil => rw [rewind_nil hm]
    | cons saved older => rw [rewind_cons hm]
  | clearProgram =>
    obtain ⟨memory, hm⟩ := m.clearProgram_machine
    change m.clearProgram.config = m.config
    rw [hm]
  | press | release | setKeypad | acknowledge => rfl

theorem run_atPace {ops : List Operation} (hops : ∀ op ∈ ops, ∀ speed, op ≠ .setSpeed speed)
    (h : (m.atPace perTick speed).config.batch = m.config.batch) :
    (m.atPace perTick speed).run ops = (m.run ops).atPace perTick speed := by
  induction ops generalizing m with
  | nil => rfl
  | cons op ops ih =>
    obtain ⟨hop, hops⟩ := List.forall_mem_cons.mp hops
    have hconfig := apply_config (m := m) hop
    have hlater := ih (m := (m.apply op).machine) hops (by
      rw [atPace, hconfig]
      exact h)
    rw [run_cons, run_cons, apply_atPace hop h]
    change Outcome.mk (Machine.run (Machine.atPace _ _ _) _).machine _ _ = _
    rw [Outcome.atPace, hlater]
    rfl

end

section
variable {m : Machine} {n k : Nat}

theorem tickOf_answer (m : Machine) (n : Nat) :
    (m.tickOf n).answer = (batch n m.ready []).answer := rfl

theorem tickOf_add_stop (h : (m.tickOf n).answer ≠ .ok .proceed) :
    m.tickOf (n + k) = m.tickOf n := by
  rw [tickOf, batch_add_stop k h]
  rfl

theorem tickOf_add_proceed (h : m.tick.answer = .ok .proceed) (k : Nat) :
    let more := batch k m.tick.machine []
    m.tickOf (m.config.batch + k) =
      ⟨more.machine, m.tick.events ++ more.events ++ haltRecord more, more.answer⟩ := by
  have hquiet : haltRecord (batch m.config.batch m.ready []) = [] := by
    rw [haltRecord, ← tickOf_answer, ← tick_eq, h]
  have htick : m.tick.events = .buzz (buzz m.core) :: (batch m.config.batch m.ready []).events := by
    rw [tick_eq, tickOf, hquiet, List.append_nil]
  have hgo : (batch m.config.batch m.ready []).answer = .ok .proceed := h
  have hwhole := batch_add_proceed k hgo
  rw [tickOf, hwhole, htick]
  rfl

/-- After a tick that has gone on to its end, single steps do what a larger batch would have done,
the record of a halt apart, which only a tick makes. -/
theorem exists_steps_tickOf (h : m.tick.answer = .ok .proceed) (k : Nat) : ∃ j ≤ k,
    let single := m.run (.tick :: .replicate j .step)
    let whole := m.tickOf (m.config.batch + k)
    single.machine = whole.machine ∧ whole.events = single.events ++ haltRecord whole ∧
      single.answer = .replicate j (.flow (.ok .proceed)) ++ [.flow whole.answer] ∧
      (j < k → whole.answer ≠ .ok .proceed) := by
  obtain ⟨j, hj, hmachine, hevents, hanswer, hstop⟩ := exists_steps_batch k m.tick.machine
  refine ⟨j, hj, ?_⟩
  rw [run_cons, tickOf_add_proceed h]
  refine ⟨hmachine, ?_, ?_, hstop⟩
  · change _ = m.tick.events ++ (m.tick.machine.run _).events ++ _
    rw [hevents]
    rfl
  · change Answer.flow m.tick.answer :: _ = _
    rw [h]
    exact hanswer

/-- After a tick that has halted, the next tick begins behind the halt. -/
theorem tick_halt (h : m.tick.answer = .ok .halt) : ∃ earlier t next later,
    m.instants .tick = earlier ++ [t] ∧ t.core.fetch = 0x00FD ∧
      m.tick.machine.instants .tick = next :: later ∧ next.core = t.core.advance.countDown := by
  have hhalt : (batch m.config.batch m.ready []).answer = .ok .halt := h
  obtain ⟨earlier, t, hinstants, hfetch, hpassed⟩ := batch_halt hhalt
  have hmachine : m.tick.machine = t.passed := hpassed
  have hnext : ∃ later, m.tick.machine.instants .tick = m.tick.machine.ready :: later := by
    rw [instants, m.tick_givens.1]
    cases hn : m.config.batch with
    | zero =>
      rw [tick_eq, tickOf_answer, hn] at h
      cases h
    | succ n => exact ⟨_, rfl⟩
  obtain ⟨later, hlater⟩ := hnext
  refine ⟨earlier, t, m.tick.machine.ready, later, hinstants, hfetch, hlater, ?_⟩
  rw [hmachine]
  rfl

end

/-- A tick that has gone on to its end can be gone on with step by step. Up to the first step that
does not go on, the steps lead to the same machine, orders, records and last answer as one tick with
the larger batch; the record of a halt is the tick's own. A tick that has stopped is the same with
every larger batch, and after a halt the next tick begins behind it. Of instructions and speed only
the product counts, which stops growing at 2 ^ 64 - 1. -/
theorem ticks_as_steps (m : Machine) :
    let size (perTick speed : UInt64) := min (2 ^ 64 - 1) (perTick.toNat * speed.toNat)
    let n := size m.config.perTick m.config.speed
    (∀ k, (∃ perTick speed, size perTick speed = k) ↔ k < 2 ^ 64) ∧
    (∀ perTick speed, let other := m.atPace perTick speed
      (m.tick.answer = .ok .proceed → ∀ k, size perTick speed = n + k → ∃ j ≤ k,
        let single := m.run (.tick :: .replicate j .step)
        other.tick.machine = single.machine.atPace perTick speed ∧
        other.tick.events = single.events ++ haltRecord other.tick ∧
        single.answer = .replicate j (.flow (.ok .proceed)) ++ [.flow other.tick.answer] ∧
        (j < k → other.tick.answer ≠ .ok .proceed)) ∧
      (m.tick.answer ≠ .ok .proceed → n ≤ size perTick speed →
        other.tick = m.tick.atPace perTick speed) ∧
      (size perTick speed = n → ∀ ops, (∀ op ∈ ops, ∀ speed, op ≠ .setSpeed speed) →
        other.run ops = (m.run ops).atPace perTick speed)) ∧
    (m.tick.answer = .ok .halt → ∃ earlier t next later,
      m.instants .tick = earlier ++ [t] ∧ t.core.fetch = 0x00FD ∧
      m.tick.machine.instants .tick = next :: later ∧ next.core = t.core.advance.countDown) := by
  intro size n
  have hbatch : m.config.batch = n := m.config.batch_eq
  have hother (perTick speed : UInt64) :
      (m.atPace perTick speed).config.batch = size perTick speed := Config.batch_eq _
  refine ⟨exists_batch_iff, fun perTick speed => ⟨fun hgo k hk => ?_, fun hstop hle => ?_,
    fun hsame ops hops => run_atPace hops ?_⟩, tick_halt⟩
  · obtain ⟨j, hj, hmachine, hevents, hanswer, hstop⟩ := exists_steps_tickOf hgo k
    rw [tick_atPace, hother, hk, ← hbatch]
    exact ⟨j, hj, congrArg (atPace · perTick speed) hmachine.symm, hevents, hanswer, hstop⟩
  · obtain ⟨k, hk⟩ := Nat.exists_eq_add_of_le hle
    rw [tick_atPace, hother, hk, ← hbatch, tickOf_add_stop hstop]
    rfl
  · rw [hother, hbatch, hsame]

/-- With a batch of two the program goes on to its halt. One step more halts, and so does one tick
with a batch of three; with a batch of eighty-one it does not go further. One instruction in a tick
at speed two does what two at speed one do. -/
theorem ticks_as_steps_chirp :
    let m : Machine := ⟨{ Core.fresh .vip with memory := Memory.fresh.overlay chirp }, [],
      ⟨.vip, 1, 2⟩, .cycle []⟩
    let other := m.atPace 1 3
    m.tick.answer = .ok .proceed ∧ other.tick.answer = .ok .halt ∧
      other.tick.machine = (m.run [.tick, .step]).machine.atPace 1 3 ∧
      (other.atPace 9 9).tick = other.tick.atPace 9 9 ∧
      ((m.atPace 2 1).run [.tick, .rewind, .tick]).machine =
        (m.run [.tick, .rewind, .tick]).machine.atPace 2 1 ∧
      ∃ (t next : Machine) (later : List Machine), t.core.fetch = 0x00FD ∧
        other.tick.machine.instants .tick = next :: later ∧
        next.core = t.core.advance.countDown := by
  intro m other
  obtain ⟨hm, hgo, _⟩ := tick_chirp_first (m := m) (by decide) rfl rfl
  have hword : m.tick.machine.core.fetch = 0x00FD := by
    have hmemory : m.tick.machine.core.memory = Memory.fresh.overlay chirp := by rw [hm]; rfl
    have hpc : m.tick.machine.core.pc = 0x204 := by rw [hm]
    exact fetch_chirp hmemory hpc (by decide)
  have hhalt : m.tick.machine.step.answer = .ok .halt := by
    rw [step_done (i := .halt) (by rw [hword]; rfl) rfl]
    rfl
  obtain ⟨hlarger, -⟩ := (ticks_as_steps m).2.1 1 3
  obtain ⟨j, hj, hmachine, _, hanswer, hlast⟩ := hlarger hgo 1 (by decide)
  have hsteps : j = 1 ∧ other.tick.answer = .ok .halt := by
    have hnone (m : Machine) : (m.run (.tick :: .replicate 0 .step)).answer =
        [.flow m.tick.answer] := rfl
    have hone (m : Machine) : (m.run (.tick :: .replicate 1 .step)).answer =
        [.flow m.tick.answer, .flow m.tick.machine.step.answer] := rfl
    obtain rfl | rfl : j = 0 ∨ j = 1 := by omega
    · rw [hnone, hgo] at hanswer
      exact absurd (Answer.flow.inj (List.cons.inj hanswer).1).symm (hlast Nat.one_pos)
    · rw [hone, hgo, hhalt] at hanswer
      exact ⟨rfl, (Answer.flow.inj (List.cons.inj (List.cons.inj hanswer).2).1).symm⟩
  obtain ⟨rfl, hstop⟩ := hsteps
  have hfurther := ((ticks_as_steps other).2.1 9 9).2.1 (by rw [hstop]; decide) (by decide)
  have hpace := ((ticks_as_steps m).2.1 2 1).2.2 (by decide) [.tick, .rewind, .tick] (by simp)
  obtain ⟨_, t, next, later, _, hnext⟩ := (ticks_as_steps other).2.2 hstop
  exact ⟨hgo, hstop, hmachine, hfurther, congrArg Outcome.machine hpace, t, next, later, hnext⟩

end Machine
end ChipMachine
