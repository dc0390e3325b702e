import ChipMachine.Proofs.Coding
import ChipMachine.Proofs.Rewinding

namespace ChipMachine

namespace Keypad

variable {p : Keypad}

theorem lowest?_eq_none (h : ∀ k, p.isDown k = false) : p.lowest? = none := by
  refine List.find?_eq_none.mpr fun k _ => ?_
  rw [h k]
  exact Bool.false_ne_true

/-- Of some pressed keys one has the smallest number. -/
theorem exists_lowest? (h : ∃ k, p.isDown k = true) : ∃ k, p.lowest? = some k ∧
    p.isDown k = true ∧ ∀ j < k, p.isDown j = false := by
  obtain ⟨i, hi⟩ := h
  have hsome : p.lowest?.isSome = true := List.find?_isSome.mpr ⟨i, List.mem_finRange i, hi⟩
  obtain ⟨k, hk⟩ := Option.isSome_iff_exists.mp hsome
  obtain ⟨hdown, n, hn, hfound, hbefore⟩ := List.find?_eq_some_iff_getElem.mp hk
  refine ⟨k, hk, hdown, fun j hj => ?_⟩
  rw [List.getElem_finRange] at hfound
  have hjn : j.val < n := by
    rw [← hfound] at hj
    exact hj
  have hup := hbefore j.val hjn
  rw [List.getElem_finRange] at hup
  exact Bool.not_eq_true' _ |>.mp hup

end Keypad

/-- Whether the operation lets the machine run, or sets how fast. -/
def Operation.lets : Operation → Bool
  | .step | .tick | .setSpeed _ => true
  | _ => false

/-- The answer to such an operation, if nothing happens. -/
def Operation.quiet : Operation → Answer
  | .step | .tick => .flow (.ok .proceed)
  | _ => .done

/-- The speed that is set after an operation. -/
def Operation.pace (speed : UInt64) : Operation → UInt64
  | .setSpeed speed => speed
  | _ => speed

namespace Core

/-- The same core some ticks later, as far as the timers are concerned. -/
def aged (s : Core) (ticks : Nat) : Core :=
  { s with
    delay := UInt8.ofNat (s.delay.toNat - ticks)
    sound := UInt8.ofNat (s.sound.toNat - ticks) }

section
variable (s : Core)

theorem aged_zero : s.aged 0 = s := by
  simp [aged]

theorem aged_aged (j k : Nat) : (s.aged j).aged k = s.aged (j + k) := by
  have hlater (b : UInt8) :
      UInt8.ofNat ((UInt8.ofNat (b.toNat - j)).toNat - k) = UInt8.ofNat (b.toNat - (j + k)) := by
    rw [UInt8.toNat_ofNat_of_lt' (Nat.lt_of_le_of_lt (Nat.sub_le ..) b.toNat_lt), Nat.sub_sub]
  exact congrArg₂ (fun d t => { s with delay := d, sound := t }) (hlater s.delay) (hlater s.sound)

theorem countDown_eq_aged : s.countDown = s.aged 1 := by
  have hdown (b : UInt8) : (if b = 0 then 0 else b - 1) = UInt8.ofNat (b.toNat - 1) := by
    split
    · rename_i hb
      rw [hb]
      rfl
    · rename_i hb
      rw [← Nat.eq_sub_of_add_eq (toNat_sub_one_add_one hb), UInt8.ofNat_toNat]
  exact congrArg₂ (fun d t => { s with delay := d, sound := t }) (hdown s.delay) (hdown s.sound)

end

/-- The counter stands at a wait for a key, which is to go to Vx, and no key is down. -/
structure Waits (s : Core) (x : Reg) : Prop where
  word : s.fetch = Instruction.digits 0xF x 0x0 0xA
  released : ∀ k, s.keypad.isDown k = false

variable {m : Machine} {x : Reg}

theorem Waits.aged {s : Core} (h : s.Waits x) (ticks : Nat) : (s.aged ticks).Waits x :=
  ⟨h.word, h.released⟩

theorem decode_wait {w : Word} (h : w = Instruction.digits 0xF x 0x0 0xA) :
    Instruction.decode w = some (.waitKey x) :=
  Instruction.decode_eq_some_iff.mpr ⟨trivial, h.symm⟩

/-- The wait takes back that the counter has moved on, and so it leaves the machine as it was. -/
theorem Waits.step (h : m.core.Waits x) :
    m.step = ⟨m, [m.seen m.core.fetch (.waitKey x)], .ok .proceed⟩ := by
  have hwait : (Instruction.waitKey x).execute m.entropy.chance m.core.advance = .ok m.core := by
    have hback : m.core.pc + 2 - 2 = m.core.pc := UInt16.add_sub_cancel ..
    have hnone : m.core.advance.keypad.lowest? = none := Keypad.lowest?_eq_none h.released
    rw [Instruction.execute, Core.waitKey, hnone]
    simp only [Core.advance, hback]
  exact Machine.step_done (decode_wait h.word) hwait

theorem Waits.batch (h : m.core.Waits x) (n : Nat) (past : List Event) :
    ∃ events, Machine.batch n m past = ⟨m, events, .ok .proceed⟩ := by
  induction n generalizing past with
  | zero => exact ⟨_, rfl⟩
  | succ n ih =>
    simp only [Machine.batch, h.step]
    exact ih _

theorem Waits.tick (h : m.core.Waits x) :
    m.tick.answer = .ok .proceed ∧ m.tick.machine = { m.save with core := m.core.aged 1 } := by
  have hready : m.ready = { m.save with core := m.core.aged 1 } := by
    rw [Machine.ready, countDown_eq_aged]
  have hwaits : m.ready.core.Waits x := by
    rw [hready]
    exact h.aged 1
  obtain ⟨events, hbatch⟩ := hwaits.batch m.config.batch []
  simp only [Machine.tick, hbatch]
  exact ⟨trivial, hready⟩

theorem Waits.apply (h : m.core.Waits x) {op : Operation} (hop : op.lets = true) :
    (m.apply op).answer = op.quiet ∧ ∃ history, (m.apply op).machine = { m with
      core := m.core.aged (if op.isTick then 1 else 0)
      history := history
      config := { m.config with speed := op.pace m.config.speed } } := by
  have hsame := m.core.aged_zero
  cases op with
  | step =>
    simp only [Machine.apply, Outcome.map, h.step]
    exact ⟨rfl, m.history, congrArg (fun s => { m with core := s }) hsame.symm⟩
  | tick =>
    obtain ⟨hanswer, hmachine⟩ := h.tick
    simp only [Machine.apply, Outcome.map, hanswer, hmachine]
    exact ⟨rfl, _, rfl⟩
  | setSpeed speed =>
    refine ⟨rfl, m.history, ?_⟩
    exact congrArg (fun s => { m with core := s, config := { m.config with speed := speed } })
      hsame.symm
  | _ => cases hop

/-- Whatever lets it run leaves a waiting machine waiting. Only its timers run on. -/
theorem Waits.run (h : m.core.Waits x) {ops : List Operation}
    (hops : ∀ op ∈ ops, op.lets = true) :
    let ticks := ops.countP Operation.isTick
    (m.run ops).answer = ops.map Operation.quiet ∧
    (∃ history, (m.run ops).machine = { m with
      core := m.core.aged ticks
      history := history
      config := { m.config with speed := ops.foldl Operation.pace m.config.speed } }) ∧
    m.begun ops = (List.range ticks).reverse.map m.core.aged := by
  induction ops generalizing m with
  | nil => exact ⟨rfl, ⟨_, congrArg (fun s => { m with core := s }) m.core.aged_zero.symm⟩, rfl⟩
  | cons op ops ih =>
    obtain ⟨hop, hops⟩ := List.forall_mem_cons.mp hops
    obtain ⟨hanswer, history, hmachine⟩ := h.apply hop
    obtain ⟨hanswers, ⟨history', hdone⟩, hbegun⟩ :=
      ih (m := (m.apply op).machine) (by rw [hmachine]; exact h.aged _) hops
    refine ⟨?_, ⟨history', ?_⟩, ?_⟩
    · rw [Machine.run_cons, List.map_cons, hanswer, hanswers]
    · rw [Machine.run_cons]
      dsimp only
      rw [hdone, hmachine]
      dsimp only
      rw [aged_aged, List.countP_cons, Nat.add_comm, List.foldl_cons]
    · have hlater : (m.apply op).machine.core.aged =
          fun k => m.core.aged ((if op.isTick then 1 else 0) + k) := by
        funext k
        rw [hmachine, aged_aged]
      rw [Machine.begun, hbegun, hlater, List.countP_cons]
      cases op.isTick with
      | false => simp
      | true =>
        rw [if_pos rfl, if_pos rfl, List.range_succ_eq_map]
        simp [Function.comp_def, Nat.add_comm 1, aged_zero]

theorem exists_key_step (hword : m.core.fetch = Instruction.digits 0xF x 0x0 0xA)
    (hdown : ∃ k, m.core.keypad.isDown k = true) : ∃ k, m.core.keypad.isDown k = true ∧
      (∀ j < k, m.core.keypad.isDown j = false) ∧
      m.step = ⟨{ m with core := { m.core.put x (UInt8.ofNat k) with pc := m.core.pc + 2 } },
        [m.seen m.core.fetch (.waitKey x)], .ok .proceed⟩ := by
  obtain ⟨k, hk, hpressed, hbefore⟩ := Keypad.exists_lowest? hdown
  refine ⟨k, hpressed, hbefore, Machine.step_done (decode_wait hword) ?_⟩
  have hlowest : m.core.advance.keypad.lowest? = some k := hk
  rw [Instruction.execute, waitKey, hlowest]
  rfl

end Core

namespace Machine

/-- While no key is down, a machine that waits for one goes on and on, in steps and in ticks of any
size, and comes to nothing but that its timers run out: the history gains what each tick began with.
At the next step after any keys have been pressed, the lowest of them goes to its register and the
counter to the next word. -/
theorem waits_for_key (m : Machine) (x : Reg) (ops : List Operation)
    (hword : m.core.fetch = Instruction.digits 0xF x 0x0 0xA)
    (hreleased : ∀ k, m.core.keypad.isDown k = false) (hops : ∀ op ∈ ops, op.lets = true) :
    let done := m.run ops
    let ticks := ops.countP Operation.isTick
    let waited (ticks : Nat) : Core := { m.core with
      delay := UInt8.ofNat (m.core.delay.toNat - ticks)
      sound := UInt8.ofNat (m.core.sound.toNat - ticks) }
    done.answer = ops.map Operation.quiet ∧
    done.machine = { m with
      core := waited ticks
      history := done.machine.history
      config := { m.config with speed := ops.foldl Operation.pace m.config.speed } } ∧
    (m.history.length ≤ historyLimit → done.machine.history =
      ((List.range ticks).reverse.map waited ++ m.history).take historyLimit) ∧
    ∀ keypad : Keypad, (∃ k, keypad.isDown k = true) →
      let pressed := done.machine.setKeypad keypad
      ∃ k, keypad.isDown k = true ∧ (∀ j < k, keypad.isDown j = false) ∧
        pressed.step.answer = .ok .proceed ∧ pressed.step.machine = { pressed with
          core := { pressed.core.put x (UInt8.ofNat k) with pc := m.core.pc + 2 } } := by
  intro done ticks waited
  have hwaits : m.core.Waits x := ⟨hword, hreleased⟩
  obtain ⟨hanswer, ⟨history, hmachine⟩, hbegun⟩ := hwaits.run hops
  have hdone : done.machine = { m with
      core := waited ticks
      history := history
      config := { m.config with speed := ops.foldl Operation.pace m.config.speed } } := hmachine
  refine ⟨hanswer, ?_, fun hbounded => ?_, fun keypad hdown => ?_⟩
  · rw [hdone]
  · have hforth : ∀ op ∈ ops, op.isRewind = false := by
      intro op hop
      have hlets := hops op hop
      cases op with
      | rewind => cases hlets
      | _ => rfl
    have hhistory := m.run_history ops hforth hbounded
    rw [hbegun] at hhistory
    exact hhistory
  · intro pressed
    have hpressed : pressed.core = { waited ticks with keypad := keypad } := by
      simp only [pressed, hdone]
      rfl
    have hcounter : pressed.core.pc = m.core.pc := by rw [hpressed]
    have hfetch : pressed.core.fetch = Instruction.digits 0xF x 0x0 0xA := by
      rw [hpressed]
      exact hword
    obtain ⟨k, hk, hbefore, hstep⟩ := Core.exists_key_step hfetch hdown
    rw [hstep, ← hcounter]
    exact ⟨k, hk, hbefore, rfl, rfl⟩

/-- The word lies across the end of memory, and the counter at the end of what it can name; after
three ticks at two speeds both timers are spent, and of two keys the lower one is taken. -/
theorem waits_for_key_wrapping :
    let m : Machine :=
      { fresh .standard (.cycle []) with
        core := { Core.fresh .vip with
          memory := Memory.fresh.writeBlock [0xF3, 0x0A] 0xFFF
          pc := 0xFFFF
          delay := 3
          sound := 1 } }
    let ops := [.tick, .step, .setSpeed 9, .tick, .tick]
    let done := m.run ops
    (∀ op ∈ ops, op.lets = true) ∧ done.machine.core.delay = 0 ∧ done.machine.core.sound = 0 ∧
      done.machine.core.pc = 0xFFFF ∧ done.machine.history.length = 3 ∧
      ((done.machine.press 9).press 4).step.machine.core.reg 3 = 4 ∧
      ((done.machine.press 9).press 4).step.machine.core.pc = 1 := by
  intro m ops done
  have hops : ∀ op ∈ ops, op.lets = true := by decide
  have hword : m.core.fetch = Instruction.digits 0xF 3 0x0 0xA := by
    have hhigh : m.core.memory.read m.core.pc = 0xF3 := by
      simp [m, Memory.writeBlock, Memory.read_write, Memory.cell]
    have hlow : m.core.memory.read (m.core.pc + 1) = 0x0A := by
      simp [m, Memory.writeBlock, Memory.read_write, Memory.cell]
    rw [Core.fetch, hhigh, hlow]
    rfl
  have hreleased : ∀ k, m.core.keypad.isDown k = false := by decide
  have hpc : m.core.pc = 0xFFFF := rfl
  have hkeypad : m.core.keypad = .released := rfl
  have hdelay : m.core.delay = 3 := rfl
  have hsound : m.core.sound = 1 := rfl
  have hempty : m.history = [] := rfl
  -- no more is needed of the machine, and none of its memory is to be looked at again
  clear_value m
  let keypad := (Keypad.released.set 9 true).set 4 true
  have hlowest : ∀ k, keypad.isDown k = true → (∀ j < k, keypad.isDown j = false) → k = 4 := by
    decide
  obtain ⟨-, hdone, hhistory, hpress⟩ := waits_for_key m 3 ops hword hreleased hops
  simp only [done]
  generalize m.run ops = done at hdone hhistory hpress ⊢
  have hcore := congrArg Machine.core hdone
  obtain ⟨k, hk, hbefore, -, hstep⟩ := hpress keypad ⟨4, by decide⟩
  obtain rfl := hlowest k hk hbefore
  have hstill : done.machine.core.keypad = .released := by rw [hcore, hkeypad]
  have hboth : (done.machine.press 9).press 4 = done.machine.setKeypad keypad := by
    have hpressed (m : Machine) (j k : Fin 16) :
        (m.press j).press k = m.setKeypad ((m.core.keypad.set j true).set k true) := rfl
    rw [hpressed, hstill]
  refine ⟨hops, ?_, ?_, ?_, ?_, ?_, ?_⟩
  · rw [hcore, hdelay]
    rfl
  · rw [hcore, hsound]
    rfl
  · rw [hcore, hpc]
  · rw [hhistory (hempty ▸ Nat.zero_le _), hempty]
    rfl
  · rw [hboth, hstep]
    have hmoved (s : Core) (pc : UInt16) : { s with pc := pc }.reg 3 = s.reg 3 := rfl
    refine (hmoved ..).trans ?_
    rw [Core.reg_put, if_pos rfl]
    rfl
  · rw [hboth, hstep, hpc]
    rfl

end Machine
end ChipMachine
