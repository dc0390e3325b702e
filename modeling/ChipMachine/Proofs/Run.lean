import ChipMachine.Machine.Operation

namespace ChipMachine

/-- Whether the operation comes from outside, and is no step, tick or rewind. -/
def Operation.isOuter : Operation → Bool
  | .step | .tick | .rewind => false
  | _ => true

/-- The orders that were given to the buzzer. -/
def Outcome.orders (o : Outcome α) : List Buzz := o.events.filterMap Event.buzz?

theorem Event.filterMap_buzz?_recorded (rs : List Record) :
    (rs.map recorded).filterMap buzz? = [] := by
  simp [List.filterMap_map, Function.comp_def, buzz?]

namespace Machine

section
variable {m : Machine} {i : Instruction}

theorem step_unknown (hd : Instruction.decode m.core.fetch = none) :
    m.step = ⟨m.passed, [], .error (.unknownWord m.core.fetch m.core.pc)⟩ := by
  simp [step, obey, hd]

theorem step_refused {fault : Fault} (hd : Instruction.decode m.core.fetch = some i)
    (he : i.execute m.entropy.chance m.core.advance = .error fault) :
    m.step = ⟨m.passed, [m.seen m.core.fetch i], .error fault⟩ := by
  simp [step, obey, hd, perform, passed, he, conclude]

theorem step_done {t : Core} (hd : Instruction.decode m.core.fetch = some i)
    (he : i.execute m.entropy.chance m.core.advance = .ok t) :
    m.step = ⟨{ m with core := t, entropy := m.entropy.skip i.draws },
      m.seen m.core.fetch i :: i.mode?.toList.map (.recorded <| .switching ·), .ok i.flow⟩ := by
  simp [step, obey, hd, perform, passed, he, conclude]

end

/-- What a step can come to: a word that stands for nothing, an instruction that is refused, or one
that is carried out. -/
theorem step_cases (m : Machine) :
    (Instruction.decode m.core.fetch = none ∧
      m.step = ⟨m.passed, [], .error (.unknownWord m.core.fetch m.core.pc)⟩) ∨
    (∃ i fault, Instruction.decode m.core.fetch = some i ∧
      i.execute m.entropy.chance m.core.advance = .error fault ∧
      m.step = ⟨m.passed, [m.seen m.core.fetch i], .error fault⟩) ∨
    (∃ i t, Instruction.decode m.core.fetch = some i ∧
      i.execute m.entropy.chance m.core.advance = .ok t ∧
      m.step = ⟨{ m with core := t, entropy := m.entropy.skip i.draws },
        m.seen m.core.fetch i :: i.mode?.toList.map (.recorded <| .switching ·), .ok i.flow⟩) := by
  cases hd : Instruction.decode m.core.fetch with
  | none => exact .inl ⟨rfl, step_unknown hd⟩
  | some i =>
    right
    cases he : i.execute m.entropy.chance m.core.advance with
    | error fault => exact .inl ⟨i, fault, rfl, he, step_refused hd he⟩
    | ok t => exact .inr ⟨i, t, rfl, he, step_done hd he⟩

theorem tick_machine (m : Machine) :
    m.tick.machine = (batch m.config.batch m.ready []).machine := rfl

theorem rewind_nil {m : Machine} (h : m.history = []) : m.rewind = ⟨m, [], false⟩ := by
  unfold rewind
  rw [h]

theorem rewind_cons {m : Machine} {saved : Core} {older : List Core}
    (h : m.history = saved :: older) :
    m.rewind = ⟨{ m with
      core := { saved with keypad := m.core.keypad, dirty := true }
      history := m.history.tail }, [], true⟩ := by
  unfold rewind
  rw [h]
  rfl

/-- What a source does to a machine that loads it: nothing, or a program is laid over memory. Which
of the two, and which program, is the same for all machines. -/
theorem load_cases (source : ByteSource) :
    (∃ reason n, ∀ m : Machine, m.load source = ⟨m, [], .error (.unreadable reason), n⟩) ∨
    (∃ program warnings n, ∀ m : Machine, m.load source =
      ⟨{ m with core := { m.core with memory := m.core.memory.overlay program } },
        (warnings ++ [.loaded program.length m.config.dialect]).map .recorded, .ok (), n⟩) := by
  obtain ⟨taken, ht⟩ : ∃ taken, source.take (Memory.programCapacity + 1) = taken := ⟨_, rfl⟩
  cases hf : taken.failure with
  | some reason =>
    refine .inl ⟨reason, taken.bytes.length, fun m => ?_⟩
    simp only [load, ht, hf]
  | none =>
    refine .inr ⟨taken.bytes.take Memory.programCapacity,
      if Memory.programCapacity < taken.bytes.length then [.truncated] else [],
      taken.bytes.length, fun m => ?_⟩
    simp only [load, ht, hf, List.map_append]
    split <;> rfl

/-- Loading changes memory alone, whatever the source does. -/
theorem load_machine (m : Machine) (source : ByteSource) :
    ∃ memory, (m.load source).machine = { m with core := { m.core with memory := memory } } := by
  unfold load
  dsimp only
  split
  · exact ⟨m.core.memory, rfl⟩
  · exact ⟨_, rfl⟩

theorem clearProgram_machine (m : Machine) : ∃ memory,
    m.clearProgram = { m with core := { m.core with memory := memory } } :=
  ⟨m.core.memory.clearProgram, rfl⟩

/-- From outside, operations reach memory, keys, speed and the mark that the picture has to be
shown. -/
theorem apply_outer (m : Machine) {op : Operation} (h : op.isOuter = true) :
    ∃ memory keypad dirty speed, (m.apply op).machine =
      { m with
        core := { m.core with memory := memory, keypad := keypad, dirty := dirty }
        config := { m.config with speed := speed } } := by
  cases op with
  | step | tick | rewind => cases h
  | load source =>
    obtain ⟨memory, hm⟩ := m.load_machine source
    exact ⟨memory, _, _, _, hm⟩
  | clearProgram =>
    obtain ⟨memory, hm⟩ := m.clearProgram_machine
    exact ⟨memory, _, _, _, hm⟩
  | press | release | setKeypad => exact ⟨_, _, _, _, rfl⟩
  | setSpeed speed => exact ⟨_, _, _, speed, rfl⟩
  | acknowledge => exact ⟨_, _, false, _, rfl⟩

theorem run_cons (m : Machine) (op : Operation) (ops : List Operation) :
    m.run (op :: ops) =
      ⟨((m.apply op).machine.run ops).machine,
        (m.apply op).events ++ ((m.apply op).machine.run ops).events,
        (m.apply op).answer :: ((m.apply op).machine.run ops).answer⟩ := rfl

theorem run_append (m : Machine) (ops later : List Operation) :
    m.run (ops ++ later) =
      ⟨((m.run ops).machine.run later).machine,
        (m.run ops).events ++ ((m.run ops).machine.run later).events,
        (m.run ops).answer ++ ((m.run ops).machine.run later).answer⟩ := by
  induction ops generalizing m with
  | nil => rfl
  | cons op ops ih => simp only [List.cons_append, run_cons, ih, List.append_assoc]

/-- The machines of a batch that stand before an instruction. -/
def batchInstants : Nat → Machine → List Machine
  | 0, _ => []
  | n + 1, m =>
    m :: match m.step.answer with
      | .ok .proceed => batchInstants n m.step.machine
      | _ => []

/-- The machines that an operation takes through an instruction, as they were before it. -/
def instants (m : Machine) : Operation → List Machine
  | .step => [m]
  | .tick => batchInstants m.config.batch m.ready
  | _ => []

/-- The machines of a run that stand before an instruction. -/
def runInstants (m : Machine) : List Operation → List Machine
  | [] => []
  | op :: ops => m.instants op ++ (m.apply op).machine.runInstants ops

theorem runInstants_append (m : Machine) (ops later : List Operation) :
    m.runInstants (ops ++ later) =
      m.runInstants ops ++ (m.run ops).machine.runInstants later := by
  induction ops generalizing m with
  | nil => rfl
  | cons op ops ih => simp only [List.cons_append, runInstants, run_cons, ih, List.append_assoc]

section
variable {P C : Machine → Prop}

/-- What steps preserve where `C` holds, a batch preserves as long as it does. -/
theorem batch_preserves_while (hstep : ∀ m, P m → C m → P m.step.machine) (n : Nat) (m : Machine)
    (past : List Event) (h : P m) (hwhile : ∀ t ∈ batchInstants n m, C t) :
    P (batch n m past).machine := by
  induction n generalizing m past with
  | zero => exact h
  | succ n ih =>
    simp only [batchInstants] at hwhile
    obtain ⟨hnow, hlater⟩ := List.forall_mem_cons.mp hwhile
    simp only [batch]
    split
    · rename_i ha
      rw [ha] at hlater
      exact ih _ _ (hstep m h hnow) hlater
    · exact hstep m h hnow

/-- What every step preserves, a batch of steps preserves. -/
theorem batch_preserves (hstep : ∀ m, P m → P m.step.machine) (n : Nat) (m : Machine)
    (past : List Event) (h : P m) : P (batch n m past).machine :=
  batch_preserves_while (C := fun _ => True) (fun m h _ => hstep m h) n m past h
    fun _ _ => trivial

/-- It holds before an instruction of the batch if `C` has held before all earlier ones. -/
theorem batchInstants_preserve_while (hstep : ∀ m, P m → C m → P m.step.machine) (n : Nat)
    (m : Machine) (h : P m) {earlier later : List Machine} {t : Machine}
    (hsplit : batchInstants n m = earlier ++ t :: later) (hwhile : ∀ u ∈ earlier, C u) : P t := by
  induction n generalizing m earlier with
  | zero => simp [batchInstants] at hsplit
  | succ n ih =>
    simp only [batchInstants] at hsplit
    cases earlier with
    | nil =>
      obtain ⟨rfl, _⟩ := List.cons.inj hsplit
      exact h
    | cons u earlier =>
      obtain ⟨rfl, hrest⟩ := List.cons.inj hsplit
      obtain ⟨hnow, hearlier⟩ := List.forall_mem_cons.mp hwhile
      split at hrest
      · exact ih _ (hstep m h hnow) hrest hearlier
      · simp at hrest

theorem instants_preserve_while (hstep : ∀ m, P m → C m → P m.step.machine)
    (hready : ∀ m, P m → P m.ready) (m : Machine) (op : Operation) (h : P m)
    {earlier later : List Machine} {t : Machine} (hsplit : m.instants op = earlier ++ t :: later)
    (hwhile : ∀ u ∈ earlier, C u) : P t := by
  cases op with
  | step =>
    cases earlier with
    | nil =>
      obtain ⟨rfl, _⟩ := List.cons.inj hsplit
      exact h
    | cons u earlier => simp [instants] at hsplit
  | tick => exact batchInstants_preserve_while hstep _ _ (hready m h) hsplit hwhile
  | _ => simp [instants] at hsplit

variable (happly : ∀ m op, P m → (∀ t ∈ m.instants op, C t) → P (m.apply op).machine)
include happly

/-- What operations preserve where `C` holds, a run preserves as long as it does. -/
theorem run_preserves_while (m : Machine) (ops : List Operation) (h : P m)
    (hwhile : ∀ t ∈ m.runInstants ops, C t) : P (m.run ops).machine := by
  induction ops generalizing m with
  | nil => exact h
  | cons op ops ih =>
    obtain ⟨hnow, hlater⟩ := List.forall_mem_append.mp hwhile
    exact ih _ (happly m op h hnow) hlater

/-- It holds before an instruction of the run if `C` has held before all earlier ones. -/
theorem runInstants_preserve_while (hstep : ∀ m, P m → C m → P m.step.machine)
    (hready : ∀ m, P m → P m.ready) (m : Machine) (ops : List Operation) (h : P m)
    {earlier later : List Machine} {t : Machine}
    (hsplit : m.runInstants ops = earlier ++ t :: later) (hwhile : ∀ u ∈ earlier, C u) : P t := by
  induction ops generalizing m earlier with
  | nil => simp [runInstants] at hsplit
  | cons op ops ih =>
    have hrest : ∀ behind, earlier = m.instants op ++ behind →
        (m.apply op).machine.runInstants ops = behind ++ t :: later → P t := by
      rintro behind rfl hbehind
      obtain ⟨hnow, hlater⟩ := List.forall_mem_append.mp hwhile
      exact ih _ (happly m op h hnow) hbehind hlater
    rcases List.append_eq_append_iff.mp hsplit with ⟨behind, he, hb⟩ | ⟨more, hm, hl⟩
    · exact hrest behind he hb
    · cases more with
      | nil => exact hrest [] (by rw [hm]; simp) hl.symm
      | cons u more =>
        obtain ⟨rfl, _⟩ := List.cons.inj hl
        exact instants_preserve_while hstep hready m op h hm hwhile

end

section
variable {P : Machine → Prop} (happly : ∀ m op, P m → P (m.apply op).machine)
include happly

/-- What every operation preserves, a run preserves. -/
theorem run_preserves (m : Machine) (ops : List Operation) (h : P m) : P (m.run ops).machine :=
  run_preserves_while (C := fun _ => True) (fun m op h _ => happly m op h) m ops h
    fun _ _ => trivial

/-- What every operation and every step preserve holds before each instruction of a run. -/
theorem runInstants_preserve (hstep : ∀ m, P m → P m.step.machine)
    (hready : ∀ m, P m → P m.ready) (m : Machine) (ops : List Operation) (h : P m) :
    ∀ t ∈ m.runInstants ops, P t := by
  intro t ht
  obtain ⟨earlier, later, hsplit⟩ := List.append_of_mem ht
  exact runInstants_preserve_while (C := fun _ => True) (fun m op h _ => happly m op h)
    (fun m h _ => hstep m h) hready m ops h hsplit fun _ _ => trivial

end

end Machine

/-- A program that calls a subroutine, comes back and halts. -/
def visit : List UInt8 := [0x22, 0x04, 0x00, 0xFD, 0x00, 0xEE]

namespace Machine

/-- Where a tick begins that makes the visit. -/
structure AtVisit (m : Machine) : Prop where
  batch : m.config.batch = 10
  memory : ∃ memory : Memory, m.core.memory = memory.overlay visit
  pc : m.core.pc = 0x200
  sp : m.core.sp = 0

/-- The machine is named apart from its run, so that nothing tries to carry the run out. -/
theorem AtVisit.loaded (entropy : Entropy) : ∃ m : Machine,
    ((fresh .standard entropy).run [.load (.ofList visit)]).machine = m ∧ m.AtVisit ∧
      m.core = { Core.fresh .vip with memory := Memory.fresh.overlay visit } ∧ m.history = [] :=
  ⟨_, rfl, ⟨rfl, ⟨_, rfl⟩, rfl, rfl⟩, rfl, rfl⟩

theorem AtVisit.tick {m : Machine} (h : m.AtVisit) :
    m.tick.answer = .ok .halt ∧ m.tick.machine = { m.ready with
      core := { m.core.countDown with stack := m.core.stack.set 0 0x202, pc := 0x204 } } := by
  obtain ⟨hbatch, ⟨memory, hmemory⟩, hpc, hsp⟩ := h
  let inside : Machine := { m.ready with
    core := { m.core.countDown with stack := m.core.stack.set 0 0x202, sp := 1, pc := 0x204 } }
  let back : Machine := { m.ready with
    core := { m.core.countDown with stack := m.core.stack.set 0 0x202, pc := 0x202 } }
  have hone : m.ready.core.fetch = Word.ofBytes 0x22 0x04 :=
    Core.fetch_overlay hmemory hpc (by decide) rfl rfl
  have htwo : inside.core.fetch = Word.ofBytes 0x00 0xEE :=
    Core.fetch_overlay (a := 0x204) hmemory rfl (by decide) rfl rfl
  have hthree : back.core.fetch = Word.ofBytes 0x00 0xFD :=
    Core.fetch_overlay (a := 0x202) hmemory rfl (by decide) rfl rfl
  have henter : m.ready.core.advance.enter 0x204 = .ok inside.core := by
    simp [Core.enter, Core.callLimit, Core.advance, Core.countDown, ready, inside, hsp, hpc]
  have hleave : inside.core.advance.leave = .ok back.core := by
    simp [Core.leave, Core.advance, Core.countDown, inside, back, hsp]
  have hcall : m.ready.step =
      ⟨inside, [m.ready.seen m.ready.core.fetch (.call 0x204)], .ok .proceed⟩ :=
    step_done (i := .call 0x204) (by rw [hone]; rfl) henter
  have hreturn : inside.step = ⟨back, [inside.seen inside.core.fetch .ret], .ok .proceed⟩ :=
    step_done (i := .ret) (by rw [htwo]; rfl) hleave
  have hhalt : back.step = ⟨back.passed, [back.seen back.core.fetch .halt], .ok .halt⟩ :=
    step_done (by rw [hthree]; rfl) rfl
  simp only [Machine.tick, hbatch, Machine.batch, hcall, hreturn, hhalt]
  exact ⟨trivial, rfl⟩

end Machine
end ChipMachine
