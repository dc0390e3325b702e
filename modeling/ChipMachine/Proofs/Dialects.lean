import ChipMachine.Proofs.Run

namespace ChipMachine

section
variable {mode : Mode} {left : Nat}

/-- Eight pixels that fit into the row leave nothing to clip or to wrap. -/
theorem Mode.span_inside (h : left + 8 ≤ mode.width) (clips clips' : Bool) (pattern : UInt8) :
    mode.span clips left pattern = mode.span clips' left pattern := by
  have hpast : (BitVec.ofNat 128 pattern.toNat <<< 120) <<< (mode.width - left) = 0 := by
    rw [← BitVec.shiftLeft_add]
    exact BitVec.shiftLeft_eq_zero (by omega)
  simp only [span, hpast, ite_self]

theorem Mode.line?_inside {y : Nat} (h : y < mode.height) (clips : Bool) :
    mode.line? clips y = some y := if_pos h

/-- Away from the edges a sprite is drawn the same whether sprites clip or wrap. -/
theorem Bitmap.blit_inside (h : left + 8 ≤ mode.width) (clips clips' : Bool)
    (sprite : List UInt8) (y : Nat) (hy : y + sprite.length ≤ mode.height) (b : Bitmap) :
    blit mode clips left sprite y b = blit mode clips' left sprite y b := by
  induction sprite generalizing y b with
  | nil => rfl
  | cons pattern below ih =>
    rw [List.length_cons] at hy
    -- the first line is drawn by both, and the lines below it still fit
    have hline : y < mode.height := by omega
    simp only [blit, Mode.line?_inside hline, Mode.span_inside h clips clips']
    rw [ih (y + 1) (by omega)]

end

/-- The same core in a dialect. -/
def Core.inDialect (d : Dialect) (s : Core) : Core := { s with dialect := d }

/-- The register that the high digit of an address names. -/
def Core.namedRegister (a : UInt16) : Reg := ⟨a.toNat / 256 % 16, Nat.mod_lt _ (by decide)⟩

namespace Instruction

/-- Whether an instruction comes to the same in the core's dialect and in `d`: it consults no
convention on which they differ, or what it consults makes no difference here. -/
def Indifferent (d : Dialect) (s : Core) : Instruction → Prop
  | or .. | and .. | xor .. => s.conventions.logicClearsFlag = d.conventions.logicClearsFlag
  | shiftRight x y | shiftLeft x y =>
    s.conventions.shiftReadsY = d.conventions.shiftReadsY ∨ x = y
  | jumpOffset a =>
    s.conventions.offsetNamesRegister = d.conventions.offsetNamesRegister ∨
      s.reg (Core.namedRegister a) = s.reg (Core.namedRegister 0)
  | draw x y n =>
    s.conventions.spritesClip = d.conventions.spritesClip ∨
      (s.reg x).toNat % s.mode.width + 8 ≤ s.mode.width ∧
        (s.reg y).toNat % s.mode.height + n.toNat ≤ s.mode.height
  | store _ | load _ => s.conventions.transferMovesIndex = d.conventions.transferMovesIndex
  | _ => True

end Instruction

namespace Core

variable {d : Dialect} {s : Core}

theorem combine_inDialect (h : s.conventions.logicClearsFlag = d.conventions.logicClearsFlag)
    (x : Reg) (b : UInt8) : (s.inDialect d).combine x b = (s.combine x b).inDialect d := by
  have hc : (s.inDialect d).conventions = d.conventions := rfl
  simp only [combine, hc, ← h]
  split <;> rfl

theorem skipIf_inDialect (c : Bool) : (s.inDialect d).skipIf c = (s.skipIf c).inDialect d := by
  cases c <;> rfl

theorem waitKey_inDialect (x : Reg) : (s.inDialect d).waitKey x = (s.waitKey x).inDialect d := by
  have hk : (s.inDialect d).keypad = s.keypad := rfl
  simp only [waitKey, hk]
  split <;> rfl

theorem shiftOperand_inDialect {x y : Reg}
    (h : s.conventions.shiftReadsY = d.conventions.shiftReadsY ∨ x = y) :
    (s.inDialect d).shiftOperand x y = s.shiftOperand x y := by
  have hc : (s.inDialect d).conventions = d.conventions := rfl
  have hreg (z : Reg) : (s.inDialect d).reg z = s.reg z := rfl
  simp only [shiftOperand, hc, hreg]
  rcases h with h | rfl
  · rw [h]
  · rw [ite_self, ite_self]

theorem offsetRegister_eq (s : Core) (a : UInt16) : s.offsetRegister a =
    if s.conventions.offsetNamesRegister then namedRegister a else namedRegister 0 := by
  simp only [offsetRegister, namedRegister]
  split <;> rfl

theorem reg_offsetRegister_inDialect {a : UInt16}
    (h : s.conventions.offsetNamesRegister = d.conventions.offsetNamesRegister ∨
      s.reg (namedRegister a) = s.reg (namedRegister 0)) :
    (s.inDialect d).reg ((s.inDialect d).offsetRegister a) = s.reg (s.offsetRegister a) := by
  have hc : (s.inDialect d).conventions = d.conventions := rfl
  have hreg (z : Reg) : (s.inDialect d).reg z = s.reg z := rfl
  rw [offsetRegister_eq, offsetRegister_eq, hc, hreg]
  rcases h with h | h
  · rw [h]
  · rw [apply_ite s.reg, apply_ite s.reg, h, ite_self, ite_self]

theorem indexAfterTransfer_inDialect
    (h : s.conventions.transferMovesIndex = d.conventions.transferMovesIndex) (x : Reg) :
    (s.inDialect d).indexAfterTransfer x = s.indexAfterTransfer x := by
  have hc : (s.inDialect d).conventions = d.conventions := rfl
  simp only [indexAfterTransfer, hc, ← h]
  rfl

theorem drawSprite_inDialect {x y : Reg} {n : UInt8}
    (h : s.conventions.spritesClip = d.conventions.spritesClip ∨
      (s.reg x).toNat % s.mode.width + 8 ≤ s.mode.width ∧
        (s.reg y).toNat % s.mode.height + n.toNat ≤ s.mode.height) :
    (s.inDialect d).drawSprite x y n = (s.drawSprite x y n).inDialect d := by
  have hdrawn : s.bitmap.drawSprite s.mode d.conventions.spritesClip (s.reg x).toNat
      (s.reg y).toNat (s.memory.readBlock s.i n.toNat) =
      s.bitmap.drawSprite s.mode s.conventions.spritesClip (s.reg x).toNat (s.reg y).toNat
        (s.memory.readBlock s.i n.toNat) := by
    rcases h with h | ⟨hx, hy⟩
    · rw [h]
    · exact Bitmap.blit_inside hx _ _ _ _ (by rwa [Memory.length_readBlock]) _
  change ((s.inDialect d).paint _).flag _ = _
  unfold drawSprite
  rw [← hdrawn]
  rfl

theorem enter_inDialect (a : UInt16) :
    (s.inDialect d).enter a = (s.enter a).map (inDialect d) := by
  have hsp : (s.inDialect d).sp = s.sp := rfl
  simp only [enter, hsp]
  split <;> rfl

theorem leave_inDialect : (s.inDialect d).leave = s.leave.map (inDialect d) := by
  have hsp : (s.inDialect d).sp = s.sp := rfl
  have hstack : (s.inDialect d).stack = s.stack := rfl
  simp only [leave, hsp, hstack]
  split
  · rfl
  · cases s.stack[s.sp.toNat - 1]? <;> rfl

end Core

namespace Instruction

/-- Where the dialects come to the same, running in the other one is the same but for its mark. -/
theorem execute_inDialect {d : Dialect} {s : Core} {i : Instruction} (h : i.Indifferent d s)
    (chance : UInt8) :
    i.execute chance (s.inDialect d) = (i.execute chance s).map (Core.inDialect d) := by
  cases i
  case ret => exact Core.leave_inDialect
  case call a => exact Core.enter_inDialect a
  case skipIfByte | skipUnlessByte | skipIfEqual | skipUnlessEqual | skipIfDown | skipUnlessDown =>
    exact congrArg Except.ok (Core.skipIf_inDialect _)
  case waitKey x => exact congrArg Except.ok (Core.waitKey_inDialect x)
  case or | and | xor => exact congrArg Except.ok (Core.combine_inDialect h _ _)
  case shiftRight x y | shiftLeft x y =>
    simp only [execute, Core.shiftOperand_inDialect h]
    rfl
  case jumpOffset a =>
    simp only [execute, Core.reg_offsetRegister_inDialect h]
    rfl
  case draw x y n => exact congrArg Except.ok (Core.drawSprite_inDialect h)
  case store x | load x =>
    simp only [execute, Core.storeRegisters, Core.loadRegisters,
      Core.indexAfterTransfer_inDialect h]
    rfl
  all_goals rfl

end Instruction

namespace Machine

/-- The same machine in a dialect, and all that it can be rewound to. -/
def inDialect (d : Dialect) (m : Machine) : Machine :=
  { m with
    core := m.core.inDialect d
    history := m.history.map (Core.inDialect d)
    config := { m.config with dialect := d } }

/-- Whether the instruction that the machine is about to run comes to the same in `d`. -/
def Indifferent (d : Dialect) (m : Machine) : Prop :=
  ∀ i, Instruction.decode m.core.fetch = some i → i.Indifferent d m.core

end Machine

/-- The same outcome, but for the dialect of the machine. -/
def Outcome.inDialect (d : Dialect) (o : Outcome α) : Outcome α :=
  { o with machine := o.machine.inDialect d }

/-- The machine of the second outcome is that of the first in `d`, and the buzzer got the same
orders and the caller the same answer. -/
structure Outcome.AgreesIn (d : Dialect) (o o' : Outcome α) : Prop where
  machine : o'.machine = o.machine.inDialect d
  orders : o'.orders = o.orders
  answer : o'.answer = o.answer

theorem Outcome.AgreesIn.of_eq {d : Dialect} {o o' : Outcome α} (h : o' = o.inDialect d) :
    o.AgreesIn d o' := by
  rw [h]
  exact ⟨rfl, rfl, rfl⟩

namespace Machine

variable {d : Dialect} {m : Machine}

theorem step_inDialect (h : m.Indifferent d) : (m.inDialect d).step = m.step.inDialect d := by
  have hfetch : (m.inDialect d).core.fetch = m.core.fetch := rfl
  cases hd : Instruction.decode m.core.fetch with
  | none =>
    rw [step_unknown hd, step_unknown (hfetch ▸ hd)]
    rfl
  | some i =>
    have hd' : Instruction.decode (m.inDialect d).core.fetch = some i := hfetch ▸ hd
    have hi : i.Indifferent d m.core.advance := by
      -- no instruction is indifferent because of where the program counter stands
      have := h i hd
      cases i <;> exact this
    have he' := Instruction.execute_inDialect hi m.entropy.chance
    cases he : i.execute m.entropy.chance m.core.advance with
    | error fault =>
      rw [he] at he'
      rw [step_refused hd he, step_refused hd' he']
      rfl
    | ok t =>
      rw [he] at he'
      rw [step_done hd he, step_done hd' he']
      rfl

theorem batch_inDialect (n : Nat) (h : ∀ t ∈ batchInstants n m, t.Indifferent d)
    (past : List Event) : batch n (m.inDialect d) past = (batch n m past).inDialect d := by
  induction n generalizing m past with
  | zero => rfl
  | succ n ih =>
    simp only [batchInstants] at h
    have hstep := step_inDialect (h m List.mem_cons_self)
    simp only [batch, hstep, Outcome.inDialect]
    split
    · rename_i ha
      rw [ha] at h
      exact ih (fun t ht => h t (List.mem_cons_of_mem _ ht)) _
    · rfl

theorem ready_inDialect : (m.inDialect d).ready = m.ready.inDialect d := by
  simp only [ready, save, inDialect, List.map_take, List.map_cons]
  rfl

theorem tick_inDialect (h : ∀ t ∈ m.instants .tick, t.Indifferent d) :
    (m.inDialect d).tick = m.tick.inDialect d := by
  have hbatch := batch_inDialect m.config.batch h []
  have hcount : (m.inDialect d).config.batch = m.config.batch := rfl
  simp only [tick, hcount, ready_inDialect, hbatch]
  rfl

theorem rewind_inDialect : (m.inDialect d).rewind = m.rewind.inDialect d := by
  cases hm : m.history with
  | nil =>
    rw [rewind_nil hm, rewind_nil (by rw [inDialect, hm]; rfl)]
    rfl
  | cons saved older =>
    have hm' : (m.inDialect d).history =
      saved.inDialect d :: older.map (Core.inDialect d) := by rw [inDialect, hm]; rfl
    rw [rewind_cons hm, rewind_cons hm', hm', hm]
    simp only [Outcome.inDialect, inDialect, hm]
    rfl

theorem with_memory_inDialect (f : Memory → Memory) :
    { m.inDialect d with
      core := { (m.inDialect d).core with memory := f (m.inDialect d).core.memory } } =
    inDialect d { m with core := { m.core with memory := f m.core.memory } } := rfl

/-- Only the record of a loaded program names the dialect. -/
theorem load_agreesIn (source : ByteSource) :
    (m.load source).AgreesIn d ((m.inDialect d).load source) := by
  rcases load_cases source with ⟨reason, n, hl⟩ | ⟨program, warnings, n, hl⟩
  · exact .of_eq (by rw [hl, hl]; rfl)
  · rw [hl, hl]
    refine ⟨with_memory_inDialect (·.overlay program), ?_, rfl⟩
    rw [Outcome.orders, Outcome.orders, Event.filterMap_buzz?_recorded,
      Event.filterMap_buzz?_recorded]

/-- An operation whose instructions are indifferent does the same in the other dialect. -/
theorem apply_agreesIn {op : Operation} (h : ∀ t ∈ m.instants op, t.Indifferent d) :
    (m.apply op).AgreesIn d ((m.inDialect d).apply op) := by
  cases op with
  | load source =>
    obtain ⟨hmachine, horders, hanswer⟩ := load_agreesIn (m := m) (d := d) source
    exact ⟨hmachine, horders, congrArg Answer.loading hanswer⟩
  | clearProgram =>
    have hm : (m.inDialect d).clearProgram = m.clearProgram.inDialect d :=
      with_memory_inDialect Memory.clearProgram
    exact .of_eq (by rw [apply, hm]; rfl)
  | step =>
    have hstep := step_inDialect (h m List.mem_cons_self)
    exact .of_eq (congrArg (Outcome.map Answer.flow) hstep)
  | tick => exact .of_eq (congrArg (Outcome.map Answer.flow) (tick_inDialect h))
  | rewind => exact .of_eq (congrArg (Outcome.map Answer.rewound) rewind_inDialect)
  | _ => exact .of_eq rfl

theorem batchInstants_inDialect (n : Nat) (h : ∀ t ∈ batchInstants n m, t.Indifferent d) :
    batchInstants n (m.inDialect d) = (batchInstants n m).map (inDialect d) := by
  induction n generalizing m with
  | zero => rfl
  | succ n ih =>
    simp only [batchInstants] at h
    have hstep := step_inDialect (h m List.mem_cons_self)
    simp only [batchInstants, hstep, Outcome.inDialect, List.map_cons]
    split
    · rename_i ha
      rw [ha] at h
      rw [ih fun t ht => h t (List.mem_cons_of_mem _ ht)]
    · rfl

theorem instants_inDialect {op : Operation} (h : ∀ t ∈ m.instants op, t.Indifferent d) :
    (m.inDialect d).instants op = (m.instants op).map (inDialect d) := by
  cases op with
  | tick =>
    change batchInstants m.config.batch (m.inDialect d).ready = _
    rw [ready_inDialect]
    exact batchInstants_inDialect m.config.batch h
  | _ => rfl

theorem run_agreesIn {ops : List Operation} (h : ∀ t ∈ m.runInstants ops, t.Indifferent d) :
    (m.run ops).AgreesIn d ((m.inDialect d).run ops) ∧
    (m.inDialect d).runInstants ops = (m.runInstants ops).map (inDialect d) := by
  -- both at once: the machine after an operation is needed for the instructions behind it
  induction ops generalizing m with
  | nil => exact ⟨.of_eq rfl, rfl⟩
  | cons op ops ih =>
    have hnow : ∀ t ∈ m.instants op, t.Indifferent d :=
      fun t ht => h t (List.mem_append_left _ ht)
    obtain ⟨hmachine, horders, hanswer⟩ := apply_agreesIn hnow
    obtain ⟨hlater, hinstants⟩ := ih fun t ht => h t (List.mem_append_right _ ht)
    simp only [Outcome.orders] at horders
    constructor
    · rw [run_cons, run_cons, hmachine]
      have hlast := hlater.orders
      simp only [Outcome.orders] at hlast
      refine ⟨hlater.machine, ?_, ?_⟩
      · simp only [Outcome.orders, List.filterMap_append, horders, hlast]
      · rw [hanswer, hlater.answer]
    · rw [runInstants, runInstants, instants_inDialect hnow, hmachine, hinstants, List.map_append]

/-- Dialects differ in their conventions and in nothing else: as long as the instructions of a run
come to the same in both, two machines that start alike in everything but the dialect stay so. -/
theorem dialects_agree (s : Core) (entropy : Entropy) (perTick speed : UInt64) (a b : Dialect)
    (ops : List Operation) :
    let m : Machine := ⟨s.inDialect a, [], ⟨a, perTick, speed⟩, entropy⟩
    let m' : Machine := ⟨s.inDialect b, [], ⟨b, perTick, speed⟩, entropy⟩
    (∀ t ∈ m.runInstants ops, t.Indifferent b) →
    (m.run ops).AgreesIn b (m'.run ops) ∧
    m'.runInstants ops = (m.runInstants ops).map (inDialect b) := by
  intro m m' h
  exact run_agreesIn h

/-- Five rows are drawn in the corner of the screen, where it makes no difference that one of the
dialects clips sprites and the other does not. -/
theorem dialects_agree_inside :
    let s : Core := { Core.fresh .vip with memory := Memory.fresh.writeBlock [0xD0, 0x15] 0x200 }
    let m : Machine := ⟨s.inDialect .vip, [], ⟨.vip, 10, 1⟩, .cycle []⟩
    let m' : Machine := ⟨s.inDialect .xoChip, [], ⟨.xoChip, 10, 1⟩, .cycle []⟩
    m.step.answer = .ok .proceed ∧
      (m.run [.step, .rewind]).AgreesIn .xoChip (m'.run [.step, .rewind]) := by
  intro s m m'
  have hhigh : s.memory.read 0x200 = 0xD0 := by
    simp [s, Memory.writeBlock, Memory.read_write, Memory.cell]
  have hlow : s.memory.read 0x201 = 0x15 := by
    simp [s, Memory.writeBlock, Memory.read_write, Memory.cell]
  have hfetch : m.core.fetch = 0xD015 := by
    change Word.ofBytes (s.memory.read 0x200) (s.memory.read 0x201) = 0xD015
    rw [hhigh, hlow]
    rfl
  have hd : Instruction.decode m.core.fetch = some (.draw 0 1 5) := by rw [hfetch]; rfl
  constructor
  · rw [step_done hd rfl]
    rfl
  · refine (dialects_agree s (.cycle []) 10 1 .vip .xoChip [.step, .rewind] ?_).1
    intro t ht i hi
    obtain rfl : t = m := by simpa [runInstants, instants] using ht
    obtain rfl : i = .draw 0 1 5 := Option.some.inj (hi.symm.trans hd)
    exact .inr ⟨by decide, by decide⟩

end Machine
end ChipMachine
