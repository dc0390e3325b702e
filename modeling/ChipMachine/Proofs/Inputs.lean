import ChipMachine.Proofs.Execution
import ChipMachine.Proofs.Rewinding
import ChipMachine.Proofs.Simulation

namespace ChipMachine

namespace Core

/-- The same core with other keys held. -/
def withKeypad (p : Keypad) (s : Core) : Core := { s with keypad := p }

/-- Cores that differ at most in the keys that are held. -/
def AgreesButKeys (s t : Core) : Prop := t = s.withKeypad t.keypad

variable (s : Core) (p : Keypad)

theorem combine_withKeypad (x : Reg) (b : UInt8) :
    (s.withKeypad p).combine x b = (s.combine x b).withKeypad p := by
  have hc : (s.withKeypad p).conventions = s.conventions := rfl
  simp only [combine, hc]
  split <;> rfl

theorem skipIf_withKeypad (c : Bool) :
    (s.withKeypad p).skipIf c = (s.skipIf c).withKeypad p := by
  cases c <;> rfl

theorem enter_withKeypad (a : UInt16) :
    (s.withKeypad p).enter a = (s.enter a).map (withKeypad p) := by
  have hsp : (s.withKeypad p).sp = s.sp := rfl
  simp only [enter, hsp]
  split <;> rfl

theorem leave_withKeypad : (s.withKeypad p).leave = s.leave.map (withKeypad p) := by
  have hsp : (s.withKeypad p).sp = s.sp := rfl
  have hstack : (s.withKeypad p).stack = s.stack := rfl
  simp only [leave, hsp, hstack]
  split
  · rfl
  · cases s.stack[s.sp.toNat - 1]? <;> rfl

variable {s} {t : Core}

theorem AgreesButKeys.pc_eq (h : s.AgreesButKeys t) : t.pc = s.pc := by rw [h]; rfl

theorem AgreesButKeys.fetch_eq (h : s.AgreesButKeys t) : t.fetch = s.fetch := by rw [h]; rfl

theorem AgreesButKeys.countDown (h : s.AgreesButKeys t) :
    s.countDown.AgreesButKeys t.countDown := by
  rw [h]
  rfl

theorem AgreesButKeys.with_memory (h : s.AgreesButKeys t) (f : Memory → Memory) :
    AgreesButKeys { s with memory := f s.memory } { t with memory := f t.memory } := by
  rw [h]
  rfl

theorem AgreesButKeys.with_dirty (h : s.AgreesButKeys t) (dirty : Bool) :
    AgreesButKeys { s with dirty := dirty } { t with dirty := dirty } := by
  rw [h]
  rfl

end Core

namespace Instruction

/-- Whether an instruction gets the same from outside on two sides: the random bits that it keeps,
the state of the key that it asks for, or the lowest key that is pressed. -/
def HearsSame (chance chance' : UInt8) (s s' : Core) : Instruction → Prop
  | random _ k => chance &&& k = chance' &&& k
  | skipIfDown x | skipUnlessDown x =>
    s.keypad.isDown (Keypad.key (s.reg x)) = s'.keypad.isDown (Keypad.key (s'.reg x))
  | waitKey _ => s.keypad.lowest? = s'.keypad.lowest?
  | _ => True

/-- Nothing else that an instruction does depends on the random byte or on the keys. -/
theorem execute_withKeypad {i : Instruction} {chance chance' : UInt8} {s : Core} {p : Keypad}
    (h : i.HearsSame chance chance' s (s.withKeypad p)) :
    i.execute chance' (s.withKeypad p) = (i.execute chance s).map (Core.withKeypad p) := by
  cases i
  case ret => exact s.leave_withKeypad p
  case call a => exact s.enter_withKeypad p a
  case or | and | xor => exact congrArg Except.ok (s.combine_withKeypad p _ _)
  case skipIfByte | skipUnlessByte | skipIfEqual | skipUnlessEqual =>
    exact congrArg Except.ok (s.skipIf_withKeypad p _)
  case skipIfDown x | skipUnlessDown x =>
    simp only [HearsSame] at h
    simp only [execute, ← h]
    exact congrArg Except.ok (s.skipIf_withKeypad p _)
  case waitKey x =>
    simp only [HearsSame] at h
    simp only [execute, Core.waitKey, ← h]
    split <;> rfl
  case random x k =>
    simp only [HearsSame] at h
    simp only [execute, ← h]
    rfl
  all_goals rfl

end Instruction

namespace Machine

/-- Machines that differ at most in the keys that are held, now and at what they can be rewound to,
and in their random words. -/
structure AgreesButInputs (m m' : Machine) : Prop where
  core : m.core.AgreesButKeys m'.core
  history : List.Forall₂ Core.AgreesButKeys m.history m'.history
  config : m'.config = m.config

/-- Whether the instructions that two machines are about to run get the same from outside. -/
def HearsAs (m m' : Machine) : Prop :=
  ∀ i, Instruction.decode m.core.fetch = some i →
    i.HearsSame m.entropy.chance m'.entropy.chance m.core m'.core

/-- Whether the instruction that the machine is about to run takes a random word. -/
def takesChance (m : Machine) : Bool :=
  match Instruction.decode m.core.fetch with
  | some (.random ..) => true
  | _ => false

/-- The answers of a run to all operations but those on the keys. -/
def results (m : Machine) (ops : List Operation) : List Answer :=
  ((ops.zip (m.run ops).answer).filter (! ·.1.isKey)).map (·.2)

variable {m m' : Machine}

theorem AgreesButInputs.step (h : m.AgreesButInputs m') (hears : m.HearsAs m') :
    m.step.Matches AgreesButInputs m'.step := by
  have hfetch := h.core.fetch_eq
  have hadvance : m'.core.advance = m.core.advance.withKeypad m'.core.keypad := by
    rw [h.core]
    rfl
  have hpassed : m.passed.AgreesButInputs m'.passed := ⟨hadvance, h.history, h.config⟩
  have hseen (i : Instruction) : m'.seen m'.core.fetch i = m.seen m.core.fetch i := by
    rw [hfetch, seen, seen, h.core]
    rfl
  obtain ⟨hd, hs⟩ | ⟨i, fault, hd, he, hs⟩ | ⟨i, t, hd, he, hs⟩ := m.step_cases
  · rw [hs, step_unknown (by rw [hfetch]; exact hd), hfetch, h.core.pc_eq]
    exact ⟨hpassed, rfl, rfl⟩
  all_goals
    have hd' : Instruction.decode m'.core.fetch = some i := by rw [hfetch]; exact hd
    have hi : i.HearsSame m.entropy.chance m'.entropy.chance m.core.advance
        (m.core.advance.withKeypad m'.core.keypad) := by
      -- what an instruction hears does not depend on where the program counter stands
      have := hears i hd
      rw [h.core] at this
      cases i <;> exact this
    have he' := Instruction.execute_withKeypad hi
    rw [he, ← hadvance] at he'
  · rw [hs, step_refused hd' he', hseen]
    exact ⟨hpassed, rfl, rfl⟩
  · rw [hs, step_done hd' he', hseen]
    exact ⟨⟨rfl, h.history, h.config⟩, rfl, rfl⟩

theorem AgreesButInputs.ready (h : m.AgreesButInputs m') : m.ready.AgreesButInputs m'.ready :=
  ⟨h.core.countDown, List.forall₂_take _ (.cons h.core h.history), h.config⟩

theorem AgreesButInputs.tick (h : m.AgreesButInputs m')
    (hears : ∀ p ∈ (m.instants .tick).zip (m'.instants .tick), p.1.HearsAs p.2) :
    m.tick.Matches AgreesButInputs m'.tick ∧
    List.Forall₂ AgreesButInputs (m.instants .tick) (m'.instants .tick) := by
  have hcount : m'.config.batch = m.config.batch := by rw [h.config]
  have hbuzz : buzz m'.core = buzz m.core := by rw [h.core]; rfl
  simp only [instants, hcount] at hears ⊢
  obtain ⟨hmachine, hevents, hanswer⟩ :=
    batch_matches_while (fun _ _ => AgreesButInputs.step) m.config.batch h.ready hears []
  have hhalt : haltRecord (batch m.config.batch m'.ready []) =
      haltRecord (batch m.config.batch m.ready []) := by
    rw [haltRecord, haltRecord, ← hanswer, hmachine.core]
    rfl
  refine ⟨⟨?_, ?_, ?_⟩,
    batchInstants_matches_while (fun _ _ => AgreesButInputs.step) _ h.ready hears⟩
  · rw [tick_machine, tick_machine, hcount]
    exact hmachine
  · simp only [Machine.tick, hcount, hbuzz, hevents, hhalt]
  · simp only [Machine.tick, hcount, hanswer]

/-- Each machine keeps its own keys. -/
theorem AgreesButInputs.rewind (h : m.AgreesButInputs m') :
    m.rewind.Matches AgreesButInputs m'.rewind := by
  have hhistory := h.history
  cases hm : m.history with
  | nil =>
    rw [hm] at hhistory
    rw [rewind_nil hm, rewind_nil (List.forall₂_nil_left_iff.mp hhistory)]
    exact ⟨h, rfl, rfl⟩
  | cons saved older =>
    rw [hm] at hhistory
    obtain ⟨saved', older', hsaved, holder, hm'⟩ := List.forall₂_cons_left_iff.mp hhistory
    rw [rewind_cons hm, rewind_cons hm', hm, hm', hsaved]
    exact ⟨⟨rfl, holder, h.config⟩, rfl, rfl⟩

theorem AgreesButInputs.with_memory (h : m.AgreesButInputs m') (f : Memory → Memory) :
    AgreesButInputs { m with core := { m.core with memory := f m.core.memory } }
      { m' with core := { m'.core with memory := f m'.core.memory } } :=
  ⟨h.core.with_memory f, h.history, h.config⟩

theorem AgreesButInputs.load (h : m.AgreesButInputs m') (source : ByteSource) :
    (m.load source).Matches AgreesButInputs (m'.load source) := by
  have hdialect : m'.config.dialect = m.config.dialect := by rw [h.config]
  rcases load_cases source with ⟨reason, n, hl⟩ | ⟨program, warnings, n, hl⟩
  · rw [hl, hl]
    exact ⟨h, rfl, rfl⟩
  · rw [hl, hl, hdialect]
    exact ⟨h.with_memory (·.overlay program), rfl, rfl⟩

theorem AgreesButInputs.apply (h : m.AgreesButInputs m') {op : Operation}
    (hop : op.isKey = false)
    (hears : ∀ p ∈ (m.instants op).zip (m'.instants op), p.1.HearsAs p.2) :
    (m.apply op).Matches AgreesButInputs (m'.apply op) ∧
    List.Forall₂ AgreesButInputs (m.instants op) (m'.instants op) := by
  cases op with
  | load source =>
    obtain ⟨hmachine, hevents, hanswer⟩ := h.load source
    exact ⟨⟨hmachine, hevents, congrArg Answer.loading hanswer⟩, .nil⟩
  | clearProgram => exact ⟨⟨h.with_memory Memory.clearProgram, rfl, rfl⟩, .nil⟩
  | step =>
    obtain ⟨hmachine, hevents, hanswer⟩ := h.step (hears (m, m') List.mem_cons_self)
    exact ⟨⟨hmachine, hevents, congrArg Answer.flow hanswer⟩, .cons h .nil⟩
  | tick =>
    obtain ⟨⟨hmachine, hevents, hanswer⟩, hinstants⟩ := h.tick hears
    exact ⟨⟨hmachine, hevents, congrArg Answer.flow hanswer⟩, hinstants⟩
  | rewind =>
    obtain ⟨hmachine, hevents, hanswer⟩ := h.rewind
    exact ⟨⟨hmachine, hevents, congrArg Answer.rewound hanswer⟩, .nil⟩
  | setSpeed speed =>
    refine ⟨⟨⟨h.core, h.history, ?_⟩, rfl, rfl⟩, .nil⟩
    change { m'.config with speed := speed } = { m.config with speed := speed }
    rw [h.config]
  | acknowledge => exact ⟨⟨⟨h.core.with_dirty false, h.history, h.config⟩, rfl, rfl⟩, .nil⟩
  | press | release | setKeypad => cases hop

/-- Key operations set the keys, and do nothing else. -/
theorem apply_isKey (m : Machine) {op : Operation} (hop : op.isKey = true) :
    m.instants op = [] ∧ ∃ p, m.apply op = (m.setKeypad p).quietly := by
  cases op with
  | press | release | setKeypad => exact ⟨rfl, _, rfl⟩
  | _ => cases hop

theorem AgreesButInputs.setKeypad (h : m.AgreesButInputs m') (p q : Keypad) :
    (m.setKeypad p).AgreesButInputs (m'.setKeypad q) := by
  refine ⟨?_, h.history, h.config⟩
  rw [Machine.setKeypad, Machine.setKeypad, h.core]
  rfl

/-- Pairs of elements at the same place are still at one place when both lists go on. -/
theorem mem_zip_append {l more : List α} {r others : List β} {p : α × β} (h : p ∈ l.zip r) :
    p ∈ (l ++ more).zip (r ++ others) := by
  induction l generalizing r with
  | nil => simp at h
  | cons a l ih =>
    cases r with
    | nil => simp at h
    | cons b r =>
      rw [List.zip_cons_cons, List.mem_cons] at h
      exact List.mem_cons.mpr (h.imp_right ih)

theorem results_cons (m : Machine) (op : Operation) (ops : List Operation) :
    m.results (op :: ops) = (if op.isKey then [] else [(m.apply op).answer]) ++
      (m.apply op).machine.results ops := by
  rw [results, run_cons, List.zip_cons_cons, List.filter_cons]
  cases op.isKey <;> rfl

end Machine

/-- The same operations, with each side's own operations on the keys in between. -/
inductive Operation.SameButKeys : List Operation → List Operation → Prop where
  | nil : SameButKeys [] []
  | left {op : Operation} {ops ops' : List Operation} :
    op.isKey = true → SameButKeys ops ops' → SameButKeys (op :: ops) ops'
  | right {op : Operation} {ops ops' : List Operation} :
    op.isKey = true → SameButKeys ops ops' → SameButKeys ops (op :: ops')
  | both {op : Operation} {ops ops' : List Operation} :
    op.isKey = false → SameButKeys ops ops' → SameButKeys (op :: ops) (op :: ops')

theorem Operation.sameButKeys_of_filter {ops ops' : List Operation}
    (h : ops.filter (! ·.isKey) = ops'.filter (! ·.isKey)) : SameButKeys ops ops' := by
  induction ops generalizing ops' with
  | nil =>
    induction ops' with
    | nil => exact .nil
    | cons op' ops' ih =>
      cases hop' : op'.isKey with
      | true => exact .right hop' (ih (by simpa [hop'] using h))
      | false => simp [hop'] at h
  | cons op ops ih =>
    cases hop : op.isKey with
    | true => exact .left hop (ih (by simpa [hop] using h))
    | false =>
      -- the operation is the first of the other side that is not on the keys
      induction ops' with
      | nil => simp [hop] at h
      | cons op' ops' ih' =>
        cases hop' : op'.isKey with
        | true => exact .right hop' (ih' (by simpa [hop'] using h))
        | false =>
          simp only [List.filter_cons, hop, hop', Bool.not_false, if_true, List.cons.injEq] at h
          obtain ⟨rfl, h⟩ := h
          exact .both hop (ih h)

namespace Machine

variable {m m' : Machine}

theorem AgreesButInputs.run (h : m.AgreesButInputs m') {ops ops' : List Operation}
    (hops : Operation.SameButKeys ops ops')
    (hears : ∀ p ∈ (m.runInstants ops).zip (m'.runInstants ops'), p.1.HearsAs p.2) :
    (m.run ops).machine.AgreesButInputs (m'.run ops').machine ∧
    (m.run ops).events = (m'.run ops').events ∧ m.results ops = m'.results ops' ∧
    List.Forall₂ AgreesButInputs (m.runInstants ops) (m'.runInstants ops') := by
  induction hops generalizing m m' with
  | nil => exact ⟨h, rfl, rfl, .nil⟩
  | @left op ops ops' hop _ ih =>
    obtain ⟨hinstants, p, hp⟩ := m.apply_isKey hop
    rw [runInstants, hinstants, hp] at hears
    rw [run_cons, results_cons, runInstants, hinstants, hp, hop]
    exact ih (h.setKeypad p m'.core.keypad) hears
  | @right op ops ops' hop _ ih =>
    obtain ⟨hinstants, p, hp⟩ := m'.apply_isKey hop
    rw [runInstants, hinstants, hp] at hears
    rw [run_cons, results_cons, runInstants, hinstants, hp, hop]
    exact ih (h.setKeypad m.core.keypad p) hears
  | @both op ops ops' hop _ ih =>
    rw [runInstants, runInstants] at hears
    have hnow : ∀ p ∈ (m.instants op).zip (m'.instants op), p.1.HearsAs p.2 :=
      fun p hp => hears p (mem_zip_append hp)
    obtain ⟨⟨hmachine, hevents, hanswer⟩, hinstants⟩ := h.apply hop hnow
    rw [List.zip_append hinstants.length_eq] at hears
    obtain ⟨hlast, hlater, hresults, hmore⟩ :=
      ih hmachine fun p hp => hears p (List.mem_append_right _ hp)
    rw [run_cons, run_cons, results_cons, results_cons, runInstants, runInstants, hop, hevents,
      hanswer, hlater, hresults]
    exact ⟨hlast, rfl, rfl, List.rel_append hinstants hmore⟩

theorem step_skips (m : Machine) :
    m.step.machine.entropy = m.entropy.skip (if m.takesChance then 1 else 0) := by
  obtain ⟨hd, hs⟩ | ⟨i, fault, hd, he, hs⟩ | ⟨i, t, hd, he, hs⟩ := m.step_cases
  · rw [hs, takesChance, hd]
    rfl
  · rw [hs, takesChance, hd]
    cases i with
    | random x k => cases he
    | _ => rfl
  · rw [hs, takesChance, hd]
    cases i <;> rfl

theorem batch_skips (n : Nat) (m : Machine) (past : List Event) :
    (batch n m past).machine.entropy =
      m.entropy.skip ((batchInstants n m).countP takesChance) := by
  induction n generalizing m past with
  | zero => rfl
  | succ n ih =>
    have hstep := m.step_skips
    cases ha : m.step.answer with
    | error fault =>
      simp only [batch, batchInstants, ha, List.countP_singleton]
      exact hstep
    | ok flow =>
      cases flow with
      | halt =>
        simp only [batch, batchInstants, ha, List.countP_singleton]
        exact hstep
      | proceed =>
        simp only [batch, batchInstants, ha, List.countP_cons]
        rw [ih, hstep, Entropy.skip_skip, Nat.add_comm]

/-- Each CXKK that is executed takes one random word, and nothing else does. -/
theorem run_skips (m : Machine) (ops : List Operation) :
    (m.run ops).machine.entropy = m.entropy.skip ((m.runInstants ops).countP takesChance) := by
  induction ops generalizing m with
  | nil => rfl
  | cons op ops ih =>
    have hop : (m.apply op).machine.entropy =
        m.entropy.skip ((m.instants op).countP takesChance) := by
      cases op with
      | step =>
        simp only [instants, List.countP_singleton]
        exact m.step_skips
      | tick => exact batch_skips m.config.batch m.ready []
      | rewind =>
        change m.rewind.machine.entropy = _
        unfold rewind
        split <;> rfl
      | load source =>
        obtain ⟨memory, hm⟩ := m.load_machine source
        change (m.load source).machine.entropy = _
        rw [hm]
        rfl
      | _ => rfl
    rw [run_cons, runInstants, List.countP_append, ih, hop, Entropy.skip_skip]

theorem countP_takesChance_eq {ms ms' : List Machine} (h : List.Forall₂ AgreesButInputs ms ms') :
    ms'.countP takesChance = ms.countP takesChance := by
  induction h with
  | nil => rfl
  | @cons m m' ms ms' h _ ih =>
    have hsame : m'.takesChance = m.takesChance := by rw [takesChance, h.core.fetch_eq]; rfl
    rw [List.countP_cons, List.countP_cons, ih, hsame]

/-- Two machines that start alike, with random words and keys of their own, do the same as long as
their instructions get the same from outside: random bits where a mask keeps them, the key that is
asked for, the lowest pressed key. They then differ in the keys and in the random words alone, of
which each has taken one for each CXKK. -/
theorem inputs_act_where_read (m : Machine) (entropy : Entropy) (ops ops' : List Operation)
    (hops : ops.filter (! ·.isKey) = ops'.filter (! ·.isKey)) :
    let m' := { m with entropy := entropy }
    (∀ p ∈ (m.runInstants ops).zip (m'.runInstants ops'), p.1.HearsAs p.2) →
    (m.run ops).machine.AgreesButInputs (m'.run ops').machine ∧
    (m.run ops).events = (m'.run ops').events ∧ m.results ops = m'.results ops' ∧
    List.Forall₂ AgreesButInputs (m.runInstants ops) (m'.runInstants ops') ∧
    let drawn := (m.runInstants ops).countP takesChance
    (m.run ops).machine.entropy = m.entropy.skip drawn ∧
    (m'.run ops').machine.entropy = entropy.skip drawn := by
  intro m' hears
  have hstart : m.AgreesButInputs m' := ⟨rfl, List.forall₂_same.mpr fun _ _ => rfl, rfl⟩
  obtain ⟨hmachine, hevents, hresults, hinstants⟩ :=
    hstart.run (Operation.sameButKeys_of_filter hops) hears
  refine ⟨hmachine, hevents, hresults, hinstants, m.run_skips ops, ?_⟩
  rw [m'.run_skips ops', countP_takesChance_eq hinstants]

/-- The random bytes differ, but not in the bits that are kept, and the key that is pressed on one
side is not asked for. -/
theorem inputs_act_where_read_masked :
    let s : Core := { Core.fresh .vip with memory := Memory.fresh.writeBlock [0xC0, 0xF0] 0x200 }
    let m : Machine := ⟨s, [], .standard, .cycle [0x12]⟩
    let m' : Machine := { m with entropy := .cycle [0x1F] }
    let pressed := [Operation.press 3, .step]
    pressed.filter (! ·.isKey) = [Operation.step].filter (! ·.isKey) ∧
    (∀ p ∈ (m.runInstants pressed).zip (m'.runInstants [.step]), p.1.HearsAs p.2) ∧
    m.entropy.chance ≠ m'.entropy.chance ∧
    (m.run pressed).machine.AgreesButInputs (m'.run [.step]).machine ∧
    (m'.run [.step]).machine.entropy = (Entropy.cycle [0x1F]).skip 1 := by
  intro s m m' pressed
  have hhigh : s.memory.read 0x200 = 0xC0 := by
    simp [s, Memory.writeBlock, Memory.read_write, Memory.cell]
  have hlow : s.memory.read 0x201 = 0xF0 := by
    simp [s, Memory.writeBlock, Memory.read_write, Memory.cell]
  have hd : Instruction.decode (m.press 3).core.fetch = some (.random 0 0xF0) := by
    have hfetch : (m.press 3).core.fetch = 0xC0F0 := by
      change Word.ofBytes (s.memory.read 0x200) (s.memory.read 0x201) = 0xC0F0
      rw [hhigh, hlow]
      rfl
    rw [hfetch]
    rfl
  have hinstants : m.runInstants pressed = [m.press 3] := by
    simp [pressed, runInstants, instants, apply, quietly]
  have hops : pressed.filter (! ·.isKey) = [Operation.step].filter (! ·.isKey) := rfl
  have hears : ∀ p ∈ (m.runInstants pressed).zip (m'.runInstants [.step]), p.1.HearsAs p.2 := by
    intro p hp i hi
    obtain rfl : p = (m.press 3, m') := by simpa [hinstants, runInstants, instants] using hp
    obtain rfl : i = .random 0 0xF0 := Option.some.inj (hi.symm.trans hd)
    change (0x12 : UInt8) &&& 0xF0 = 0x1F &&& 0xF0
    decide
  have hdrawn : (m.runInstants pressed).countP takesChance = 1 := by
    have htakes : (m.press 3).takesChance = true := by rw [takesChance, hd]
    rw [hinstants, List.countP_singleton, htakes]
    rfl
  obtain ⟨hmachine, -, -, -, -, hentropy⟩ :=
    inputs_act_where_read m (.cycle [0x1F]) pressed [.step] hops hears
  rw [hdrawn] at hentropy
  have hdiffer : m.entropy.chance ≠ m'.entropy.chance := by
    change (0x12 : UInt8) ≠ 0x1F
    decide
  exact ⟨hops, hears, hdiffer, hmachine, hentropy⟩

end Machine
end ChipMachine
