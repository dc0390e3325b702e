import ChipMachine.Proofs.Checked.Execute
import ChipMachine.Proofs.Sound

namespace ChipMachine.Checked

def fetch (s : Core) : Checked Word :=
  return Word.ofBytes (← read s.memory s.pc) (← read s.memory (s.pc + 1))

def step (m : Machine) : Checked (Outcome (Except Fault Flow)) := do
  let word ← fetch m.core
  match Instruction.decode word with
  | none => return ⟨m.passed, [], .error (.unknownWord word m.core.pc)⟩
  | some i =>
    let done := m.passed.conclude i (← execute m.passed.entropy.chance m.passed.core i)
    return { done with events := m.seen word i :: done.events }

def batch : Nat → Machine → List Event → Checked (Outcome (Except Fault Flow))
  | 0, m, past => return ⟨m, past.reverse, .ok .proceed⟩
  | n + 1, m, past => do
    let done ← step m
    let past := done.events.reverseAux past
    match done.answer with
    | .ok .proceed => batch n done.machine past
    | stop => return ⟨done.machine, past.reverse, stop⟩

def fall (timer : UInt8) : Checked UInt8 := do
  if timer = 0 then return 0 else return UInt8.ofNat (← minus timer.toNat 1)

def countDown (s : Core) : Checked Core :=
  return { s with delay := ← fall s.delay, sound := ← fall s.sound }

def tick (m : Machine) : Checked (Outcome (Except Fault Flow)) := do
  let done ← batch m.config.batch { m.save with core := ← countDown m.core } []
  return { done with
    events := .buzz (Machine.buzz m.core) :: (done.events ++ Machine.haltRecord done) }

/-- The program goes to the places from its start on, as many as it has bytes. -/
def overlay (memory : Memory) (program : List UInt8) : Checked Memory := do
  let _ ← plus UInt64.size Memory.programStart program.length
  return ⟨← copy program Memory.programStart memory.bytes⟩

def loadProgram (m : Machine) (source : ByteSource) : Checked (Outcome Machine.Loading) := do
  let taken := source.take (← plus UInt64.size Memory.programCapacity 1)
  match taken.failure with
  | some reason => return ⟨m, [], ⟨.error (.unreadable reason), taken.bytes.length⟩⟩
  | none =>
    let program := taken.bytes.take Memory.programCapacity
    let warning :=
      if Memory.programCapacity < taken.bytes.length then [Event.recorded .truncated] else []
    let memory ← overlay m.core.memory program
    return ⟨{ m with core := { m.core with memory := memory } },
      warning ++ [.recorded (.loaded program.length m.config.dialect)],
      ⟨.ok (), taken.bytes.length⟩⟩

/-- Zeros go to the places from the program start on, up to the last. -/
def erase (memory : Memory) : Checked Memory := do
  let zeros := List.replicate (← minus Memory.size Memory.programStart) 0
  return ⟨← copy zeros Memory.programStart memory.bytes⟩

def clearProgram (m : Machine) : Checked Machine :=
  return { m with core := { m.core with memory := ← erase m.core.memory } }

/-- The key that a byte names goes down or up. -/
def setKey (m : Machine) (b : UInt8) (pressed : Bool) : Checked Machine :=
  return m.setKeypad ⟨← set m.core.keypad.down (b.toNat % 16) pressed⟩

def apply (m : Machine) : Operation → Checked (Outcome Answer)
  | .load source => return (← loadProgram m source).map .loading
  | .clearProgram => return (← clearProgram m).quietly
  | .step => return (← step m).map .flow
  | .tick => return (← tick m).map .flow
  | .rewind => return m.rewind.map .rewound
  | .press k => return (← setKey m (UInt8.ofNat k) true).quietly
  | .release k => return (← setKey m (UInt8.ofNat k) false).quietly
  | .setKeypad keypad => return (m.setKeypad keypad).quietly
  | .setSpeed speed => return (m.setSpeed speed).quietly
  | .acknowledge => return m.acknowledge.quietly

/-- A run with every check made. -/
def run (m : Machine) : List Operation → Checked (Outcome (List Answer))
  | [] => return ⟨m, [], []⟩
  | op :: ops => do
    let first ← apply m op
    let rest ← run first.machine ops
    return ⟨rest.machine, first.events ++ rest.events, first.answer :: rest.answer⟩

section
variable {d : Dialect} {m : Machine}

@[simp] theorem fetch_eq (s : Core) : fetch s = .ok s.fetch := by
  simp only [fetch, read_eq, ok_bind]
  rfl

theorem step_eq (h : m.Sound d) : step m = .ok m.step := by
  have hp : m.passed.core.sp.toNat ≤ Core.callLimit := h.core.depth
  simp only [step, fetch_eq, ok_bind, execute_eq _ hp, Machine.step, Machine.obey]
  cases Instruction.decode m.core.fetch with
  | none => rfl
  | some i => rfl

theorem batch_eq (h : m.Sound d) (n : Nat) (past : List Event) :
    batch n m past = .ok (Machine.batch n m past) := by
  induction n generalizing m past with
  | zero => rfl
  | succ n ih =>
    simp only [batch, step_eq h, ok_bind, Machine.batch]
    rcases m.step.answer with fault | flow
    · rfl
    · cases flow with
      | proceed => exact ih h.step _
      | halt => rfl

theorem fall_eq (timer : UInt8) : fall timer = .ok (if timer = 0 then 0 else timer - 1) := by
  unfold fall
  split
  · rfl
  · rename_i h0
    have hpos : 1 ≤ timer.toNat := Nat.one_le_iff_ne_zero.mpr fun hz => h0 (UInt8.toNat.inj hz)
    rw [minus_eq hpos, ok_bind, UInt8.ofNat_sub hpos, UInt8.ofNat_toNat]
    rfl

theorem countDown_eq (s : Core) : countDown s = .ok s.countDown := by
  simp only [countDown, fall_eq, ok_bind]
  rfl

theorem tick_eq (h : m.Sound d) : tick m = .ok m.tick := by
  simp only [tick, countDown_eq, ok_bind]
  rw [show ({ m.save with core := m.core.countDown } : Machine) = m.ready from rfl,
    batch_eq h.ready, ok_bind]
  rfl

theorem overlay_eq (memory : Memory) {program : List UInt8}
    (h : program.length ≤ Memory.programCapacity) :
    overlay memory program = .ok (memory.overlay program) := by
  have hlen : Memory.programStart + program.length ≤ 4096 := by
    simp only [Memory.programCapacity, Memory.size, Memory.programStart] at h ⊢
    omega
  rw [overlay, plus_place (by simp only [UInt16.size]; omega), ok_bind, copy_eq program _ _ hlen,
    ok_bind]
  simp only [Memory.overlay, List.getElem?_toArray]
  rfl

theorem loadProgram_eq (m : Machine) (source : ByteSource) :
    loadProgram m source = .ok (m.load source) := by
  rw [loadProgram, plus_place (by decide), ok_bind, Machine.load]
  dsimp only
  cases (source.take (Memory.programCapacity + 1)).failure with
  | some reason => rfl
  | none =>
    dsimp only
    rw [overlay_eq m.core.memory (List.length_take_le ..), ok_bind]
    rfl

theorem erase_eq (memory : Memory) : erase memory = .ok memory.clearProgram := by
  have hcopy : ∀ count, Memory.programStart + count = 4096 →
      copy (List.replicate count 0) Memory.programStart memory.bytes =
        .ok memory.clearProgram.bytes := by
    intro count hcount
    rw [copy_eq _ _ _ (by rw [List.length_replicate]; omega)]
    refine congrArg Except.ok (Vector.ext ?_)
    intro k hk
    simp only [Memory.clearProgram, Vector.getElem_ofFn, List.getElem?_replicate]
    by_cases hs : Memory.programStart ≤ k
    · rw [if_pos hs, if_pos hs, if_pos (by omega)]
      rfl
    · rw [if_neg hs, if_neg hs]
  simp only [erase, minus_eq (show Memory.programStart ≤ Memory.size by decide), ok_bind,
    hcopy (Memory.size - Memory.programStart) rfl]
  rfl

theorem clearProgram_eq (m : Machine) : clearProgram m = .ok m.clearProgram := by
  rw [clearProgram, erase_eq, ok_bind]
  rfl

theorem setKey_eq (m : Machine) (b : UInt8) (pressed : Bool) :
    setKey m b pressed = .ok (m.setKeypad (m.core.keypad.set (Keypad.key b) pressed)) := by
  have hb := set_fin m.core.keypad.down (Keypad.key b) pressed
  change set m.core.keypad.down (b.toNat % 16) pressed = _ at hb
  rw [setKey, hb, ok_bind]
  rfl

theorem apply_eq (h : m.Sound d) (op : Operation) : apply m op = .ok (m.apply op) := by
  have hkey (k : Fin 16) : Keypad.key (UInt8.ofNat k) = k := by
    revert k
    decide
  cases op with
  | load source => simp only [apply, loadProgram_eq, ok_bind]; rfl
  | clearProgram => simp only [apply, clearProgram_eq, ok_bind]; rfl
  | step => simp only [apply, step_eq h, ok_bind]; rfl
  | tick => simp only [apply, tick_eq h, ok_bind]; rfl
  | press k => simp only [apply, setKey_eq, hkey, ok_bind]; rfl
  | release k => simp only [apply, setKey_eq, hkey, ok_bind]; rfl
  | _ => rfl

/-- A sound machine can be run without any check failing. -/
theorem run_eq (h : m.Sound d) (ops : List Operation) : run m ops = .ok (m.run ops) := by
  induction ops generalizing m with
  | nil => rfl
  | cons op ops ih =>
    simp only [run, apply_eq h op, ok_bind, ih (h.apply op)]
    rfl

end
end ChipMachine.Checked
