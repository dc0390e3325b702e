import ChipMachine.Proofs.Execution
import ChipMachine.Proofs.Rewinding
import ChipMachine.Proofs.Simulation
import ChipMachine.Proofs.Sound

namespace ChipMachine

namespace Core

/-- The same core, marked to be shown. -/
def marked (s : Core) : Core := { s with dirty := true }

variable (s : Core)

theorem combine_marked (x : Reg) (b : UInt8) : s.marked.combine x b = (s.combine x b).marked := by
  have hc : s.marked.conventions = s.conventions := rfl
  simp only [combine, hc]
  split <;> rfl

theorem skipIf_marked (c : Bool) : s.marked.skipIf c = (s.skipIf c).marked := by
  cases c <;> rfl

theorem waitKey_marked (x : Reg) : s.marked.waitKey x = (s.waitKey x).marked := by
  have hk : s.marked.keypad = s.keypad := rfl
  simp only [waitKey, hk]
  split <;> rfl

theorem enter_marked (a : UInt16) : s.marked.enter a = (s.enter a).map marked := by
  have hsp : s.marked.sp = s.sp := rfl
  simp only [enter, hsp]
  split <;> rfl

theorem leave_marked : s.marked.leave = s.leave.map marked := by
  have hsp : s.marked.sp = s.sp := rfl
  have hstack : s.marked.stack = s.stack := rfl
  simp only [leave, hsp, hstack]
  split
  · rfl
  · cases s.stack[s.sp.toNat - 1]? <;> rfl

end Core

/-- No instruction reads the mark. -/
theorem Instruction.execute_marked (i : Instruction) (chance : UInt8) (s : Core) :
    i.execute chance s.marked = (i.execute chance s).map Core.marked := by
  cases i
  case ret => exact s.leave_marked
  case call a => exact s.enter_marked a
  case skipIfByte | skipUnlessByte | skipIfEqual | skipUnlessEqual | skipIfDown | skipUnlessDown =>
    exact congrArg Except.ok (s.skipIf_marked _)
  case waitKey x => exact congrArg Except.ok (s.waitKey_marked x)
  case or | and | xor => exact congrArg Except.ok (s.combine_marked _ _)
  all_goals rfl

/-- The results of steps and ticks among the answers of a run. -/
def Answer.flow? : Answer → Option (Except Fault Flow)
  | .flow result => some result
  | _ => none

/-- What an operation makes of the keys that are held. -/
def Operation.keys (keypad : Keypad) : Operation → Keypad
  | .press k => keypad.set k true
  | .release k => keypad.set k false
  | .setKeypad keypad => keypad
  | _ => keypad

namespace Machine

/-- Machines that will do the same: they differ in the mark and in what they can be rewound to. -/
structure Repeats (m m' : Machine) : Prop where
  core : m'.core = m.core.marked
  config : m'.config = m.config
  entropy : m'.entropy = m.entropy

/-- Whether the instruction that the machine is about to run draws no random word. -/
def DrawsNothing (m : Machine) : Prop :=
  ∀ x k, Instruction.decode m.core.fetch ≠ some (.random x k)

section
variable {m m' : Machine}

theorem Repeats.step (h : m.Repeats m') : m.step.Matches Repeats m'.step := by
  have hfetch : m'.core.fetch = m.core.fetch := by rw [h.core]; rfl
  have hpc : m'.core.pc = m.core.pc := by rw [h.core]; rfl
  have hadvance : m'.core.advance = m.core.advance.marked := by rw [h.core]; rfl
  have hseen (i : Instruction) : m'.seen m'.core.fetch i = m.seen m.core.fetch i := by
    rw [hfetch, seen, seen, h.core]
    rfl
  have hpassed : m.passed.Repeats m'.passed := ⟨hadvance, h.config, h.entropy⟩
  obtain ⟨hd, hs⟩ | ⟨i, fault, hd, he, hs⟩ | ⟨i, t, hd, he, hs⟩ := m.step_cases
  · rw [hs, step_unknown (by rw [hfetch]; exact hd), hfetch, hpc]
    exact ⟨hpassed, rfl, rfl⟩
  all_goals
    have hd' : Instruction.decode m'.core.fetch = some i := by rw [hfetch]; exact hd
    have he' := Instruction.execute_marked i m.entropy.chance m.core.advance
    rw [he, ← hadvance, ← h.entropy] at he'
  · rw [hs, step_refused hd' he', hseen]
    exact ⟨hpassed, rfl, rfl⟩
  · rw [hs, step_done hd' he', hseen]
    exact ⟨⟨rfl, h.config, by rw [h.entropy]⟩, rfl, rfl⟩

theorem Repeats.ready (h : m.Repeats m') : m.ready.Repeats m'.ready :=
  ⟨by rw [Machine.ready, h.core]; rfl, h.config, h.entropy⟩

/-- A tick gives the same orders and the same result, and goes through the same instructions. -/
theorem Repeats.tick (h : m.Repeats m') : m.tick.Matches Repeats m'.tick ∧
    List.Forall₂ Repeats (m.instants .tick) (m'.instants .tick) := by
  have hcount : m'.config.batch = m.config.batch := by rw [h.config]
  have hbuzz : buzz m'.core = buzz m.core := by rw [h.core]; rfl
  obtain ⟨hmachine, hevents, hanswer⟩ :=
    batch_matches (fun _ _ => Repeats.step) m.config.batch h.ready []
  have hhalt : haltRecord (batch m.config.batch m'.ready []) =
      haltRecord (batch m.config.batch m.ready []) := by
    rw [haltRecord, haltRecord, ← hanswer, hmachine.core]
    rfl
  constructor
  · refine ⟨?_, ?_, ?_⟩
    · rw [tick_machine, tick_machine, hcount]
      exact hmachine
    · simp only [Machine.tick, hcount, hbuzz, hevents, hhalt]
    · simp only [Machine.tick, hcount, hanswer]
  · change List.Forall₂ Repeats _ (batchInstants m'.config.batch m'.ready)
    rw [hcount]
    exact batchInstants_matches (fun _ _ => Repeats.step) _ h.ready

theorem Repeats.ticks (h : m.Repeats m') (k : Nat) :
    (m.run (.replicate k .tick)).Matches Repeats (m'.run (.replicate k .tick)) ∧
    List.Forall₂ Repeats (m.runInstants (.replicate k .tick))
      (m'.runInstants (.replicate k .tick)) := by
  induction k generalizing m m' with
  | zero => exact ⟨⟨h, rfl, rfl⟩, .nil⟩
  | succ k ih =>
    obtain ⟨⟨hmachine, hevents, hanswer⟩, hinstants⟩ := h.tick
    obtain ⟨hlater, hmore⟩ := ih hmachine
    rw [List.replicate_succ, run_cons, run_cons]
    refine ⟨⟨hlater.machine, ?_, ?_⟩, List.rel_append hinstants hmore⟩
    · exact congrArg₂ (· ++ ·) hevents hlater.events
    · exact congrArg₂ (· :: ·) (congrArg Answer.flow hanswer) hlater.answer

theorem Repeats.cores {ms ms' : List Machine} (h : List.Forall₂ Repeats ms ms') :
    ms'.map (·.core) = ms.map (·.core.marked) := by
  induction h with
  | nil => rfl
  | cons h _ ih => rw [List.map_cons, List.map_cons, h.core, ih]

theorem step_givens (m : Machine) :
    m.step.machine.config = m.config ∧ m.step.machine.core.keypad = m.core.keypad := by
  obtain ⟨_, hs⟩ | ⟨_, _, _, _, hs⟩ | ⟨i, t, _, he, hs⟩ := m.step_cases
  · rw [hs]
    exact ⟨rfl, rfl⟩
  · rw [hs]
    exact ⟨rfl, rfl⟩
  · rw [hs]
    exact ⟨rfl, (Instruction.execute_keeps_givens he).1⟩

theorem tick_givens (m : Machine) :
    m.tick.machine.config = m.config ∧ m.tick.machine.core.keypad = m.core.keypad := by
  rw [tick_machine]
  refine batch_preserves (P := fun t => t.config = m.config ∧ t.core.keypad = m.core.keypad)
    ?_ _ _ _ ⟨rfl, rfl⟩
  intro t ht
  exact ⟨t.step_givens.1.trans ht.1, t.step_givens.2.trans ht.2⟩

theorem rewind_keypad (m : Machine) : m.rewind.machine.core.keypad = m.core.keypad := by
  cases hm : m.history with
  | nil => rw [rewind_nil hm]
  | cons saved older => rw [rewind_cons hm]

theorem step_entropy (h : m.DrawsNothing) : m.step.machine.entropy = m.entropy := by
  obtain ⟨_, hs⟩ | ⟨_, _, _, _, hs⟩ | ⟨i, t, hd, he, hs⟩ := m.step_cases
  · rw [hs]
    rfl
  · rw [hs]
    rfl
  · rw [hs]
    cases i with
    | random x k => exact absurd hd (h x k)
    | _ => rfl

theorem batch_entropy (n : Nat) (past : List Event)
    (h : ∀ t ∈ batchInstants n m, t.DrawsNothing) :
    (batch n m past).machine.entropy = m.entropy := by
  induction n generalizing m past with
  | zero => rfl
  | succ n ih =>
    simp only [batchInstants] at h
    have hstep := step_entropy (h m List.mem_cons_self)
    simp only [batch]
    split
    · rename_i ha
      rw [ha] at h
      rw [ih _ fun t ht => h t (List.mem_cons_of_mem _ ht), hstep]
    · exact hstep

theorem tick_entropy (h : ∀ t ∈ m.instants .tick, t.DrawsNothing) :
    m.tick.machine.entropy = m.entropy := by
  rw [tick_machine, batch_entropy _ _ h]
  rfl

/-- As many rewinds as ticks lead back to where the ticks began. -/
theorem ticks_rewound {k : Nat} (hk : k ≤ historyLimit) (hm : m.history.length ≤ historyLimit)
    (h : ∀ t ∈ m.runInstants (.replicate k .tick), t.DrawsNothing) :
    ((m.run (.replicate k .tick)).machine.run (.replicate k .rewind)).machine =
      { m with
        core := if k = 0 then m.core else m.core.marked
        history := m.history.take (historyLimit - k) } := by
  -- on the number of ticks, the first of which is the last to be taken back
  induction k generalizing m with
  | zero => rw [Nat.sub_zero, List.take_of_length_le hm]; rfl
  | succ k ih =>
    have hhistory := m.tick_history
    obtain ⟨hconfig, hkeypad⟩ := m.tick_givens
    have hentropy : m.tick.machine.entropy = m.entropy :=
      tick_entropy fun t ht => h t (List.mem_append_left _ ht)
    have hback := ih (m := m.tick.machine) (Nat.le_of_succ_le hk)
      (hhistory ▸ List.length_take_le ..) fun t ht => h t (List.mem_append_right _ ht)
    have hlatest : m.tick.machine.history.take (historyLimit - k) =
        m.core :: m.history.take (historyLimit - (k + 1)) := by
      rw [hhistory, List.take_take, Nat.min_eq_left (Nat.sub_le ..),
        show historyLimit - k = historyLimit - (k + 1) + 1 by omega]
      rfl
    have hsame : (if k = 0 then m.tick.machine.core else m.tick.machine.core.marked).keypad =
        m.core.keypad := by
      split <;> exact hkeypad
    rw [List.replicate_succ, List.replicate_succ', run_cons, run_append, run_cons]
    change (((m.tick.machine.run (.replicate k .tick)).machine.run
      (.replicate k .rewind)).machine.rewind).machine = _
    rw [hback, hlatest, rewind_cons rfl, hconfig, hentropy]
    dsimp only
    rw [hsame]
    rfl

/-- Keys are moved from outside only. -/
theorem apply_keypad (m : Machine) (op : Operation) :
    (m.apply op).machine.core.keypad = op.keys m.core.keypad := by
  cases op with
  | tick => exact m.tick_givens.2
  | step => exact m.step_givens.2
  | rewind => exact m.rewind_keypad
  | load source =>
    obtain ⟨memory, hm⟩ := m.load_machine source
    change (m.load source).machine.core.keypad = m.core.keypad
    rw [hm]
  | clearProgram =>
    obtain ⟨memory, hm⟩ := m.clearProgram_machine
    change m.clearProgram.core.keypad = m.core.keypad
    rw [hm]
  | press | release | setKeypad | setSpeed | acknowledge => rfl

/-- A key operation that moves no key does nothing. -/
theorem apply_key {op : Operation} (hkey : op.isKey = true)
    (h : op.keys m.core.keypad = m.core.keypad) : m.apply op = m.quietly := by
  have hset (keypad : Keypad) (hk : keypad = m.core.keypad) : m.setKeypad keypad = m := by
    rw [hk]
    rfl
  cases op with
  | press k => exact congrArg quietly (hset _ h)
  | release k => exact congrArg quietly (hset _ h)
  | setKeypad keypad => exact congrArg quietly (hset keypad h)
  | _ => cases hkey

/-- Where no key is moved, key operations can be left out of a run. -/
theorem run_unmoved {ops : List Operation} (h : ∀ op ∈ ops, op.keys m.core.keypad = m.core.keypad) :
    let rest := ops.filter (! ·.isKey)
    (m.run ops).machine = (m.run rest).machine ∧ (m.run ops).events = (m.run rest).events ∧
      (m.run ops).answer.filterMap Answer.flow? = (m.run rest).answer.filterMap Answer.flow? ∧
      m.runInstants ops = m.runInstants rest ∧
      (m.run ops).machine.core.keypad = m.core.keypad := by
  induction ops generalizing m with
  | nil => exact ⟨rfl, rfl, rfl, rfl, rfl⟩
  | cons op ops ih =>
    obtain ⟨hop, hops⟩ := List.forall_mem_cons.mp h
    have hkeypad : (m.apply op).machine.core.keypad = m.core.keypad :=
      (m.apply_keypad op).trans hop
    obtain ⟨hmachine, hevents, hanswer, hinstants, hlast⟩ :=
      ih (m := (m.apply op).machine) (by rw [hkeypad]; exact hops)
    cases hkey : op.isKey with
    | true =>
      have hquiet := apply_key hkey hop
      have hnone : m.instants op = [] := by cases op <;> first | rfl | cases hkey
      rw [hquiet] at hmachine hevents hanswer hinstants hlast
      simp only [List.filter_cons, hkey, run_cons, runInstants, hquiet, hnone]
      exact ⟨hmachine, hevents, hanswer, hinstants, hlast⟩
    | false =>
      simp only [List.filter_cons, hkey, run_cons, runInstants, Bool.not_false, if_true]
      refine ⟨hmachine, congrArg _ hevents, ?_, congrArg _ hinstants, hlast.trans hkeypad⟩
      simp only [List.filterMap_cons, hanswer]

end

/-- As many ticks as were just taken back come to the same as before, results, orders and records,
and go through the same cores but for the mark: nothing but the random words decides what a machine
does that a snapshot does not hold. -/
theorem rewound_ticks_replay (config : Config) (entropy : Entropy)
    (earlier forth back again : List Operation) (k : Nat) (hk : k ≤ historyLimit)
    (hforth : forth.filter (! ·.isKey) = .replicate k .tick)
    (hback : back.filter (! ·.isKey) = .replicate k .rewind)
    (hagain : again.filter (! ·.isKey) = .replicate k .tick) :
    let m := ((fresh config entropy).run earlier).machine
    let first := m.run forth
    let rewound := (first.machine.run back).machine
    let second := rewound.run again
    (∀ op ∈ forth ++ back ++ again, op.keys m.core.keypad = m.core.keypad) →
    (∀ t ∈ m.runInstants forth, t.DrawsNothing) →
    second.answer.filterMap Answer.flow? = first.answer.filterMap Answer.flow? ∧
    second.events = first.events ∧
    (rewound.runInstants again).map (·.core) = (m.runInstants forth).map (·.core.marked) ∧
    second.machine.core = if k = 0 then first.machine.core else first.machine.core.marked := by
  intro m first rewound second hkeys hdraws
  have hm : m.history.length ≤ historyLimit := ((fresh_sound config entropy).run earlier).bounded
  obtain ⟨hkeys, hkeysAgain⟩ := List.forall_mem_append.mp hkeys
  obtain ⟨hkeysForth, hkeysBack⟩ := List.forall_mem_append.mp hkeys
  -- without the key operations, which do nothing, there are only ticks and rewinds
  obtain ⟨hmachine₁, hevents₁, hanswer₁, hinstants₁, hkeypad₁⟩ := run_unmoved hkeysForth
  obtain ⟨hmachine₂, -, -, -, hkeypad₂⟩ := run_unmoved (m := first.machine)
    (by rw [hkeypad₁]; exact hkeysBack)
  obtain ⟨hmachine₃, hevents₃, hanswer₃, hinstants₃, -⟩ := run_unmoved (m := rewound)
    (by rw [hkeypad₂, hkeypad₁]; exact hkeysAgain)
  rw [hforth] at hmachine₁ hevents₁ hanswer₁ hinstants₁
  rw [hagain] at hmachine₃ hevents₃ hanswer₃ hinstants₃
  have hrewound : rewound = { m with
      core := if k = 0 then m.core else m.core.marked
      history := m.history.take (historyLimit - k) } := by
    rw [← ticks_rewound hk hm (hinstants₁ ▸ hdraws), ← hmachine₁, ← hback]
    exact hmachine₂
  simp only [second, first]
  rw [hanswer₃, hevents₃, hinstants₃, hmachine₃, hanswer₁, hevents₁, hinstants₁, hmachine₁,
    hrewound]
  cases k with
  | zero => exact ⟨rfl, rfl, rfl, rfl⟩
  | succ k =>
    have hrepeats : m.Repeats { m with
        core := m.core.marked, history := m.history.take (historyLimit - (k + 1)) } :=
      ⟨rfl, rfl, rfl⟩
    obtain ⟨hmatches, hinstants⟩ := hrepeats.ticks (k + 1)
    exact ⟨congrArg _ hmatches.answer.symm, hmatches.events.symm, Repeats.cores hinstants,
      hmatches.machine.core⟩

/-- An empty program fails at its first word, and fails there again; a key is held all the while. -/
theorem rewound_ticks_replay_failing :
    let m := ((fresh ⟨.vip, 1, 1⟩ (.cycle [])).run [.press 3]).machine
    let first := m.run [.press 3, .tick]
    let rewound := (first.machine.run [.rewind, .press 3]).machine
    let second := rewound.run [.tick]
    (∀ op ∈ [.press 3, .tick] ++ [.rewind, .press 3] ++ [.tick],
      Operation.keys m.core.keypad op = m.core.keypad) ∧
    (∀ t ∈ m.runInstants [.press 3, .tick], t.DrawsNothing) ∧
    second.answer.filterMap Answer.flow? = first.answer.filterMap Answer.flow? ∧
    second.machine.core = first.machine.core.marked := by
  intro m first rewound second
  have hkeys : ∀ op ∈ [.press 3, .tick] ++ [.rewind, .press 3] ++ [.tick],
      Operation.keys m.core.keypad op = m.core.keypad := by
    have hheld : m.core.keypad = Keypad.released.set 3 true := rfl
    rw [hheld]
    decide
  have hdraws : ∀ t ∈ m.runInstants [.press 3, .tick], t.DrawsNothing := by
    intro t ht
    have hone : (m.press 3).config.batch = 1 := by decide
    have hrest : batchInstants 1 (m.press 3).ready = [(m.press 3).ready] := by
      unfold batchInstants
      split <;> rfl
    obtain rfl : t = (m.press 3).ready := by
      simpa [runInstants, instants, apply, quietly, hone, hrest] using ht
    have hword : (m.press 3).ready.core.fetch = 0 := by
      have hhigh : Memory.fresh.read 0x200 = 0 := Memory.read_fresh 0x200
      have hlow : Memory.fresh.read 0x201 = 0 := Memory.read_fresh 0x201
      change Word.ofBytes (Memory.fresh.read 0x200) (Memory.fresh.read 0x201) = 0
      rw [hhigh, hlow]
      rfl
    intro x k hd
    rw [hword] at hd
    cases hd
  have hreplay := rewound_ticks_replay ⟨.vip, 1, 1⟩ (.cycle []) [.press 3] [.press 3, .tick]
    [.rewind, .press 3] [.tick] 1 (by decide) rfl rfl rfl hkeys hdraws
  obtain ⟨hanswer, -, -, hcore⟩ := hreplay
  rw [if_neg Nat.one_ne_zero] at hcore
  simp only [second, rewound, first, m]
  exact ⟨hkeys, hdraws, hanswer, hcore⟩

end Machine
end ChipMachine
