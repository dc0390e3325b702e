import ChipMachine.Proofs.Coding
import ChipMachine.Proofs.Run

namespace ChipMachine.Machine

/-- The machine after a step, whatever comes of it. -/
def stepped (m : Machine) : Machine := m.step.machine

/-- Whether `k` steps go on and the next one fails. -/
def FailsAfter (k : Nat) (fault : Fault) (m : Machine) : Prop :=
  (∀ j < k, (stepped^[j] m).step.answer = .ok .proceed) ∧
    (stepped^[k] m).step.answer = .error fault

variable {m : Machine} {k n : Nat} {fault : Fault}

theorem failsAfter_succ : m.FailsAfter (k + 1) fault ↔
    m.step.answer = .ok .proceed ∧ m.stepped.FailsAfter k fault := by
  unfold FailsAfter
  rw [Nat.forall_lt_succ_left, and_assoc]
  rfl

/-- With at most fifteen calls open, a step fails on a word that stands for nothing, on a return
with no call open, on a call with all of them open, and on nothing else. -/
theorem step_error_iff (h : m.core.sp.toNat ≤ Core.callLimit) :
    m.step.answer = .error fault ↔
      (m.core.fetch ∉ Instruction.encode '' {i | i.WellFormed} ∧
        fault = .unknownWord m.core.fetch m.core.pc) ∨
      (m.core.fetch = 0x00EE ∧ m.core.sp = 0 ∧ fault = .emptyStack m.core.pc) ∨
      (m.core.fetch.family.val = 2 ∧ m.core.sp.toNat = Core.callLimit ∧
        fault = .fullStack m.core.pc) := by
  have haddress : m.core.advance.currentAddress = m.core.pc := Core.currentAddress_advance
  constructor
  · intro hf
    obtain ⟨hd, hs⟩ | ⟨i, _, hd, he, hs⟩ | ⟨i, t, _, _, hs⟩ := m.step_cases
    · rw [hs] at hf
      cases hf
      exact .inl ⟨Instruction.decode_eq_none_iff.mp hd, rfl⟩
    · rw [hs] at hf
      cases hf
      rw [← haddress]
      obtain ⟨a, rfl, hsp, hf⟩ | ⟨rfl, hsp, hf⟩ | ⟨_, hsp, _⟩ := Instruction.execute_error he
      · exact .inr (.inr ⟨(Instruction.decode_eq_call_iff.mp hd).1, Nat.le_antisymm h hsp, hf⟩)
      · exact .inr (.inl ⟨Instruction.decode_eq_ret_iff.mp hd, hsp, hf⟩)
      · exact absurd (Nat.lt_of_lt_of_le hsp h) (by decide)
    · rw [hs] at hf
      cases hf
  · rintro (⟨hd, rfl⟩ | ⟨hw, hsp, rfl⟩ | ⟨hw, hsp, rfl⟩)
    · rw [step_unknown (Instruction.decode_eq_none_iff.mpr hd)]
    · have he : m.core.advance.leave = .error (.emptyStack m.core.pc) :=
        haddress ▸ Core.leave_empty (s := m.core.advance) hsp
      rw [step_refused (Instruction.decode_eq_ret_iff.mpr hw) he]
    · have he : m.core.advance.enter m.core.fetch.address = .error (.fullStack m.core.pc) :=
        haddress ▸ Core.enter_full (s := m.core.advance) (Nat.le_of_eq hsp.symm) _
      rw [step_refused (Instruction.decode_eq_call_iff.mpr ⟨hw, rfl⟩) he]

/-- A step that fails has moved the counter, and nothing else. -/
theorem step_failed (h : m.step.answer = .error fault) : m.step.machine = m.passed := by
  obtain ⟨_, hs⟩ | ⟨_, _, _, _, hs⟩ | ⟨_, _, _, _, hs⟩ := m.step_cases
  · rw [hs]
  · rw [hs]
  · rw [hs] at h
    cases h

theorem passed_step (m : Machine) : m.passed.step = m.passed.obey
    (.ofBytes (m.core.memory.read (m.core.pc + 2)) (m.core.memory.read (m.core.pc + 3))) := by
  have hnext : m.core.pc + 2 + 1 = m.core.pc + 3 := UInt16.add_assoc ..
  rw [← hnext]
  rfl

/-- What a batch leaves when one of its steps fails: all that the steps before have done, and the
counter moved on. -/
theorem batch_of_failsAfter (hk : k < n) (h : m.FailsAfter k fault) (past : List Event) :
    (batch n m past).answer = .error fault ∧
      (batch n m past).machine = (stepped^[k] m).passed := by
  induction n generalizing k m past with
  | zero => exact absurd hk (Nat.not_lt_zero k)
  | succ n ih =>
    simp only [batch]
    cases k with
    | zero =>
      have hf : m.step.answer = .error fault := h.2
      rw [hf]
      exact ⟨rfl, step_failed hf⟩
    | succ k =>
      obtain ⟨hgo, hrest⟩ := failsAfter_succ.mp h
      rw [hgo]
      exact ih (Nat.lt_of_succ_lt_succ hk) hrest _

theorem batch_error_iff (past : List Event) :
    (batch n m past).answer = .error fault ↔ ∃ k < n, m.FailsAfter k fault := by
  refine ⟨fun h => ?_, fun ⟨k, hk, h⟩ => (batch_of_failsAfter hk h past).1⟩
  induction n generalizing m past with
  | zero => cases h
  | succ n ih =>
    simp only [batch] at h
    split at h
    · rename_i hgo
      obtain ⟨k, hk, hrest⟩ := ih _ h
      exact ⟨k + 1, Nat.succ_lt_succ hk, failsAfter_succ.mpr ⟨hgo, hrest⟩⟩
    · exact ⟨0, Nat.succ_pos n, fun j hj => absurd hj (Nat.not_lt_zero j), h⟩

/-- When a step fails, and that it moves the counter and does nothing else. A tick fails where one
of its steps does: it keeps its snapshot, its timers and what the steps before have done, and the
counter stands behind the word that failed. -/
theorem failing_moves_only_counter (m : Machine) (h : m.core.sp.toNat ≤ Core.callLimit) :
    let word := m.core.fetch
    word.toNat =
      256 * (m.core.memory.read m.core.pc).toNat + (m.core.memory.read (m.core.pc + 1)).toNat ∧
    (∀ fault, m.step.answer = .error fault ↔
      (word ∉ Instruction.encode '' {i | i.WellFormed} ∧ fault = .unknownWord word m.core.pc) ∨
      (word = 0x00EE ∧ m.core.sp = 0 ∧ fault = .emptyStack m.core.pc) ∨
      (word.family.val = 2 ∧ m.core.sp.toNat = Core.callLimit ∧ fault = .fullStack m.core.pc)) ∧
    (∀ reason, m.step.answer ≠ .error (.unreadable reason)) ∧
    (∀ fault, m.step.answer = .error fault →
      m.step.machine = { m with core := { m.core with pc := m.core.pc + 2 } } ∧
      m.step.machine.step = m.step.machine.obey (.ofBytes
        (m.core.memory.read (m.core.pc + 2)) (m.core.memory.read (m.core.pc + 3)))) ∧
    (∀ fault, m.tick.answer = .error fault ↔ ∃ k < m.config.batch, m.ready.FailsAfter k fault) ∧
    ∀ fault, ∀ k < m.config.batch, m.ready.FailsAfter k fault →
      let before := stepped^[k] m.ready
      m.tick.machine = { before with core := { before.core with pc := before.core.pc + 2 } } ∧
      m.tick.machine.step = m.tick.machine.obey (.ofBytes
        (before.core.memory.read (before.core.pc + 2))
        (before.core.memory.read (before.core.pc + 3))) := by
  refine ⟨Word.toNat_ofBytes .., fun _ => step_error_iff h, fun reason hf => ?_,
    fun fault hf => ?_, fun _ => batch_error_iff [], fun fault k hk hf => ?_⟩
  · obtain ⟨_, hr⟩ | ⟨_, _, hr⟩ | ⟨_, _, hr⟩ := (step_error_iff h).mp hf <;> cases hr
  · rw [step_failed hf]
    exact ⟨rfl, m.passed_step⟩
  · have hm : m.tick.machine = (stepped^[k] m.ready).passed := (batch_of_failsAfter hk hf []).2
    rw [hm]
    exact ⟨rfl, passed_step _⟩

/-- A call at the last address with all calls open. Its word ends at the first byte of memory, and
the counter comes to stand on the second. -/
theorem failing_moves_only_counter_full :
    let s := Core.fresh .vip
    let m : Machine := ⟨{ s with
      pc := 0xFFFF
      sp := 15
      memory := s.memory.write 0xFFFF 0x23 }, [], .standard, .cycle []⟩
    m.core.sp.toNat ≤ Core.callLimit ∧ m.step.answer = .error (.fullStack 0xFFFF) ∧
      m.step.machine.core.pc = 1 ∧ m.tick.answer = .error (.fullStack 0xFFFF) ∧
      m.tick.machine = { m.ready with core := { m.ready.core with pc := 1 } } := by
  intro s m
  have hsp : m.core.sp.toNat ≤ Core.callLimit := by decide
  have hwrap : (0xFFFF : UInt16) + 2 = 1 := by decide
  have hhigh : m.core.memory.read 0xFFFF = 0x23 := by simp [m, Memory.read_write]
  have hfamily : m.core.fetch.family.val = 2 := by
    have hword := (failing_moves_only_counter m hsp).1
    have hlow := (m.core.memory.read (m.core.pc + 1)).toNat_lt
    have hpc : m.core.memory.read m.core.pc = 0x23 := hhigh
    rw [hpc] at hword
    simp only [Word.family]
    change _ = 256 * 35 + _ at hword
    omega
  have hstep : m.step.answer = .error (.fullStack 0xFFFF) :=
    ((failing_moves_only_counter m hsp).2.1 _).mpr (.inr (.inr ⟨hfamily, rfl, rfl⟩))
  have hready : m.ready.step.answer = .error (.fullStack 0xFFFF) :=
    ((failing_moves_only_counter m.ready hsp).2.1 _).mpr (.inr (.inr ⟨hfamily, rfl, rfl⟩))
  have hfails : m.ready.FailsAfter 0 (.fullStack 0xFFFF) :=
    ⟨fun j hj => absurd hj (Nat.not_lt_zero j), hready⟩
  obtain ⟨_, _, _, hafter, htick, hkept⟩ := failing_moves_only_counter m hsp
  refine ⟨hsp, hstep, ?_, (htick _).mpr ⟨0, by decide, hfails⟩, ?_⟩
  · rw [(hafter _ hstep).1]
    exact hwrap
  · rw [← hwrap]
    exact (hkept _ 0 (by decide) hfails).1

end ChipMachine.Machine
