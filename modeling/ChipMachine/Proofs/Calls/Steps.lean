import ChipMachine.Proofs.Faults
import ChipMachine.Proofs.Sound

namespace ChipMachine

/-- Only words of family 2 are calls, and only 00EE is a return. -/
theorem Instruction.decode_sparesCalls {w : Word} {i : Instruction} (hcall : w.family.val ≠ 2)
    (hret : w ≠ 0x00EE) (h : decode w = some i) : i.SparesCalls := by
  obtain rfl | ⟨a, rfl⟩ | hspares := i.calls_cases
  · exact absurd (decode_eq_ret_iff.mp h) hret
  · exact absurd (decode_eq_call_iff.mp h).1 hcall
  · exact hspares

namespace Core

variable {s t : Core}

theorem length_calls (h : s.sp.toNat ≤ 16) : s.calls.length = s.sp.toNat := by
  rw [calls, List.length_take, Vector.length_toList]
  omega

theorem calls_of_eq (stack : t.stack = s.stack) (sp : t.sp = s.sp) : t.calls = s.calls := by
  rw [calls, calls, stack, sp]

/-- With room for one more call, a call puts its return address last. -/
theorem enter_calls (h : s.calls.length < callLimit) (hs : s.sp.toNat ≤ callLimit) (a : UInt16) :
    ∃ t, s.enter a = .ok t ∧ t.calls = s.calls ++ [s.pc] ∧ t.pc = a := by
  have h15 : s.sp.toNat ≤ 15 := hs
  rw [length_calls (by omega)] at h
  refine ⟨_, dif_pos h, ?_, rfl⟩
  simp only [calls, toNat_sp_add_one h]
  rw [List.take_add_one, Vector.toList_set, List.take_set_of_le (Nat.le_refl _),
    List.getElem?_set_self (by rw [Vector.length_toList]; omega)]
  rfl

/-- A return goes to the address that was put last, and takes it away. -/
theorem leave_calls {earlier : List UInt16} {back : UInt16} (h : s.calls = earlier ++ [back])
    (hs : s.sp.toNat ≤ callLimit) :
    ∃ t, s.leave = .ok t ∧ t.calls = earlier ∧ t.pc = back := by
  have h15 : s.sp.toNat ≤ 15 := hs
  have hlen := length_calls (s := s) (by omega)
  rw [h, List.length_append, List.length_singleton] at hlen
  have hne : s.sp ≠ 0 := by
    intro h0
    rw [h0] at hlen
    cases hlen
  have hsp : (s.sp - 1).toNat = earlier.length :=
    Nat.succ.inj ((toNat_sub_one_add_one hne).trans hlen.symm)
  have hto : s.stack[s.sp.toNat - 1]? = some back := by
    have hlast : s.calls[earlier.length]? = some back := by rw [h]; simp
    rw [calls, List.getElem?_take_of_lt (by omega)] at hlast
    rw [← hlen, Nat.add_sub_cancel]
    simpa using hlast
  refine ⟨{ s with sp := s.sp - 1, pc := back }, ?_, ?_, rfl⟩
  · rw [leave, if_neg hne, hto]
  · have htake : s.calls.take earlier.length = earlier := by rw [h]; simp
    rw [calls, List.take_take, Nat.min_eq_left (by omega)] at htake
    rw [calls, hsp]
    exact htake

end Core

namespace Machine

/-- What a step does to the addresses to return to, seen as a list. -/
structure CallsAsList (m : Machine) : Prop where
  held : m.core.calls.length = m.core.sp.toNat ∧ m.core.calls.length ≤ Core.callLimit
  call : m.core.fetch.family.val = 2 → m.core.calls.length < Core.callLimit →
    m.step.answer = .ok .proceed ∧
    m.step.machine.core.calls = m.core.calls ++ [m.core.pc + 2] ∧
    m.step.machine.core.pc = m.core.fetch.address
  full : m.core.fetch.family.val = 2 → m.core.calls.length = Core.callLimit →
    m.step.answer = .error (.fullStack m.core.pc) ∧ m.step.machine.core.calls = m.core.calls
  ret : ∀ earlier back, m.core.fetch = 0x00EE → m.core.calls = earlier ++ [back] →
    m.step.answer = .ok .proceed ∧ m.step.machine.core.calls = earlier ∧
    m.step.machine.core.pc = back
  empty : m.core.fetch = 0x00EE → m.core.calls = [] →
    m.step.answer = .error (.emptyStack m.core.pc) ∧ m.step.machine.core.calls = []
  other : m.core.fetch.family.val ≠ 2 → m.core.fetch ≠ 0x00EE →
    m.step.machine.core.calls = m.core.calls

variable {d : Dialect} {m : Machine}

theorem Sound.callsAsList (h : m.Sound d) : m.CallsAsList := by
  have hsp : m.core.advance.sp.toNat ≤ Core.callLimit := h.core.depth
  have hlen : m.core.calls.length = m.core.sp.toNat :=
    Core.length_calls (Nat.le_trans h.core.depth (by decide))
  constructor
  case held => exact ⟨hlen, hlen ▸ h.core.depth⟩
  case call =>
    intro hw hroom
    obtain ⟨t, ht, hcalls, hto⟩ :=
      Core.enter_calls (s := m.core.advance) hroom hsp m.core.fetch.address
    rw [step_done (Instruction.decode_eq_call_iff.mpr ⟨hw, rfl⟩) ht]
    exact ⟨rfl, hcalls, hto⟩
  case full =>
    intro hw hfull
    have hf : m.step.answer = .error (.fullStack m.core.pc) :=
      (step_error_iff h.core.depth).mpr (.inr (.inr ⟨hw, hlen.symm.trans hfull, rfl⟩))
    rw [step_failed hf]
    exact ⟨hf, rfl⟩
  case ret =>
    intro earlier back hw hcalls
    obtain ⟨t, ht, hearlier, hto⟩ := Core.leave_calls (s := m.core.advance) hcalls hsp
    rw [step_done (Instruction.decode_eq_ret_iff.mpr hw) ht]
    exact ⟨rfl, hearlier, hto⟩
  case empty =>
    intro hw hcalls
    have hzero : m.core.sp = 0 := by
      rw [hcalls] at hlen
      exact UInt8.toNat.inj hlen.symm
    have hf : m.step.answer = .error (.emptyStack m.core.pc) :=
      (step_error_iff h.core.depth).mpr (.inr (.inl ⟨hw, hzero, rfl⟩))
    rw [step_failed hf]
    exact ⟨hf, hcalls⟩
  case other =>
    intro hcall hret
    obtain ⟨_, hs⟩ | ⟨i, fault, _, _, hs⟩ | ⟨i, t, hd, ht, hs⟩ := m.step_cases
    · rw [hs]; rfl
    · rw [hs]; rfl
    · obtain ⟨hstack, hsp'⟩ :=
        Instruction.execute_keeps_calls (Instruction.decode_sparesCalls hcall hret hd) ht
      rw [hs]
      exact Core.calls_of_eq hstack hsp'

end Machine
end ChipMachine
