import ChipMachine.Machine.Step

namespace ChipMachine

theorem toNat_sub_one_add_one {b : UInt8} (h : b ≠ 0) : (b - 1).toNat + 1 = b.toNat := by
  have hpos : 1 ≤ b.toNat := Nat.one_le_iff_ne_zero.mpr fun h0 => h (UInt8.toNat.inj h0)
  have hle : (1 : UInt8) ≤ b := UInt8.le_iff_toNat_le.mpr hpos
  rw [UInt8.toNat_sub_of_le _ _ hle]
  exact Nat.sub_add_cancel hpos

theorem toNat_add_one {b : UInt8} (h : b.toNat < 255) : (b + 1).toNat = b.toNat + 1 := by
  rw [UInt8.toNat_add]
  exact Nat.mod_eq_of_lt (Nat.succ_lt_succ h)

namespace Core

/-- The same core with other calls open. -/
def withCalls (s : Core) (stack : Vector UInt16 16) (sp : UInt8) : Core :=
  { s with stack := stack, sp := sp }

variable (s : Core) (stack : Vector UInt16 16) (sp : UInt8)

theorem combine_withCalls (x : Reg) (b : UInt8) :
    (s.withCalls stack sp).combine x b = (s.combine x b).withCalls stack sp := by
  have hc : (s.withCalls stack sp).conventions = s.conventions := rfl
  simp only [combine, hc]
  split <;> rfl

theorem skipIf_withCalls (c : Bool) :
    (s.withCalls stack sp).skipIf c = (s.skipIf c).withCalls stack sp := by
  cases c <;> rfl

theorem waitKey_withCalls (x : Reg) :
    (s.withCalls stack sp).waitKey x = (s.waitKey x).withCalls stack sp := by
  have hk : (s.withCalls stack sp).keypad = s.keypad := rfl
  simp only [waitKey, hk]
  split <;> rfl

variable {s}

theorem currentAddress_advance : s.advance.currentAddress = s.pc := UInt16.add_sub_cancel ..

/-- With room for a call, its stack pointer is one higher. -/
theorem toNat_sp_add_one (h : s.sp.toNat < callLimit) : (s.sp + 1).toNat = s.sp.toNat + 1 :=
  toNat_add_one (Nat.lt_trans h (by decide))

theorem enter_full (h : callLimit ≤ s.sp.toNat) (a : UInt16) :
    s.enter a = .error (.fullStack s.currentAddress) := dif_neg (Nat.not_lt.mpr h)

theorem leave_empty (h : s.sp = 0) : s.leave = .error (.emptyStack s.currentAddress) := if_pos h

theorem enter_ok {a : UInt16} {t : Core} (h : s.enter a = .ok t) :
    ∃ hs : s.sp.toNat < callLimit, t =
      { s with
        stack := s.stack.set s.sp.toNat s.pc (Nat.lt_succ_of_lt hs)
        sp := s.sp + 1
        pc := a } := by
  unfold enter at h
  split at h
  · rename_i hs
    cases h
    exact ⟨hs, rfl⟩
  · cases h

theorem enter_error {a : UInt16} {fault : Fault} (h : s.enter a = .error fault) :
    callLimit ≤ s.sp.toNat ∧ fault = .fullStack s.currentAddress := by
  unfold enter at h
  split at h
  · cases h
  · rename_i hs
    cases h
    exact ⟨Nat.le_of_not_lt hs, rfl⟩

theorem leave_ok {t : Core} (h : s.leave = .ok t) :
    s.sp ≠ 0 ∧ ∃ a, s.stack[s.sp.toNat - 1]? = some a ∧ t = { s with sp := s.sp - 1, pc := a } := by
  unfold leave at h
  split at h
  · cases h
  · rename_i hs
    split at h
    · rename_i a ha
      cases h
      exact ⟨hs, a, ha, rfl⟩
    · cases h

theorem leave_error {fault : Fault} (h : s.leave = .error fault) :
    (s.sp = 0 ∧ fault = .emptyStack s.currentAddress) ∨
    (16 < s.sp.toNat ∧ fault = .strayStackPointer s.currentAddress) := by
  unfold leave at h
  split at h
  · rename_i hs
    cases h
    exact .inl ⟨hs, rfl⟩
  · rename_i hs
    split at h
    · cases h
    · rename_i ha
      cases h
      have : 16 ≤ s.sp.toNat - 1 := by simpa using ha
      exact .inr ⟨by omega, rfl⟩

end Core

namespace Instruction

/-- Every instruction but a call or a return. -/
def SparesCalls (i : Instruction) : Prop := i ≠ .ret ∧ ∀ a, i ≠ .call a

theorem calls_cases (i : Instruction) : i = .ret ∨ (∃ a, i = .call a) ∨ i.SparesCalls := by
  cases i <;> simp [SparesCalls]

/-- Other instructions neither read nor write the stack and its pointer. -/
theorem execute_withCalls {i : Instruction} (hi : i.SparesCalls) (chance : UInt8) (s : Core)
    (stack : Vector UInt16 16) (sp : UInt8) :
    ∃ t, i.execute chance s = .ok t ∧
      i.execute chance (s.withCalls stack sp) = .ok (t.withCalls stack sp) := by
  cases i
  case ret => exact absurd rfl hi.1
  case call a => exact absurd rfl (hi.2 a)
  case waitKey => exact ⟨_, rfl, congrArg _ (s.waitKey_withCalls stack sp _)⟩
  case or | and | xor => exact ⟨_, rfl, congrArg _ (s.combine_withCalls stack sp _ _)⟩
  case skipIfByte | skipUnlessByte | skipIfEqual | skipUnlessEqual | skipIfDown | skipUnlessDown =>
    exact ⟨_, rfl, congrArg _ (s.skipIf_withCalls stack sp _)⟩
  all_goals exact ⟨_, rfl, rfl⟩

variable {i : Instruction} {chance : UInt8} {s t : Core}

theorem execute_keeps_calls (hi : i.SparesCalls) (h : i.execute chance s = .ok t) :
    t.stack = s.stack ∧ t.sp = s.sp := by
  obtain ⟨u, hu, hw⟩ := execute_withCalls hi chance s s.stack s.sp
  change i.execute chance s = _ at hw
  rw [h, Except.ok.injEq] at hw
  rw [hw]
  exact ⟨rfl, rfl⟩

/-- Only calls and returns can be refused. -/
theorem execute_error {fault : Fault} (h : i.execute chance s = .error fault) :
    (∃ a, i = .call a ∧ Core.callLimit ≤ s.sp.toNat ∧ fault = .fullStack s.currentAddress) ∨
    (i = .ret ∧ s.sp = 0 ∧ fault = .emptyStack s.currentAddress) ∨
    (i = .ret ∧ 16 < s.sp.toNat ∧ fault = .strayStackPointer s.currentAddress) := by
  rcases i.calls_cases with rfl | ⟨a, rfl⟩ | hi
  · obtain ⟨hs, hf⟩ | ⟨hs, hf⟩ := Core.leave_error h
    · exact .inr (.inl ⟨rfl, hs, hf⟩)
    · exact .inr (.inr ⟨rfl, hs, hf⟩)
  · obtain ⟨hs, hf⟩ := Core.enter_error h
    exact .inl ⟨a, rfl, hs, hf⟩
  · obtain ⟨u, hu, _⟩ := execute_withCalls hi chance s s.stack s.sp
    rw [hu] at h
    cases h

/-- No instruction writes the keys or the dialect. -/
theorem execute_keeps_givens (h : i.execute chance s = .ok t) :
    t.keypad = s.keypad ∧ t.dialect = s.dialect := by
  cases i
  case ret =>
    obtain ⟨_, a, _, rfl⟩ := Core.leave_ok h
    exact ⟨rfl, rfl⟩
  case call a =>
    obtain ⟨_, rfl⟩ := Core.enter_ok h
    exact ⟨rfl, rfl⟩
  case waitKey x =>
    obtain rfl := Except.ok.inj h
    simp only [Core.waitKey]
    split <;> exact ⟨rfl, rfl⟩
  case or | and | xor =>
    obtain rfl := Except.ok.inj h
    simp only [Core.combine]
    split <;> exact ⟨rfl, rfl⟩
  case skipIfByte | skipUnlessByte | skipIfEqual | skipUnlessEqual | skipIfDown | skipUnlessDown =>
    obtain rfl := Except.ok.inj h
    simp only [Core.skipIf]
    split <;> exact ⟨rfl, rfl⟩
  all_goals
    obtain rfl := Except.ok.inj h
    simp only [Core.put, Core.flag, Core.paint, Core.switchTo, Core.drawSprite,
      Core.storeRegisters, Core.loadRegisters, and_self]

end Instruction
end ChipMachine
