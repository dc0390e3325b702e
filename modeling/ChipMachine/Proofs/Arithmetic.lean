import ChipMachine.Machine.Step

namespace ChipMachine

/-- What an instruction works out, in numbers: the register that the result is for, the result, and
what VF has to tell, if it has to tell anything. -/
structure Computation where
  target : Reg
  result : Nat
  flag : Option Bool

/-- What logic leaves to tell: nothing, unless the dialect has VF cleared. -/
def Core.logicFlag (s : Core) : Option Bool :=
  if s.conventions.logicClearsFlag then some false else none

/-- What arithmetic, shifts and logic come to on the numbers that the registers hold. -/
def Instruction.computation? (s : Core) : Instruction → Option Computation
  | addByte x k => some ⟨x, ((s.reg x).toNat + k.toNat) % 256, none⟩
  | copy x y => some ⟨x, (s.reg y).toNat, none⟩
  | or x y => some ⟨x, (s.reg x).toNat ||| (s.reg y).toNat, s.logicFlag⟩
  | and x y => some ⟨x, (s.reg x).toNat &&& (s.reg y).toNat, s.logicFlag⟩
  | xor x y => some ⟨x, (s.reg x).toNat ^^^ (s.reg y).toNat, s.logicFlag⟩
  | add x y =>
    let sum := (s.reg x).toNat + (s.reg y).toNat
    some ⟨x, sum % 256, some (255 < sum)⟩
  | sub x y =>
    some ⟨x, (256 + (s.reg x).toNat - (s.reg y).toNat) % 256,
      some ((s.reg y).toNat ≤ (s.reg x).toNat)⟩
  | subFrom x y =>
    some ⟨x, (256 + (s.reg y).toNat - (s.reg x).toNat) % 256,
      some ((s.reg x).toNat ≤ (s.reg y).toNat)⟩
  | shiftRight x y =>
    let operand := (if s.conventions.shiftReadsY then s.reg y else s.reg x).toNat
    some ⟨x, operand / 2, some (operand % 2 = 1)⟩
  | shiftLeft x y =>
    let operand := (if s.conventions.shiftReadsY then s.reg y else s.reg x).toNat
    some ⟨x, 2 * operand % 256, some (128 ≤ operand)⟩
  | _ => none

namespace Computation

/-- `t` is `s` after a computation. Where the result and the flag are for the same register, the
flag is what stays there. -/
structure Performed (c : Computation) (s t : Core) : Prop where
  flag : ∀ told, c.flag = some told → (t.reg .flag).toNat = told.toNat
  result : (c.flag ≠ none → c.target ≠ .flag) → (t.reg c.target).toNat = c.result
  registers : ∀ r, r ≠ c.target → (c.flag ≠ none → r ≠ .flag) → t.reg r = s.reg r
  rest : t = { s with v := t.v }

variable {s : Core} {x : Reg} {b : UInt8} {n : Nat}

theorem Performed.put (hn : b.toNat = n) : Performed ⟨x, n, none⟩ s (s.put x b) where
  flag _ h := nomatch h
  result _ := by rw [Core.reg_put, if_pos rfl, hn]
  registers r hr _ := by rw [Core.reg_put, if_neg (Ne.symm hr)]
  rest := rfl

theorem Performed.putFlag (told : Bool) (hn : b.toNat = n) :
    Performed ⟨x, n, some told⟩ s ((s.put x b).flag told) where
  flag said h := by
    obtain rfl : told = said := Option.some.inj h
    rw [Core.flag, Core.reg_put, if_pos rfl]
    cases told <;> rfl
  result hx := by
    have hx : Reg.flag ≠ x := (hx (Option.some_ne_none told)).symm
    rw [Core.flag, Core.reg_put, if_neg hx, Core.reg_put, if_pos rfl, hn]
  registers r hr hf := by
    have hf : Reg.flag ≠ r := (hf (Option.some_ne_none told)).symm
    rw [Core.flag, Core.reg_put, if_neg hf, Core.reg_put, if_neg (Ne.symm hr)]
  rest := rfl

theorem Performed.combine (hn : b.toNat = n) :
    Performed ⟨x, n, s.logicFlag⟩ s (s.combine x b) := by
  unfold Core.logicFlag Core.combine
  dsimp only
  split
  · exact putFlag false hn
  · exact put hn

end Computation

section
variable (a b : UInt8)

theorem toNat_sub_mod : (a - b).toNat = (256 + a.toNat - b.toNat) % 256 := by
  have hb := b.toNat_lt
  rw [UInt8.toNat_sub, Nat.sub_add_comm (Nat.le_of_lt hb)]

theorem toNat_half : (a >>> 1).toNat = a.toNat / 2 := by
  rw [UInt8.toNat_shiftRight]
  exact Nat.shiftRight_eq_div_pow a.toNat 1

theorem toNat_double : (a <<< 1).toNat = 2 * a.toNat % 256 := by
  rw [UInt8.toNat_shiftLeft, Nat.mul_comm]
  exact congrArg (· % 256) (Nat.shiftLeft_eq a.toNat 1)

theorem testBit_seven : a.toNat.testBit 7 = decide (128 ≤ a.toNat) := by
  have ha := a.toNat_lt
  rw [Nat.testBit_eq_decide_div_mod_eq, decide_eq_decide]
  omega

end

/-- Whatever registers coincide, an instruction that computes something leaves it in its registers
and changes nothing else: the operands are read before anything is written, and the flag is written
last. -/
theorem Machine.perform_computes (m : Machine) (i : Instruction) (c : Computation)
    (h : i.computation? m.core = some c) :
    ∃ t, m.perform i = ⟨{ m with core := t }, [], .ok .proceed⟩ ∧ c.Performed m.core t := by
  cases i <;> try cases h
  case addByte x k => exact ⟨_, rfl, .put (UInt8.toNat_add ..)⟩
  case copy x y => exact ⟨_, rfl, .put rfl⟩
  case or x y => exact ⟨_, rfl, .combine (UInt8.toNat_or ..)⟩
  case and x y => exact ⟨_, rfl, .combine (UInt8.toNat_and ..)⟩
  case xor x y => exact ⟨_, rfl, .combine (UInt8.toNat_xor ..)⟩
  case add x y => exact ⟨_, rfl, .putFlag _ (UInt8.toNat_add ..)⟩
  case sub x y => exact ⟨_, rfl, .putFlag _ (toNat_sub_mod ..)⟩
  case subFrom x y => exact ⟨_, rfl, .putFlag _ (toNat_sub_mod ..)⟩
  case shiftRight x y =>
    refine ⟨_, rfl, ?_⟩
    rw [Nat.testBit_zero]
    exact .putFlag _ (toNat_half _)
  case shiftLeft x y =>
    refine ⟨_, rfl, ?_⟩
    rw [testBit_seven]
    exact .putFlag _ (toNat_double _)

/-- VF takes half of V3, and the bit that is lost stays in VF instead; then VF is taken from itself,
where the flag is the only thing to be seen. -/
theorem Machine.perform_computes_into_flag :
    let m : Machine := ⟨((Core.fresh .vip).put 3 7).put 15 200, [], .standard, .cycle []⟩
    (Instruction.shiftRight 15 3).computation? m.core = some ⟨15, 3, some true⟩ ∧
      (∃ t, m.perform (.shiftRight 15 3) = ⟨{ m with core := t }, [], .ok .proceed⟩ ∧
        (t.reg 15).toNat = 1 ∧ t.reg 3 = 7) ∧
      (Instruction.sub 15 15).computation? m.core = some ⟨15, 0, some true⟩ ∧
      ∃ t, m.perform (.sub 15 15) = ⟨{ m with core := t }, [], .ok .proceed⟩ ∧
        (t.reg 15).toNat = 1 := by
  intro m
  have hthree : m.core.reg 3 = 7 := rfl
  have hlast : m.core.reg 15 = 200 := rfl
  have hreads : m.core.conventions.shiftReadsY = true := rfl
  have hshift : (Instruction.shiftRight 15 3).computation? m.core = some ⟨15, 3, some true⟩ := by
    simp only [Instruction.computation?, hreads, if_true, hthree]
    rfl
  have hsub : (Instruction.sub 15 15).computation? m.core = some ⟨15, 0, some true⟩ := by
    simp only [Instruction.computation?, hlast]
    rfl
  obtain ⟨t, ht, hshifted⟩ := perform_computes m _ _ hshift
  obtain ⟨u, hu, hsubtracted⟩ := perform_computes m _ _ hsub
  refine ⟨hshift, ⟨t, ht, hshifted.flag true rfl, ?_⟩, hsub, u, hu, hsubtracted.flag true rfl⟩
  exact hshifted.registers 3 (by decide) fun _ => by decide

end ChipMachine
