import ChipMachine.Proofs.Execution
import Mathlib.Data.Set.Function

namespace ChipMachine

namespace Word

theorem toNat_address (w : Word) : w.address.toNat = w.toNat % 4096 := by
  simp [address]
  omega

theorem toNat_digits (w : Word) :
    w.toNat = 4096 * w.family.val + 256 * w.x.val + 16 * w.y.val + w.n.val := by
  simp only [family, x, y, n]
  omega

theorem toNat_family_address (w : Word) : w.toNat = 4096 * w.family.val + w.address.toNat := by
  rw [toNat_address]
  simp only [family]
  omega

theorem toNat_family_byte (w : Word) :
    w.toNat = 4096 * w.family.val + 256 * w.x.val + w.byte.toNat := by
  rw [toNat_byte]
  simp only [family, x]
  omega

end Word

namespace Instruction

section
variable {a b c d : Nat}

theorem toNat_digits (h : 4096 * a + 256 * b + 16 * c + d < 65536) :
    (digits a b c d).toNat = 4096 * a + 256 * b + 16 * c + d := by
  simp [digits]
  omega

/-- The other digits may stand for a byte or an address. -/
theorem family_digits (ha : a < 16) (h : 256 * b + 16 * c + d < 4096) :
    (digits a b c d).family = ⟨a, ha⟩ := by
  simp only [Word.family, toNat_digits (show 4096 * a + 256 * b + 16 * c + d < 65536 by omega)]
  simp
  omega

theorem x_digits (ha : a < 16) (hb : b < 16) (h : 16 * c + d < 256) :
    (digits a b c d).x = ⟨b, hb⟩ := by
  simp only [Word.x, toNat_digits (show 4096 * a + 256 * b + 16 * c + d < 65536 by omega)]
  simp
  omega

theorem y_digits (ha : a < 16) (hb : b < 16) (hc : c < 16) (hd : d < 16) :
    (digits a b c d).y = ⟨c, hc⟩ := by
  simp only [Word.y, toNat_digits (show 4096 * a + 256 * b + 16 * c + d < 65536 by omega)]
  simp
  omega

theorem n_digits (ha : a < 16) (hb : b < 16) (hc : c < 16) (hd : d < 16) :
    (digits a b c d).n = ⟨d, hd⟩ := by
  simp only [Word.n, toNat_digits (show 4096 * a + 256 * b + 16 * c + d < 65536 by omega)]
  simp
  omega

end

section
variable {f : Nat} (hf : f < 16) (x : Reg) (k : UInt8)
include hf

theorem family_withByte : (withByte f x k).family = ⟨f, hf⟩ := by
  have hk := k.toNat_lt
  exact family_digits hf (by omega)

theorem x_withByte : (withByte f x k).x = x := by
  have hk := k.toNat_lt
  exact x_digits hf x.isLt (by omega)

theorem byte_withByte : (withByte f x k).byte = k := by
  have hk := k.toNat_lt
  apply UInt8.toNat.inj
  rw [Word.toNat_byte, withByte, toNat_digits (by omega)]
  omega

variable {a : UInt16} (ha : a.toNat < 4096)
include ha

theorem family_withAddress : (withAddress f a).family = ⟨f, hf⟩ := family_digits hf (by omega)

theorem address_withAddress : (withAddress f a).address = a := by
  apply UInt16.toNat.inj
  rw [Word.toNat_address, withAddress, toNat_digits (by omega)]
  omega

end

section
variable {w : Word}

theorem digits_eq {a b c d : Nat} (h : w.toNat = 4096 * a + 256 * b + 16 * c + d) :
    digits a b c d = w := by
  have hw := w.toNat_lt
  apply UInt16.toNat.inj
  rw [toNat_digits (by omega), h]

variable {f : Nat} (hf : w.family.val = f)
include hf

theorem digits_of_n {n : Nat} (hn : w.n.val = n) : digits f w.x w.y n = w := by
  have hw := w.toNat_digits
  exact digits_eq (by omega)

theorem withByte_of_byte {k : UInt8} (hk : w.byte = k) : withByte f w.x k = w := by
  have hw := w.toNat_family_byte
  rw [hk] at hw
  exact digits_eq (by omega)

theorem withAddress_of_family : withAddress f w.address = w := by
  have hw := w.toNat_family_address
  exact digits_eq (by omega)

end

/-- Whether a word stands for a well-formed instruction, and is the word that it is written as. -/
def Writes (i : Instruction) (w : Word) : Prop := i.WellFormed ∧ encode i = w

section
variable {w : Word} {i : Instruction}

theorem decodeSystem_writes (h : decodeSystem w = some i) : i.Writes w := by
  unfold decodeSystem at h
  split at h
  · rename_i hw
    cases h
    have hn : (UInt8.ofNat w.n).toNat = w.toNat % 16 := by
      simp [Word.n]
      omega
    exact ⟨by simp only [WellFormed]; omega, digits_eq (by omega)⟩
  · split at h
    case h_8 => cases h
    all_goals
      rename_i hw
      cases h
      exact ⟨trivial, UInt16.toNat.inj hw.symm⟩

theorem decodeArithmetic_writes (hf : w.family.val = 0x8) (h : decodeArithmetic w = some i) :
    i.Writes w := by
  unfold decodeArithmetic at h
  split at h
  case h_10 => cases h
  all_goals
    rename_i hn
    cases h
    exact ⟨trivial, digits_of_n hf (congrArg Fin.val hn)⟩

theorem decodeKey_writes (hf : w.family.val = 0xE) (h : decodeKey w = some i) : i.Writes w := by
  unfold decodeKey at h
  split at h
  case h_3 => cases h
  all_goals
    rename_i hk
    cases h
    exact ⟨trivial, withByte_of_byte hf (UInt8.toNat.inj hk)⟩

theorem decodeTransfer_writes (hf : w.family.val = 0xF) (h : decodeTransfer w = some i) :
    i.Writes w := by
  unfold decodeTransfer at h
  split at h
  case h_10 => cases h
  all_goals
    rename_i hk
    cases h
    exact ⟨trivial, withByte_of_byte hf (UInt8.toNat.inj hk)⟩

theorem decode_writes (h : decode w = some i) : i.Writes w := by
  have haddress : w.address.toNat < 4096 := by
    rw [Word.toNat_address]
    omega
  unfold decode at h
  split at h
  case h_1 => exact decodeSystem_writes h
  case h_9 hf => exact decodeArithmetic_writes (congrArg Fin.val hf) h
  case h_15 hf => exact decodeKey_writes (congrArg Fin.val hf) h
  case h_16 =>
    -- all other families are excluded
    exact decodeTransfer_writes (by grind) h
  case h_2 hf | h_3 hf | h_11 hf | h_12 hf =>
    cases h
    exact ⟨haddress, withAddress_of_family (congrArg Fin.val hf)⟩
  case h_6 hf | h_10 hf =>
    split at h
    · rename_i hn
      cases h
      exact ⟨trivial, digits_of_n (congrArg Fin.val hf) hn⟩
    · cases h
  case h_14 hf =>
    cases h
    have hn : (UInt8.ofNat w.n).toNat = w.n := by
      have := w.n.isLt
      simp
      omega
    exact ⟨by simp only [WellFormed]; omega, digits_of_n (congrArg Fin.val hf) hn.symm⟩
  all_goals
    rename_i hf
    cases h
    exact ⟨trivial, withByte_of_byte (congrArg Fin.val hf) rfl⟩

end

/-- A well-formed instruction is read back from the word that it is written as. -/
theorem decode_encode {i : Instruction} (h : i.WellFormed) : decode (encode i) = some i := by
  cases i
  case clear | ret | scrollRight | scrollLeft | halt | lowMode | highMode => rfl
  case scrollDown n =>
    simp only [WellFormed] at h
    have hrow : (192 + n.toNat) / 16 = 12 := by omega
    simp (disch := omega) [encode, decode, decodeSystem, family_digits, n_digits, toNat_digits,
      hrow]
  case jump a | call a | setIndex a | jumpOffset a =>
    simp only [WellFormed] at h
    simp [encode, decode, family_withAddress, address_withAddress, h]
  case skipIfByte x k | skipUnlessByte x k | setByte x k | addByte x k | random x k =>
    simp [encode, decode, family_withByte, x_withByte, byte_withByte]
  case skipIfEqual x y | skipUnlessEqual x y =>
    simp (disch := omega) [encode, decode, family_digits, x_digits, y_digits, n_digits]
  case copy x y | or x y | and x y | xor x y | add x y | sub x y | shiftRight x y | subFrom x y
      | shiftLeft x y =>
    simp (disch := omega) [encode, decode, decodeArithmetic, family_digits, x_digits, y_digits,
      n_digits]
  case draw x y n =>
    simp only [WellFormed] at h
    simp (disch := omega) [encode, decode, family_digits, x_digits, y_digits, n_digits]
  case skipIfDown x | skipUnlessDown x =>
    simp [encode, decode, decodeKey, family_withByte, x_withByte, byte_withByte]
  all_goals
    simp [encode, decode, decodeTransfer, family_withByte, x_withByte, byte_withByte]

theorem decode_eq_some_iff {w : Word} {i : Instruction} : decode w = some i ↔ i.Writes w :=
  ⟨decode_writes, fun ⟨h, hw⟩ => hw ▸ decode_encode h⟩

theorem decode_eq_ret_iff {w : Word} : decode w = some .ret ↔ w = 0x00EE := by
  rw [decode_eq_some_iff]
  exact ⟨fun h => h.2.symm, fun h => ⟨trivial, h.symm⟩⟩

theorem decode_eq_call_iff {w : Word} {a : UInt16} :
    decode w = some (.call a) ↔ w.family.val = 2 ∧ a = w.address := by
  rw [decode_eq_some_iff]
  constructor
  · rintro ⟨ha, rfl⟩
    exact ⟨congrArg Fin.val (family_withAddress (by decide) ha),
      (address_withAddress (by decide) ha).symm⟩
  · rintro ⟨hf, rfl⟩
    refine ⟨?_, withAddress_of_family hf⟩
    simp only [WellFormed, Word.toNat_address]
    exact Nat.mod_lt _ (by decide)

theorem decode_eq_none_iff {w : Word} : decode w = none ↔ w ∉ encode '' {i | i.WellFormed} := by
  rw [Option.eq_none_iff_forall_ne_some]
  simp [decode_eq_some_iff, Writes]

end Instruction

namespace Machine

/-- A word is called unknown, with the address that it was found at, if it stands for nothing. -/
theorem obey_unknown_iff {m : Machine} {w word : Word} {address : UInt16} :
    (m.obey w).answer = .error (.unknownWord word address) ↔
      Instruction.decode w = none ∧ word = w ∧ address = m.core.pc := by
  unfold obey
  cases hd : Instruction.decode w with
  | none => simp [eq_comm]
  | some i =>
    cases he : i.execute m.passed.entropy.chance m.passed.core with
    | ok t => simp [perform, he, conclude]
    | error fault =>
      -- what an instruction is refused for is the stack
      have hstack := Instruction.execute_error he
      simp only [perform, he, conclude]
      grind

end Machine

namespace Instruction

/-- Reading words and writing well-formed instructions undo each other. The words that stand for
nothing are those that no well-formed instruction is written as, and these are called unknown where
they are met. The fields that words are read by hold all of the word. -/
theorem decode_inverts_encode :
    Set.BijOn encode {i | i.WellFormed} {w | (decode w).isSome} ∧
    (∀ w i, decode w = some i ↔ i.WellFormed ∧ encode i = w) ∧
    (∀ (m : Machine) (w word : Word) (address : UInt16),
      (m.obey w).answer = .error (.unknownWord word address) ↔
        w ∉ encode '' {i | i.WellFormed} ∧ word = w ∧ address = m.core.pc) ∧
    ∀ high low : UInt8,
      let w := Word.ofBytes high low
      w.toNat = 256 * high.toNat + low.toNat ∧
      w.toNat = 4096 * w.family.val + 256 * w.x.val + 16 * w.y.val + w.n.val ∧
      w.toNat = 4096 * w.family.val + 256 * w.x.val + w.byte.toNat ∧
      w.toNat = 4096 * w.family.val + w.address.toNat := by
  refine ⟨⟨?_, ?_, ?_⟩, fun w i => decode_eq_some_iff, ?_, ?_⟩
  · intro i hi
    simp [decode_encode hi]
  · intro i hi j hj hij
    have hsame := congrArg decode hij
    rw [decode_encode hi, decode_encode hj] at hsame
    exact Option.some.inj hsame
  · intro w hw
    obtain ⟨i, hi⟩ := Option.isSome_iff_exists.mp hw
    exact ⟨i, decode_eq_some_iff.mp hi⟩
  · intro m w word address
    rw [Machine.obey_unknown_iff, decode_eq_none_iff]
  · intro high low w
    exact ⟨Word.toNat_ofBytes high low, w.toNat_digits, w.toNat_family_byte,
      w.toNat_family_address⟩

end Instruction
end ChipMachine
