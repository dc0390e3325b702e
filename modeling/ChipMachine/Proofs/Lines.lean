import ChipMachine.Instruction.Code
import ChipMachine.Journal
import Mathlib.Algebra.Group.Nat.Defs

namespace ChipMachine
namespace Text

namespace Hex

variable {w m n : Nat}

theorem digits_of_lt (w : Nat) (h : n < 16) :
    digits (w + 1) n = List.replicate w '0' ++ [Nat.digitChar n] := by
  rw [digits, Nat.toDigits_of_lt_base h]
  rfl

/-- The last digit comes off the end. -/
theorem digits_succ (w n : Nat) :
    digits (w + 2) n = digits (w + 1) (n / 16) ++ [Nat.digitChar (n % 16)] := by
  by_cases h : n < 16
  · rw [digits_of_lt _ h, Nat.div_eq_of_lt h, digits_of_lt _ (by decide), Nat.mod_eq_of_lt h,
      List.replicate_succ']
    rfl
  · have hpad (k : Nat) : w + 2 - (k + 1) = w + 1 - k := Nat.succ_sub_succ ..
    rw [digits, digits, Nat.toDigits_of_base_le (by decide) (Nat.le_of_not_lt h), List.leftpad,
      List.leftpad, List.length_append, List.length_singleton, hpad, List.append_assoc]

theorem length_upper (h : n < 16 ^ (w + 1)) : (upper (w + 1) n).length = w + 1 := by
  have hle : (Nat.toDigits 16 n).length ≤ w + 1 :=
    (Nat.length_toDigits_le_iff (by decide) (Nat.succ_pos w)).mpr h
  rw [upper, String.length_ofList, List.length_map, digits, List.leftpad, List.length_append,
    List.length_replicate, Nat.sub_add_cancel hle]

theorem toUpper_digitChar_inj : ∀ m < 16, ∀ n < 16,
    (Nat.digitChar m).toUpper = (Nat.digitChar n).toUpper → m = n := by decide

/-- Numbers that fit the width can be told apart by their digits. -/
theorem upper_inj (hm : m < 16 ^ (w + 1)) (hn : n < 16 ^ (w + 1))
    (h : upper (w + 1) m = upper (w + 1) n) : m = n := by
  replace h := String.ofList_inj.mp h
  -- on the width: the last digits agree, and so do the numbers that those before them make
  induction w generalizing m n with
  | zero =>
    rw [digits_of_lt 0 hm, digits_of_lt 0 hn] at h
    exact toUpper_digitChar_inj m hm n hn (List.cons.inj h).1
  | succ w ih =>
    rw [digits_succ, digits_succ, List.map_append, List.map_append] at h
    obtain ⟨hfirst, hlast⟩ := List.append_inj' h rfl
    have hhigh : m / 16 = n / 16 :=
      ih (Nat.div_lt_of_lt_mul (Nat.pow_succ' ▸ hm)) (Nat.div_lt_of_lt_mul (Nat.pow_succ' ▸ hn))
        hfirst
    have hlow : m % 16 = n % 16 := toUpper_digitChar_inj _ (Nat.mod_lt _ (by decide)) _
      (Nat.mod_lt _ (by decide)) (List.cons.inj hlast).1
    rw [← Nat.div_add_mod m 16, hhigh, hlow, Nat.div_add_mod]

end Hex

/-- Texts that begin with parts of the same length, and are the same, have the same parts. -/
theorem append_inj {a b s t : String} (h : a ++ s = b ++ t) (hl : a.length = b.length) :
    a = b ∧ s = t := by
  rw [← String.toList_inj, String.toList_append, String.toList_append] at h
  rw [← String.length_toList, ← String.length_toList] at hl
  obtain ⟨hfirst, hrest⟩ := List.append_inj h hl
  exact ⟨String.toList_inj.mp hfirst, String.toList_inj.mp hrest⟩

end Text

namespace Record

theorem length_byte (b : UInt8) : (Text.Hex.upper 2 b.toNat).length = 2 :=
  Text.Hex.length_upper b.toNat_lt

theorem length_word (w : UInt16) : (Text.Hex.upper 4 w.toNat).length = 4 :=
  Text.Hex.length_upper w.toNat_lt

theorem byte_inj {b c : UInt8} (h : Text.Hex.upper 2 b.toNat = Text.Hex.upper 2 c.toNat) : b = c :=
  UInt8.toNat.inj (Text.Hex.upper_inj b.toNat_lt c.toNat_lt h)

theorem word_inj {w u : UInt16} (h : Text.Hex.upper 4 w.toNat = Text.Hex.upper 4 u.toNat) : w = u :=
  UInt16.toNat.inj (Text.Hex.upper_inj w.toNat_lt u.toNat_lt h)

theorem bytes_inj {bs cs : List UInt8} (hl : bs.length = cs.length)
    (h : ", ".intercalate (bs.map fun b => Text.Hex.upper 2 b.toNat) =
      ", ".intercalate (cs.map fun b => Text.Hex.upper 2 b.toNat)) : bs = cs := by
  induction bs generalizing cs with
  | nil => exact (List.length_eq_zero_iff.mp hl.symm).symm
  | cons b bs ih =>
    obtain ⟨c, cs, rfl⟩ := List.exists_cons_of_length_eq_add_one hl.symm
    have hl : bs.length = cs.length := Nat.succ.inj hl
    cases bs with
    | nil =>
      obtain rfl := List.length_eq_zero_iff.mp hl.symm
      rw [List.map_singleton, List.map_singleton, String.intercalate_singleton,
        String.intercalate_singleton] at h
      rw [byte_inj h]
    | cons b' bs =>
      obtain ⟨c', cs, rfl⟩ := List.exists_cons_of_length_eq_add_one hl.symm
      simp only [List.map_cons, String.intercalate_cons_cons, String.append_assoc] at h
      obtain ⟨hbyte, hrest⟩ := Text.append_inj h ((length_byte b).trans (length_byte c).symm)
      rw [byte_inj hbyte, ih hl ((String.append_right_inj _).mp hrest)]

theorem registers_inj {v v' : Vector UInt8 16} (h : registers v = registers v') : v = v' := by
  have hlist : v.toList = v'.toList := by
    refine bytes_inj ?_ ((String.append_right_inj _).mp ((String.append_left_inj _).mp h))
    rw [Vector.length_toList, Vector.length_toList]
  exact Vector.toList_inj.mp hlist

/-- Of the instructions that words stand for, the line tells all that the record holds. -/
theorem executing_line_inj {a a' : UInt16} {w w' : Word} {i i' : Instruction}
    {v v' : Vector UInt8 16} {x x' : UInt16} (hd : Instruction.decode w = some i)
    (hd' : Instruction.decode w' = some i')
    (h : (executing a w i v x).line = (executing a' w' i' v' x').line) :
    executing a w i v x = executing a' w' i' v' x' := by
  have htext : " ".intercalate [Text.Hex.upper 4 a.toNat, Text.Hex.upper 4 w.toNat, i.listing,
        registers v, "i" ++ Text.Hex.upper 4 x.toNat] =
      " ".intercalate [Text.Hex.upper 4 a'.toNat, Text.Hex.upper 4 w'.toNat, i'.listing,
        registers v', "i" ++ Text.Hex.upper 4 x'.toNat] := (String.append_right_inj _).mp h
  simp only [String.intercalate_cons_cons, String.intercalate_singleton,
    String.append_assoc] at htext
  obtain ⟨haddress, hrest⟩ :=
    Text.append_inj htext ((length_word a).trans (length_word a').symm)
  obtain ⟨hword, hrest⟩ := Text.append_inj ((String.append_right_inj _).mp hrest)
    ((length_word w).trans (length_word w').symm)
  obtain rfl := word_inj hword
  obtain rfl := Option.some.inj (hd.symm.trans hd')
  -- the word tells the instruction, so that its listing may have any length
  simp only [String.append_right_inj] at hrest
  have hlength : (registers v).length = (registers v').length := by
    have hsum := congrArg String.length hrest
    simp only [String.length_append, length_word] at hsum
    omega
  obtain ⟨hregisters, hindex⟩ := Text.append_inj hrest hlength
  simp only [String.append_right_inj] at hindex
  rw [word_inj haddress, registers_inj hregisters, word_inj hindex]

end Record
end ChipMachine
