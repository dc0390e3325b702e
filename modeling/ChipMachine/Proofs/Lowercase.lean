import ChipMachine.Text.Caseless

namespace ChipMachine.Text

/-- Capitals from `first` to `last`, `stride` apart. Their small letters lie `shift` further on. -/
structure Capitals where
  first : Nat
  last : Nat
  stride : Nat
  shift : Int
  deriving DecidableEq

def Capitals.has (r : Capitals) (n : Nat) : Bool :=
  r.first ≤ n && n ≤ r.last && (n - r.first) % r.stride == 0

/-- All characters that have one other character for their lower case, by the tables of
Unicode 14. -/
def capitals : List Capitals :=
  [⟨0x41, 0x5A, 1, 32⟩, ⟨0xC0, 0xD6, 1, 32⟩, ⟨0xD8, 0xDE, 1, 32⟩, ⟨0x100, 0x12E, 2, 1⟩,
   ⟨0x132, 0x136, 2, 1⟩, ⟨0x139, 0x147, 2, 1⟩, ⟨0x14A, 0x176, 2, 1⟩, ⟨0x178, 0x178, 1, -121⟩,
   ⟨0x179, 0x17D, 2, 1⟩, ⟨0x181, 0x181, 1, 210⟩, ⟨0x182, 0x184, 2, 1⟩, ⟨0x186, 0x186, 1, 206⟩,
   ⟨0x187, 0x187, 1, 1⟩, ⟨0x189, 0x18A, 1, 205⟩, ⟨0x18B, 0x18B, 1, 1⟩, ⟨0x18E, 0x18E, 1, 79⟩,
   ⟨0x18F, 0x18F, 1, 202⟩, ⟨0x190, 0x190, 1, 203⟩, ⟨0x191, 0x191, 1, 1⟩, ⟨0x193, 0x193, 1, 205⟩,
   ⟨0x194, 0x194, 1, 207⟩, ⟨0x196, 0x196, 1, 211⟩, ⟨0x197, 0x197, 1, 209⟩, ⟨0x198, 0x198, 1, 1⟩,
   ⟨0x19C, 0x19C, 1, 211⟩, ⟨0x19D, 0x19D, 1, 213⟩, ⟨0x19F, 0x19F, 1, 214⟩, ⟨0x1A0, 0x1A4, 2, 1⟩,
   ⟨0x1A6, 0x1A6, 1, 218⟩, ⟨0x1A7, 0x1A7, 1, 1⟩, ⟨0x1A9, 0x1A9, 1, 218⟩, ⟨0x1AC, 0x1AC, 1, 1⟩,
   ⟨0x1AE, 0x1AE, 1, 218⟩, ⟨0x1AF, 0x1AF, 1, 1⟩, ⟨0x1B1, 0x1B2, 1, 217⟩, ⟨0x1B3, 0x1B5, 2, 1⟩,
   ⟨0x1B7, 0x1B7, 1, 219⟩, ⟨0x1B8, 0x1B8, 1, 1⟩, ⟨0x1BC, 0x1BC, 1, 1⟩, ⟨0x1C4, 0x1C4, 1, 2⟩,
   ⟨0x1C5, 0x1C5, 1, 1⟩, ⟨0x1C7, 0x1C7, 1, 2⟩, ⟨0x1C8, 0x1C8, 1, 1⟩, ⟨0x1CA, 0x1CA, 1, 2⟩,
   ⟨0x1CB, 0x1DB, 2, 1⟩, ⟨0x1DE, 0x1EE, 2, 1⟩, ⟨0x1F1, 0x1F1, 1, 2⟩, ⟨0x1F2, 0x1F4, 2, 1⟩,
   ⟨0x1F6, 0x1F6, 1, -97⟩, ⟨0x1F7, 0x1F7, 1, -56⟩, ⟨0x1F8, 0x21E, 2, 1⟩, ⟨0x220, 0x220, 1, -130⟩,
   ⟨0x222, 0x232, 2, 1⟩, ⟨0x23A, 0x23A, 1, 10795⟩, ⟨0x23B, 0x23B, 1, 1⟩, ⟨0x23D, 0x23D, 1, -163⟩,
   ⟨0x23E, 0x23E, 1, 10792⟩, ⟨0x241, 0x241, 1, 1⟩, ⟨0x243, 0x243, 1, -195⟩, ⟨0x244, 0x244, 1, 69⟩,
   ⟨0x245, 0x245, 1, 71⟩, ⟨0x246, 0x24E, 2, 1⟩, ⟨0x370, 0x372, 2, 1⟩, ⟨0x376, 0x376, 1, 1⟩,
   ⟨0x37F, 0x37F, 1, 116⟩, ⟨0x386, 0x386, 1, 38⟩, ⟨0x388, 0x38A, 1, 37⟩, ⟨0x38C, 0x38C, 1, 64⟩,
   ⟨0x38E, 0x38F, 1, 63⟩, ⟨0x391, 0x3A1, 1, 32⟩, ⟨0x3A3, 0x3AB, 1, 32⟩, ⟨0x3CF, 0x3CF, 1, 8⟩,
   ⟨0x3D8, 0x3EE, 2, 1⟩, ⟨0x3F4, 0x3F4, 1, -60⟩, ⟨0x3F7, 0x3F7, 1, 1⟩, ⟨0x3F9, 0x3F9, 1, -7⟩,
   ⟨0x3FA, 0x3FA, 1, 1⟩, ⟨0x3FD, 0x3FF, 1, -130⟩, ⟨0x400, 0x40F, 1, 80⟩, ⟨0x410, 0x42F, 1, 32⟩,
   ⟨0x460, 0x480, 2, 1⟩, ⟨0x48A, 0x4BE, 2, 1⟩, ⟨0x4C0, 0x4C0, 1, 15⟩, ⟨0x4C1, 0x4CD, 2, 1⟩,
   ⟨0x4D0, 0x52E, 2, 1⟩, ⟨0x531, 0x556, 1, 48⟩, ⟨0x10A0, 0x10C5, 1, 7264⟩,
   ⟨0x10C7, 0x10C7, 1, 7264⟩, ⟨0x10CD, 0x10CD, 1, 7264⟩, ⟨0x13A0, 0x13EF, 1, 38864⟩,
   ⟨0x13F0, 0x13F5, 1, 8⟩, ⟨0x1C90, 0x1CBA, 1, -3008⟩, ⟨0x1CBD, 0x1CBF, 1, -3008⟩,
   ⟨0x1E00, 0x1E94, 2, 1⟩, ⟨0x1E9E, 0x1E9E, 1, -7615⟩, ⟨0x1EA0, 0x1EFE, 2, 1⟩,
   ⟨0x1F08, 0x1F0F, 1, -8⟩, ⟨0x1F18, 0x1F1D, 1, -8⟩, ⟨0x1F28, 0x1F2F, 1, -8⟩,
   ⟨0x1F38, 0x1F3F, 1, -8⟩, ⟨0x1F48, 0x1F4D, 1, -8⟩, ⟨0x1F59, 0x1F5F, 2, -8⟩,
   ⟨0x1F68, 0x1F6F, 1, -8⟩, ⟨0x1F88, 0x1F8F, 1, -8⟩, ⟨0x1F98, 0x1F9F, 1, -8⟩,
   ⟨0x1FA8, 0x1FAF, 1, -8⟩, ⟨0x1FB8, 0x1FB9, 1, -8⟩, ⟨0x1FBA, 0x1FBB, 1, -74⟩,
   ⟨0x1FBC, 0x1FBC, 1, -9⟩, ⟨0x1FC8, 0x1FCB, 1, -86⟩, ⟨0x1FCC, 0x1FCC, 1, -9⟩,
   ⟨0x1FD8, 0x1FD9, 1, -8⟩, ⟨0x1FDA, 0x1FDB, 1, -100⟩, ⟨0x1FE8, 0x1FE9, 1, -8⟩,
   ⟨0x1FEA, 0x1FEB, 1, -112⟩, ⟨0x1FEC, 0x1FEC, 1, -7⟩, ⟨0x1FF8, 0x1FF9, 1, -128⟩,
   ⟨0x1FFA, 0x1FFB, 1, -126⟩, ⟨0x1FFC, 0x1FFC, 1, -9⟩, ⟨0x2126, 0x2126, 1, -7517⟩,
   ⟨0x212A, 0x212A, 1, -8383⟩, ⟨0x212B, 0x212B, 1, -8262⟩, ⟨0x2132, 0x2132, 1, 28⟩,
   ⟨0x2160, 0x216F, 1, 16⟩, ⟨0x2183, 0x2183, 1, 1⟩, ⟨0x24B6, 0x24CF, 1, 26⟩,
   ⟨0x2C00, 0x2C2F, 1, 48⟩, ⟨0x2C60, 0x2C60, 1, 1⟩, ⟨0x2C62, 0x2C62, 1, -10743⟩,
   ⟨0x2C63, 0x2C63, 1, -3814⟩, ⟨0x2C64, 0x2C64, 1, -10727⟩, ⟨0x2C67, 0x2C6B, 2, 1⟩,
   ⟨0x2C6D, 0x2C6D, 1, -10780⟩, ⟨0x2C6E, 0x2C6E, 1, -10749⟩, ⟨0x2C6F, 0x2C6F, 1, -10783⟩,
   ⟨0x2C70, 0x2C70, 1, -10782⟩, ⟨0x2C72, 0x2C72, 1, 1⟩, ⟨0x2C75, 0x2C75, 1, 1⟩,
   ⟨0x2C7E, 0x2C7F, 1, -10815⟩, ⟨0x2C80, 0x2CE2, 2, 1⟩, ⟨0x2CEB, 0x2CED, 2, 1⟩,
   ⟨0x2CF2, 0x2CF2, 1, 1⟩, ⟨0xA640, 0xA66C, 2, 1⟩, ⟨0xA680, 0xA69A, 2, 1⟩, ⟨0xA722, 0xA72E, 2, 1⟩,
   ⟨0xA732, 0xA76E, 2, 1⟩, ⟨0xA779, 0xA77B, 2, 1⟩, ⟨0xA77D, 0xA77D, 1, -35332⟩,
   ⟨0xA77E, 0xA786, 2, 1⟩, ⟨0xA78B, 0xA78B, 1, 1⟩, ⟨0xA78D, 0xA78D, 1, -42280⟩,
   ⟨0xA790, 0xA792, 2, 1⟩, ⟨0xA796, 0xA7A8, 2, 1⟩, ⟨0xA7AA, 0xA7AA, 1, -42308⟩,
   ⟨0xA7AB, 0xA7AB, 1, -42319⟩, ⟨0xA7AC, 0xA7AC, 1, -42315⟩, ⟨0xA7AD, 0xA7AD, 1, -42305⟩,
   ⟨0xA7AE, 0xA7AE, 1, -42308⟩, ⟨0xA7B0, 0xA7B0, 1, -42258⟩, ⟨0xA7B1, 0xA7B1, 1, -42282⟩,
   ⟨0xA7B2, 0xA7B2, 1, -42261⟩, ⟨0xA7B3, 0xA7B3, 1, 928⟩, ⟨0xA7B4, 0xA7C2, 2, 1⟩,
   ⟨0xA7C4, 0xA7C4, 1, -48⟩, ⟨0xA7C5, 0xA7C5, 1, -42307⟩, ⟨0xA7C6, 0xA7C6, 1, -35384⟩,
   ⟨0xA7C7, 0xA7C9, 2, 1⟩, ⟨0xA7D0, 0xA7D0, 1, 1⟩, ⟨0xA7D6, 0xA7D8, 2, 1⟩, ⟨0xA7F5, 0xA7F5, 1, 1⟩,
   ⟨0xFF21, 0xFF3A, 1, 32⟩, ⟨0x10400, 0x10427, 1, 40⟩, ⟨0x104B0, 0x104D3, 1, 40⟩,
   ⟨0x10570, 0x10594, 2, 39⟩, ⟨0x10571, 0x10579, 2, 39⟩, ⟨0x1057D, 0x10589, 2, 39⟩,
   ⟨0x1058D, 0x10591, 2, 39⟩, ⟨0x10595, 0x10595, 1, 39⟩, ⟨0x10C80, 0x10CB2, 1, 64⟩,
   ⟨0x118A0, 0x118BF, 1, 32⟩, ⟨0x16E40, 0x16E5F, 1, 32⟩, ⟨0x1E900, 0x1E921, 1, 34⟩]

/-- The lower case of a character. That of the capital I with a dot is two characters. -/
def lower (c : Char) : List Char :=
  if c = '\u0130' then ['i', '\u0307']
  else match capitals.find? (·.has c.toNat) with
    | some r => [Char.ofNat (c.toNat + r.shift).toNat]
    | none => [c]

/-- What a text is in lower case. A capital sigma has a small form of its own for the end of a word;
where words end is left open here, so that either form may stand anywhere. -/
inductive Lowers : List Char → List Char → Prop where
  | nil : Lowers [] []
  | cons (c : Char) {s t : List Char} : Lowers s t → Lowers (c :: s) (lower c ++ t)
  | finalSigma {s t : List Char} : Lowers s t → Lowers ('\u03A3' :: s) ('\u03C2' :: t)

theorem Lowers.flatMap : ∀ s, Lowers s (s.flatMap lower)
  | [] => .nil
  | c :: s => .cons c (flatMap s)

/-- Neither the capitals nor their small letters are ASCII, and the Kelvin sign is none of them. -/
def Capitals.Foreign (r : Capitals) : Prop :=
  0x80 ≤ r.first ∧ r.has kelvin.toNat = false ∧ 0x80 ≤ r.first + r.shift ∧
    (r.last + r.shift < 0xD800 ∨ 0xE000 ≤ r.first + r.shift ∧ r.last + r.shift < 0x110000)

instance : DecidablePred Capitals.Foreign := fun _ =>
  inferInstanceAs (Decidable (_ ∧ _ ∧ _ ∧ (_ ∨ _ ∧ _)))

/-- All capitals but those of ASCII and the Kelvin sign keep out of ASCII. -/
theorem capitals_cases : ∀ r ∈ capitals,
    r = ⟨0x41, 0x5A, 1, 32⟩ ∨ r = ⟨0x212A, 0x212A, 1, -8383⟩ ∨ r.Foreign := by decide +kernel

variable {r : Capitals} {c : Char}

theorem Capitals.has_iff {n : Nat} :
    r.has n = true ↔ (r.first ≤ n ∧ n ≤ r.last) ∧ (n - r.first) % r.stride = 0 := by
  simp [has]

theorem isUpper_iff : c.isUpper = true ↔ 0x41 ≤ c.toNat ∧ c.toNat ≤ 0x5A := by
  have h : c.isUpper = true ↔ 'A'.val ≤ c.val ∧ c.val ≤ 'Z'.val := decide_eq_true_iff
  rw [h, UInt32.le_iff_toNat_le, UInt32.le_iff_toNat_le]
  rfl

/-- The small letter of a foreign capital. -/
theorem Capitals.Foreign.small (h : r.Foreign) {n : Nat} (hn : r.has n = true) :
    0x80 ≤ (Char.ofNat (n + r.shift).toNat).toNat := by
  obtain ⟨⟨hfirst, hlast⟩, -⟩ := has_iff.mp hn
  obtain ⟨-, -, hsmall, hvalid⟩ := h
  have hchar : (n + r.shift).toNat.isValidChar := by
    rcases hvalid with h | h
    · exact .inl (by omega)
    · exact .inr (by omega)
  have hcode : (Char.ofNat (n + r.shift).toNat).toNat = (n + r.shift).toNat :=
    congrArg Char.toNat (dif_pos hchar)
  omega

theorem foldCase_of_isUpper (h : c.isUpper = true) : foldCase c = Char.ofNat (c.toNat + 32) := by
  have hk : c ≠ kelvin := by
    rintro rfl
    exact absurd h (by decide)
  have hlast := (isUpper_iff.mp h).2
  have hchar : (c.toNat + 32).isValidChar := .inl (by omega)
  have hcode : Char.ofNat (c.toNat + 32) = Char.ofNatAux _ hchar := dif_pos hchar
  rw [hcode]
  refine (if_neg hk).trans ((dif_pos (of_decide_eq_true h)).trans (Char.ext ?_))
  refine UInt32.toNat.inj ((UInt32.toNat_add ..).trans (Nat.mod_eq_of_lt ?_))
  change c.toNat + 32 < 2 ^ 32
  omega

theorem foldCase_of_not_isUpper (h : ¬c.isUpper = true) (hk : c ≠ kelvin) : foldCase c = c := by
  exact (if_neg hk).trans (dif_neg fun hrange => h (decide_eq_true hrange))

/-- The tables leave out neither the capitals of ASCII nor the Kelvin sign. -/
theorem not_capital (h : capitals.find? (·.has c.toNat) = none) :
    ¬c.isUpper = true ∧ c ≠ kelvin := by
  have hnot : ∀ r ∈ capitals, ¬r.has c.toNat = true := by simpa using h
  constructor
  · intro hupper
    exact hnot ⟨0x41, 0x5A, 1, 32⟩ (by decide +kernel)
      (Capitals.has_iff.mpr ⟨isUpper_iff.mp hupper, Nat.mod_one _⟩)
  · rintro rfl
    exact hnot ⟨0x212A, 0x212A, 1, -8383⟩ (by decide +kernel) (by decide)

/-- A character becomes the one that stands for it when names are read, or neither of them can be
in an ASCII name. -/
theorem lower_cases (c : Char) : lower c = [foldCase c] ∨
    (0x80 ≤ (foldCase c).toNat ∧ ∃ x ∈ lower c, 0x80 ≤ x.toNat) := by
  unfold lower
  split
  case isTrue h =>
    subst h
    exact .inr ⟨by decide +kernel, '\u0307', by simp, by decide⟩
  case isFalse hdot =>
  split
  case h_1 r hr =>
    have hhas : r.has c.toNat = true := by simpa using List.find?_some hr
    obtain rfl | rfl | hforeign := capitals_cases r (List.mem_of_find?_eq_some hr)
    · have hupper : c.isUpper = true := isUpper_iff.mpr (Capitals.has_iff.mp hhas).1
      rw [foldCase_of_isUpper hupper]
      exact .inl rfl
    · have hk : c = kelvin := by
        obtain ⟨hfirst, hlast⟩ := (Capitals.has_iff.mp hhas).1
        exact Char.toNat_inj.mp (Nat.le_antisymm hlast hfirst)
      subst hk
      exact .inl rfl
    · have hbig : 0x80 ≤ c.toNat := Nat.le_trans hforeign.1 (Capitals.has_iff.mp hhas).1.1
      have hk : c ≠ kelvin := by
        rintro rfl
        simp [hforeign.2.1] at hhas
      have hupper : ¬c.isUpper = true := by
        rw [isUpper_iff]
        omega
      rw [foldCase_of_not_isUpper hupper hk]
      exact .inr ⟨hbig, _, List.mem_singleton_self _, hforeign.small hhas⟩
  case h_2 hnone =>
    obtain ⟨hupper, hk⟩ := not_capital hnone
    rw [foldCase_of_not_isUpper hupper hk]
    exact .inl rfl

/-- A name in ASCII is the lower case of a text just when reading the text letter by letter gives
the name: what else lower-casing may do leaves a character that no such name has. -/
theorem Lowers.eq_iff {s t n : List Char} (h : Lowers s t) (hn : ∀ x ∈ n, x.toNat < 0x80) :
    n = t ↔ n = s.map foldCase := by
  induction h generalizing n with
  | nil => rfl
  | cons c _ ih =>
    obtain hone | ⟨hfold, x, hx, hbig⟩ := lower_cases c
    · cases n with
      | nil => simp [hone]
      | cons d n => simp [hone, ih fun x hx => hn x (List.mem_cons_of_mem d hx)]
    · constructor
      · rintro rfl
        exact absurd (hn x (List.mem_append_left _ hx)) (by omega)
      · rintro rfl
        exact absurd (hn _ (List.mem_cons_self ..)) (by omega)
  | finalSigma _ _ =>
    constructor <;> rintro rfl
    · exact absurd (hn _ (List.mem_cons_self ..)) (by decide)
    · exact absurd (hn _ (List.mem_cons_self ..)) (by decide)

end ChipMachine.Text
