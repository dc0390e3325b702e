import ChipMachine.Proofs.Footprint

namespace ChipMachine

namespace Memory

variable (m : Memory) (a : UInt16)

theorem write_read : m.write a (m.read a) = m := by
  change Memory.mk (m.bytes.set (cell a).val m.bytes[(cell a).val]) = m
  rw [Vector.set_getElem_self]

/-- The place of the `k`-th byte of a block, wherever the block wraps. -/
theorem val_cell_add (k : Nat) : (cell (a + UInt16.ofNat k)).val = (a.toNat + k) % size := by
  simp only [cell, size, UInt16.toNat_add, UInt16.toNat_ofNat']
  omega

variable {a}

/-- No two bytes of a block that is no longer than memory have the same place. -/
theorem cell_add_inj {j k : Nat} (hj : j < size) (hk : k < size)
    (h : cell (a + UInt16.ofNat j) = cell (a + UInt16.ofNat k)) : j = k := by
  have hval := congrArg Fin.val h
  rw [val_cell_add, val_cell_add] at hval
  simp only [size] at hj hk hval
  omega

theorem add_ofNat_succ (a : UInt16) (k : Nat) :
    a + UInt16.ofNat (k + 1) = a + 1 + UInt16.ofNat k := by
  rw [UInt16.ofNat_add, UInt16.add_assoc, UInt16.add_comm 1]
  rfl

theorem readBlock_succ (a : UInt16) (n : Nat) :
    m.readBlock a (n + 1) = m.read a :: m.readBlock (a + 1) n := by
  have hfirst : a + UInt16.ofNat 0 = a := UInt16.add_zero a
  rw [readBlock, List.range_succ_eq_map, List.map_cons, List.map_map, hfirst]
  refine congrArg (m.read a :: ·) (List.map_congr_left fun k _ => ?_)
  exact congrArg m.read (add_ofNat_succ a k)

/-- What is written where it was read leaves memory as it was. -/
theorem writeBlock_readBlock (a : UInt16) (n : Nat) : m.writeBlock (m.readBlock a n) a = m := by
  induction n generalizing a with
  | zero => rfl
  | succ n ih => rw [readBlock_succ, writeBlock, write_read, ih]

/-- What was written as a block is read back, byte by byte. -/
theorem read_writeBlock (m : Memory) {bs : List UInt8} (hbs : bs.length ≤ size) (a : UInt16)
    {k : Nat} {b : UInt8} (hb : bs[k]? = some b) :
    (m.writeBlock bs a).read (a + UInt16.ofNat k) = b := by
  induction bs generalizing m a k with
  | nil => cases hb
  | cons c bs ih =>
    rw [writeBlock]
    cases k with
    | zero =>
      obtain rfl : c = b := Option.some.inj hb
      -- the bytes behind the first are stored later, and elsewhere
      have hbehind : ∀ j < bs.length,
          cell (a + UInt16.ofNat 0) ≠ cell (a + 1 + UInt16.ofNat j) := by
        intro j hj hcell
        rw [← add_ofNat_succ] at hcell
        have hj : j + 1 < size := Nat.lt_of_lt_of_le (Nat.succ_lt_succ hj) hbs
        exact Nat.succ_ne_zero j (cell_add_inj (Nat.zero_lt_of_lt hj) hj hcell).symm
      have hfirst : a + UInt16.ofNat 0 = a := UInt16.add_zero a
      rw [read_writeBlock_of_ne _ _ _ _ hbehind, read_write, hfirst, if_pos rfl]
    | succ k =>
      rw [add_ofNat_succ]
      exact ih _ (Nat.le_of_succ_le hbs) (a + 1) hb

theorem getElem?_of_read {k : Nat} {b : UInt8} (h : m.read (a + UInt16.ofNat k) = b) :
    m.bytes[(a.toNat + k) % size]? = some b := by
  rw [← h, ← val_cell_add]
  exact Vector.getElem?_eq_getElem _

/-- A block that is stored changes no place but those of its own bytes. -/
theorem getElem?_writeBlock_of_ne (bs : List UInt8) {j : Nat}
    (h : ∀ k < bs.length, j ≠ (a.toNat + k) % size) :
    (m.writeBlock bs a).bytes[j]? = m.bytes[j]? := by
  by_cases hj : j < 4096
  · have hread (m : Memory) : m.bytes[j]? = some (m.read (0 + UInt16.ofNat j)) := by
      have hplace : (UInt16.toNat 0 + j) % size = j := by
        rw [UInt16.toNat_zero, Nat.zero_add]
        exact Nat.mod_eq_of_lt hj
      rw [← m.getElem?_of_read rfl, hplace]
    have hcell : ∀ k < bs.length, cell (0 + UInt16.ofNat j) ≠ cell (a + UInt16.ofNat k) := by
      intro k hk hcell
      refine h k hk ?_
      have hval := congrArg Fin.val hcell
      rw [val_cell_add, val_cell_add, UInt16.toNat_zero, Nat.zero_add] at hval
      exact (Nat.mod_eq_of_lt hj).symm.trans hval
    rw [hread, hread, read_writeBlock_of_ne _ _ _ _ hcell]
  · have hj := Nat.le_of_not_lt hj
    rw [Vector.getElem?_eq_none hj, Vector.getElem?_eq_none hj]

end Memory

namespace Core

variable (s : Core) (x : Reg)

theorem toNat_indexAfterTransfer : (s.indexAfterTransfer x).toNat =
    if s.conventions.transferMovesIndex then (s.i.toNat + x.val + 1) % UInt16.size
    else s.i.toNat := by
  unfold indexAfterTransfer
  split
  · rw [UInt16.toNat_add, UInt16.toNat_ofNat', Nat.add_mod_mod]
    rfl
  · rfl

/-- The bytes that are stored for V0 to Vx. -/
def registerBlock : List UInt8 := s.v.toList.take (x.val + 1)

theorem length_registerBlock : (s.registerBlock x).length = x.val + 1 := by
  rw [registerBlock, List.length_take, Vector.length_toList]
  exact Nat.min_eq_left x.isLt

theorem length_registerBlock_le : (s.registerBlock x).length ≤ Memory.size := by
  rw [length_registerBlock]
  exact Nat.le_trans x.isLt (by decide)

theorem memory_storeRegisters :
    (s.storeRegisters x).memory = s.memory.writeBlock (s.registerBlock x) s.i := rfl

variable {x} {r : Reg}

theorem getElem?_registerBlock (hr : r ≤ x) : (s.registerBlock x)[r.val]? = some (s.reg r) := by
  rw [registerBlock, List.getElem?_take_of_lt (Nat.lt_succ_of_le hr), Vector.getElem?_toList,
    Vector.getElem?_eq_getElem r.isLt]
  rfl

theorem memory_loadRegisters (x : Reg) : (s.loadRegisters x).memory = s.memory := by
  unfold loadRegisters
  rfl

theorem reg_loadRegisters (x r : Reg) : (s.loadRegisters x).reg r =
    if r ≤ x then s.memory.read (s.i + UInt16.ofNat r) else s.reg r := by
  change (Vector.ofFn _)[r.val] = _
  rw [Vector.getElem_ofFn]

theorem reg_loadRegisters_of_lt (hr : x < r) : (s.loadRegisters x).reg r = s.reg r := by
  rw [reg_loadRegisters, if_neg (Fin.not_le.mpr hr)]

variable {s}

/-- Registers take the bytes of a block that was stored where they are loaded from. -/
theorem reg_loadRegisters_of_block {bs : List UInt8} (hbs : bs.length ≤ Memory.size) {m : Memory}
    (hm : s.memory = m.writeBlock bs s.i) (hr : r ≤ x) {b : UInt8} (hb : bs[r.val]? = some b) :
    (s.loadRegisters x).reg r = b := by
  rw [reg_loadRegisters, if_pos hr, hm]
  exact m.read_writeBlock hbs s.i hb

/-- Registers that were stored come back from the same index. -/
theorem reg_loadRegisters_of_stored {t : Core} (hm : t.memory = (s.storeRegisters x).memory)
    (hi : t.i = s.i) (hr : r ≤ x) : (t.loadRegisters x).reg r = s.reg r := by
  rw [memory_storeRegisters, ← hi] at hm
  exact reg_loadRegisters_of_block (s.length_registerBlock_le x) hm hr (s.getElem?_registerBlock hr)

variable (s x)

/-- The registers that were loaded are the bytes that they were loaded from. -/
theorem registerBlock_loadRegisters :
    (s.loadRegisters x).registerBlock x = s.memory.readBlock s.i (x.val + 1) := by
  apply List.ext_getElem?
  intro k
  by_cases hk : k < x.val + 1
  · let r : Reg := ⟨k, Nat.lt_of_lt_of_le hk x.isLt⟩
    have hr : r ≤ x := Nat.le_of_lt_succ hk
    have hloaded := (s.loadRegisters x).getElem?_registerBlock hr
    rw [reg_loadRegisters, if_pos hr] at hloaded
    rw [hloaded, Memory.readBlock, List.getElem?_map, List.getElem?_range hk]
    rfl
  · have hlast := Nat.le_of_not_lt hk
    rw [List.getElem?_eq_none (by rwa [length_registerBlock]),
      List.getElem?_eq_none (by rwa [Memory.length_readBlock])]

variable {s x}

/-- Registers that were loaded are stored at the same index as the bytes that are there. -/
theorem memory_storeRegisters_of_loaded {loaded : Core} (hv : loaded.v = (s.loadRegisters x).v)
    (hm : loaded.memory = s.memory) :
    ({ loaded with i := s.i }.storeRegisters x).memory = s.memory := by
  have hblock : ({ loaded with i := s.i } : Core).registerBlock x =
      s.memory.readBlock s.i (x.val + 1) := by
    rw [registerBlock, hv]
    exact s.registerBlock_loadRegisters x
  rw [memory_storeRegisters, hblock, hm, Memory.writeBlock_readBlock]

/-- The decimal digits of a byte, and the byte from its digits. -/
theorem decimalDigits_spec (b : UInt8) : ∃ hundreds tens ones,
    decimalDigits b = [hundreds, tens, ones] ∧ hundreds < 10 ∧ tens < 10 ∧ ones < 10 ∧
      100 * hundreds.toNat + 10 * tens.toNat + ones.toNat = b.toNat := by
  have hb := b.toNat_lt
  have hhundreds : (b / 100).toNat = b.toNat / 100 := UInt8.toNat_div ..
  have htens : (b / 10 % 10).toNat = b.toNat / 10 % 10 := by
    rw [UInt8.toNat_mod, UInt8.toNat_div]
    rfl
  have hones : (b % 10).toNat = b.toNat % 10 := UInt8.toNat_mod ..
  refine ⟨_, _, _, rfl, ?_⟩
  simp only [UInt8.lt_iff_toNat_lt, hhundreds, htens, hones, UInt8.reduceToNat]
  omega

/-- Three registers that are loaded where the digits were stored. -/
theorem loadRegisters_decimal (s : Core) (b : UInt8) :
    let loaded :=
      { s with memory := s.memory.writeBlock (decimalDigits b) s.i }.loadRegisters 2
    loaded.reg 0 < 10 ∧ loaded.reg 1 < 10 ∧ loaded.reg 2 < 10 ∧
      100 * (loaded.reg 0).toNat + 10 * (loaded.reg 1).toNat + (loaded.reg 2).toNat = b.toNat := by
  intro loaded
  obtain ⟨hundreds, tens, ones, hdigits, hvalue⟩ := decimalDigits_spec b
  have hlen : (decimalDigits b).length ≤ Memory.size := by
    rw [hdigits]
    exact Nat.le_of_ble_eq_true rfl
  have hreg {r : Reg} {c : UInt8} (hr : r ≤ 2) (hc : (decimalDigits b)[r.val]? = some c) :
      loaded.reg r = c := reg_loadRegisters_of_block hlen (m := s.memory) rfl hr hc
  rw [hdigits] at hreg
  rw [hreg (r := 0) (by decide) rfl, hreg (r := 1) (by decide) rfl, hreg (r := 2) (by decide) rfl]
  exact hvalue

end Core

namespace Instruction

/-- Wherever the index points, and wherever the block wraps: registers that are stored come back
when they are loaded from the same index, whatever has become of everything else but memory; bytes
that are loaded and stored again leave memory as it was; storing reaches the bytes of the block and
no others; afterwards the index is behind the block or where it was, as the dialect has it; and the
digits of a register are loaded as those of its value. -/
theorem transfers_round_trip (s : Core) (x : Reg) (chance : UInt8) :
    let place (k : Nat) := (s.i.toNat + k) % Memory.size
    ∃ stored loaded,
      (store x).execute chance s = .ok stored ∧ (load x).execute chance s = .ok loaded ∧
      stored = { s with memory := stored.memory, i := stored.i } ∧
      loaded = { s with v := loaded.v, i := loaded.i } ∧
      (∀ t ∈ [stored, loaded], t.i.toNat =
        if s.conventions.transferMovesIndex then (s.i.toNat + x.val + 1) % UInt16.size
        else s.i.toNat) ∧
      (∀ r ≤ x, stored.memory.bytes[place r]? = some (s.reg r)) ∧
      (∀ j, (∀ k ≤ x.val, j ≠ place k) → stored.memory.bytes[j]? = s.memory.bytes[j]?) ∧
      (∀ r ≤ x, s.memory.bytes[place r]? = some (loaded.reg r)) ∧
      (∀ r, x < r → loaded.reg r = s.reg r) ∧
      (∀ (t : Core) chance, ∃ restored,
        (load x).execute chance { t with memory := stored.memory, i := s.i } = .ok restored ∧
        (∀ r ≤ x, restored.reg r = s.reg r) ∧ ∀ r, x < r → restored.reg r = t.reg r) ∧
      (∀ chance, ∃ again, (store x).execute chance { loaded with i := s.i } = .ok again ∧
        again.memory = s.memory) ∧
      ∃ digits read, (decimal x).execute chance s = .ok digits ∧
        (load 2).execute chance digits = .ok read ∧
        read.reg 0 < 10 ∧ read.reg 1 < 10 ∧ read.reg 2 < 10 ∧
        100 * (read.reg 0).toNat + 10 * (read.reg 1).toNat + (read.reg 2).toNat =
          (s.reg x).toNat := by
  intro place
  have hindex := s.toNat_indexAfterTransfer x
  refine ⟨s.storeRegisters x, s.loadRegisters x, rfl, rfl, rfl, rfl, ?_, fun r hr => ?_,
    fun j hj => ?_, fun r hr => ?_, fun r hr => s.reg_loadRegisters_of_lt hr,
    fun t _ => ⟨_, rfl, fun r hr => ?_, fun r hr => ?_⟩,
    fun _ => ⟨_, rfl, ?_⟩,
    _, _, rfl, rfl, s.loadRegisters_decimal (s.reg x)⟩
  · intro t ht
    simp only [List.mem_cons, List.not_mem_nil, or_false] at ht
    obtain rfl | rfl := ht
    · exact hindex
    · exact hindex
  · refine Memory.getElem?_of_read _ ?_
    rw [Core.memory_storeRegisters]
    exact Memory.read_writeBlock _ (s.length_registerBlock_le x) s.i (s.getElem?_registerBlock hr)
  · rw [Core.memory_storeRegisters]
    refine Memory.getElem?_writeBlock_of_ne _ _ fun k hk => hj k ?_
    rw [Core.length_registerBlock] at hk
    exact Nat.le_of_lt_succ hk
  · refine Memory.getElem?_of_read _ ?_
    rw [Core.reg_loadRegisters, if_pos hr]
  · exact Core.reg_loadRegisters_of_stored rfl rfl hr
  · exact Core.reg_loadRegisters_of_lt _ hr
  · exact Core.memory_storeRegisters_of_loaded rfl (s.memory_loadRegisters x)

/-- Four registers are stored at the end of memory, which is also the end of what the index can
name: the last two lie over the font, and the index is behind them. -/
theorem transfers_round_trip_wrapping :
    let s : Core := { ((Core.fresh .vip).put 2 7).put 3 200 with i := 0xFFFE }
    ∃ stored restored, (store 3).execute 0 s = .ok stored ∧
      stored.memory.bytes[0]? = some 7 ∧ stored.memory.bytes[1]? = some 200 ∧
      stored.memory.bytes[2]? = s.memory.bytes[2]? ∧ stored.i = 2 ∧
      (load 3).execute 0 { Core.fresh .xoChip with memory := stored.memory, i := 0xFFFE } =
        .ok restored ∧ restored.reg 3 = 200 := by
  intro s
  obtain ⟨stored, loaded, hstored, -, -, -, hindex, hbytes, hothers, -, -, hback, -⟩ :=
    transfers_round_trip s 3 0
  obtain ⟨restored, hrestored, hregs, -⟩ := hback (.fresh .xoChip) 0
  have hmoves : s.conventions.transferMovesIndex = true := rfl
  have hi : stored.i.toNat = 2 := by
    rw [hindex stored List.mem_cons_self, if_pos hmoves]
    decide
  have hfirst : (s.i.toNat + 2) % Memory.size = 0 := by decide
  have hsecond : (s.i.toNat + 3) % Memory.size = 1 := by decide
  have hthird : ∀ k ≤ 3, 2 ≠ (s.i.toNat + k) % Memory.size := by decide
  refine ⟨stored, restored, hstored, ?_, ?_, hothers 2 hthird, UInt16.toNat.inj hi, hrestored,
    hregs 3 (by decide)⟩
  · rw [← hfirst]
    exact hbytes 2 (by decide)
  · rw [← hsecond]
    exact hbytes 3 (by decide)

end Instruction
end ChipMachine
