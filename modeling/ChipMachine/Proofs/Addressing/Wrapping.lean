import ChipMachine.Machine.Step

namespace ChipMachine

namespace Memory

/-- The address in twelve bits that stands for the same cell. -/
def wrap (a : UInt16) : UInt16 := UInt16.ofNat (a.toNat % size)

variable {a b : UInt16}

theorem toNat_wrap (a : UInt16) : (wrap a).toNat = a.toNat % size := by
  have h : a.toNat % size < 4096 := Nat.mod_lt _ (by decide)
  rw [wrap, UInt16.toNat_ofNat']
  omega

theorem wrap_eq_iff : wrap a = wrap b ↔ a.toNat % size = b.toNat % size := by
  rw [← UInt16.toNat_inj, toNat_wrap, toNat_wrap]

theorem wrap_wrap (a : UInt16) : wrap (wrap a) = wrap a := by
  rw [wrap_eq_iff, toNat_wrap, Nat.mod_mod]

/-- Sixteen bits overflow into a multiple of the memory's size. -/
theorem wrap_add_congr (h : wrap a = wrap b) (c : UInt16) : wrap (a + c) = wrap (b + c) := by
  simp only [wrap_eq_iff, UInt16.toNat_add, size] at h ⊢
  omega

theorem wrap_wrap_add (a c : UInt16) : wrap (wrap a + c) = wrap (a + c) :=
  wrap_add_congr (wrap_wrap a) c

theorem wrap_wrap_sub (a c : UInt16) : wrap (wrap a - c) = wrap (a - c) := by
  rw [UInt16.sub_eq_add_neg, UInt16.sub_eq_add_neg, wrap_wrap_add]

theorem cell_congr (h : wrap a = wrap b) : cell a = cell b := cell_eq_iff.mpr (wrap_eq_iff.mp h)

theorem read_congr (m : Memory) (h : wrap a = wrap b) : m.read a = m.read b := by
  simp only [read, cell_congr h]

theorem write_congr (m : Memory) (h : wrap a = wrap b) (x : UInt8) : m.write a x = m.write b x := by
  simp only [write, cell_congr h]

theorem readBlock_wrap (m : Memory) (a : UInt16) (n : Nat) :
    m.readBlock (wrap a) n = m.readBlock a n :=
  List.map_congr_left fun _ _ => m.read_congr (wrap_wrap_add a _)

theorem writeBlock_congr (m : Memory) (bs : List UInt8) (h : wrap a = wrap b) :
    m.writeBlock bs a = m.writeBlock bs b := by
  induction bs generalizing m a b with
  | nil => rfl
  | cons x bs ih => rw [writeBlock, writeBlock, m.write_congr h, ih _ (wrap_add_congr h 1)]

theorem writeBlock_wrap (m : Memory) (bs : List UInt8) (a : UInt16) :
    m.writeBlock bs (wrap a) = m.writeBlock bs a :=
  m.writeBlock_congr bs (wrap_wrap a)

end Memory

namespace Core

/-- The same core with its program counter, index and return addresses in twelve bits. -/
def wrapped (s : Core) : Core :=
  { s with pc := Memory.wrap s.pc, i := Memory.wrap s.i, stack := s.stack.map Memory.wrap }

/-- The same cores, but for the high digits of their addresses. -/
structure AlikeWrapped (s t : Core) : Prop where
  pc : s.pc.toNat % Memory.size = t.pc.toNat % Memory.size
  i : s.i.toNat % Memory.size = t.i.toNat % Memory.size
  stack : ∀ k : Fin 16, s.stack[k].toNat % Memory.size = t.stack[k].toNat % Memory.size
  rest : t = { s with pc := t.pc, i := t.i, stack := t.stack }

variable {s t : Core}

theorem wrapped_wrapped (s : Core) : s.wrapped.wrapped = s.wrapped := by
  simp [wrapped, Memory.wrap_wrap, Function.comp_def]

theorem wrapped_eq_iff : s.wrapped = t.wrapped ↔ s.AlikeWrapped t := by
  constructor
  · intro h
    refine ⟨Memory.wrap_eq_iff.mp (congrArg pc h), Memory.wrap_eq_iff.mp (congrArg i h), ?_, ?_⟩
    · intro k
      have hk := congrArg (fun u : Core => u.stack[k]) h
      simpa [wrapped, Memory.wrap_eq_iff] using hk
    · obtain ⟨⟩ := s
      obtain ⟨⟩ := t
      simp only [wrapped, mk.injEq] at h ⊢
      simp [h]
  · rintro ⟨hpc, hi, hstack, hrest⟩
    rw [hrest]
    simp only [wrapped, Memory.wrap_eq_iff.mpr hpc, Memory.wrap_eq_iff.mpr hi]
    congr 1
    apply Vector.ext
    intro k hk
    simpa [Memory.wrap_eq_iff] using hstack ⟨k, hk⟩

theorem wrapped_of_eq (h : t = s.wrapped) : t.wrapped = s.wrapped := by rw [h, wrapped_wrapped]

theorem wrapped_congr (h : s.wrapped = t.wrapped) (f : Core → α)
    (hf : ∀ u : Core, f u.wrapped = f u) : f s = f t := by
  rw [← hf s, h, hf t]

theorem fetch_wrapped (s : Core) : s.wrapped.fetch = s.fetch := by
  simp only [fetch, wrapped, Memory.read_congr s.memory (Memory.wrap_wrap s.pc),
    Memory.read_congr s.memory (Memory.wrap_wrap_add s.pc 1)]

theorem advance_wrapped (s : Core) : s.wrapped.advance.wrapped = s.advance.wrapped := by
  simp only [wrapped, advance, Memory.wrap_wrap, Memory.wrap_wrap_add, Vector.map_map,
    Function.comp_def]

theorem currentAddress_wrapped (s : Core) :
    Memory.wrap s.wrapped.currentAddress = Memory.wrap s.currentAddress :=
  Memory.wrap_wrap_sub s.pc 2

theorem paint_wrapped (s : Core) (b : Bitmap) : s.wrapped.paint b = (s.paint b).wrapped := rfl

theorem memory_wrapped (s : Core) {m m' : Memory} (h : m = m') :
    { s.wrapped with memory := m } = wrapped { s with memory := m' } := by
  rw [h]
  rfl

theorem combine_wrapped (s : Core) (x : Reg) (b : UInt8) :
    s.wrapped.combine x b = (s.combine x b).wrapped := by
  have hc : s.wrapped.conventions = s.conventions := rfl
  simp only [combine, hc]
  split <;> rfl

theorem skipIf_wrapped (s : Core) (c : Bool) :
    (s.wrapped.skipIf c).wrapped = (s.skipIf c).wrapped := by
  cases c with
  | true => exact s.advance_wrapped
  | false => exact s.wrapped_wrapped

theorem waitKey_wrapped (s : Core) (x : Reg) :
    (s.wrapped.waitKey x).wrapped = (s.waitKey x).wrapped := by
  have hk : s.wrapped.keypad = s.keypad := rfl
  simp only [waitKey, hk]
  cases s.keypad.lowest? with
  | some k => exact wrapped_of_eq rfl
  | none =>
    simp only [wrapped, Memory.wrap_wrap_sub, Memory.wrap_wrap, Vector.map_map, Function.comp_def]

theorem drawSprite_wrapped (s : Core) (x y : Reg) (n : UInt8) :
    s.wrapped.drawSprite x y n = (s.drawSprite x y n).wrapped := by
  have hsprite : s.wrapped.memory.readBlock s.wrapped.i n.toNat = s.memory.readBlock s.i n.toNat :=
    s.memory.readBlock_wrap s.i n.toNat
  simp only [drawSprite, hsprite]
  rfl

theorem jump_wrapped (s : Core) (a : UInt16) :
    wrapped { s.wrapped with pc := a } = wrapped { s with pc := a } := by
  simp only [wrapped, Memory.wrap_wrap, Vector.map_map, Function.comp_def]

theorem index_wrapped (s : Core) {a b : UInt16} (h : Memory.wrap a = Memory.wrap b) :
    wrapped { s.wrapped with i := a } = wrapped { s with i := b } := by
  simp only [wrapped, h, Memory.wrap_wrap, Vector.map_map, Function.comp_def]

theorem indexAfterTransfer_wrapped (s : Core) (x : Reg) :
    Memory.wrap (s.wrapped.indexAfterTransfer x) = Memory.wrap (s.indexAfterTransfer x) := by
  have hc : s.wrapped.conventions = s.conventions := rfl
  simp only [indexAfterTransfer, hc]
  split
  · exact Memory.wrap_wrap_add s.i _
  · exact Memory.wrap_wrap s.i

theorem storeRegisters_wrapped (s : Core) (x : Reg) :
    (s.wrapped.storeRegisters x).wrapped = (s.storeRegisters x).wrapped := by
  have hi := s.indexAfterTransfer_wrapped x
  simp only [storeRegisters]
  simp only [wrapped] at hi ⊢
  simp only [hi, Memory.writeBlock_wrap, Memory.wrap_wrap, Vector.map_map, Function.comp_def]

theorem loadRegisters_wrapped (s : Core) (x : Reg) :
    (s.wrapped.loadRegisters x).wrapped = (s.loadRegisters x).wrapped := by
  have hi := s.indexAfterTransfer_wrapped x
  have hread (k : UInt16) : s.memory.read (Memory.wrap s.i + k) = s.memory.read (s.i + k) :=
    s.memory.read_congr (Memory.wrap_wrap_add s.i k)
  simp only [loadRegisters]
  simp only [wrapped] at hi ⊢
  simp only [hi, hread, Memory.wrap_wrap, Vector.map_map, Function.comp_def]
  rfl

end Core

namespace Fault

/-- The same fault at an address in twelve bits. -/
def wrapped : Fault → Fault
  | unknownWord word a => unknownWord word (Memory.wrap a)
  | emptyStack a => emptyStack (Memory.wrap a)
  | fullStack a => fullStack (Memory.wrap a)
  | unreadable reason => unreadable reason
  | strayStackPointer a => strayStackPointer (Memory.wrap a)

/-- A result seen through `f`, a fault with its address in twelve bits. -/
def wrapResult (f : α → β) : Except Fault α → Except Fault β
  | .ok a => .ok (f a)
  | .error e => .error e.wrapped

theorem wrapResult_cases {f : α → β} {r r' : Except Fault α}
    (h : wrapResult f r = wrapResult f r') :
    (∃ e e', r = .error e ∧ r' = .error e' ∧ e.wrapped = e'.wrapped) ∨
    ∃ a a', r = .ok a ∧ r' = .ok a' ∧ f a = f a' := by
  cases r <;> cases r' <;> simp [wrapResult] at h ⊢ <;> exact h

end Fault

namespace Core

theorem enter_wrapped (s : Core) (a : UInt16) :
    Fault.wrapResult wrapped (s.wrapped.enter a) = Fault.wrapResult wrapped (s.enter a) := by
  have hsp : s.wrapped.sp = s.sp := rfl
  simp only [enter, hsp]
  split
  · simp [Fault.wrapResult, wrapped, Memory.wrap_wrap, Function.comp_def]
  · simp [Fault.wrapResult, Fault.wrapped, currentAddress_wrapped]

theorem leave_wrapped (s : Core) :
    Fault.wrapResult wrapped s.wrapped.leave = Fault.wrapResult wrapped s.leave := by
  have hsp : s.wrapped.sp = s.sp := rfl
  have hslot : s.wrapped.stack[s.sp.toNat - 1]? =
      s.stack[s.sp.toNat - 1]?.map Memory.wrap := Vector.getElem?_map ..
  simp only [leave, hsp, hslot]
  split
  · simp [Fault.wrapResult, Fault.wrapped, currentAddress_wrapped]
  · cases s.stack[s.sp.toNat - 1]? with
    | some a => simp [Fault.wrapResult, wrapped, Memory.wrap_wrap, Function.comp_def]
    | none => simp [Fault.wrapResult, Fault.wrapped, currentAddress_wrapped]

end Core

namespace Instruction

/-- What an instruction does does not depend on the high digits of the addresses it works with. -/
theorem execute_wrapped (i : Instruction) (chance : UInt8) (s : Core) :
    Fault.wrapResult Core.wrapped (i.execute chance s.wrapped) =
      Fault.wrapResult Core.wrapped (i.execute chance s) := by
  cases i
  case ret => exact s.leave_wrapped
  case call a => exact s.enter_wrapped a
  case skipIfByte | skipUnlessByte | skipIfEqual | skipUnlessEqual | skipIfDown | skipUnlessDown =>
    exact congrArg Except.ok (s.skipIf_wrapped _)
  case or | and | xor => exact congrArg Except.ok (Core.wrapped_of_eq (s.combine_wrapped _ _))
  case draw x y n => exact congrArg Except.ok (Core.wrapped_of_eq (s.drawSprite_wrapped x y n))
  case waitKey x => exact congrArg Except.ok (s.waitKey_wrapped x)
  case store x => exact congrArg Except.ok (s.storeRegisters_wrapped x)
  case load x => exact congrArg Except.ok (s.loadRegisters_wrapped x)
  case jump a => exact congrArg Except.ok (s.jump_wrapped a)
  case jumpOffset a => exact congrArg Except.ok (s.jump_wrapped _)
  case setIndex a => exact congrArg Except.ok (s.index_wrapped rfl)
  case glyph x => exact congrArg Except.ok (s.index_wrapped rfl)
  case addIndex x => exact congrArg Except.ok (s.index_wrapped (Memory.wrap_wrap_add s.i _))
  case decimal x =>
    have hm := s.memory.writeBlock_wrap (Core.decimalDigits (s.reg x)) s.i
    exact congrArg Except.ok (Core.wrapped_of_eq (s.memory_wrapped hm))
  case scrollDown | clear | scrollRight | scrollLeft =>
    exact congrArg Except.ok (Core.wrapped_of_eq (s.paint_wrapped _))
  all_goals exact congrArg Except.ok (Core.wrapped_of_eq rfl)

theorem execute_congr {s t : Core} (h : s.wrapped = t.wrapped) (i : Instruction) (chance : UInt8) :
    Fault.wrapResult Core.wrapped (i.execute chance s) =
      Fault.wrapResult Core.wrapped (i.execute chance t) := by
  rw [← execute_wrapped, h, execute_wrapped]

end Instruction

end ChipMachine
