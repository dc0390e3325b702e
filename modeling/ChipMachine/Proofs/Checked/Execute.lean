import ChipMachine.Instruction.Effect
import ChipMachine.Proofs.Checked.Sprite

namespace ChipMachine.Checked

def register (s : Core) (x : Nat) : Checked UInt8 := get s.v x

def put (s : Core) (x : Nat) (b : UInt8) : Checked Core := do return { s with v := ← set s.v x b }

def flag (s : Core) (c : Bool) : Checked Core := put s 15 (if c then 1 else 0)

/-- The address is stored before the stack pointer grows. -/
def enter (s : Core) (a : UInt16) : Checked (Except Fault Core) := do
  if Core.callLimit ≤ s.sp.toNat then return .error (.fullStack s.currentAddress)
  else
    let stack ← set s.stack s.sp.toNat s.pc
    let sp ← plus UInt8.size s.sp.toNat 1
    return .ok { s with stack := stack, sp := UInt8.ofNat sp, pc := a }

/-- The stack pointer shrinks before the address is taken. -/
def leave (s : Core) : Checked (Except Fault Core) := do
  if s.sp = 0 then return .error (.emptyStack s.currentAddress)
  else
    let sp ← minus s.sp.toNat 1
    let a ← get s.stack sp
    return .ok { s with sp := UInt8.ofNat sp, pc := a }

def combine (s : Core) (x y : Reg) (op : UInt8 → UInt8 → UInt8) : Checked Core := do
  let s ← put s x (op (← register s x) (← register s y))
  if s.conventions.logicClearsFlag then put s 15 0 else return s

/-- The flag is written after the result, over it if both are in VF. -/
def arithmetic (s : Core) (x y : Reg) (op : UInt8 → UInt8 → UInt8) (c : UInt8 → UInt8 → Bool) :
    Checked Core := do
  let a ← register s x
  let b ← register s y
  flag (← put s x (op a b)) (c a b)

/-- Vy is copied to Vx before the shift where the dialect says so. -/
def shift (s : Core) (x y : Reg) (op : UInt8 → UInt8) (lost : Nat) : Checked Core := do
  let s ← if s.conventions.shiftReadsY then put s x (← register s y) else pure s
  let a ← register s x
  flag (← put s x (op a)) (a.toNat.testBit lost)

def keyDown (s : Core) (x : Reg) : Checked Bool := do
  get s.keypad.down ((← register s x).toNat % 16)

def jumpOffset (s : Core) (a : UInt16) : Checked Core := do
  let b ← register s (if s.conventions.offsetNamesRegister then a.toNat / 256 % 16 else 0)
  return { s with pc := a + b.toUInt16 }

def glyph (s : Core) (x : Reg) : Checked Core := do
  let i ← times UInt16.size ((← register s x).toNat % 16) Font.glyphHeight
  return { s with i := UInt16.ofNat i }

def decimal (s : Core) (x : Reg) : Checked Core := do
  let b ← register s x
  let digits := #v[b / 100, b / 10 % 10, b % 10]
  let memory ← (List.range 3).foldlM
    (fun m k => do write m (s.i + UInt16.ofNat k) (← get digits k)) s.memory
  return { s with memory := memory }

/-- I after V0 to Vx were transferred. -/
def index (s : Core) (x : Reg) : Checked UInt16 := do
  if s.conventions.transferMovesIndex then return s.i + UInt16.ofNat (← plus UInt16.size x 1)
  else return s.i

def store (s : Core) (x : Reg) : Checked Core := do
  let memory ← (List.range (x + 1)).foldlM
    (fun m k => do write m (s.i + UInt16.ofNat k) (← register s k)) s.memory
  return { s with memory := memory, i := ← index s x }

def load (s : Core) (x : Reg) : Checked Core := do
  let v ← (List.range (x + 1)).foldlM
    (fun v k => do set v k (← read s.memory (s.i + UInt16.ofNat k))) s.v
  return { s with v := v, i := ← index s x }

def draw (s : Core) (x y : Reg) (n : UInt8) : Checked Core := do
  let left := (← register s x).toNat % s.mode.width
  let top := (← register s y).toNat % s.mode.height
  let drawn ← drawRows s.memory s.i s.mode s.conventions.spritesClip left top (List.range n.toNat)
    s.bitmap false
  flag (s.paint drawn.1) drawn.2

def waitKey (s : Core) (x : Reg) : Checked Core :=
  match s.keypad.lowest? with
  | some k => put s x (UInt8.ofNat k)
  | none => return { s with pc := s.pc - 2 }

def execute (chance : UInt8) (s : Core) : Instruction → Checked (Except Fault Core)
  | .scrollDown n => return .ok (s.paint (← scrollDown s.bitmap s.mode n.toNat))
  | .clear => return .ok (s.paint .blank)
  | .ret => leave s
  | .scrollRight => return .ok (s.paint (← scrollRight s.bitmap s.mode))
  | .scrollLeft => return .ok (s.paint (← scrollLeft s.bitmap s.mode))
  | .halt => return .ok s
  | .lowMode => return .ok (s.switchTo .low)
  | .highMode => return .ok (s.switchTo .high)
  | .jump a => return .ok { s with pc := a }
  | .call a => enter s a
  | .skipIfByte x k => return .ok (s.skipIf ((← register s x) == k))
  | .skipUnlessByte x k => return .ok (s.skipIf ((← register s x) != k))
  | .skipIfEqual x y => return .ok (s.skipIf ((← register s x) == (← register s y)))
  | .setByte x k => return .ok (← put s x k)
  | .addByte x k => return .ok (← put s x ((← register s x) + k))
  | .copy x y => return .ok (← put s x (← register s y))
  | .or x y => return .ok (← combine s x y (· ||| ·))
  | .and x y => return .ok (← combine s x y (· &&& ·))
  | .xor x y => return .ok (← combine s x y (· ^^^ ·))
  | .add x y => return .ok (← arithmetic s x y (· + ·) fun a b => 255 < a.toNat + b.toNat)
  | .sub x y => return .ok (← arithmetic s x y (· - ·) fun a b => b ≤ a)
  | .shiftRight x y => return .ok (← shift s x y (· >>> 1) 0)
  | .subFrom x y => return .ok (← arithmetic s x y (fun a b => b - a) fun a b => a ≤ b)
  | .shiftLeft x y => return .ok (← shift s x y (· <<< 1) 7)
  | .skipUnlessEqual x y => return .ok (s.skipIf ((← register s x) != (← register s y)))
  | .setIndex a => return .ok { s with i := a }
  | .jumpOffset a => return .ok (← jumpOffset s a)
  | .random x k => return .ok (← put s x (chance &&& k))
  | .draw x y n => return .ok (← draw s x y n)
  | .skipIfDown x => return .ok (s.skipIf (← keyDown s x))
  | .skipUnlessDown x => return .ok (s.skipIf (! (← keyDown s x)))
  | .getDelay x => return .ok (← put s x s.delay)
  | .waitKey x => return .ok (← waitKey s x)
  | .setDelay x => return .ok { s with delay := ← register s x }
  | .setSound x => return .ok { s with sound := ← register s x }
  | .addIndex x => return .ok { s with i := s.i + (← register s x).toUInt16 }
  | .glyph x => return .ok (← glyph s x)
  | .decimal x => return .ok (← decimal s x)
  | .store x => return .ok (← store s x)
  | .load x => return .ok (← load s x)

section
variable (s : Core) (x y : Reg)

@[simp] theorem register_eq : register s x = .ok (s.reg x) := get_fin s.v x

@[simp] theorem put_eq (b : UInt8) : put s x b = .ok (s.put x b) := by
  rw [put, set_fin]
  rfl

theorem put_last (b : UInt8) : put s 15 b = .ok (s.put .flag b) := put_eq s .flag b

@[simp] theorem flag_eq (c : Bool) : flag s c = .ok (s.flag c) := put_last s _

/-- A call is made with no check failing however many calls are open. -/
theorem enter_eq (a : UInt16) : enter s a = .ok (s.enter a) := by
  unfold enter Core.enter
  split
  · rename_i h
    rw [dif_neg (Nat.not_lt.mpr h)]
    rfl
  · rename_i h
    have hs : s.sp.toNat < Core.callLimit := Nat.lt_of_not_le h
    have h15 : s.sp.toNat < 15 := hs
    rw [dif_pos hs, set_eq s.stack (by omega), ok_bind,
      plus_eq (by simp only [UInt8.size]; omega), ok_bind,
      UInt8.ofNat_add, UInt8.ofNat_toNat]
    rfl

/-- A return finds its address as long as the stack pointer does not stray. -/
theorem leave_eq (h : s.sp.toNat ≤ Core.callLimit) : leave s = .ok s.leave := by
  unfold leave Core.leave
  split
  · rfl
  · rename_i h0
    have hpos : 1 ≤ s.sp.toNat := Nat.one_le_iff_ne_zero.mpr fun hz => h0 (UInt8.toNat.inj hz)
    have h15 : s.sp.toNat ≤ 15 := h
    have hlt : s.sp.toNat - 1 < 16 := by omega
    have hsp : UInt8.ofNat (s.sp.toNat - 1) = s.sp - 1 := by
      rw [UInt8.ofNat_sub hpos, UInt8.ofNat_toNat]
      rfl
    rw [minus_eq hpos, ok_bind, get_eq s.stack hlt, ok_bind, Vector.getElem?_eq_getElem hlt, hsp]
    rfl

theorem combine_eq (op : UInt8 → UInt8 → UInt8) :
    combine s x y op = .ok (s.combine x (op (s.reg x) (s.reg y))) := by
  have hc : (s.put x (op (s.reg x) (s.reg y))).conventions = s.conventions := rfl
  simp only [combine, register_eq, put_eq, ok_bind, Core.combine, put_last, hc]
  split <;> rfl

theorem arithmetic_eq (op : UInt8 → UInt8 → UInt8) (c : UInt8 → UInt8 → Bool) :
    arithmetic s x y op c =
      .ok ((s.put x (op (s.reg x) (s.reg y))).flag (c (s.reg x) (s.reg y))) := by
  simp only [arithmetic, register_eq, put_eq, ok_bind, flag_eq]

theorem shift_eq (op : UInt8 → UInt8) (lost : Nat) :
    shift s x y op lost = .ok ((s.put x (op (s.shiftOperand x y))).flag
      ((s.shiftOperand x y).toNat.testBit lost)) := by
  unfold shift Core.shiftOperand
  split
  · -- the copy is overwritten by the result
    have hv : (s.put x (s.reg y)).reg x = s.reg y := by rw [Core.reg_put, if_pos rfl]
    have hp (b : UInt8) : (s.put x (s.reg y)).put x b = s.put x b := by simp [Core.put]
    simp only [register_eq, put_eq, ok_bind, hv, hp, flag_eq]
  · simp only [pure_bind, register_eq, put_eq, ok_bind, flag_eq]

theorem keyDown_eq : keyDown s x = .ok (s.keypad.isDown (Keypad.key (s.reg x))) := by
  rw [keyDown, register_eq, ok_bind]
  exact get_fin s.keypad.down (Keypad.key (s.reg x))

theorem jumpOffset_eq (a : UInt16) :
    jumpOffset s a = .ok { s with pc := a + (s.reg (s.offsetRegister a)).toUInt16 } := by
  have hr : (if s.conventions.offsetNamesRegister then a.toNat / 256 % 16 else 0) =
      (s.offsetRegister a).val := by
    unfold Core.offsetRegister
    split <;> rfl
  rw [jumpOffset, hr, register_eq]
  rfl

theorem glyph_eq : glyph s x = .ok { s with i := Font.address (s.reg x) } := by
  have : (s.reg x).toNat % 16 < 16 := Nat.mod_lt _ (by decide)
  rw [glyph, register_eq, ok_bind, times_eq (by simp only [Font.glyphHeight, UInt16.size]; omega)]
  rfl

theorem decimal_eq : decimal s x =
    .ok { s with memory := s.memory.writeBlock (Core.decimalDigits (s.reg x)) s.i } := by
  have hget : ∀ k, 0 ≤ k → k < 0 + 3 →
      get #v[s.reg x / 100, s.reg x / 10 % 10, s.reg x % 10] k =
        .ok ((Core.decimalDigits (s.reg x))[k]?.getD 0) := by
    intro k _ hk
    rcases k with _ | _ | _ | k
    · rfl
    · rfl
    · rfl
    · omega
  simp only [decimal, register_eq, ok_bind, List.range_eq_range']
  rw [write_block s.i 0 3 hget, show UInt16.ofNat 0 = 0 from rfl, UInt16.add_zero]
  rfl

theorem index_eq : index s x = .ok (s.indexAfterTransfer x) := by
  have := x.isLt
  rw [index, plus_eq (by simp only [UInt16.size]; omega), Core.indexAfterTransfer]
  split <;> rfl

theorem store_eq : store s x = .ok (s.storeRegisters x) := by
  have hx := x.isLt
  have hreg : ∀ k, 0 ≤ k → k < 0 + (x.val + 1) → register s k = .ok (s.v[k]?.getD 0) := by
    intro k _ hk
    have hk16 : k < 16 := by omega
    rw [register, get_eq s.v hk16, Vector.getElem?_eq_getElem hk16]
    rfl
  have hlist : (List.range' 0 (x.val + 1)).map (fun k => s.v[k]?.getD 0) =
      s.v.toList.take (x.val + 1) := by
    apply List.ext_getElem
    · rw [List.length_map, List.length_range', List.length_take, Vector.length_toList]
      omega
    · intro k hk _
      rw [List.length_map, List.length_range'] at hk
      have hk16 : k < 16 := by omega
      simp [hk16]
  simp only [store, List.range_eq_range']
  rw [write_block s.i 0 (x.val + 1) hreg, ok_bind, hlist, index_eq, ok_bind,
    show UInt16.ofNat 0 = 0 from rfl, UInt16.add_zero]
  rfl

theorem load_eq : load s x = .ok (s.loadRegisters x) := by
  have hx := x.isLt
  have hcopy : copy ((List.range' 0 (x.val + 1)).map fun k => s.memory.read (s.i + UInt16.ofNat k))
      0 s.v = .ok (s.loadRegisters x).v := by
    rw [copy_eq _ 0 s.v (by simp only [List.length_map, List.length_range']; omega)]
    refine congrArg Except.ok (Vector.ext ?_)
    intro k hk
    simp only [Core.loadRegisters, Vector.getElem_ofFn, Nat.zero_le, if_true, Nat.sub_zero,
      List.getElem?_map, Fin.le_def]
    by_cases hkx : k ≤ x.val
    · have hlt : k < x.val + 1 := by omega
      simp [hkx, hlt]
    · have hlt : ¬ k < x.val + 1 := by omega
      simp [hkx, hlt]
      rfl
  simp only [load, List.range_eq_range']
  rw [set_block 0 (x.val + 1) (fun k _ _ => read_eq s.memory (s.i + UInt16.ofNat k)), hcopy,
    ok_bind, index_eq, ok_bind]
  rfl

theorem draw_eq (n : UInt8) : draw s x y n = .ok (s.drawSprite x y n) := by
  have hl : (s.reg x).toNat % s.mode.width < s.mode.width := Nat.mod_lt _ s.mode.width_pos
  have ht : (s.reg y).toNat % s.mode.height < s.mode.height := Nat.mod_lt _ s.mode.height_pos
  have hn : 0 + n.toNat < 256 := by
    have := n.toNat_lt
    omega
  simp only [draw, register_eq, ok_bind, List.range_eq_range']
  rw [drawRows_range' s.memory s.i s.mode _ hl ht 0 n.toNat hn, ok_bind, flag_eq]
  simp only [Bool.false_or, Nat.add_zero, ← List.range_eq_range']
  rfl

theorem waitKey_eq : waitKey s x = .ok (s.waitKey x) := by
  unfold waitKey Core.waitKey
  cases s.keypad.lowest? with
  | none => rfl
  | some k => exact put_eq s x _

end

/-- With at most fifteen calls open, no instruction meets a check that fails. -/
theorem execute_eq (chance : UInt8) {s : Core} (h : s.sp.toNat ≤ Core.callLimit)
    (i : Instruction) : execute chance s i = .ok (i.execute chance s) := by
  cases i with
  | scrollDown n =>
    rw [execute, scrollDown_eq s.bitmap s.mode n.toNat_lt]
    rfl
  | scrollRight =>
    rw [execute, scrollRight_eq]
    rfl
  | scrollLeft =>
    rw [execute, scrollLeft_eq]
    rfl
  | ret => exact leave_eq s h
  | call a => exact enter_eq s a
  | or | and | xor =>
    rw [execute, combine_eq]
    rfl
  | add | sub | subFrom =>
    rw [execute, arithmetic_eq]
    rfl
  | shiftRight | shiftLeft =>
    rw [execute, shift_eq]
    rfl
  | jumpOffset =>
    rw [execute, jumpOffset_eq]
    rfl
  | draw =>
    rw [execute, draw_eq]
    rfl
  | skipIfDown | skipUnlessDown =>
    rw [execute, keyDown_eq]
    rfl
  | waitKey =>
    rw [execute, waitKey_eq]
    rfl
  | glyph =>
    rw [execute, glyph_eq]
    rfl
  | decimal =>
    rw [execute, decimal_eq]
    rfl
  | store =>
    rw [execute, store_eq]
    rfl
  | load =>
    rw [execute, load_eq]
    rfl
  | _ =>
    simp only [execute, register_eq, put_eq, ok_bind]
    rfl

end ChipMachine.Checked
