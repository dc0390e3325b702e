import ChipMachine.Proofs.Drawing

namespace ChipMachine

/-- A block that is stored changes no byte but its own. -/
theorem Memory.read_writeBlock_of_ne (m : Memory) (bs : List UInt8) (start a : UInt16)
    (h : ∀ k < bs.length, cell a ≠ cell (start + UInt16.ofNat k)) :
    (m.writeBlock bs start).read a = m.read a := by
  induction bs generalizing m start with
  | nil => rfl
  | cons b bs ih =>
    rw [writeBlock, ih, read_write, if_neg]
    · intro hstart
      exact h 0 (Nat.zero_lt_succ _) (by simpa using hstart.symm)
    · intro k hk
      have hnext := h (k + 1) (Nat.succ_lt_succ hk)
      rwa [show start + UInt16.ofNat (k + 1) = start + 1 + UInt16.ofNat k by
        rw [UInt16.ofNat_add, UInt16.add_assoc, UInt16.add_comm 1]; rfl] at hnext

/-- However far a sprite reaches, it is drawn in the active part of the screen. -/
theorem Bitmap.lit_drawSprite_outside {mode : Mode} {u w : Nat} (b : Bitmap) (clips : Bool)
    (x y : Nat) (sprite : List UInt8) (hout : ¬ (u < mode.width ∧ w < mode.height)) :
    (b.drawSprite mode clips x y sprite).1.lit u w = b.lit u w := by
  have hmissed : ∀ pattern row, sets mode clips (x % mode.width) u w pattern row = false := by
    intro pattern row
    refine eq_false_of_ne_true fun hset => hout ?_
    obtain ⟨bit, _, hcovered, _⟩ := (sets_iff (Nat.mod_lt _ mode.width_pos)).mp hset
    exact Mode.covered?_lt hcovered
  rw [drawSprite, lit_blit, turns_eq_false hmissed, Bool.xor_false]

namespace Instruction

/-- Bytes of memory that an instruction stores, from the index on. -/
def storedBytes : Instruction → Nat
  | decimal _ => 3
  | store x => x.val + 1
  | _ => 0

/-- The registers that an instruction may write. -/
def Assigns (s : Core) (r : Reg) : Instruction → Prop
  | setByte x _ | addByte x _ | copy x _ | random x _ | getDelay x => r = x
  | or x _ | and x _ | xor x _ => r = x ∨ s.conventions.logicClearsFlag = true ∧ r = .flag
  | add x _ | sub x _ | shiftRight x _ | subFrom x _ | shiftLeft x _ => r = x ∨ r = .flag
  | draw .. => r = .flag
  | waitKey x => r = x ∧ s.keypad.lowest? ≠ none
  | load x => r ≤ x
  | _ => False

def MovesIndex (s : Core) : Instruction → Prop
  | setIndex _ | addIndex _ | glyph _ => True
  | store _ | load _ => s.conventions.transferMovesIndex = true
  | _ => False

def jumps : Instruction → Bool
  | jump _ | jumpOffset _ | call _ | ret => true
  | _ => false

def skips : Instruction → Bool
  | skipIfByte .. | skipUnlessByte .. | skipIfEqual .. | skipUnlessEqual .. | skipIfDown _
  | skipUnlessDown _ => true
  | _ => false

/-- Instructions that reach the pixels of the active part of the screen only. -/
def redraws : Instruction → Bool
  | scrollDown _ | scrollRight | scrollLeft | draw .. => true
  | _ => false

/-- Instructions after which the picture has to be shown again. -/
def marks : Instruction → Bool
  | clear | lowMode | highMode => true
  | i => i.redraws

/-- An instruction changes what it names and nothing else: wherever `t` differs from `s`, it is one
of the instructions that reach there. -/
structure Footprint (i : Instruction) (s t : Core) : Prop where
  registers : ∀ r, t.reg r ≠ s.reg r → i.Assigns s r
  index : t.i ≠ s.i → i.MovesIndex s
  counter : t.pc ≠ s.pc → i.jumps = true ∨ (i.skips = true ∧ t.pc = s.pc + 2) ∨
    ∃ x, i = .waitKey x ∧ s.keypad.lowest? = none ∧ t.pc = s.pc - 2
  depth : t.sp ≠ s.sp → (∃ a, i = .call a ∧ t.sp.toNat = s.sp.toNat + 1) ∨
    (i = .ret ∧ t.sp.toNat + 1 = s.sp.toNat)
  stack : ∀ k (h : k < 16), t.stack[k] ≠ s.stack[k] → (∃ a, i = .call a) ∧ k = s.sp.toNat
  delay : t.delay ≠ s.delay → ∃ x, i = .setDelay x
  sound : t.sound ≠ s.sound → ∃ x, i = .setSound x
  memory : ∀ a, t.memory.read a ≠ s.memory.read a →
    ∃ k < i.storedBytes, Memory.cell a = Memory.cell (s.i + UInt16.ofNat k)
  screen : ∀ x y, t.bitmap.lit x y ≠ s.bitmap.lit x y →
    i = .clear ∨ (i.redraws = true ∧ x < s.mode.width ∧ y < s.mode.height)
  mode : t.mode ≠ s.mode → i = .lowMode ∨ i = .highMode
  dirty : t.dirty = (s.dirty || i.marks)
  keypad : t.keypad = s.keypad
  dialect : t.dialect = s.dialect

namespace Footprint

variable {i : Instruction} {s t : Core} {x : Reg} {a : UInt16} {b : UInt8} {c : Bool}

theorem of_dirty {d : Bool} (h : d = (s.dirty || i.marks)) :
    i.Footprint s { s with dirty := d } where
  registers _ hr := absurd rfl hr
  index hi := absurd rfl hi
  counter hpc := absurd rfl hpc
  depth hsp := absurd rfl hsp
  stack _ _ hk := absurd rfl hk
  delay hd := absurd rfl hd
  sound hs := absurd rfl hs
  memory _ ha := absurd rfl ha
  screen _ _ hxy := absurd rfl hxy
  mode hm := absurd rfl hm
  dirty := h
  keypad := rfl
  dialect := rfl

theorem refl (h : i.marks = false) (s : Core) : i.Footprint s s :=
  of_dirty (d := s.dirty) (by rw [h, Bool.or_false])

theorem put (h : i.Footprint s t) (hx : i.Assigns s x) : i.Footprint s (t.put x b) :=
  { h with
    registers := fun r hr => by
      rw [Core.reg_put] at hr
      split at hr
      · rename_i hxr
        exact hxr ▸ hx
      · exact h.registers r hr }

theorem flag (h : i.Footprint s t) (hf : i.Assigns s .flag) : i.Footprint s (t.flag c) :=
  h.put hf

theorem combine (h : i.marks = false) (hx : i.Assigns s x)
    (hf : s.conventions.logicClearsFlag = true → i.Assigns s .flag) :
    i.Footprint s (s.combine x b) := by
  have hput : i.Footprint s (s.put x b) := .put (.refl h s) hx
  unfold Core.combine
  dsimp only
  split
  · rename_i hc
    exact hput.put (hf hc)
  · exact hput

theorem skipIf (h : i.marks = false) (hs : i.skips = true) : i.Footprint s (s.skipIf c) := by
  cases c with
  | false => exact refl h s
  | true => exact { refl h s with counter := fun _ => .inr (.inl ⟨hs, rfl⟩) }

theorem jump (h : i.marks = false) (hj : i.jumps = true) : i.Footprint s { s with pc := a } :=
  { refl h s with counter := fun _ => .inl hj }

theorem setIndex (h : i.Footprint s t) (hi : i.MovesIndex s) : i.Footprint s { t with i := a } :=
  { h with index := fun _ => hi }

theorem indexAfterTransfer (h : i.Footprint s t)
    (hi : s.conventions.transferMovesIndex = true → i.MovesIndex s) :
    i.Footprint s { t with i := s.indexAfterTransfer x } := by
  unfold Core.indexAfterTransfer
  split
  · rename_i hc
    exact h.setIndex (hi hc)
  · exact { h with index := fun hne => absurd rfl hne }

theorem writeBlock (h : i.marks = false) {bs : List UInt8} (hbs : bs.length ≤ i.storedBytes) :
    i.Footprint s { s with memory := s.memory.writeBlock bs s.i } :=
  { refl h s with
    memory := fun a ha => by
      refine Classical.byContradiction fun hnone => ha ?_
      refine s.memory.read_writeBlock_of_ne bs s.i a fun k hk hcell => ?_
      exact hnone ⟨k, Nat.lt_of_lt_of_le hk hbs, hcell⟩ }

theorem paint (h : i.marks = true) {b : Bitmap} (hb : ∀ u w, b.lit u w ≠ s.bitmap.lit u w →
      i = .clear ∨ (i.redraws = true ∧ u < s.mode.width ∧ w < s.mode.height)) :
    i.Footprint s (s.paint b) :=
  { of_dirty (d := true) (by rw [h, Bool.or_true]) with screen := hb }

/-- A picture that is as before outside the active part of the screen. -/
theorem redraw (hm : i.marks = true) (h : i.redraws = true) {b : Bitmap}
    (hb : ∀ u w, ¬ (u < s.mode.width ∧ w < s.mode.height) → b.lit u w = s.bitmap.lit u w) :
    i.Footprint s (s.paint b) :=
  paint hm fun u w hne => .inr ⟨h, Decidable.byContradiction fun hout => hne (hb u w hout)⟩

theorem switchTo (h : i.marks = true) {mode : Mode} (hm : i = .lowMode ∨ i = .highMode) :
    i.Footprint s (s.switchTo mode) :=
  { of_dirty (d := true) (by rw [h, Bool.or_true]) with mode := fun _ => hm }

theorem leave (h : s.leave = .ok t) : Instruction.ret.Footprint s t := by
  obtain ⟨hsp, a, _, rfl⟩ := Core.leave_ok h
  exact { jump rfl rfl with depth := fun _ => .inr ⟨rfl, toNat_sub_one_add_one hsp⟩ }

theorem enter (h : s.enter a = .ok t) : (Instruction.call a).Footprint s t := by
  obtain ⟨hs, rfl⟩ := Core.enter_ok h
  refine { jump rfl rfl with
    depth := fun _ => .inl ⟨a, rfl, Core.toNat_sp_add_one hs⟩
    stack := fun k hk hne => ⟨⟨a, rfl⟩, ?_⟩ }
  refine Decidable.byContradiction fun hother => hne ?_
  exact Vector.getElem_set_ne (Nat.lt_succ_of_lt hs) hk (Ne.symm hother)

end Footprint

/-- An instruction that is carried out leaves its footprint. -/
theorem execute_footprint {i : Instruction} {chance : UInt8} {s t : Core}
    (h : i.execute chance s = .ok t) : i.Footprint s t := by
  cases i
  case ret => exact .leave h
  case call a => exact .enter h
  all_goals obtain rfl := Except.ok.inj h
  case halt => exact .refl rfl s
  case clear => exact .paint rfl fun _ _ _ => .inl rfl
  case scrollDown n =>
    exact .redraw rfl rfl fun u w hout => by rw [Bitmap.lit_scrollDown, if_neg hout]
  case scrollRight =>
    exact .redraw rfl rfl fun u w hout => by rw [Bitmap.lit_scrollRight, if_neg hout]
  case scrollLeft =>
    exact .redraw rfl rfl fun u w hout => by rw [Bitmap.lit_scrollLeft, if_neg hout]
  case draw x y n =>
    refine .flag (.redraw rfl rfl fun u w hout => ?_) rfl
    exact Bitmap.lit_drawSprite_outside s.bitmap _ _ _ _ hout
  case lowMode => exact .switchTo rfl (.inl rfl)
  case highMode => exact .switchTo rfl (.inr rfl)
  case jump | jumpOffset => exact .jump rfl rfl
  case skipIfByte | skipUnlessByte | skipIfEqual | skipUnlessEqual | skipIfDown | skipUnlessDown =>
    exact .skipIf rfl rfl
  case setByte | addByte | copy | random | getDelay => exact .put (.refl rfl s) rfl
  case or | and | xor => exact .combine rfl (.inl rfl) (fun hc => .inr ⟨hc, rfl⟩)
  case add | sub | shiftRight | subFrom | shiftLeft =>
    exact .flag (.put (.refl rfl s) (.inl rfl)) (.inr rfl)
  case setIndex | addIndex | glyph => exact .setIndex (.refl rfl s) trivial
  case waitKey x =>
    rw [Core.waitKey]
    cases hk : s.keypad.lowest? with
    | some k => exact .put (.refl rfl s) ⟨rfl, by rw [hk]; exact Option.some_ne_none k⟩
    | none =>
      exact { Footprint.refl rfl s with counter := fun _ => .inr (.inr ⟨x, rfl, hk, rfl⟩) }
  case setDelay x => exact { Footprint.refl rfl s with delay := fun _ => ⟨x, rfl⟩ }
  case setSound x => exact { Footprint.refl rfl s with sound := fun _ => ⟨x, rfl⟩ }
  case decimal x => exact .writeBlock rfl (Nat.le_refl 3)
  case store x =>
    exact .indexAfterTransfer (.writeBlock rfl (List.length_take_le _ _)) id
  case load x =>
    refine .indexAfterTransfer (t := { s with v := _ }) { Footprint.refl rfl s with
      registers := fun r hr => ?_ } id
    refine Decidable.byContradiction (p := r ≤ x) fun hx => hr ?_
    change (Vector.ofFn _)[r.val] = _
    rw [Vector.getElem_ofFn]
    exact if_neg hx

end Instruction

namespace Machine

/-- Whatever the instruction, with at most fifteen calls open: if it is carried out, the machine
differs in the instruction's footprint and in the random word it may have drawn; and only a call
with fifteen calls open and a return with none are refused, which changes nothing. -/
theorem perform_footprint (m : Machine) (i : Instruction) (h : m.core.sp.toNat ≤ Core.callLimit) :
    let done := m.perform i
    match done.answer with
    | .ok _ => i.Footprint m.core done.machine.core ∧
        done.machine = { m with
          core := done.machine.core, entropy := m.entropy.skip i.draws }
    | .error fault => done.machine = m ∧
        ((∃ a, i = .call a ∧ m.core.sp.toNat = Core.callLimit ∧
            fault = .fullStack m.core.currentAddress) ∨
          (i = .ret ∧ m.core.sp = 0 ∧ fault = .emptyStack m.core.currentAddress)) := by
  intro done
  simp only [done, perform]
  cases he : i.execute m.entropy.chance m.core with
  | ok t => exact ⟨Instruction.execute_footprint he, rfl⟩
  | error fault =>
    refine ⟨rfl, ?_⟩
    obtain ⟨a, rfl, hs, hf⟩ | ⟨rfl, hs, hf⟩ | ⟨_, hs, _⟩ := Instruction.execute_error he
    · exact .inl ⟨a, rfl, Nat.le_antisymm h hs, hf⟩
    · exact .inr ⟨rfl, hs, hf⟩
    · exact absurd (Nat.lt_of_lt_of_le hs h) (by decide)

/-- The digits are stored across the end of memory, with all calls open; the first byte of the
program is not among them. -/
theorem perform_footprint_wrapping :
    let m : Machine := ⟨{ Core.fresh .vip with i := 0xFFFE, sp := 15 }, [], .standard, .cycle []⟩
    let done := m.perform (.decimal 0)
    m.core.sp.toNat ≤ Core.callLimit ∧
      (Instruction.decimal 0).Footprint m.core done.machine.core ∧
      done.machine.core.memory.read 0x200 = m.core.memory.read 0x200 := by
  intro m done
  have h : m.core.sp.toNat ≤ Core.callLimit := by decide
  have hfoot : (Instruction.decimal 0).Footprint m.core done.machine.core :=
    (perform_footprint m (.decimal 0) h).1
  refine ⟨h, hfoot, Decidable.byContradiction fun hne => ?_⟩
  have hmissed : ∀ k < 3, Memory.cell 0x200 ≠ Memory.cell (0xFFFE + UInt16.ofNat k) := by decide
  obtain ⟨k, hk, hcell⟩ := hfoot.memory 0x200 hne
  exact hmissed k hk hcell

end Machine
end ChipMachine
