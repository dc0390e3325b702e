import ChipMachine.Proofs.Drawing
import Mathlib.Data.Nat.Bits

namespace ChipMachine

/-- A sprite of any height, drawn where two registers say. Neither of them is VF, so that drawing
one sprite does not move another. -/
structure Stamp where
  x : Reg
  y : Reg
  n : UInt8
  x_ne_flag : x ≠ .flag
  y_ne_flag : y ≠ .flag

/-- `t` is `s` with another picture, and perhaps with something else in VF. -/
structure Core.Redrawn (s t : Core) : Prop where
  registers : ∀ r, r ≠ .flag → t.reg r = s.reg r
  rest : t = { s with v := t.v, bitmap := t.bitmap, dirty := t.dirty }

namespace Core.Redrawn

variable {s t u : Core}

theorem refl (s : Core) : s.Redrawn s := ⟨fun _ _ => rfl, rfl⟩

theorem trans (h : s.Redrawn t) (h' : t.Redrawn u) : s.Redrawn u where
  registers r hr := (h'.registers r hr).trans (h.registers r hr)
  rest := by rw [h'.rest, h.rest]

theorem drawSprite (s : Core) (x y : Reg) (n : UInt8) : s.Redrawn (s.drawSprite x y n) where
  registers r hr := by
    rw [Core.drawSprite, Core.flag, Core.reg_put, if_neg (Ne.symm hr)]
    rfl
  rest := rfl

end Core.Redrawn

namespace Stamp

def instruction (c : Stamp) : Instruction := .draw c.x c.y c.n

/-- Whether a stamp turns a pixel over. An over-tall one may do so several times, and then it
matters whether their number is odd. -/
def turns (s : Core) (u w : Nat) (c : Stamp) : Bool :=
  Bitmap.turns s.mode s.conventions.spritesClip ((s.reg c.x).toNat % s.mode.width) u w
    (s.memory.readBlock s.i c.n.toNat) ((s.reg c.y).toNat % s.mode.height)

/-- Whether the stamps of a list, taken together, turn a pixel over. -/
def turnsAll (s : Core) (u w : Nat) (stamps : List Stamp) : Bool :=
  (stamps.countP (turns s u w)).bodd

variable {s t : Core} {u w : Nat}

theorem turns_redrawn (h : s.Redrawn t) (c : Stamp) : c.turns t u w = c.turns s u w := by
  have hx := h.registers c.x c.x_ne_flag
  have hy := h.registers c.y c.y_ne_flag
  rw [turns, hx, hy, h.rest]
  rfl

theorem turnsAll_redrawn (h : s.Redrawn t) (stamps : List Stamp) :
    turnsAll t u w stamps = turnsAll s u w stamps := by
  rw [turnsAll, turnsAll, List.countP_congr fun c _ => by rw [turns_redrawn h]]

theorem turnsAll_nil : turnsAll s u w [] = false := by
  rw [turnsAll, List.countP_nil, Nat.bodd_zero]

theorem turnsAll_cons (c : Stamp) (stamps : List Stamp) :
    turnsAll s u w (c :: stamps) = (c.turns s u w ^^ turnsAll s u w stamps) := by
  rw [turnsAll, turnsAll, List.countP_cons, Nat.bodd_add, Bool.xor_comm]
  cases c.turns s u w <;> rfl

theorem turnsAll_perm {stamps stamps' : List Stamp} (h : stamps.Perm stamps') :
    turnsAll s u w stamps' = turnsAll s u w stamps := by
  rw [turnsAll, turnsAll, h.countP_eq]

/-- The stamps are drawn one after another. -/
def drawAll (chance : UInt8) (s : Core) (stamps : List Stamp) : Except Fault Core :=
  stamps.foldlM (fun s c => c.instruction.execute chance s) s

theorem lit_drawSprite (c : Stamp) :
    (s.drawSprite c.x c.y c.n).bitmap.lit u w = (s.bitmap.lit u w ^^ c.turns s u w) :=
  Bitmap.lit_blit _ _ _

/-- Stamps are never refused, and all of them come to turning pixels over. -/
theorem drawAll_spec (chance : UInt8) (s : Core) (stamps : List Stamp) :
    ∃ t, drawAll chance s stamps = .ok t ∧ s.Redrawn t ∧
      ∀ u w, t.bitmap.lit u w = (s.bitmap.lit u w ^^ turnsAll s u w stamps) := by
  induction stamps generalizing s with
  | nil => exact ⟨s, rfl, .refl s, fun u w => by rw [turnsAll_nil, Bool.xor_false]⟩
  | cons c stamps ih =>
    have hfirst := Core.Redrawn.drawSprite s c.x c.y c.n
    obtain ⟨t, ht, hlater, hlit⟩ := ih (s.drawSprite c.x c.y c.n)
    refine ⟨t, ht, hfirst.trans hlater, fun u w => ?_⟩
    rw [hlit, lit_drawSprite, turnsAll_redrawn hfirst, turnsAll_cons, Bool.xor_assoc]

/-- Sprites of any height turn pixels over. Drawn once more, in whatever order, they are gone: the
whole picture is what it was. So their order does not matter. -/
theorem drawAll_undone (chance : UInt8) (s : Core) (stamps stamps' : List Stamp)
    (h : stamps.Perm stamps') :
    ∃ t t' u, drawAll chance s stamps = .ok t ∧ drawAll chance s stamps' = .ok t' ∧
      drawAll chance t stamps' = .ok u ∧
      (∀ x y, t.bitmap.lit x y = (s.bitmap.lit x y ^^ turnsAll s x y stamps)) ∧
      t'.bitmap = t.bitmap ∧ u.bitmap = s.bitmap := by
  obtain ⟨t, ht, hredrawn, hlit⟩ := drawAll_spec chance s stamps
  obtain ⟨t', ht', _, hlit'⟩ := drawAll_spec chance s stamps'
  obtain ⟨u, hu, _, hlast⟩ := drawAll_spec chance t stamps'
  refine ⟨t, t', u, ht, ht', hu, hlit, Bitmap.ext_lit fun x y _ _ => ?_,
    Bitmap.ext_lit fun x y _ _ => ?_⟩
  · rw [hlit', hlit, turnsAll_perm h]
  · rw [hlast, hlit, turnsAll_redrawn hredrawn, turnsAll_perm h, Bool.xor_assoc, Bool.xor_self,
      Bool.xor_false]

/-- One sprite is taller than the screen, the other one row high and away from its columns. The
first pixel is lit when both have been drawn, and not when they have been drawn again. -/
theorem drawAll_undone_tall :
    let s := (Core.fresh .xoChip).put 1 8
    let tall : Stamp := ⟨1, 0, 255, by decide, by decide⟩
    let short : Stamp := ⟨0, 0, 1, by decide, by decide⟩
    s.mode.height < tall.n.toNat ∧ [tall, short].Perm [short, tall] ∧
      ∃ t u, drawAll 0 s [tall, short] = .ok t ∧ drawAll 0 t [short, tall] = .ok u ∧
        t.bitmap.lit 0 0 = true ∧ u.bitmap.lit 0 0 = false := by
  intro s tall short
  have hperm : [tall, short].Perm [short, tall] := .swap short tall []
  have hblank : s.bitmap.lit 0 0 = false := Bitmap.lit_blank 0 0
  have htall : tall.turns s 0 0 = false := by
    refine Bitmap.turns_eq_false (fun pattern y => eq_false_of_ne_true fun hset => ?_) _ _
    obtain ⟨bit, hbit, hcovered, _⟩ := (Bitmap.sets_iff (Nat.mod_lt _ s.mode.width_pos)).mp hset
    have hcolumn : edge? false 64 (8 + bit) = some 0 := (Mode.covered?_eq_some_iff.mp hcovered).1
    rw [edge?, if_pos (by omega)] at hcolumn
    have hzero : 8 + bit = 0 := Option.some.inj hcolumn
    omega
  have hshort : short.turns s 0 0 = true := by
    change (Bitmap.sets .low false 0 0 0 (Memory.fresh.read 0) 0 ^^ false) = true
    rw [Memory.read_fresh]
    decide
  obtain ⟨t, _, u, ht, _, hu, hlit, _, hundone⟩ := drawAll_undone 0 s _ _ hperm
  refine ⟨by decide, hperm, t, u, ht, hu, ?_, ?_⟩
  · rw [hlit, hblank, turnsAll_cons, turnsAll_cons, turnsAll_nil, htall, hshort]
    rfl
  · rw [hundone, hblank]

end Stamp
end ChipMachine
