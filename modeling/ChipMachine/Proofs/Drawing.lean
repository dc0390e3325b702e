import ChipMachine.Proofs.Checked.Sprite
import ChipMachine.Proofs.Coding

namespace ChipMachine

/-- The pixel that a sprite covers at a place, if it covers one: past an edge of the active part of
the screen there is none if sprites clip, and otherwise the place wraps. -/
def Mode.covered? (mode : Mode) (clips : Bool) (x y : Nat) : Option (Nat × Nat) :=
  if x < mode.width ∧ y < mode.height then some (x, y)
  else if clips then none
  else some (x % mode.width, y % mode.height)

theorem Mode.sixteen_le_height (mode : Mode) : 16 ≤ mode.height := by cases mode <;> decide

/-- Rows and columns wrap or are cut off by themselves. -/
theorem Mode.covered?_eq_some_iff {mode : Mode} {clips : Bool} {x y u w : Nat} :
    mode.covered? clips x y = some (u, w) ↔
      edge? clips mode.width x = some u ∧ edge? clips mode.height y = some w := by
  unfold Mode.covered? edge?
  by_cases hx : x < mode.width <;> by_cases hy : y < mode.height <;> cases clips <;>
    simp [hx, hy, Nat.mod_eq_of_lt]

theorem Mode.covered?_lt {mode : Mode} {clips : Bool} {x y u w : Nat}
    (h : mode.covered? clips x y = some (u, w)) : u < mode.width ∧ w < mode.height := by
  obtain ⟨hu, hw⟩ := covered?_eq_some_iff.mp h
  exact ⟨edge?_lt mode.width_pos hu, edge?_lt mode.height_pos hw⟩

namespace Bitmap

/-- Whether a sprite row that starts at a place sets a pixel. -/
def sets (mode : Mode) (clips : Bool) (left u w : Nat) (pattern : UInt8) (y : Nat) : Bool :=
  mode.line? clips y == some w && (mode.span clips left pattern).getMsbD u

/-- Whether a sprite turns a pixel over: an odd number of its rows sets it. -/
def turns (mode : Mode) (clips : Bool) (left u w : Nat) : List UInt8 → Nat → Bool
  | [], _ => false
  | pattern :: below, y =>
    sets mode clips left u w pattern y ^^ turns mode clips left u w below (y + 1)

/-- Whether one of the rows of a sprite sets a pixel. -/
def Marks (mode : Mode) (clips : Bool) (left u w : Nat) (sprite : List UInt8) (y : Nat) : Prop :=
  ∃ row pattern, sprite[row]? = some pattern ∧
    sets mode clips left u w pattern (y + row) = true

variable {mode : Mode} {clips : Bool} {left u w : Nat} {pattern : UInt8} {sprite : List UInt8}
  {y : Nat}

theorem sets_iff (hl : left < mode.width) : sets mode clips left u w pattern y = true ↔
    ∃ bit < 8, mode.covered? clips (left + bit) y = some (u, w) ∧
      pattern.toNat.testBit (7 - bit) = true := by
  rw [sets, Bool.and_eq_true, beq_iff_eq, mode.getMsbD_span clips hl]
  simp only [Mode.covered?_eq_some_iff]
  constructor
  · rintro ⟨hline, bit, hbit, hedge, hset⟩
    exact ⟨bit, hbit, ⟨hedge, hline⟩, hset⟩
  · rintro ⟨bit, hbit, ⟨hedge, hline⟩, hset⟩
    exact ⟨hline, bit, hbit, hedge, hset⟩

theorem turns_eq_false (h : ∀ pattern y, sets mode clips left u w pattern y = false)
    (sprite : List UInt8) (y : Nat) : turns mode clips left u w sprite y = false := by
  induction sprite generalizing y with
  | nil => rfl
  | cons pattern below ih => rw [turns, h, ih, Bool.xor_false]

theorem not_marks_nil : ¬ Marks mode clips left u w [] y := by
  rintro ⟨row, pattern, hrow, _⟩
  cases hrow

theorem marks_cons : Marks mode clips left u w (pattern :: sprite) y ↔
    sets mode clips left u w pattern y = true ∨ Marks mode clips left u w sprite (y + 1) := by
  constructor
  · rintro ⟨row, q, hrow, hset⟩
    cases row with
    | zero =>
      obtain rfl := Option.some.inj hrow
      exact .inl hset
    | succ row => exact .inr ⟨row, q, hrow, Nat.add_right_comm y 1 row ▸ hset⟩
  · rintro (hset | ⟨row, q, hrow, hset⟩)
    · exact ⟨0, pattern, rfl, hset⟩
    · exact ⟨row + 1, q, hrow, Nat.add_right_comm y 1 row ▸ hset⟩

/-- Rows less than a whole screen apart set different pixels. -/
theorem not_marks_below (hy : y < 2 * mode.height) (hlen : sprite.length < mode.height)
    (hset : sets mode clips left u w pattern y = true) :
    ¬ Marks mode clips left u w sprite (y + 1) := by
  rintro ⟨row, q, hrow, hset'⟩
  obtain ⟨hlt, _⟩ := List.getElem?_eq_some_iff.mp hrow
  obtain ⟨hline, _⟩ := Bool.and_eq_true_iff.mp hset
  obtain ⟨hline', _⟩ := Bool.and_eq_true_iff.mp hset'
  exact edge?_ne (by omega) (by omega) hy (beq_iff_eq.mp hline) (beq_iff_eq.mp hline')

/-- Of a sprite that is no taller than the screen, no two rows set the same pixel. -/
theorem turns_iff_marks (hlen : sprite.length ≤ mode.height)
    (hy : y + sprite.length ≤ 2 * mode.height) :
    turns mode clips left u w sprite y = true ↔ Marks mode clips left u w sprite y := by
  induction sprite generalizing y with
  | nil => exact iff_of_false Bool.false_ne_true not_marks_nil
  | cons pattern below ih =>
    rw [List.length_cons] at hlen hy
    have hbelow := ih (y := y + 1) (by omega) (by omega)
    rw [turns, marks_cons]
    cases hset : sets mode clips left u w pattern y with
    | false => simpa using hbelow
    | true =>
      have hnone := not_marks_below (by omega) hlen hset
      have hturns : turns mode clips left u w below (y + 1) = false :=
        eq_false_of_ne_true fun h => hnone (hbelow.mp h)
      simp [hturns]

theorem lit_toggle_span {line : Nat} (hline : mode.line? clips y = some line) (b : Bitmap) :
    (b.toggle line (mode.span clips left pattern)).lit u w =
      (b.lit u w ^^ sets mode clips left u w pattern y) := by
  have hlast := mode.height_le
  have hheight := Mode.line?_lt hline
  rw [lit_toggle _ _ (by omega), sets, hline]
  by_cases hw : w = line
  · simp [hw]
  · have hne : (some line == some w) = false := by simpa using Ne.symm hw
    simp [hw, hne]

/-- A sprite of any height turns pixels over. -/
theorem lit_blit (sprite : List UInt8) (y : Nat) (b : Bitmap) :
    (blit mode clips left sprite y b).1.lit u w =
      (b.lit u w ^^ turns mode clips left u w sprite y) := by
  induction sprite generalizing y b with
  | nil => rw [turns, Bool.xor_false, blit]
  | cons pattern below ih =>
    rw [blit, turns]
    cases hline : mode.line? clips y with
    | none => simp [ih, sets, hline]
    | some line =>
      dsimp only
      rw [ih, lit_toggle_span hline, Bool.xor_assoc]

/-- A sprite that is no taller than the screen meets the pixels that were lit before any of it was
drawn. -/
theorem blit_hit (hlen : sprite.length ≤ mode.height) (hy : y + sprite.length ≤ 2 * mode.height)
    (b : Bitmap) : (blit mode clips left sprite y b).2 = true ↔
      ∃ u w, Marks mode clips left u w sprite y ∧ b.lit u w = true := by
  induction sprite generalizing y b with
  | nil => exact iff_of_false Bool.false_ne_true fun ⟨_, _, hmarks, _⟩ => not_marks_nil hmarks
  | cons pattern below ih =>
    rw [List.length_cons] at hlen hy
    have hbelow := fun c => ih (y := y + 1) (by omega) (by omega) c
    rw [blit]
    simp only [marks_cons]
    cases hline : mode.line? clips y with
    | none =>
      have hno : ∀ u w, sets mode clips left u w pattern y = false := by simp [sets, hline]
      simp only [hno, Bool.false_eq_true, false_or]
      exact hbelow b
    | some line =>
      have hsets : ∀ u w, sets mode clips left u w pattern y = true ↔
          line = w ∧ (mode.span clips left pattern).getMsbD u = true := by simp [sets, hline]
      -- what the rows below meet, this row has not turned over
      have hkept : ∀ u w, Marks mode clips left u w below (y + 1) →
          (b.toggle line (mode.span clips left pattern)).lit u w = b.lit u w := by
        intro u w hmarks
        have hset : sets mode clips left u w pattern y = false :=
          eq_false_of_ne_true fun h => not_marks_below (by omega) hlen h hmarks
        rw [lit_toggle_span hline, hset, Bool.xor_false]
      dsimp only
      rw [Bool.or_eq_true, PixelRow.and_ne_zero_iff, hbelow]
      constructor
      · rintro (⟨u, hlit, hmask⟩ | ⟨u, w, hmarks, hlit⟩)
        · exact ⟨u, line, .inl ((hsets u line).mpr ⟨rfl, hmask⟩), hlit⟩
        · exact ⟨u, w, .inr hmarks, hkept u w hmarks ▸ hlit⟩
      · rintro ⟨u, w, hset | hmarks, hlit⟩
        · obtain ⟨rfl, hmask⟩ := (hsets u w).mp hset
          exact .inl ⟨u, hlit, hmask⟩
        · exact .inr ⟨u, w, hmarks, (hkept u w hmarks).symm ▸ hlit⟩

end Bitmap

namespace Core

variable (s : Core) (x y : Reg)

/-- The pixel that a bit of a row of the sprite at Vx, Vy covers. -/
def covered? (row bit : Nat) : Option (Nat × Nat) :=
  s.mode.covered? s.conventions.spritesClip
    ((s.reg x).toNat % s.mode.width + bit) ((s.reg y).toNat % s.mode.height + row)

/-- Whether one of the set bits of the `n` bytes at I covers a pixel. -/
def DrawsOn (n u w : Nat) : Prop :=
  ∃ row < n, ∃ bit < 8, s.covered? x y row bit = some (u, w) ∧
    (s.memory.read (s.i + UInt16.ofNat row)).toNat.testBit (7 - bit) = true

theorem drawsOn_iff_marks {n u w : Nat} : s.DrawsOn x y n u w ↔
    Bitmap.Marks s.mode s.conventions.spritesClip ((s.reg x).toNat % s.mode.width) u w
      (s.memory.readBlock s.i n) ((s.reg y).toNat % s.mode.height) := by
  have hrows : ∀ row pattern, (s.memory.readBlock s.i n)[row]? = some pattern ↔
      row < n ∧ s.memory.read (s.i + UInt16.ofNat row) = pattern := by
    intro row pattern
    simp [Memory.readBlock, List.getElem?_eq_some_iff]
  simp only [DrawsOn, Bitmap.Marks, hrows,
    Bitmap.sets_iff (Nat.mod_lt _ s.mode.width_pos)]
  constructor
  · rintro ⟨row, hrow, hset⟩
    exact ⟨row, _, ⟨hrow, rfl⟩, hset⟩
  · rintro ⟨row, _, ⟨hrow, rfl⟩, hset⟩
    exact ⟨row, hrow, hset⟩

end Core

namespace Instruction

/-- Rows are counted with a digit, so that no sprite is taller than the screen. Then a pixel is
turned over once for all the set bits that cover it, and VF tells whether one of them was lit
before. Nothing else changes but the mark that the picture has to be shown again. -/
theorem draw_toggles_covered (s : Core) (x y : Reg) (n chance : UInt8) :
    (∀ word, decode word = some (.draw x y n) → n.toNat ≤ s.mode.height) ∧
    (n.toNat ≤ s.mode.height → ∃ (picture : Bitmap) (hit : Bool),
      (draw x y n).execute chance s = .ok { s with
        v := s.v.set 15 (if hit then 1 else 0)
        bitmap := picture
        dirty := true } ∧
      (hit = true ↔ ∃ u w, s.DrawsOn x y n.toNat u w ∧ s.bitmap.lit u w = true) ∧
      (∀ u w, picture.lit u w = true ↔
        Xor (s.bitmap.lit u w = true) (s.DrawsOn x y n.toNat u w)) ∧
      ∀ u w, picture.lit u w ≠ s.bitmap.lit u w →
        (u < s.mode.width ∧ w < s.mode.height) ∧
        ∃ row < n.toNat, ∃ bit < 8, s.covered? x y row bit = some (u, w)) := by
  constructor
  · intro word hd
    obtain ⟨hn, _⟩ := decode_eq_some_iff.mp hd
    simp only [WellFormed] at hn
    have := s.mode.sixteen_le_height
    omega
  · intro hn
    have htop := Nat.mod_lt (s.reg y).toNat s.mode.height_pos
    have hlen : (s.memory.readBlock s.i n.toNat).length = n.toNat := Memory.length_readBlock ..
    have hdraws : ∀ u w, s.DrawsOn x y n.toNat u w ↔
        Bitmap.turns s.mode s.conventions.spritesClip ((s.reg x).toNat % s.mode.width) u w
          (s.memory.readBlock s.i n.toNat) ((s.reg y).toNat % s.mode.height) = true := by
      intro u w
      rw [s.drawsOn_iff_marks, Bitmap.turns_iff_marks (by omega) (by omega)]
    obtain ⟨drawn, hdrawn⟩ : ∃ drawn, s.bitmap.drawSprite s.mode s.conventions.spritesClip
        (s.reg x).toNat (s.reg y).toNat (s.memory.readBlock s.i n.toNat) = drawn := ⟨_, rfl⟩
    have hpicture : ∀ u w, drawn.1.lit u w = true ↔
        Xor (s.bitmap.lit u w = true) (s.DrawsOn x y n.toNat u w) := by
      intro u w
      rw [← hdrawn, Bitmap.drawSprite, Bitmap.lit_blit, hdraws]
      generalize s.bitmap.lit u w = old, Bitmap.turns .. = turned
      cases old <;> cases turned <;> simp [Xor]
    refine ⟨drawn.1, drawn.2, ?_, ?_, hpicture, fun u w hne => ?_⟩
    · rw [← hdrawn]
      rfl
    · rw [← hdrawn, Bitmap.drawSprite, Bitmap.blit_hit (by omega) (by omega)]
      simp only [s.drawsOn_iff_marks]
    · have hturned : s.DrawsOn x y n.toNat u w := by
        refine Classical.byContradiction fun hno => hne ?_
        rw [Bool.eq_iff_iff, hpicture]
        simp [Xor, hno]
      obtain ⟨row, hrow, bit, hbit, hcovered, _⟩ := hturned
      exact ⟨Mode.covered?_lt hcovered, row, hrow, bit, hbit, hcovered⟩

/-- The glyph of 0 wraps at the corner of the screen, where the only lit pixel is. VF is where it is
drawn, and then tells that it met that pixel. -/
theorem draw_toggles_covered_wrapping :
    let blank := Core.fresh .xoChip
    let s : Core := { blank with
      v := blank.v.set 15 62
      bitmap := Bitmap.blank.toggle 0 (PixelRow.dot 1) }
    5 ≤ s.mode.height ∧ s.covered? 15 15 2 3 = some (1, 0) ∧
      ∃ t, (draw 15 15 5).execute 0 s = .ok t ∧ t.reg 15 = 1 ∧
        t.bitmap.lit 1 0 = false ∧ t.bitmap.lit 62 30 = true := by
  intro blank s
  have hn : (5 : UInt8).toNat ≤ s.mode.height := by decide
  have hwraps : s.covered? 15 15 2 3 = some (1, 0) := by decide
  have hlit : ∀ u w, s.bitmap.lit u w = (decide (w = 0) && (PixelRow.dot 1).getMsbD u) := by
    intro u w
    rw [Bitmap.lit_toggle _ _ (by decide), Bitmap.lit_blank, Bool.false_xor]
  have hold : s.bitmap.lit 1 0 = true := by rw [hlit]; decide
  have hcorner : s.DrawsOn 15 15 5 1 0 := by
    refine ⟨2, by decide, 3, by decide, hwraps, ?_⟩
    change (Memory.fresh.read 2).toNat.testBit 4 = true
    rw [Memory.read_fresh]
    decide
  have hstart : s.DrawsOn 15 15 5 62 30 := by
    refine ⟨0, by decide, 0, by decide, by decide, ?_⟩
    change (Memory.fresh.read 0).toNat.testBit 7 = true
    rw [Memory.read_fresh]
    decide
  obtain ⟨picture, hit, he, hhit, hpicture, _⟩ := (draw_toggles_covered s 15 15 5 0).2 hn
  obtain rfl : hit = true := hhit.mpr ⟨1, 0, hcorner, hold⟩
  refine ⟨hn, hwraps, _, he, rfl, ?_, ?_⟩
  · refine eq_false_of_ne_true fun hon => ?_
    obtain ⟨_, hno⟩ | ⟨_, hno⟩ := (hpicture 1 0).mp hon
    · exact hno hcorner
    · exact hno hold
  · refine (hpicture 62 30).mpr (.inr ⟨hstart, ?_⟩)
    rw [hlit]
    decide

end Instruction
end ChipMachine
