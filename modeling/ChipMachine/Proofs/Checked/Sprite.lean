import ChipMachine.Proofs.Checked.Screen

namespace ChipMachine

/-- Where a place lands that may lie past the edge. -/
def edge? (clips : Bool) (size place : Nat) : Option Nat :=
  if place < size then some place else if clips then none else some (place % size)

theorem edge?_lt {clips : Bool} {size place at' : Nat} (hs : 0 < size)
    (h : edge? clips size place = some at') : at' < size := by
  unfold edge? at h
  split at h
  · cases h; assumption
  · split at h
    · cases h
    · cases h
      exact Nat.mod_lt _ hs

/-- What is cut off stays cut off. -/
theorem edge?_none_of_le {clips : Bool} {size p q : Nat} (h : edge? clips size p = none)
    (hpq : p ≤ q) : edge? clips size q = none := by
  unfold edge? at h ⊢
  split at h
  · cases h
  · split at h
    · rename_i hc
      rw [if_neg (by omega), if_pos hc]
    · cases h

/-- Places less than a whole size apart land apart. -/
theorem edge?_ne {clips : Bool} {size p q x : Nat} (hlt : p < q) (hq : q < p + size)
    (hp : p < 2 * size) (h : edge? clips size p = some x) : edge? clips size q ≠ some x := by
  intro h'
  unfold edge? at h h'
  split at h <;> split at h'
  · cases h
    cases h'
    omega
  · split at h'
    · cases h'
    · cases h
      rw [Nat.mod_eq_sub_mod (by omega), Nat.mod_eq_of_lt (by omega)] at h'
      cases h'
      omega
  · omega
  · split at h <;> split at h'
    · cases h
    · cases h
    · cases h'
    · rw [Nat.mod_eq_sub_mod (by omega), Nat.mod_eq_of_lt (by omega)] at h
      cases h
      have hq' := Option.some.inj h'
      by_cases h2 : q - size < size
      · rw [Nat.mod_eq_sub_mod (by omega), Nat.mod_eq_of_lt h2] at hq'
        omega
      · rw [Nat.mod_eq_sub_mod (by omega), Nat.mod_eq_sub_mod (by omega),
          Nat.mod_eq_of_lt (by omega)] at hq'
        omega

theorem Mode.eight_le_width (mode : Mode) : 8 ≤ mode.width := by cases mode <;> decide

/-- The columns that a sprite byte reaches. -/
theorem Mode.getMsbD_span (mode : Mode) (clips : Bool) {left : Nat} (hl : left < mode.width)
    (pattern : UInt8) (u : Nat) :
    (mode.span clips left pattern).getMsbD u = true ↔
      ∃ bit < 8, edge? clips mode.width (left + bit) = some u ∧
        pattern.toNat.testBit (7 - bit) = true := by
  have hw := mode.width_le
  have hw8 := mode.eight_le_width
  have hbits : ∀ k, (BitVec.ofNat 128 pattern.toNat <<< 120).getMsbD k = true ↔
      k < 8 ∧ pattern.toNat.testBit (7 - k) = true := by
    intro k
    rw [BitVec.getMsbD_shiftLeft, BitVec.getMsbD, BitVec.getLsbD_ofNat]
    simp only [Bool.and_eq_true, decide_eq_true_eq]
    constructor
    · intro found
      obtain ⟨hk, _, ht⟩ := found
      exact ⟨by omega, by rwa [show 128 - 1 - (k + 120) = 7 - k by omega] at ht⟩
    · intro found
      obtain ⟨hk, ht⟩ := found
      exact ⟨by omega, by omega, by rwa [show 128 - 1 - (k + 120) = 7 - k by omega]⟩
  have hpast : (if clips then (0 : PixelRow)
      else BitVec.ofNat 128 pattern.toNat <<< 120 <<< (mode.width - left)).getMsbD u = true ↔
      clips = false ∧ u + (mode.width - left) < 8 ∧
        pattern.toNat.testBit (7 - (u + (mode.width - left))) = true := by
    cases clips
    · simp only [Bool.false_eq_true, if_false, true_and]
      rw [BitVec.getMsbD_shiftLeft, hbits]
    · simp
  rw [Mode.span, BitVec.getMsbD_or, Bool.or_eq_true, hpast, BitVec.getMsbD_and, getMsbD_columns,
    BitVec.getMsbD_ushiftRight]
  simp only [Bool.and_eq_true, Bool.not_eq_true', decide_eq_true_eq, decide_eq_false_iff_not, hbits]
  constructor
  · intro found
    obtain ⟨⟨_, hge, hu, hb⟩, huw⟩ | ⟨hc, hu, hb⟩ := found
    · refine ⟨u - left, hu, ?_, hb⟩
      rw [edge?, if_pos (by omega), show left + (u - left) = u by omega]
    · refine ⟨u + (mode.width - left), hu, ?_, hb⟩
      have : left + (u + (mode.width - left)) = u + mode.width := by omega
      rw [edge?, this, if_neg (by omega), hc, if_neg Bool.false_ne_true, Nat.add_mod_right,
        Nat.mod_eq_of_lt (by omega)]
  · intro found
    obtain ⟨bit, hbit, he, hb⟩ := found
    unfold edge? at he
    split at he
    · cases he
      have hb' : left + bit - left = bit := by omega
      exact .inl ⟨⟨by omega, by omega, by rw [hb']; exact ⟨hbit, hb⟩⟩, by omega⟩
    · split at he
      · cases he
      · rename_i hge hc
        have hmod : (left + bit) % mode.width = left + bit - mode.width := by
          rw [Nat.mod_eq_sub_mod (by omega), Nat.mod_eq_of_lt (by omega)]
        cases he
        rw [hmod]
        refine .inr ⟨by simpa using hc, by omega, ?_⟩
        rwa [show left + bit - mode.width + (mode.width - left) = bit by omega]

namespace Bitmap

theorem lit_toggle (b : Bitmap) (mask : PixelRow) {y : Nat} (hy : y < 64) (u w : Nat) :
    (b.toggle y mask).lit u w = (b.lit u w ^^ (decide (w = y) && mask.getMsbD u)) := by
  rw [lit, row_toggle b mask w hy]
  by_cases h : y = w
  · subst h
    simp [lit]
  · have h' : ¬ w = y := fun hw => h hw.symm
    simp [h, h', lit]

/-- A mask without pixels changes nothing and meets nothing. -/
theorem toggle_none (b : Bitmap) {m : PixelRow} {y : Nat} (hy : y < 64)
    (h : ∀ u, m.getMsbD u ≠ true) : b.toggle y m = b ∧ (b.row y &&& m != 0) = false := by
  have hz : m = 0 := by
    apply BitVec.eq_of_getMsbD_eq
    intro u _
    simpa using h u
  subst hz
  constructor
  · apply ext_lit
    intro u w _ _
    rw [lit_toggle b _ hy]
    simp
  · simp

end Bitmap

theorem PixelRow.and_ne_zero_iff {r m : PixelRow} :
    (r &&& m != 0) = true ↔ ∃ u, r.getMsbD u = true ∧ m.getMsbD u = true := by
  constructor
  · intro h
    apply Classical.byContradiction
    intro hn
    simp only [not_exists, not_and, Bool.not_eq_true] at hn
    have hz : r &&& m = 0 := by
      apply BitVec.eq_of_getMsbD_eq
      intro u _
      rw [BitVec.getMsbD_and]
      cases hr : r.getMsbD u with
      | false => simp
      | true => simp [hn u hr]
    simp [hz] at h
  · intro found
    obtain ⟨u, hr, hm⟩ := found
    rw [bne_iff_ne]
    intro hz
    have := congrArg (fun t : PixelRow => t.getMsbD u) hz
    simp [hr, hm] at this

/-- A mask is toggled at one pixel and then at the others; it meets a lit pixel there or among the
others. -/
theorem Bitmap.toggle_one {b c : Bitmap} {m : PixelRow} {x y : Nat} (hx : x < 128) (hy : y < 64)
    (hm : m.getMsbD x = true)
    (hc : ∀ u w, c.lit u w = if (u, w) = (x, y) then !b.lit x y else b.lit u w) :
    c.toggle y (m &&& ~~~PixelRow.dot x) = b.toggle y m ∧
      (b.lit x y || (c.row y &&& (m &&& ~~~PixelRow.dot x) != 0)) = (b.row y &&& m != 0) := by
  constructor
  · apply Bitmap.ext_lit
    intro u w _ _
    rw [Bitmap.lit_toggle c _ hy, Bitmap.lit_toggle b _ hy, hc, PixelRow.getMsbD_and_not_dot m hx]
    by_cases hux : u = x <;> by_cases hwy : w = y <;> simp [hux, hwy, hm]
  · have hsame : ∀ u, u ≠ x → (c.row y).getMsbD u = (b.row y).getMsbD u := by
      intro u hu
      have := hc u y
      rwa [if_neg (by simp [hu])] at this
    rw [Bool.eq_iff_iff, Bool.or_eq_true, PixelRow.and_ne_zero_iff, PixelRow.and_ne_zero_iff]
    simp only [PixelRow.getMsbD_and_not_dot m hx, Bool.and_eq_true, decide_eq_true_eq]
    constructor
    · intro found
      obtain h | ⟨u, hu, hmu, hux⟩ := found
      · exact ⟨x, h, hm⟩
      · exact ⟨u, hsame u hux ▸ hu, hmu⟩
    · intro found
      obtain ⟨u, hu, hmu⟩ := found
      by_cases hux : u = x
      · exact .inl (hux ▸ hu)
      · exact .inr ⟨u, (hsame u hux).symm ▸ hu, hmu, hux⟩

namespace Checked

/-- The pixels of a sprite row one after another, as far as the row reaches, and whether one of them
was on. -/
def drawBits (clips : Bool) (width left line : Nat) (pattern : UInt8) :
    List Nat → Bitmap → Bool → Checked (Bitmap × Bool)
  | [], b, hit => return (b, hit)
  | bit :: bits, b, hit => do
    match edge? clips width (← plus UInt64.size left bit) with
    | none => return (b, hit)
    | some x =>
      if pattern.toNat.testBit (← minus 7 bit) then
        let on ← pixel b x line
        drawBits clips width left line pattern bits (← setPixel b x line (!on)) (hit || on)
      else drawBits clips width left line pattern bits b hit

/-- The rows of a sprite one after another, as far as the sprite reaches. -/
def drawRows (m : Memory) (i : UInt16) (mode : Mode) (clips : Bool) (left top : Nat) :
    List Nat → Bitmap → Bool → Checked (Bitmap × Bool)
  | [], b, hit => return (b, hit)
  | row :: rows, b, hit => do
    match edge? clips mode.height (← plus UInt64.size top row) with
    | none => return (b, hit)
    | some line =>
      let pattern ← read m (i + UInt16.ofNat row)
      let drawn ← drawBits clips mode.width left line pattern (List.range 8) b hit
      drawRows m i mode clips left top rows drawn.1 drawn.2

/-- Drawn one by one, the pixels from one bit of a sprite row on are a mask. -/
theorem drawBits_range' (mode : Mode) (clips : Bool) {left line : Nat} (hl : left < mode.width)
    (hy : line < 64) (pattern : UInt8) (k n : Nat) (hk : k + n = 8) (b : Bitmap) (hit : Bool)
    (m : PixelRow) (hm : ∀ u, m.getMsbD u = true ↔ ∃ bit, k ≤ bit ∧ bit < 8 ∧
      edge? clips mode.width (left + bit) = some u ∧ pattern.toNat.testBit (7 - bit) = true) :
    drawBits clips mode.width left line pattern (List.range' k n) b hit =
      .ok (b.toggle line m, hit || (b.row line &&& m != 0)) := by
  have hw := mode.width_le
  have hw8 := mode.eight_le_width
  induction n generalizing k b hit m with
  | zero =>
    obtain ⟨ht, hr⟩ := b.toggle_none (m := m) hy (by
      intro u hu
      obtain ⟨bit, hge, hlt, _⟩ := (hm u).mp hu
      omega)
    rw [ht, hr, Bool.or_false]
    rfl
  | succ n ih =>
    rw [List.range'_succ, drawBits, plus_place (by simp only [UInt16.size]; omega), ok_bind]
    cases he : edge? clips mode.width (left + k) with
    | none =>
      -- a row that is cut off here has no pixels further on either
      obtain ⟨ht, hr⟩ := b.toggle_none (m := m) hy (by
        intro u hu
        obtain ⟨bit, hge, _, hb, _⟩ := (hm u).mp hu
        rw [edge?_none_of_le he (by omega)] at hb
        cases hb)
      rw [ht, hr, Bool.or_false]
      rfl
    | some x =>
      have hx := edge?_lt (by omega) he
      have hxw : x < 128 := by omega
      simp only [minus_eq (show k ≤ 7 by omega), ok_bind]
      by_cases ht : pattern.toNat.testBit (7 - k) = true
      · obtain ⟨c, hc, hlc⟩ := setPixel_eq b hxw hy (!b.lit x line)
        have hmx : m.getMsbD x = true := (hm x).mpr ⟨k, Nat.le_refl k, by omega, he, ht⟩
        -- the other pixels of the row stand elsewhere
        have hm' : ∀ u, (m &&& ~~~PixelRow.dot x).getMsbD u = true ↔
            ∃ bit, k + 1 ≤ bit ∧ bit < 8 ∧ edge? clips mode.width (left + bit) = some u ∧
              pattern.toNat.testBit (7 - bit) = true := by
          intro u
          rw [PixelRow.getMsbD_and_not_dot m hxw, Bool.and_eq_true, decide_eq_true_eq, hm]
          constructor
          · intro found
            obtain ⟨⟨bit, hge, hlt, hb, hbt⟩, hux⟩ := found
            refine ⟨bit, ?_, hlt, hb, hbt⟩
            rcases Nat.eq_or_lt_of_le hge with rfl | h
            · exact absurd (Option.some.inj (hb.symm.trans he)) hux
            · exact h
          · intro found
            obtain ⟨bit, hge, hlt, hb, hbt⟩ := found
            refine ⟨⟨bit, by omega, hlt, hb, hbt⟩, ?_⟩
            rintro rfl
            exact edge?_ne (by omega) (by omega) (by omega) he hb
        rw [if_pos ht, pixel_eq b hxw hy, ok_bind, hc, ok_bind,
          ih (k + 1) (by omega) c _ _ hm']
        obtain ⟨htoggle, hmet⟩ := Bitmap.toggle_one hxw hy hmx hlc
        rw [htoggle, Bool.or_assoc, hmet]
      · rw [if_neg ht]
        apply ih (k + 1) (by omega)
        intro u
        rw [hm]
        constructor
        · intro found
          obtain ⟨bit, hge, hlt, hb, hbt⟩ := found
          refine ⟨bit, ?_, hlt, hb, hbt⟩
          rcases Nat.eq_or_lt_of_le hge with rfl | h
          · exact absurd hbt ht
          · exact h
        · intro found
          obtain ⟨bit, hge, h⟩ := found
          exact ⟨bit, by omega, h⟩

/-- Drawn one by one, the pixels of a sprite row are its span. -/
theorem drawBits_eq (mode : Mode) (clips : Bool) {left line : Nat} (hl : left < mode.width)
    (hy : line < 64) (pattern : UInt8) (b : Bitmap) (hit : Bool) :
    drawBits clips mode.width left line pattern (List.range 8) b hit =
      .ok (b.toggle line (mode.span clips left pattern),
        hit || (b.row line &&& mode.span clips left pattern != 0)) := by
  rw [List.range_eq_range']
  apply drawBits_range' mode clips hl hy pattern 0 8 rfl
  intro u
  rw [mode.getMsbD_span clips hl]
  simp only [Nat.zero_le, true_and]

/-- Of a sprite that is cut off at a row, nothing below is drawn. -/
theorem blit_none (mode : Mode) (clips : Bool) (left : Nat) (sprite : List UInt8) (y : Nat)
    (b : Bitmap) (h : edge? clips mode.height y = none) :
    b.blit mode clips left sprite y = (b, false) := by
  induction sprite generalizing y with
  | nil => rfl
  | cons pattern below ih =>
    have hline : mode.line? clips y = none := h
    rw [Bitmap.blit, hline]
    exact ih (y + 1) (edge?_none_of_le h (Nat.le_succ y))

/-- Drawn one by one, the rows of a sprite from one on are a block of bytes. -/
theorem drawRows_range' (mem : Memory) (i : UInt16) (mode : Mode) (clips : Bool) {left top : Nat}
    (hl : left < mode.width) (ht : top < mode.height) (k n : Nat) (hn : k + n < 256)
    (b : Bitmap) (hit : Bool) :
    drawRows mem i mode clips left top (List.range' k n) b hit =
      let sprite := (List.range' k n).map fun j => mem.read (i + UInt16.ofNat j)
      .ok ((Bitmap.blit mode clips left sprite (top + k) b).1,
        hit || (Bitmap.blit mode clips left sprite (top + k) b).2) := by
  have hh := mode.height_le
  induction n generalizing k b hit with
  | zero =>
    change Except.ok (b, hit) = Except.ok (b, hit || false)
    rw [Bool.or_false]
  | succ n ih =>
    rw [List.range'_succ, drawRows, plus_place (by simp only [UInt16.size]; omega), ok_bind,
      List.map_cons]
    dsimp only
    cases he : edge? clips mode.height (top + k) with
    | none =>
      rw [blit_none mode clips left _ _ b he, Bool.or_false]
      rfl
    | some line =>
      have hy := edge?_lt mode.height_pos he
      have hline : mode.line? clips (top + k) = some line := he
      simp only [read_eq, ok_bind, drawBits_eq mode clips hl (show line < 64 by omega),
        Bitmap.blit, hline]
      rw [ih (k + 1) (by omega)]
      simp only [Bool.or_assoc]
      rfl

end Checked
end ChipMachine
