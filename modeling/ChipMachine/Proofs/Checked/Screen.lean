import ChipMachine.Proofs.Checked.Basic
import ChipMachine.Screen.Scroll
import ChipMachine.Screen.Sprite

namespace ChipMachine

/-- The row in which one pixel alone is on. -/
def PixelRow.dot (x : Nat) : PixelRow := BitVec.twoPow 128 (127 - x)

theorem PixelRow.getMsbD_dot {x : Nat} (hx : x < 128) (u : Nat) :
    (dot x).getMsbD u = decide (u = x) := by
  rw [dot, BitVec.getMsbD_twoPow, Bool.eq_iff_iff]
  simp
  omega

theorem PixelRow.getMsbD_and_not_dot (m : PixelRow) {x : Nat} (hx : x < 128) (u : Nat) :
    (m &&& ~~~dot x).getMsbD u = (m.getMsbD u && decide (u ≠ x)) := by
  rw [BitVec.getMsbD_and, BitVec.getMsbD_not, getMsbD_dot hx]
  by_cases hu : u < 128
  · simp [hu]
  · simp [BitVec.getMsbD, hu]

namespace Checked

/-- Whether a pixel is on. -/
def pixel (b : Bitmap) (x y : Nat) : Checked Bool := do
  let row ← get b.rows y
  if x < 128 then return row.getMsbD x else throw (.index x 128)

/-- Turns a pixel on or off. -/
def setPixel (b : Bitmap) (x y : Nat) (on : Bool) : Checked Bitmap := do
  let row ← get b.rows y
  if x < 128 then
    return ⟨← set b.rows y (if on then row ||| .dot x else row &&& ~~~PixelRow.dot x)⟩
  else throw (.index x 128)

/-- A pixel that is on goes off, and on again in its new place if it has one. -/
def movePixel (target : Nat → Nat → Checked (Option (Nat × Nat))) (b : Bitmap) (p : Nat × Nat) :
    Checked Bitmap := do
  if ← pixel b p.1 p.2 then
    let b ← setPixel b p.1 p.2 false
    match ← target p.1 p.2 with
    | some q => setPixel b q.1 q.2 true
    | none => return b
  else return b

/-- Pixels move one after another, all on the same screen. -/
def sweep (target : Nat → Nat → Checked (Option (Nat × Nat))) (order : List (Nat × Nat))
    (b : Bitmap) : Checked Bitmap :=
  order.foldlM (movePixel target) b

/-- Places row after row. -/
def places (rows columns : List Nat) : List (Nat × Nat) :=
  rows.flatMap fun y => columns.map (·, y)

/-- From the bottom row up, so that no pixel meets one that still has to move down. -/
def scrollDown (b : Bitmap) (mode : Mode) (n : Nat) : Checked Bitmap :=
  sweep (fun x y => do
      let below ← plus UInt64.size y n
      return if below < mode.height then some (x, below) else none)
    (places (List.range mode.height).reverse (List.range mode.width)) b

/-- Each row from its right end. -/
def scrollRight (b : Bitmap) (mode : Mode) : Checked Bitmap :=
  sweep (fun x y => do
      let right ← plus UInt64.size x Bitmap.sideways
      return if right < mode.width then some (right, y) else none)
    (places (List.range mode.height) (List.range mode.width).reverse) b

/-- Each row from its left end. -/
def scrollLeft (b : Bitmap) (mode : Mode) : Checked Bitmap :=
  sweep (fun x y => do
      if Bitmap.sideways ≤ x then return some (← minus x Bitmap.sideways, y) else return none)
    (places (List.range mode.height) (List.range mode.width)) b

theorem pixel_eq (b : Bitmap) {x y : Nat} (hx : x < 128) (hy : y < 64) :
    pixel b x y = .ok (b.lit x y) := by
  rw [pixel, get_eq _ hy, ok_bind, if_pos hx, Bitmap.lit, Bitmap.row_of_lt _ hy]
  rfl

/-- Turning a pixel on or off succeeds on the screen and leaves all others as they are. -/
theorem setPixel_eq (b : Bitmap) {x y : Nat} (hx : x < 128) (hy : y < 64) (on : Bool) :
    ∃ c : Bitmap, setPixel b x y on = .ok c ∧
      ∀ u w, c.lit u w = if (u, w) = (x, y) then on else b.lit u w := by
  let row := if on then b.rows[y] ||| .dot x else b.rows[y] &&& ~~~PixelRow.dot x
  refine ⟨⟨b.rows.set y row⟩, ?_, fun u w => ?_⟩
  · rw [setPixel, get_eq _ hy, ok_bind, if_pos hx, set_eq _ hy]
    rfl
  by_cases hu : u < 128
  · by_cases hw : w < 64
    · by_cases hyw : w = y
      · subst hyw
        cases on <;> by_cases hux : u = x <;>
          simp [row, Bitmap.lit, Bitmap.row_of_lt _ hw, hu, hux, hx, PixelRow.getMsbD_dot]
      · have hne : ¬ y = w := fun h => hyw h.symm
        simp [Bitmap.lit, Bitmap.row_of_lt _ hw, hyw, hne]
    · have hne : (u, w) ≠ (x, y) := by rintro ⟨⟩; exact hw hy
      rw [if_neg hne, Bitmap.lit_eq_false_of_le _ (.inr (Nat.le_of_not_lt hw)),
        Bitmap.lit_eq_false_of_le _ (.inr (Nat.le_of_not_lt hw))]
  · have hne : (u, w) ≠ (x, y) := by rintro ⟨⟩; exact hu hx
    rw [if_neg hne, Bitmap.lit_eq_false_of_le _ (.inl (Nat.le_of_not_lt hu)),
      Bitmap.lit_eq_false_of_le _ (.inl (Nat.le_of_not_lt hu))]

section
variable {target : Nat → Nat → Checked (Option (Nat × Nat))} {dest : Nat × Nat → Option (Nat × Nat)}

theorem movePixel_eq (b : Bitmap) {p : Nat × Nat} (ht : target p.1 p.2 = .ok (dest p))
    (hp : p.1 < 128 ∧ p.2 < 64) (hq : ∀ q, dest p = some q → q.1 < 128 ∧ q.2 < 64) :
    ∃ c : Bitmap, movePixel target b p = .ok c ∧ ∀ u w, c.lit u w =
      if dest p = some (u, w) ∧ b.lit p.1 p.2 = true then true
      else if (u, w) = p then false else b.lit u w := by
  cases hl : b.lit p.1 p.2 with
  | false =>
    have hstays : movePixel target b p = .ok b := by
      rw [movePixel, pixel_eq b hp.1 hp.2, ok_bind, hl]
      rfl
    refine ⟨b, hstays, fun u w => ?_⟩
    split
    · rename_i h
      exact absurd h.2 Bool.false_ne_true
    · split
      · rename_i h
        subst h
        exact hl
      · rfl
  | true =>
    obtain ⟨c, hc, hlc⟩ := setPixel_eq b hp.1 hp.2 false
    cases hto : dest p with
    | none =>
      refine ⟨c, by simp [movePixel, pixel_eq b hp.1 hp.2, hl, hc, ht, hto], ?_⟩
      intro u w
      have hn : ¬ (none = some (u, w) ∧ true = true) := by simp
      rw [hlc, if_neg hn]
    | some q =>
      obtain ⟨d, hd, hld⟩ := setPixel_eq c (hq q hto).1 (hq q hto).2 true
      refine ⟨d, by simp [movePixel, pixel_eq b hp.1 hp.2, hl, hc, ht, hto, hd], ?_⟩
      intro u w
      rw [hld, hlc]
      by_cases h : q = (u, w)
      · rw [if_pos h.symm, if_pos ⟨congrArg some h, rfl⟩]
      · have hn : ¬ (some q = some (u, w) ∧ true = true) := fun hq => h (Option.some.inj hq.1)
        rw [if_neg (Ne.symm h), if_neg hn]

/-- A pixel moves exactly once if no pixel moves into a place that is visited after its own. -/
theorem sweep_eq (order : List (Nat × Nat)) (b : Bitmap)
    (ht : ∀ p ∈ order, target p.1 p.2 = .ok (dest p))
    (hp : ∀ p ∈ order, p.1 < 128 ∧ p.2 < 64)
    (hq : ∀ p ∈ order, ∀ q, dest p = some q → q.1 < 128 ∧ q.2 < 64)
    (past : order.Pairwise fun p q => p ≠ q ∧ dest p ≠ some q) :
    ∃ c : Bitmap, sweep target order b = .ok c ∧ ∀ u w, c.lit u w = true ↔
      ((u, w) ∉ order ∧ b.lit u w = true) ∨
      ∃ p ∈ order, dest p = some (u, w) ∧ b.lit p.1 p.2 = true := by
  induction order generalizing b with
  | nil => exact ⟨b, rfl, by simp⟩
  | cons p rest ih =>
    simp only [List.forall_mem_cons] at ht hp hq
    obtain ⟨hlater, past⟩ := List.pairwise_cons.mp past
    obtain ⟨c, hc, hlc⟩ := movePixel_eq b ht.1 hp.1 hq.1
    obtain ⟨d, hd, hld⟩ := ih c ht.2 hp.2 hq.2 past
    refine ⟨d, by rw [sweep, List.foldlM_cons, hc]; exact hd, ?_⟩
    intro u w
    -- the pixels still to be visited are as they were
    have hsame : ∀ r ∈ rest, c.lit r.1 r.2 = b.lit r.1 r.2 := by
      intro r hr
      obtain ⟨hne, hto⟩ := hlater r hr
      rw [hlc, if_neg (fun h => hto h.1), if_neg hne.symm]
    have hmoved : (∃ r ∈ rest, dest r = some (u, w) ∧ c.lit r.1 r.2 = true) ↔
        ∃ r ∈ rest, dest r = some (u, w) ∧ b.lit r.1 r.2 = true := by
      constructor
      · intro found
        obtain ⟨r, hr, h, hl⟩ := found
        exact ⟨r, hr, h, hsame r hr ▸ hl⟩
      · intro found
        obtain ⟨r, hr, h, hl⟩ := found
        exact ⟨r, hr, h, (hsame r hr).symm ▸ hl⟩
    rw [hld, hmoved, hlc]
    constructor
    · intro found
      obtain ⟨hm, hl⟩ | ⟨r, hr, h, hl⟩ := found
      · split at hl
        · rename_i h
          exact .inr ⟨p, List.mem_cons_self, h⟩
        · split at hl
          · cases hl
          · rename_i hne
            exact .inl ⟨by simp [hne, hm], hl⟩
      · exact .inr ⟨r, List.mem_cons_of_mem _ hr, h, hl⟩
    · intro found
      obtain ⟨hm, hl⟩ | ⟨r, hr, h, hl⟩ := found
      · simp only [List.mem_cons, not_or] at hm
        refine .inl ⟨hm.2, ?_⟩
        split
        · rfl
        · rw [if_neg hm.1, hl]
      · rcases List.mem_cons.mp hr with rfl | hr
        · refine .inl ⟨fun hm => (hlater _ hm).2 h, ?_⟩
          rw [if_pos ⟨h, hl⟩]
        · exact .inr ⟨r, hr, h, hl⟩

end

theorem mem_places {rows columns : List Nat} {p : Nat × Nat} :
    p ∈ places rows columns ↔ p.1 ∈ columns ∧ p.2 ∈ rows := by
  obtain ⟨x, y⟩ := p
  simp only [places, List.mem_flatMap, List.mem_map, Prod.mk.injEq]
  constructor
  · intro found
    obtain ⟨w, hw, u, hu, rfl, rfl⟩ := found
    exact ⟨hu, hw⟩
  · intro found
    obtain ⟨hx, hy⟩ := found
    exact ⟨y, hy, x, hx, rfl, rfl⟩

theorem pairwise_places {R : Nat × Nat → Nat × Nat → Prop} {rows columns : List Nat}
    (hrows : rows.Pairwise fun y w => ∀ x u, R (x, y) (u, w))
    (hcolumns : ∀ y, columns.Pairwise fun x u => R (x, y) (u, y)) :
    (places rows columns).Pairwise R := by
  rw [places, List.pairwise_flatMap]
  constructor
  · intro y _
    exact List.pairwise_map.mpr (hcolumns y)
  · refine hrows.imp ?_
    intro y w h p hp q hq
    obtain ⟨x, _, rfl⟩ := List.mem_map.mp hp
    obtain ⟨u, _, rfl⟩ := List.mem_map.mp hq
    exact h x u

/-- A sweep over the active part of the screen, row after row, is known by what it does there. -/
theorem sweep_places {target : Nat → Nat → Checked (Option (Nat × Nat))}
    (dest : Nat × Nat → Option (Nat × Nat)) (mode : Mode) {rows columns : List Nat}
    (b result : Bitmap)
    (hrows : ∀ y, y ∈ rows ↔ y < mode.height) (hcolumns : ∀ x, x ∈ columns ↔ x < mode.width)
    (ht : ∀ x y, x < mode.width → y < mode.height → target x y = .ok (dest (x, y)))
    (hq : ∀ x y u w, dest (x, y) = some (u, w) → x < mode.width ∧ y < mode.height →
      u < mode.width ∧ w < mode.height)
    (hdown : rows.Pairwise fun y w => y ≠ w ∧ ∀ x u, dest (x, y) ≠ some (u, w))
    (hacross : columns.Pairwise fun x u => x ≠ u ∧ ∀ y, dest (x, y) ≠ some (u, y))
    (inside : ∀ x y, x < mode.width ∧ y < mode.height → (result.lit x y = true ↔
      ∃ u w, (u < mode.width ∧ w < mode.height) ∧ dest (u, w) = some (x, y) ∧ b.lit u w = true))
    (outside : ∀ x y, ¬ (x < mode.width ∧ y < mode.height) → result.lit x y = b.lit x y) :
    sweep target (places rows columns) b = .ok result := by
  have hw := mode.width_le
  have hh := mode.height_le
  have active : ∀ p, p ∈ places rows columns ↔ p.1 < mode.width ∧ p.2 < mode.height := by
    intro p
    rw [mem_places, hcolumns, hrows]
  have hp : ∀ p ∈ places rows columns, p.1 < 128 ∧ p.2 < 64 := by
    intro p h
    have := (active p).mp h
    omega
  have past : (places rows columns).Pairwise fun p q => p ≠ q ∧ dest p ≠ some q := by
    apply pairwise_places
    · refine hdown.imp ?_
      intro y w h x u
      exact ⟨fun he => h.1 (congrArg Prod.snd he), h.2 x u⟩
    · intro y
      refine hacross.imp ?_
      intro x u h
      exact ⟨fun he => h.1 (congrArg Prod.fst he), h.2 y⟩
  obtain ⟨c, hc, hl⟩ := sweep_eq (places rows columns) b
    (fun p h => ht p.1 p.2 ((active p).mp h).1 ((active p).mp h).2) hp
    (fun p h q hto => hp q ((active q).mpr (hq p.1 p.2 q.1 q.2 hto ((active p).mp h)))) past
  have he : c = result := by
    apply Bitmap.ext_lit
    intro x y _ _
    rw [Bool.eq_iff_iff, hl]
    by_cases hm : x < mode.width ∧ y < mode.height
    · rw [inside x y hm]
      constructor
      · intro found
        obtain ⟨hn, _⟩ | ⟨p, h, hto, hlit⟩ := found
        · exact absurd ((active (x, y)).mpr hm) hn
        · exact ⟨p.1, p.2, (active p).mp h, hto, hlit⟩
      · intro found
        obtain ⟨u, w, h, hto, hlit⟩ := found
        exact .inr ⟨(u, w), (active (u, w)).mpr h, hto, hlit⟩
    · rw [outside x y hm]
      constructor
      · intro found
        obtain ⟨_, hlit⟩ | ⟨p, h, hto, _⟩ := found
        · exact hlit
        · exact absurd (hq p.1 p.2 x y hto ((active p).mp h)) hm
      · exact fun hlit => .inl ⟨fun h => hm ((active (x, y)).mp h), hlit⟩
  rw [hc, he]

/-- A pixel that moves only under a condition has moved where it was to go. -/
theorem moved_iff {c : Prop} [Decidable c] {x y u w : Nat} :
    (if c then some (x, y) else none) = some (u, w) ↔ c ∧ x = u ∧ y = w := by
  simp [Prod.ext_iff]

/-- The downward pass is the shift down. -/
theorem scrollDown_eq (b : Bitmap) (mode : Mode) {n : Nat} (hn : n < 256) :
    scrollDown b mode n = .ok (b.scrollDown mode n) := by
  have hh := mode.height_le
  apply sweep_places (fun p => if p.2 + n < mode.height then some (p.1, p.2 + n) else none) mode
  · simp
  · simp
  · intro x y _ hy
    rw [plus_place (by simp only [UInt16.size]; omega)]
    rfl
  · intro x y u w hto _
    rw [moved_iff] at hto
    omega
  · rw [List.pairwise_reverse]
    refine List.pairwise_lt_range.imp ?_
    intro w y hwy
    refine ⟨by omega, ?_⟩
    intro x u
    rw [Ne, moved_iff]
    omega
  · refine List.pairwise_lt_range.imp ?_
    intro x u hxu
    refine ⟨by omega, ?_⟩
    intro y
    rw [Ne, moved_iff]
    omega
  · intro x y hxy
    simp only [moved_iff]
    rw [Bitmap.lit_scrollDown, if_pos hxy, Bool.and_eq_true, decide_eq_true_eq]
    constructor
    · intro found
      obtain ⟨hle, hl⟩ := found
      exact ⟨x, y - n, by omega, by omega, hl⟩
    · intro found
      obtain ⟨u, w, _, ⟨_, rfl, rfl⟩, hl⟩ := found
      exact ⟨Nat.le_add_left .., by rwa [Nat.add_sub_cancel]⟩
  · intro x y hxy
    rw [Bitmap.lit_scrollDown, if_neg hxy]

/-- The pass to the right is the shift to the right. -/
theorem scrollRight_eq (b : Bitmap) (mode : Mode) :
    scrollRight b mode = .ok (b.scrollRight mode) := by
  have hw := mode.width_le
  have h4 : 0 < Bitmap.sideways := by decide
  apply sweep_places (fun p => if p.1 + Bitmap.sideways < mode.width then
    some (p.1 + Bitmap.sideways, p.2) else none) mode
  · simp
  · simp
  · intro x y hx _
    rw [plus_place (by simp only [Bitmap.sideways, UInt16.size]; omega)]
    rfl
  · intro x y u w hto _
    rw [moved_iff] at hto
    omega
  · refine List.pairwise_lt_range.imp ?_
    intro y w hyw
    refine ⟨by omega, ?_⟩
    intro x u
    rw [Ne, moved_iff]
    omega
  · rw [List.pairwise_reverse]
    refine List.pairwise_lt_range.imp ?_
    intro u x hux
    refine ⟨by omega, ?_⟩
    intro y
    rw [Ne, moved_iff]
    omega
  · intro x y hxy
    simp only [moved_iff]
    rw [Bitmap.lit_scrollRight, if_pos hxy, Bool.and_eq_true, decide_eq_true_eq]
    constructor
    · intro found
      obtain ⟨hle, hl⟩ := found
      exact ⟨x - Bitmap.sideways, y, by omega, by omega, hl⟩
    · intro found
      obtain ⟨u, w, _, ⟨_, rfl, rfl⟩, hl⟩ := found
      exact ⟨Nat.le_add_left .., by rwa [Nat.add_sub_cancel]⟩
  · intro x y hxy
    rw [Bitmap.lit_scrollRight, if_neg hxy]

/-- The pass to the left is the shift to the left. -/
theorem scrollLeft_eq (b : Bitmap) (mode : Mode) :
    scrollLeft b mode = .ok (b.scrollLeft mode) := by
  have h4 : 0 < Bitmap.sideways := by decide
  apply sweep_places (fun p => if Bitmap.sideways ≤ p.1 then
    some (p.1 - Bitmap.sideways, p.2) else none) mode
  · simp
  · simp
  · intro x y _ _
    split
    · rename_i h
      rw [minus_eq h]
      rfl
    · rfl
  · intro x y u w hto _
    rw [moved_iff] at hto
    omega
  · refine List.pairwise_lt_range.imp ?_
    intro y w hyw
    refine ⟨by omega, ?_⟩
    intro x u
    rw [Ne, moved_iff]
    omega
  · refine List.pairwise_lt_range.imp ?_
    intro x u hxu
    refine ⟨by omega, ?_⟩
    intro y
    rw [Ne, moved_iff]
    omega
  · intro x y hxy
    simp only [moved_iff]
    rw [Bitmap.lit_scrollLeft, if_pos hxy, Bool.and_eq_true, decide_eq_true_eq]
    constructor
    · intro found
      obtain ⟨hlt, hl⟩ := found
      exact ⟨x + Bitmap.sideways, y, by omega, by omega, hl⟩
    · intro found
      obtain ⟨u, w, _, ⟨hle, rfl, rfl⟩, hl⟩ := found
      have : u - Bitmap.sideways + Bitmap.sideways = u := Nat.sub_add_cancel hle
      exact ⟨by omega, by rwa [this]⟩
  · intro x y hxy
    rw [Bitmap.lit_scrollLeft, if_neg hxy]

end Checked
end ChipMachine
