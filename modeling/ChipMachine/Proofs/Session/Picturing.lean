import ChipMachine.Proofs.Checked.Sprite
import ChipMachine.Proofs.Session.Uploading
import Mathlib.Algebra.BigOperators.Group.List.Lemmas

namespace ChipMachine

theorem Colour.bytes_inj {c c' : Colour} (h : c.bytes = c'.bytes) : c = c' := by
  obtain ⟨red, green, blue⟩ := c
  obtain ⟨red', green', blue'⟩ := c'
  simp only [bytes, List.cons.injEq, and_true] at h
  obtain ⟨rfl, rfl, rfl⟩ := h
  rfl

theorem Palette.colour_inj {p : Palette} {lit lit' : Bool} (h : p.colour lit = p.colour lit') :
    lit = lit' := by
  cases lit <;> cases lit'
  · rfl
  · exact absurd h.symm p.ink_ne_paper
  · exact absurd h p.ink_ne_paper
  · rfl

namespace Texture

section
variable {α : Type} {n : Nat} {pieces : List (List α)}

theorem length_flatten_pieces (h : ∀ piece ∈ pieces, piece.length = n) :
    pieces.flatten.length = n * pieces.length := by
  rw [List.length_flatten, List.map_congr_left h, List.map_const', List.sum_replicate_nat,
    Nat.mul_comm]

/-- Of pieces of one length that were put together, each is found again. -/
theorem take_drop_flatten (h : ∀ piece ∈ pieces, piece.length = n) (k : Nat)
    (hk : k < pieces.length) : (pieces.flatten.drop (n * k)).take n = pieces[k] := by
  have hbefore : ∀ j ≤ pieces.length, ((pieces.map List.length).take j).sum = n * j := by
    intro j hj
    have hpieces : ∀ piece ∈ pieces.take j, piece.length = n := fun piece hpiece =>
      h piece (List.mem_of_mem_take hpiece)
    rw [← List.map_take, ← List.length_flatten, length_flatten_pieces hpieces, List.length_take,
      Nat.min_eq_left hj]
  have hpiece := List.drop_take_succ_flatten_eq_getElem pieces k hk
  rwa [hbefore (k + 1) hk, hbefore k (Nat.le_of_lt hk), List.drop_take, Nat.mul_succ,
    Nat.add_sub_cancel_left] at hpiece

end

section
variable (palette : Palette) (mode : Mode) (b : Bitmap)

theorem length_bytes : (bytes palette mode b).length = depth * mode.width * mode.height := by
  rw [bytes, length_flatten_pieces (length_of_mem_lines palette mode b), length_lines]

/-- Each row of the screen is a piece of the texture. -/
theorem take_drop_bytes {y : Nat} (hy : y < mode.height) :
    ((bytes palette mode b).drop (depth * mode.width * y)).take (depth * mode.width) =
      line palette mode b y := by
  have hrow : y < (lines palette mode b).length := by rwa [length_lines]
  rw [bytes, take_drop_flatten (length_of_mem_lines palette mode b) y hrow]
  simp [lines]

theorem lines_eq : lines palette mode b = (List.range mode.height).map fun y =>
    ((bytes palette mode b).drop (depth * mode.width * y)).take (depth * mode.width) := by
  refine List.map_congr_left fun y hy => ?_
  exact (take_drop_bytes palette mode b (List.mem_range.mp hy)).symm

theorem take_drop_line {x : Nat} (hx : x < mode.width) (y : Nat) :
    ((line palette mode b y).drop (depth * x)).take depth = (palette.colour (b.lit x y)).bytes := by
  have hpixels : ∀ pixel ∈ (List.range mode.width).map fun x => (palette.colour (b.lit x y)).bytes,
      pixel.length = depth := by
    intro pixel hpixel
    obtain ⟨x, _, rfl⟩ := List.mem_map.mp hpixel
    rfl
  rw [line, List.flatMap_def, take_drop_flatten hpixels x (by simpa using hx)]
  simp

/-- Each pixel of the active part of the screen is three bytes of the texture. -/
theorem take_drop_pixel {x y : Nat} (hx : x < mode.width) (hy : y < mode.height) :
    ((bytes palette mode b).drop (depth * (y * mode.width + x))).take depth =
      (palette.colour (b.lit x y)).bytes := by
  have hplace : depth * (y * mode.width + x) = depth * mode.width * y + depth * x := by
    rw [Nat.mul_add, Nat.mul_comm y, Nat.mul_assoc]
  have hfits : depth ≤ depth * mode.width - depth * x := by
    rw [← Nat.mul_sub]
    exact Nat.le_mul_of_pos_right depth (Nat.sub_pos_of_lt hx)
  rw [← take_drop_line palette mode b hx, ← take_drop_bytes palette mode b hy, List.drop_take,
    List.take_take, Nat.min_eq_left hfits, List.drop_drop, hplace]

variable {b} in
/-- A texture shows the active part of the screen, all of it and nothing else. -/
theorem bytes_eq_iff {b' : Bitmap} : bytes palette mode b' = bytes palette mode b ↔
    ∀ x y, x < mode.width → y < mode.height → b'.lit x y = b.lit x y := by
  constructor
  · intro h x y hx hy
    have hpixel := take_drop_pixel palette mode b' hx hy
    rw [h, take_drop_pixel palette mode b hx hy] at hpixel
    exact (Palette.colour_inj (Colour.bytes_inj hpixel)).symm
  · intro h
    have hline : ∀ y ∈ List.range mode.height, line palette mode b' y = line palette mode b y := by
      intro y hy
      rw [line, line, List.flatMap_def, List.flatMap_def]
      refine congrArg List.flatten (List.map_congr_left fun x hx => ?_)
      rw [h x y (List.mem_range.mp hx) (List.mem_range.mp hy)]
    rw [bytes, bytes, lines, lines, List.map_congr_left hline]

end

/-- Where each pixel stands in a texture, and each byte of a texture in a buffer of the same height
that is wide enough for its rows. The rows that go into the buffer are the texture cut into pieces;
they all fit, and whatever lies between them stays. -/
theorem layout_of_texture (palette : Palette) (mode : Mode) (b : Bitmap) :
    let texture := bytes palette mode b
    let rowBytes := depth * mode.width
    texture.length = rowBytes * mode.height ∧
    (∀ x y, x < mode.width → y < mode.height →
      let pixel := (texture.drop (depth * (y * mode.width + x))).take depth
      pixel = (if b.lit x y then palette.ink else palette.paper).bytes ∧
        (pixel = palette.ink.bytes ↔ b.lit x y = true)) ∧
    (∀ b', bytes palette mode b' = texture ↔
      ∀ x y, x < mode.width → y < mode.height → b'.lit x y = b.lit x y) ∧
    lines palette mode b =
      (List.range mode.height).map (fun y => (texture.drop (rowBytes * y)).take rowBytes) ∧
    ∀ pitch (buffer : Array UInt8), rowBytes ≤ pitch → buffer.size = pitch * mode.height →
      ∃ out, upload pitch (lines palette mode b) 0 buffer = some out ∧ out.size = buffer.size ∧
        (∀ y c, y < mode.height → c < rowBytes →
          out[pitch * y + c]? = texture[rowBytes * y + c]?) ∧
        ∀ j, (∀ y c, y < mode.height → c < rowBytes → j ≠ pitch * y + c) →
          out[j]? = buffer[j]? := by
  intro texture rowBytes
  refine ⟨length_bytes palette mode b, fun x y hx hy => ?_, fun b' => bytes_eq_iff palette mode,
    lines_eq palette mode b, fun pitch buffer hpitch hbuffer => ?_⟩
  · have hpixel := take_drop_pixel palette mode b hx hy
    refine ⟨hpixel, ?_⟩
    have hink : palette.ink = palette.colour true := rfl
    rw [hpixel, hink]
    exact ⟨fun h => Palette.colour_inj (Colour.bytes_inj h), fun h => by rw [h]⟩
  · have hheight := length_lines palette mode b
    have hrows := length_of_mem_lines palette mode b
    obtain ⟨out, hout, hsize, hread, hother⟩ := upload_spec hpitch _ hrows 0 buffer
      (Nat.le_of_eq (by rw [hheight, hbuffer, Nat.zero_add]))
    simp only [Nat.zero_add, hheight] at hread hother
    refine ⟨out, hout, hsize, fun y c hy hc => ?_, hother⟩
    rw [hread y c hy hc, ← take_drop_flatten hrows y (by rwa [hheight]),
      List.getElem?_take_of_lt hc, List.getElem?_drop]
    rfl

/-- One pixel is lit in the second row. Its first byte stands behind a row and the padding of a row,
and the padding is what it was. -/
theorem layout_of_texture_padded :
    let b := Bitmap.blank.toggle 1 (PixelRow.dot 2)
    let texture := bytes .yellow .low b
    let buffer := Array.replicate (200 * Mode.low.height) (7 : UInt8)
    depth * Mode.low.width ≤ 200 ∧ buffer.size = 200 * Mode.low.height ∧
      (texture.drop (depth * (1 * 64 + 2))).take depth = [255, 204, 1] ∧
      ∃ out, upload 200 (lines .yellow .low b) 0 buffer = some out ∧
        out[200 * 1 + 6]? = some 255 ∧ out[192]? = some 7 := by
  intro b texture buffer
  have hpitch : depth * Mode.low.width ≤ 200 := by decide
  have hbuffer : buffer.size = 200 * Mode.low.height := Array.size_replicate
  have hlit : b.lit 2 1 = true := by
    rw [Bitmap.lit_toggle _ _ (by decide), Bitmap.lit_blank]
    decide
  obtain ⟨_, hpixels, _, _, hupload⟩ := layout_of_texture .yellow .low b
  have hpixel : (texture.drop (depth * (1 * 64 + 2))).take depth = [255, 204, 1] :=
    (hpixels 2 1 (by decide) (by decide)).2.mpr hlit
  obtain ⟨out, hout, _, hread, hother⟩ := hupload 200 buffer hpitch hbuffer
  refine ⟨hpitch, hbuffer, hpixel, out, hout, ?_, ?_⟩
  · have hfirst := congrArg (·[0]?) hpixel
    simp only [List.getElem?_take_of_lt (show 0 < depth by decide), List.getElem?_drop] at hfirst
    rw [hread 1 6 (by decide) (by decide)]
    exact hfirst
  · have hpadding : ∀ y c, y < Mode.low.height → c < depth * Mode.low.width →
        192 ≠ 200 * y + c := by
      intro y c _ hc
      simp only [depth, Mode.width] at hc
      omega
    rw [hother 192 hpadding, Array.getElem?_replicate]
    rfl

end Texture
end ChipMachine
