import ChipMachine.Screen.Texture

namespace ChipMachine.Texture

/-- Bytes from the place `start` on, counted from `n`, and everything else as it was. -/
theorem foldl_store_getElem? (start : Nat) (bs : List UInt8) (n : Nat) (buffer : Array UInt8)
    (h : start + n + bs.length ≤ buffer.size) (j : Nat) :
    ((bs.zipIdx n).foldl (fun a (b, k) => a.setIfInBounds (start + k) b) buffer)[j]? =
      if start + n ≤ j ∧ j < start + n + bs.length then bs[j - (start + n)]? else buffer[j]? := by
  induction bs generalizing n buffer with
  | nil => exact (if_neg (by rw [List.length_nil]; omega)).symm
  | cons b bs ih =>
    rw [List.length_cons] at h
    rw [List.zipIdx_cons, List.foldl_cons, ih (n + 1) _ (by simp; omega),
      Array.getElem?_setIfInBounds]
    by_cases hj : j = start + n
    · subst hj
      rw [if_neg (by omega), if_pos rfl, if_pos (by omega), if_pos (by simp), Nat.sub_self,
        List.getElem?_cons_zero]
    · by_cases hlt : start + n ≤ j ∧ j < start + n + (b :: bs).length
      · rw [if_pos hlt, if_pos (by simp at hlt; omega),
          show j - (start + n) = j - (start + (n + 1)) + 1 by omega, List.getElem?_cons_succ]
      · rw [if_neg hlt, if_neg (by simp at hlt; omega), if_neg (Ne.symm hj)]

theorem size_foldl_store (start : Nat) (bs : List UInt8) (n : Nat) (buffer : Array UInt8) :
    ((bs.zipIdx n).foldl (fun a (b, k) => a.setIfInBounds (start + k) b) buffer).size =
      buffer.size := by
  induction bs generalizing n buffer with
  | nil => rfl
  | cons b bs ih => rw [List.zipIdx_cons, List.foldl_cons, ih, Array.size_setIfInBounds]

theorem store_spec (buffer : Array UInt8) (start : Nat) (bs : List UInt8)
    (h : start + bs.length ≤ buffer.size) :
    ∃ out, store buffer start bs = some out ∧ out.size = buffer.size ∧
      ∀ j, out[j]? =
        if start ≤ j ∧ j < start + bs.length then bs[j - start]? else buffer[j]? := by
  refine ⟨_, if_pos h, size_foldl_store start bs 0 buffer, ?_⟩
  exact foldl_store_getElem? start bs 0 buffer h

/-- Rows that fit are all stored, each at its place, and the bytes between them stay. -/
theorem upload_spec {width pitch : Nat} (hpitch : width ≤ pitch) (rows : List (List UInt8))
    (hrows : ∀ row ∈ rows, row.length = width) (start : Nat) (buffer : Array UInt8)
    (h : start + pitch * rows.length ≤ buffer.size) :
    ∃ out, upload pitch rows start buffer = some out ∧ out.size = buffer.size ∧
      (∀ y c, ∀ hy : y < rows.length, c < width → out[start + pitch * y + c]? = rows[y][c]?) ∧
      ∀ j, (∀ y c, y < rows.length → c < width → j ≠ start + pitch * y + c) →
        out[j]? = buffer[j]? := by
  induction rows generalizing start buffer with
  | nil => exact ⟨buffer, rfl, rfl, by simp, fun _ _ => rfl⟩
  | cons row rows ih =>
    obtain ⟨hrow, hrows⟩ := List.forall_mem_cons.mp hrows
    rw [List.length_cons, Nat.mul_succ] at h
    obtain ⟨first, hfirst, hsize, hread⟩ :=
      store_spec buffer start row (by omega)
    obtain ⟨out, hout, hsize', hrest, hother⟩ := ih hrows (start + pitch) first (by omega)
    refine ⟨out, ?_, hsize'.trans hsize, ?_, ?_⟩
    · rw [upload, hfirst]
      exact hout
    · intro y c hy hc
      cases y with
      | zero =>
        -- the later rows begin behind this one
        rw [Nat.mul_zero, Nat.add_zero, hother _ fun y c' _ _ => by omega, hread,
          if_pos (by omega), Nat.add_sub_cancel_left]
        rfl
      | succ y =>
        have hplace : start + pitch * (y + 1) + c = start + pitch + pitch * y + c := by
          rw [Nat.mul_succ]; omega
        rw [hplace]
        exact hrest y c (Nat.lt_of_succ_lt_succ hy) hc
    · intro j hj
      have hlater : ∀ y c, y < rows.length → c < width → j ≠ start + pitch + pitch * y + c := by
        intro y c hy hc
        have := hj (y + 1) c (Nat.succ_lt_succ hy) hc
        rw [Nat.mul_succ] at this
        omega
      have hhere : ¬ (start ≤ j ∧ j < start + row.length) := by
        rintro ⟨hle, hlt⟩
        exact hj 0 (j - start) (Nat.succ_pos _) (by omega) (by omega)
      rw [hother j hlater, hread, if_neg hhere]

/-- What is shown of uploaded rows is the rows, whatever lies between them. -/
theorem visible_upload {width pitch : Nat} (hpitch : width ≤ pitch) (rows : List (List UInt8))
    (hrows : ∀ row ∈ rows, row.length = width) :
    ∃ out, upload pitch rows 0 (Array.replicate (pitch * rows.length) 0) = some out ∧
      visible width rows.length pitch out = rows.flatten := by
  obtain ⟨out, hout, hsize, hread, _⟩ := upload_spec hpitch rows hrows 0
    (Array.replicate (pitch * rows.length) 0) (by simp)
  refine ⟨out, hout, ?_⟩
  rw [visible, List.flatMap_def]
  congr 1
  apply List.ext_getElem (by simp)
  intro y hy hy'
  rw [List.getElem_map, List.getElem_range]
  apply List.ext_getElem?
  intro c
  have hrow : rows[y].length = width := hrows _ (List.getElem_mem hy')
  have hfits : y * pitch + width ≤ out.size := by
    rw [hsize, Array.size_replicate]
    calc y * pitch + width ≤ y * pitch + pitch := Nat.add_le_add_left hpitch _
      _ = (y + 1) * pitch := (Nat.succ_mul ..).symm
      _ ≤ rows.length * pitch := Nat.mul_le_mul_right _ hy'
      _ = pitch * rows.length := Nat.mul_comm ..
  rw [Array.getElem?_toList, Array.getElem?_extract]
  by_cases hc : c < width
  · have hplace := hread y c hy' hc
    rw [Nat.zero_add, Nat.mul_comm] at hplace
    rw [if_pos (by omega), hplace]
  · rw [if_neg (by omega), List.getElem?_eq_none (by omega)]

section
variable (palette : Palette) (mode : Mode) (b : Bitmap)

theorem length_lines : (lines palette mode b).length = mode.height := by simp [lines]

theorem length_of_mem_lines : ∀ row ∈ lines palette mode b, row.length = depth * mode.width := by
  intro row hrow
  obtain ⟨y, _, rfl⟩ := List.mem_map.mp hrow
  exact length_line palette mode b y

/-- The picture of a screen arrives as it was made, however the rows of the buffer are padded. -/
theorem upload_lines (padding : Nat) :
    let rowBytes := depth * mode.width
    let pitch := rowBytes + padding
    ∃ buffer, upload pitch (lines palette mode b) 0 (Array.replicate (pitch * mode.height) 0) =
        some buffer ∧
      visible rowBytes mode.height pitch buffer = bytes palette mode b := by
  intro rowBytes pitch
  have hvisible := visible_upload (Nat.le_add_right rowBytes padding) _
    (length_of_mem_lines palette mode b)
  rwa [length_lines] at hvisible

end

end ChipMachine.Texture
