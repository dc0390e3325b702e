import ChipMachine.Memory

namespace ChipMachine

namespace Checked

/-- A check that failed. -/
inductive Trip where
  /-- An access past the last of so many places. -/
  | index (place size : Nat)
  /-- A sum or product that is not below so many values. -/
  | overflow (size : Nat)
  /-- A difference below zero. -/
  | underflow
  deriving DecidableEq

end Checked

/-- What a computation with every check made comes to, or the first check that failed in it. -/
abbrev Checked (α : Type) := Except Checked.Trip α

namespace Checked

variable {α β : Type} {n : Nat}

def get (xs : Vector α n) (k : Nat) : Checked α :=
  if h : k < n then .ok xs[k] else .error (.index k n)

def set (xs : Vector α n) (k : Nat) (a : α) : Checked (Vector α n) :=
  if h : k < n then .ok (xs.set k a) else .error (.index k n)

def plus (size a b : Nat) : Checked Nat :=
  if a + b < size then .ok (a + b) else .error (.overflow size)

def times (size a b : Nat) : Checked Nat :=
  if a * b < size then .ok (a * b) else .error (.overflow size)

def minus (a b : Nat) : Checked Nat := if b ≤ a then .ok (a - b) else .error .underflow

/-- Values go to consecutive places. -/
def copy : List α → Nat → Vector α n → Checked (Vector α n)
  | [], _, xs => .ok xs
  | a :: as, k, xs => do copy as (k + 1) (← set xs k a)

/-- The byte that an address names. -/
def read (m : Memory) (address : UInt16) : Checked UInt8 :=
  get m.bytes (address.toNat % Memory.size)

def write (m : Memory) (address : UInt16) (b : UInt8) : Checked Memory := do
  return ⟨← set m.bytes (address.toNat % Memory.size) b⟩

@[simp] theorem ok_bind (a : α) (f : α → Checked β) : (Except.ok a >>= f : Checked β) = f a := rfl

theorem get_eq (xs : Vector α n) {k : Nat} (h : k < n) : get xs k = .ok xs[k] := dif_pos h

theorem set_eq (xs : Vector α n) {k : Nat} (h : k < n) (a : α) : set xs k a = .ok (xs.set k a) :=
  dif_pos h

@[simp] theorem get_fin (xs : Vector α n) (k : Fin n) : get xs k.val = .ok (xs.get k) :=
  get_eq xs k.isLt

@[simp] theorem set_fin (xs : Vector α n) (k : Fin n) (a : α) :
    set xs k.val a = .ok (xs.set k a) := set_eq xs k.isLt a

theorem plus_eq {size a b : Nat} (h : a + b < size) : plus size a b = .ok (a + b) := if_pos h

/-- Places on the screen and in memory are far from the limit of 64 bits. -/
theorem plus_place {a b : Nat} (h : a + b < UInt16.size) : plus UInt64.size a b = .ok (a + b) :=
  plus_eq (Nat.lt_trans h (by decide))

theorem times_eq {size a b : Nat} (h : a * b < size) : times size a b = .ok (a * b) := if_pos h

theorem minus_eq {a b : Nat} (h : b ≤ a) : minus a b = .ok (a - b) := if_pos h

@[simp] theorem read_eq (m : Memory) (address : UInt16) : read m address = .ok (m.read address) :=
  get_fin m.bytes (Memory.cell address)

@[simp] theorem write_eq (m : Memory) (address : UInt16) (b : UInt8) :
    write m address b = .ok (m.write address b) := by
  have h := set_fin m.bytes (Memory.cell address) b
  change (do return ⟨← set m.bytes (Memory.cell address).val b⟩ : Checked Memory) = _
  rw [h]
  rfl

theorem copy_eq (as : List α) (k : Nat) (xs : Vector α n) (h : k + as.length ≤ n) :
    copy as k xs = .ok (Vector.ofFn fun j =>
      if k ≤ j.val then as[j.val - k]?.getD xs[j] else xs[j]) := by
  induction as generalizing k xs with
  | nil => simp [copy]
  | cons a as ih =>
    have hk : k < n := by simp only [List.length_cons] at h; omega
    rw [copy, set_eq xs hk, ok_bind, ih (k + 1) _ (by simp only [List.length_cons] at h; omega)]
    refine congrArg Except.ok (Vector.ext ?_)
    intro j hj
    simp only [Vector.getElem_ofFn, Fin.getElem_fin, Vector.getElem_set]
    rcases Nat.lt_trichotomy j k with hjk | rfl | hjk
    · rw [if_neg (by omega), if_neg (by omega), if_neg (by omega)]
    · rw [if_neg (by omega), if_pos rfl, if_pos (Nat.le_refl j), Nat.sub_self]
      rfl
    · obtain ⟨i, hi⟩ : ∃ i, j - k = i + 1 := ⟨j - k - 1, by omega⟩
      rw [if_pos (by omega), if_neg (by omega), if_pos (by omega), hi,
        show j - (k + 1) = i by omega, List.getElem?_cons_succ]

/-- Values that are found one by one and put one by one into their places are a copy. -/
theorem set_block {f : Nat → Checked α} {g : Nat → α} (start count : Nat)
    (hf : ∀ k, start ≤ k → k < start + count → f k = .ok (g k)) (xs : Vector α n) :
    (List.range' start count).foldlM (fun xs k => do set xs k (← f k)) xs =
      copy ((List.range' start count).map g) start xs := by
  induction count generalizing start xs with
  | zero => rfl
  | succ count ih =>
    rw [List.range'_succ, List.foldlM_cons, hf start (Nat.le_refl _) (by omega), ok_bind,
      List.map_cons, copy]
    exact bind_congr fun _ => ih (start + 1) (fun k hk hk' => hf k (by omega) (by omega)) _

/-- Bytes that are found one by one and written one by one from an address on are a block. -/
theorem write_block {f : Nat → Checked UInt8} {g : Nat → UInt8} (address : UInt16)
    (start count : Nat) (hf : ∀ k, start ≤ k → k < start + count → f k = .ok (g k)) (m : Memory) :
    (List.range' start count).foldlM
        (fun m k => do write m (address + UInt16.ofNat k) (← f k)) m =
      .ok (m.writeBlock ((List.range' start count).map g) (address + UInt16.ofNat start)) := by
  induction count generalizing start m with
  | zero => rfl
  | succ count ih =>
    have hs : address + UInt16.ofNat start + 1 = address + UInt16.ofNat (start + 1) := by
      rw [UInt16.add_assoc, UInt16.ofNat_add]
      rfl
    rw [List.range'_succ, List.foldlM_cons, hf start (Nat.le_refl _) (by omega), ok_bind, write_eq,
      ok_bind, ih (start + 1) (fun k hk hk' => hf k (by omega) (by omega)), List.map_cons,
      Memory.writeBlock, hs]

end Checked
end ChipMachine
