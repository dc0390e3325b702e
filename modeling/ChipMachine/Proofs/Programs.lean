import ChipMachine.Proofs.Loading

namespace ChipMachine

open Memory (programStart programCapacity)

namespace ByteSource.Contents

/-- Whether a program can be loaded from it. A failure counts only where it is met. -/
def loads : Contents → Bool
  | failing bytes _ => programCapacity < bytes.length
  | _ => true

theorem loads_iff {c : Contents} :
    c.loads = true ↔ c.failure? = none ∨ (programCapacity : ℕ∞) < c.length := by
  cases c with
  | ended | endless => exact iff_of_true rfl (.inl rfl)
  | failing bytes reason =>
    have hfails : ¬ (failing bytes reason).failure? = none := Option.some_ne_none reason
    rw [or_iff_right hfails]
    exact decide_eq_true_iff.trans Nat.cast_lt.symm

theorem failing_of_loads_eq_false {c : Contents} (h : c.loads = false) :
    ∃ reason, c.failure? = some reason ∧ c.length ≤ (programCapacity : ℕ∞) := by
  have hnot := mt loads_iff.mpr (ne_true_of_eq_false h)
  rw [not_or, not_lt] at hnot
  obtain ⟨reason, hreason⟩ := Option.ne_none_iff_exists'.mp hnot.1
  exact ⟨reason, hreason, hnot.2⟩

end ByteSource.Contents

namespace Operation

def isClear : Operation → Bool
  | .clearProgram => true
  | _ => false

/-- The program that the operation brings into memory, with all its bytes, also those that do not
fit. -/
def program? : Operation → Option ByteSource.Contents
  | .load source => if source.contents.loads then some source.contents else none
  | _ => none

/-- The programs that lie over each other in memory, the latest on top: those loaded since memory
was cleared. -/
def laid (ops : List Operation) : List ByteSource.Contents :=
  (ops.reverse.takeWhile fun op => !op.isClear).filterMap program?

/-- What the operation stores as byte `k` of the program area. -/
def stored? (k : Nat) : Operation → Option UInt8
  | .clearProgram => some 0
  | op => op.program?.bind (·.byte? k)

/-- Programs below a clear do not show, and where no program is above it the zeros do. -/
theorem findSome?_stored? (k : Nat) (ops : List Operation) :
    (ops.reverse.findSome? (stored? k)).getD 0 = ((laid ops).findSome? (·.byte? k)).getD 0 := by
  rw [laid]
  generalize ops.reverse = latest
  induction latest with
  | nil => rfl
  | cons op earlier ih =>
    cases op with
    | clearProgram => rfl
    | load source =>
      have hstored : stored? k (.load source) = (program? (.load source)).bind (·.byte? k) := rfl
      rw [List.findSome?_cons, List.takeWhile_cons_of_pos rfl, List.filterMap_cons, hstored]
      cases program? (.load source) with
      | none => exact ih
      | some program =>
        rw [Option.bind_some, List.findSome?_cons]
        cases program.byte? k with
        | none => exact ih
        | some b => rfl
    | _ => exact ih

end Operation

namespace Memory

variable (m : Memory) {j k : Nat}

theorem getElem?_overlay_program (program : List UInt8) (hk : k < programCapacity) :
    (m.overlay program).bytes[programStart + k]? =
      program[k]?.or m.bytes[programStart + k]? := by
  by_cases hp : k < program.length
  · rw [m.getElem?_overlay program hk hp, List.getElem?_eq_getElem hp, Option.some_or]
  · rw [List.getElem?_eq_none (Nat.le_of_not_lt hp), Option.none_or]
    exact m.getElem?_overlay_of_ne program fun i hi heq => hp (Nat.add_left_cancel heq ▸ hi)

theorem getElem?_overlay_below (program : List UInt8) (hj : j < programStart) :
    (m.overlay program).bytes[j]? = m.bytes[j]? :=
  m.getElem?_overlay_of_ne program fun k _ => Nat.ne_of_lt (Nat.lt_add_right k hj)

theorem lt_size (hk : k < programCapacity) : programStart + k < 4096 :=
  Nat.add_lt_of_lt_sub' hk

theorem getElem?_clearProgram (hk : k < programCapacity) :
    m.clearProgram.bytes[programStart + k]? = some 0 := by
  rw [Vector.getElem?_eq_getElem (lt_size hk), clearProgram, Vector.getElem_ofFn,
    if_pos (Nat.le_add_right ..)]

theorem getElem?_clearProgram_below (hj : j < programStart) :
    m.clearProgram.bytes[j]? = m.bytes[j]? := by
  have hsize : j < 4096 := Nat.lt_trans hj (by decide)
  rw [Vector.getElem?_eq_getElem hsize, Vector.getElem?_eq_getElem hsize, clearProgram,
    Vector.getElem_ofFn, if_neg (Nat.not_le_of_lt hj)]
  rfl

theorem getElem?_fresh (hj : j < 4096) : fresh.bytes[j]? = some (Font.glyphs[j]?.getD 0) := by
  rw [Vector.getElem?_eq_getElem hj, fresh, Vector.getElem_ofFn]
  rfl

theorem getElem?_fresh_program (hk : k < programCapacity) :
    fresh.bytes[programStart + k]? = some 0 := by
  have hfont : Font.glyphs.length ≤ programStart + k := Nat.le_add_right_of_le (by decide)
  rw [getElem?_fresh (lt_size hk), List.getElem?_eq_none hfont]
  rfl

end Memory

namespace Machine

/-- The second machine is the first one with some bytes stored in the program area. -/
structure Overlaid (m done : Machine) (stored? : Nat → Option UInt8) : Prop where
  rest : done = { m with core := { m.core with memory := done.core.memory } }
  below : ∀ j < programStart, done.core.memory.bytes[j]? = m.core.memory.bytes[j]?
  program : ∀ k < programCapacity, done.core.memory.bytes[programStart + k]? =
    (stored? k).or m.core.memory.bytes[programStart + k]?

variable {m m' m'' : Machine}

theorem Overlaid.refl (m : Machine) : m.Overlaid m fun _ => none :=
  ⟨rfl, fun _ _ => rfl, fun _ _ => rfl⟩

theorem Overlaid.trans {lower upper : Nat → Option UInt8} (h : m.Overlaid m' lower)
    (h' : m'.Overlaid m'' upper) : m.Overlaid m'' fun k => (upper k).or (lower k) := by
  refine ⟨?_, fun j hj => (h'.below j hj).trans (h.below j hj), fun k hk => ?_⟩
  · have hrest := h'.rest
    rw [h.rest] at hrest
    exact hrest
  · rw [h'.program k hk, h.program k hk, Option.or_assoc]

theorem load_overlaid (m : Machine) (source : ByteSource) :
    ((m.load source).answer.result = .ok () ↔ source.contents.loads = true) ∧
    m.Overlaid (m.load source).machine fun k =>
      (Operation.program? (.load source)).bind (·.byte? k) := by
  rw [Operation.program?]
  cases hloads : source.contents.loads with
  | false =>
    obtain ⟨reason, hreason, hfits⟩ :=
      ByteSource.Contents.failing_of_loads_eq_false hloads
    rw [m.load_refused hreason hfits]
    exact ⟨iff_of_false nofun nofun, .refl m⟩
  | true =>
    rw [m.load_done (ByteSource.Contents.loads_iff.mp hloads)]
    refine ⟨iff_of_true rfl rfl, rfl, fun j hj => Memory.getElem?_overlay_below _ _ hj,
      fun k hk => ?_⟩
    have hbyte := source.contents.getElem?_take programCapacity k
    rw [if_pos hk] at hbyte
    rw [if_pos rfl, Option.bind_some, ← hbyte]
    exact Memory.getElem?_overlay_program _ _ hk

theorem apply_overlaid (m : Machine) {op : Operation}
    (hop : op = .clearProgram ∨ ∃ source, op = .load source) :
    m.Overlaid (m.apply op).machine (op.stored? ·) := by
  obtain rfl | ⟨source, rfl⟩ := hop
  · exact ⟨rfl, fun j hj => Memory.getElem?_clearProgram_below _ hj,
      fun k hk => Memory.getElem?_clearProgram _ hk⟩
  · exact (m.load_overlaid source).2

theorem run_overlaid (m : Machine) {ops : List Operation}
    (hops : ∀ op ∈ ops, op = .clearProgram ∨ ∃ source, op = .load source) :
    m.Overlaid (m.run ops).machine fun k => ops.reverse.findSome? (Operation.stored? k) := by
  induction ops generalizing m with
  | nil => exact .refl m
  | cons op ops ih =>
    obtain ⟨hop, hops⟩ := List.forall_mem_cons.mp hops
    have h := (m.apply_overlaid hop).trans (ih (m.apply op).machine hops)
    simp only [List.reverse_cons, List.findSome?_append, List.findSome?_singleton]
    exact h

/-- Programs lie over each other: a byte is that of the latest program which is long enough, of
those that were loaded since the last clear, and zero where there is none. A load that fails brings
no program. The font and all the rest stay as they were. After a clear, nothing that was in the
program area before shows. -/
theorem programs_lie_over (config : Config) (entropy : Entropy) (ops : List Operation)
    (hops : ∀ op ∈ ops, op = .clearProgram ∨ ∃ source, op = .load source) :
    let start := fresh config entropy
    let done := (start.run ops).machine
    (∀ k < programCapacity, done.core.memory.bytes[programStart + k]? =
      some (((Operation.laid ops).findSome? (·.byte? k)).getD 0)) ∧
    (∀ j < programStart, done.core.memory.bytes[j]? = some (Font.glyphs[j]?.getD 0)) ∧
    done = { start with core := { start.core with memory := done.core.memory } } ∧
    (∀ (m : Machine) (source : ByteSource),
      (m.load source).answer.result = .ok () ↔ source.contents.loads = true) ∧
    ∀ (m m' : Machine) (source : ByteSource) (j : Nat), programStart ≤ j →
      let anew : List Operation := [.clearProgram, .load source]
      (m.run anew).machine.core.memory.bytes[j]? =
        (m'.run anew).machine.core.memory.bytes[j]? := by
  intro start done
  have h : start.Overlaid done _ := start.run_overlaid hops
  refine ⟨fun k hk => ?_, fun j hj => ?_, h.rest, fun m source => (m.load_overlaid source).1,
    fun m m' source j hj => ?_⟩
  · have hempty : start.core.memory.bytes[programStart + k]? = some 0 :=
      Memory.getElem?_fresh_program hk
    rw [h.program k hk, hempty, Option.or_some, Operation.findSome?_stored?]
  · rw [h.below j hj]
    exact Memory.getElem?_fresh (Nat.lt_trans hj (by decide))
  · intro anew
    have hanew : ∀ op ∈ anew, op = .clearProgram ∨ ∃ source, op = .load source := by
      intro op hop
      rcases List.mem_pair.mp hop with rfl | rfl
      · exact .inl rfl
      · exact .inr ⟨source, rfl⟩
    obtain ⟨k, rfl⟩ := Nat.exists_eq_add_of_le hj
    rcases Nat.lt_or_ge k programCapacity with hk | hk
    · -- the clear has stored a zero at least, so nothing below is seen
      have hcovered (x : Option UInt8) :
          (anew.reverse.findSome? (Operation.stored? k)).or x =
            some ((anew.reverse.findSome? (Operation.stored? k)).getD 0) := by
        have hlatest : anew.reverse = [.load source, .clearProgram] := rfl
        rw [hlatest, List.findSome?_cons]
        cases Operation.stored? k (.load source) <;> rfl
      rw [(m.run_overlaid hanew).program k hk, (m'.run_overlaid hanew).program k hk, hcovered,
        hcovered]
    · have hout : 4096 ≤ programStart + k := Nat.add_le_add_left hk programStart
      rw [Vector.getElem?_eq_none hout, Vector.getElem?_eq_none hout]

/-- Two bytes of the third program are left behind the fifth; the fourth fails, and the first is
from before the clear. -/
theorem programs_lie_over_stale :
    let ops : List Operation := [.load (.ofList [7, 7, 7, 7, 7, 7]), .clearProgram,
      .load (.ofList [1, 2, 3, 4]), .load (.piece 9 [9, 9] (.failed "broken")),
      .load (.ofList [5, 6])]
    let done := ((fresh .standard (.cycle [])).run ops).machine
    (∀ op ∈ ops, op = .clearProgram ∨ ∃ source, op = .load source) ∧
      (List.range 6).map (done.core.memory.bytes[programStart + ·]?) =
        [some 5, some 6, some 3, some 4, some 0, some 0] := by
  intro ops done
  have hops : ∀ op ∈ ops, op = .clearProgram ∨ ∃ source, op = .load source := by
    simp [ops]
  have hlaid : Operation.laid ops = [.ended [5, 6], .ended [1, 2, 3, 4]] := rfl
  obtain ⟨hbytes, -⟩ := programs_lie_over .standard (.cycle []) ops hops
  rw [hlaid] at hbytes
  have hshown : (List.range 6).map (done.core.memory.bytes[programStart + ·]?) =
      (List.range 6).map _ := List.map_congr_left fun k hk =>
    hbytes k (Nat.lt_trans (List.mem_range.mp hk) (by decide))
  exact ⟨hops, hshown.trans rfl⟩

end Machine
end ChipMachine
