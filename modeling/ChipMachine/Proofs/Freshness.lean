import ChipMachine.Proofs.Execution
import ChipMachine.Proofs.Run

namespace ChipMachine

/-- What can be seen in `t` is what could be seen in `s` unless `t` is marked, and a mark in `s` is
still there. -/
def Core.MarksChanges (s t : Core) : Prop :=
  t.dirty = true ∨ t.dirty = s.dirty ∧ t.bitmap = s.bitmap ∧ t.mode = s.mode

def Operation.isAcknowledge : Operation → Bool
  | .acknowledge => true
  | _ => false

namespace Core

variable {s t u : Core}

theorem MarksChanges.refl (s : Core) : s.MarksChanges s := .inr ⟨rfl, rfl, rfl⟩

theorem MarksChanges.trans (h : s.MarksChanges t) (h' : t.MarksChanges u) : s.MarksChanges u := by
  obtain hu | ⟨hdirty, hbitmap, hmode⟩ := h'
  · exact .inl hu
  · rw [MarksChanges, hdirty, hbitmap, hmode]
    exact h

/-- Whatever draws, scrolls, clears or switches marks the screen, and nothing takes a mark away. -/
theorem marksChanges_execute {i : Instruction} {chance : UInt8} (h : i.execute chance s = .ok t) :
    s.MarksChanges t := by
  cases i
  case ret =>
    obtain ⟨_, a, _, rfl⟩ := leave_ok h
    exact .inr ⟨rfl, rfl, rfl⟩
  case call a =>
    obtain ⟨_, rfl⟩ := enter_ok h
    exact .inr ⟨rfl, rfl, rfl⟩
  -- only these reach the screen or the mode
  case clear | scrollDown | scrollRight | scrollLeft | lowMode | highMode | draw =>
    obtain rfl := Except.ok.inj h
    exact .inl rfl
  case waitKey x =>
    obtain rfl := Except.ok.inj h
    simp only [waitKey]
    split <;> exact .inr ⟨rfl, rfl, rfl⟩
  case or | and | xor =>
    obtain rfl := Except.ok.inj h
    simp only [combine]
    split <;> exact .inr ⟨rfl, rfl, rfl⟩
  case skipIfByte | skipUnlessByte | skipIfEqual | skipUnlessEqual | skipIfDown | skipUnlessDown =>
    obtain rfl := Except.ok.inj h
    simp only [skipIf]
    split <;> exact .inr ⟨rfl, rfl, rfl⟩
  case load x =>
    obtain rfl := Except.ok.inj h
    simp only [MarksChanges, loadRegisters, and_self, or_true]
  all_goals
    obtain rfl := Except.ok.inj h
    exact .inr ⟨rfl, rfl, rfl⟩

end Core

namespace Machine

theorem marksChanges_step (m : Machine) : m.core.MarksChanges m.step.machine.core := by
  have hadvance : m.core.MarksChanges m.core.advance := .inr ⟨rfl, rfl, rfl⟩
  obtain ⟨_, hs⟩ | ⟨_, _, _, _, hs⟩ | ⟨i, t, _, he, hs⟩ := m.step_cases
  · rw [hs]
    exact hadvance
  · rw [hs]
    exact hadvance
  · rw [hs]
    exact hadvance.trans (Core.marksChanges_execute he)

theorem marksChanges_tick (m : Machine) : m.core.MarksChanges m.tick.machine.core := by
  rw [tick_machine]
  refine batch_preserves (P := fun t => m.core.MarksChanges t.core) ?_ _ _ _ (.inr ⟨rfl, rfl, rfl⟩)
  exact fun t ht => ht.trans t.marksChanges_step

/-- Rewinding may bring back any picture, and a snapshot that was not marked, but then marks it. -/
theorem marksChanges_rewind (m : Machine) : m.core.MarksChanges m.rewind.machine.core := by
  cases hm : m.history with
  | nil =>
    rw [rewind_nil hm]
    exact .refl _
  | cons saved older =>
    rw [rewind_cons hm]
    exact .inl rfl

theorem marksChanges_apply (m : Machine) {op : Operation} (h : op.isAcknowledge = false) :
    m.core.MarksChanges (m.apply op).machine.core := by
  cases op with
  | step => exact m.marksChanges_step
  | tick => exact m.marksChanges_tick
  | rewind => exact m.marksChanges_rewind
  | acknowledge => cases h
  | load source =>
    obtain ⟨memory, hm⟩ := m.load_machine source
    change m.core.MarksChanges (m.load source).machine.core
    rw [hm]
    exact .inr ⟨rfl, rfl, rfl⟩
  | clearProgram =>
    obtain ⟨memory, hm⟩ := m.clearProgram_machine
    change m.core.MarksChanges m.clearProgram.core
    rw [hm]
    exact .inr ⟨rfl, rfl, rfl⟩
  | _ => exact .inr ⟨rfl, rfl, rfl⟩

theorem marksChanges_run (m : Machine) {ops : List Operation}
    (h : ∀ op ∈ ops, op.isAcknowledge = false) :
    m.core.MarksChanges (m.run ops).machine.core := by
  induction ops generalizing m with
  | nil => exact .refl _
  | cons op ops ih =>
    obtain ⟨hop, hops⟩ := List.forall_mem_cons.mp h
    rw [run_cons]
    exact (m.marksChanges_apply hop).trans (ih _ hops)

theorem frame?_eq_none_iff {m : Machine} : m.frame? = none ↔ m.core.dirty = false := by
  simp [frame?]

theorem frame?_of_dirty {m : Machine} (h : m.core.dirty = true) : m.frame? = some m.core.bitmap :=
  if_pos h

/-- A machine that does not ask to be shown shows what it showed when it last was not marked. -/
theorem unchanged_of_unmarked {m : Machine} {ops : List Operation}
    (h : ∀ op ∈ ops, op.isAcknowledge = false) (hframe : (m.run ops).machine.frame? = none) :
    (m.run ops).machine.core.bitmap = m.core.bitmap ∧
      (m.run ops).machine.core.mode = m.core.mode := by
  obtain hdirty | ⟨_, hpicture⟩ := m.marksChanges_run h
  · rw [frame?_eq_none_iff, hdirty] at hframe
    cases hframe
  · exact hpicture

/-- A new machine and one that was just acknowledged do not ask to be shown. As long as a machine
does not ask, its screen and mode are what they were right after the latest acknowledgement, or
blank and low before the first; a change makes it ask, and it goes on asking until it is
acknowledged. -/
theorem unmarked_as_acknowledged (config : Config) (entropy : Entropy) :
    let start := fresh config entropy
    start.frame? = none ∧
    (∀ ops : List Operation, (∀ op ∈ ops, op.isAcknowledge = false) →
      let m := (start.run ops).machine
      m.frame? = none → m.core.bitmap = .blank ∧ m.core.mode = .low) ∧
    (∀ earlier later : List Operation, (∀ op ∈ later, op.isAcknowledge = false) →
      let shown := (start.run (earlier ++ [.acknowledge])).machine
      let m := (start.run (earlier ++ .acknowledge :: later)).machine
      shown.frame? = none ∧
      (m.frame? = none → m.core.bitmap = shown.core.bitmap ∧ m.core.mode = shown.core.mode)) ∧
    (∀ (m : Machine) (ops : List Operation), (∀ op ∈ ops, op.isAcknowledge = false) →
      let m' := (m.run ops).machine
      (m.frame?.isSome → m'.frame?.isSome) ∧
      (m'.core.bitmap ≠ m.core.bitmap ∨ m'.core.mode ≠ m.core.mode →
        m'.frame? = some m'.core.bitmap)) := by
  intro start
  refine ⟨rfl, ?_, ?_, ?_⟩
  · intro ops hops m hm
    exact unchanged_of_unmarked hops hm
  · intro earlier later hlater shown m
    have hshown : shown = (start.run earlier).machine.acknowledge := by
      simp only [shown, run_append]
      rfl
    have hrun : m = (shown.run later).machine := by
      simp only [m, shown, run_append, run_cons]
      rfl
    refine ⟨frame?_eq_none_iff.mpr (by rw [hshown]; rfl), fun hm => ?_⟩
    rw [hrun] at hm ⊢
    exact unchanged_of_unmarked hlater hm
  · intro m ops hops m'
    have hmarks : m.core.MarksChanges m'.core := m.marksChanges_run hops
    obtain hdirty | ⟨hdirty, hbitmap, hmode⟩ := hmarks
    · rw [frame?_of_dirty hdirty]
      exact ⟨fun _ => rfl, fun _ => rfl⟩
    · rw [frame?, frame?, hdirty, hbitmap, hmode]
      exact ⟨id, fun h => absurd h (by simp)⟩

end Machine

/-- A program that draws a row of a digit in the corner of the screen and halts, and halts again. -/
def sketch : List UInt8 := [0xD0, 0x01, 0x00, 0xFD, 0x00, 0xFD]

namespace Machine

section
variable {m : Machine} (hbatch : m.config.batch = 2)
include hbatch

theorem tick_sketch
    (hcore : m.core = { Core.fresh .vip with memory := Memory.fresh.overlay sketch }) :
    ∃ v bitmap, bitmap.lit 0 0 = true ∧ m.tick.answer = .ok .halt ∧ m.tick.machine =
      { m.ready with
        core := { m.core with v := v, pc := 0x204, bitmap := bitmap, dirty := true } } := by
  let drawn : Machine := { m.ready with core := m.core.countDown.advance.drawSprite 0 0 1 }
  have hmemory : m.core.memory = Memory.fresh.overlay sketch := by rw [hcore]
  have hpc : m.core.pc = 0x200 := by
    rw [hcore]
    rfl
  have hone : m.ready.core.fetch = Word.ofBytes 0xD0 0x01 :=
    Core.fetch_overlay hmemory hpc (by decide) rfl rfl
  have htwo : drawn.core.fetch = Word.ofBytes 0x00 0xFD :=
    Core.fetch_overlay (a := 0x202) hmemory (congrArg (· + 2) hpc) (by decide) rfl rfl
  have hdraw : m.ready.step =
      ⟨drawn, [m.ready.seen m.ready.core.fetch (.draw 0 0 1)], .ok .proceed⟩ :=
    step_done (i := .draw 0 0 1) (by rw [hone]; rfl) rfl
  have hhalt : drawn.step = ⟨drawn.passed, [drawn.seen drawn.core.fetch .halt], .ok .halt⟩ :=
    step_done (by rw [htwo]; rfl) rfl
  have hrow : m.core.memory.readBlock 0 1 = [0xF0] := by
    have hfont : m.core.memory.read 0 = 0xF0 := by
      rw [hmemory, Memory.read_overlay, Memory.read_fresh]
      rfl
    exact congrArg (List.cons · []) hfont
  have hlit : drawn.core.bitmap.lit 0 0 = true := by
    have hbitmap : drawn.core.bitmap = (Bitmap.blank.drawSprite .low true 0 0 [0xF0]).1 := by
      rw [← hrow]
      simp only [drawn]
      rw [hcore]
      rfl
    rw [hbitmap]
    decide +kernel
  refine ⟨drawn.core.v, drawn.core.bitmap, hlit, ?_⟩
  simp only [tick, hbatch, batch, hdraw, hhalt, true_and]
  have hpassed : drawn.core.advance =
      { m.core with
        v := drawn.core.v, pc := 0x204, bitmap := drawn.core.bitmap, dirty := true } := by
    simp only [drawn]
    rw [hcore]
    rfl
  exact congrArg (fun core => { m.ready with core := core }) hpassed

theorem tick_sketch_again (hmemory : m.core.memory = Memory.fresh.overlay sketch)
    (hpc : m.core.pc = 0x204) : m.tick.answer = .ok .halt ∧ m.tick.machine = m.ready.passed := by
  have hword : m.ready.core.fetch = Word.ofBytes 0x00 0xFD :=
    Core.fetch_overlay hmemory hpc (by decide) rfl rfl
  have hhalt : m.ready.step =
      ⟨m.ready.passed, [m.ready.seen m.ready.core.fetch .halt], .ok .halt⟩ :=
    step_done (by rw [hword]; rfl) rfl
  simp only [tick, hbatch, batch, hhalt, and_self]

end

/-- A program draws, which has to be shown. When that has been acknowledged, a key and another tick,
which halts at once, change nothing. -/
theorem unmarked_as_acknowledged_sketched :
    let start := fresh ⟨.vip, 2, 1⟩ (.cycle [])
    let earlier := [.load (.ofList sketch), .tick]
    let shown := (start.run (earlier ++ [.acknowledge])).machine
    let m := (start.run (earlier ++ .acknowledge :: [.press 3, .tick])).machine
    (start.run earlier).machine.frame?.isSome ∧ shown.core.bitmap.lit 0 0 = true ∧
      m.frame? = none ∧ m.core.bitmap = shown.core.bitmap ∧ m.core.mode = shown.core.mode := by
  obtain ⟨source, hsource⟩ : ∃ source, ByteSource.ofList sketch = source := ⟨_, rfl⟩
  rw [hsource]
  intro start earlier shown m
  obtain ⟨loaded, hload⟩ : ∃ loaded, (start.load source).machine = loaded := ⟨_, rfl⟩
  have hbatch : loaded.config.batch = 2 := by
    rw [← hload, ← hsource]
    rfl
  have hcore : loaded.core = { start.core with memory := Memory.fresh.overlay sketch } := by
    rw [← hload, ← hsource]
    rfl
  have hmemory : loaded.core.memory = Memory.fresh.overlay sketch := by rw [hcore]
  obtain ⟨v, bitmap, hlit, -, hdrawn⟩ := tick_sketch hbatch hcore
  have hearlier : (start.run earlier).machine = loaded.tick.machine := by
    rw [← hload]
    rfl
  -- what was done earlier need not be carried out again
  clear_value earlier
  have hshown : shown = loaded.tick.machine.acknowledge := by
    simp only [shown, run_append, hearlier]
    rfl
  have hlast : m = (shown.press 3).tick.machine := by
    simp only [m, shown, run_append, run_cons]
    rfl
  have hconfig : (shown.press 3).config = loaded.config := by
    rw [hshown, hdrawn]
    rfl
  have hkept : (shown.press 3).core.memory = loaded.core.memory := by
    rw [hshown, hdrawn]
    rfl
  have hpc : (shown.press 3).core.pc = 0x204 := by
    rw [hshown, hdrawn]
    rfl
  obtain ⟨-, hagain⟩ := tick_sketch_again (m := shown.press 3) (by rw [hconfig, hbatch])
    (hkept.trans hmemory) hpc
  have hm : m.frame? = none := by
    rw [hlast, hagain, hshown]
    rfl
  obtain ⟨_, _, hlater, _⟩ := unmarked_as_acknowledged ⟨.vip, 2, 1⟩ (.cycle [])
  have hsame : m.frame? = none →
      m.core.bitmap = shown.core.bitmap ∧ m.core.mode = shown.core.mode :=
    (hlater earlier [.press 3, .tick] (by simp [Operation.isAcknowledge])).2
  refine ⟨?_, ?_, hm, hsame hm⟩
  · rw [hearlier, hdrawn]
    rfl
  · rw [hshown, hdrawn]
    exact hlit

end Machine
end ChipMachine
