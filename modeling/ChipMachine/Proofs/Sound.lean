import ChipMachine.Proofs.Execution
import ChipMachine.Proofs.Run

namespace ChipMachine

/-- The limit on open calls is kept, and the slot behind them is never written. -/
structure Core.Sound (d : Dialect) (s : Core) : Prop where
  depth : s.sp.toNat ≤ callLimit
  spare : s.stack[15] = 0
  dialect : s.dialect = d

/-- The core and all that it can be rewound to are sound, and the snapshots are not too many. -/
structure Machine.Sound (d : Dialect) (m : Machine) : Prop where
  core : m.core.Sound d
  configured : m.config.dialect = d
  bounded : m.history.length ≤ historyLimit
  snapshots : ∀ s ∈ m.history, s.Sound d

namespace Core

variable {d : Dialect} {s t : Core}

theorem fresh_sound (d : Dialect) : (fresh d).Sound d := ⟨by simp [fresh], by simp [fresh], rfl⟩

theorem Sound.of_eq (h : s.Sound d) (stack : t.stack = s.stack) (sp : t.sp = s.sp)
    (dialect : t.dialect = s.dialect) : t.Sound d :=
  ⟨sp ▸ h.depth, stack ▸ h.spare, dialect.trans h.dialect⟩

theorem Sound.enter {a : UInt16} (h : s.Sound d) (he : s.enter a = .ok t) : t.Sound d := by
  obtain ⟨hs, rfl⟩ := enter_ok he
  refine ⟨?_, ?_, h.dialect⟩
  · change (s.sp + 1).toNat ≤ callLimit
    rw [toNat_sp_add_one hs]
    exact hs
  · -- the slot written is one of the first fifteen
    have hne : s.sp.toNat ≠ 15 := Nat.ne_of_lt hs
    simpa [Vector.getElem_set, hne] using h.spare

theorem Sound.leave (h : s.Sound d) (hl : s.leave = .ok t) : t.Sound d := by
  obtain ⟨hs, a, _, rfl⟩ := leave_ok hl
  refine ⟨?_, h.spare, h.dialect⟩
  have hd := h.depth
  rw [← toNat_sub_one_add_one hs] at hd
  exact Nat.le_of_succ_le hd

theorem Sound.execute {i : Instruction} {chance : UInt8} (h : s.Sound d)
    (he : i.execute chance s = .ok t) : t.Sound d := by
  rcases i.calls_cases with rfl | ⟨a, rfl⟩ | hi
  · exact h.leave he
  · exact h.enter he
  · obtain ⟨hstack, hsp⟩ := Instruction.execute_keeps_calls hi he
    exact h.of_eq hstack hsp (Instruction.execute_keeps_givens he).2

end Core

namespace Machine

variable {d : Dialect} {m : Machine}

theorem fresh_sound (config : Config) (entropy : Entropy) :
    (fresh config entropy).Sound config.dialect :=
  ⟨Core.fresh_sound _, rfl, Nat.zero_le _, by simp [fresh]⟩

/-- A change that leaves history and configuration alone only has to keep the core sound. -/
theorem Sound.of_core {m' : Machine} (h : m.Sound d) (core : m'.core.Sound d)
    (history : m'.history = m.history) (config : m'.config = m.config) : m'.Sound d :=
  ⟨core, config ▸ h.configured, history ▸ h.bounded, history ▸ h.snapshots⟩

theorem Sound.step (h : m.Sound d) : m.step.machine.Sound d := by
  have hp : m.core.advance.Sound d := h.core.of_eq rfl rfl rfl
  obtain ⟨_, hs⟩ | ⟨i, fault, _, _, hs⟩ | ⟨i, t, _, he, hs⟩ := m.step_cases
  · rw [hs]; exact h.of_core hp rfl rfl
  · rw [hs]; exact h.of_core hp rfl rfl
  · rw [hs]; exact h.of_core (hp.execute he) rfl rfl

theorem Sound.ready (h : m.Sound d) : m.ready.Sound d := by
  refine ⟨h.core.of_eq rfl rfl rfl, h.configured, ?_, ?_⟩
  · exact List.length_take_le ..
  · intro s hs
    rcases List.mem_cons.mp (List.mem_of_mem_take hs) with rfl | hs
    · exact h.core
    · exact h.snapshots s hs

theorem Sound.tick (h : m.Sound d) : m.tick.machine.Sound d := by
  rw [tick_machine]
  exact batch_preserves (fun _ hm => hm.step) _ _ _ h.ready

theorem Sound.rewind (h : m.Sound d) : m.rewind.machine.Sound d := by
  unfold Machine.rewind
  split
  · exact h
  · rename_i saved older hh
    have hs : ∀ s ∈ saved :: older, s.Sound d := hh ▸ h.snapshots
    have hb : (saved :: older).length ≤ historyLimit := hh ▸ h.bounded
    exact ⟨(hs saved List.mem_cons_self).of_eq rfl rfl rfl, h.configured,
      Nat.le_of_succ_le hb, fun s hm => hs s (List.mem_cons_of_mem _ hm)⟩

theorem Sound.with_memory (h : m.Sound d) (memory : Memory) :
    Sound d { m with core := { m.core with memory := memory } } :=
  h.of_core (h.core.of_eq rfl rfl rfl) rfl rfl

theorem Sound.with_keypad (h : m.Sound d) (keypad : Keypad) : (m.setKeypad keypad).Sound d :=
  h.of_core (h.core.of_eq rfl rfl rfl) rfl rfl

theorem Sound.apply (h : m.Sound d) (op : Operation) : (m.apply op).machine.Sound d := by
  cases op with
  | load source =>
    obtain ⟨memory, hm⟩ := m.load_machine source
    change (m.load source).machine.Sound d
    exact hm ▸ h.with_memory memory
  | clearProgram => exact h.with_memory m.core.memory.clearProgram
  | step => exact h.step
  | tick => exact h.tick
  | rewind => exact h.rewind
  | setSpeed speed => exact ⟨h.core, h.configured, h.bounded, h.snapshots⟩
  | press | release | setKeypad => exact h.with_keypad _
  | acknowledge => exact h.of_core (h.core.of_eq rfl rfl rfl) rfl rfl

theorem Sound.run (h : m.Sound d) (ops : List Operation) : (m.run ops).machine.Sound d :=
  run_preserves (fun _ op hm => hm.apply op) m ops h

theorem Sound.instants (h : m.Sound d) (ops : List Operation) :
    ∀ t ∈ m.runInstants ops, t.Sound d :=
  runInstants_preserve (fun _ op hm => hm.apply op) (fun _ hm => hm.step) (fun _ hm => hm.ready)
    m ops h

end Machine
end ChipMachine
