import ChipMachine.Proofs.Execution
import ChipMachine.Proofs.Simulation

namespace ChipMachine

/-- The same cores, but for what the slots hold that no call is in. -/
def Core.AlikeInUse (s t : Core) : Prop :=
  ∃ stack, t = s.withCalls stack s.sp ∧ ∀ k, k < s.sp.toNat → stack[k]? = s.stack[k]?

/-- The same machines, but for the unused slots of the core and of the snapshots. -/
structure Machine.AlikeInUse (m m' : Machine) : Prop where
  core : m.core.AlikeInUse m'.core
  history : List.Forall₂ Core.AlikeInUse m.history m'.history
  config : m.config = m'.config
  entropy : m.entropy = m'.entropy

namespace Core

variable {s s' t : Core}

theorem AlikeInUse.leave (h : s.AlikeInUse s') :
    (∃ fault, s.leave = .error fault ∧ s'.leave = .error fault) ∨
    ∃ t t', s.leave = .ok t ∧ s'.leave = .ok t' ∧ t.AlikeInUse t' := by
  obtain ⟨stack, rfl, hstack⟩ := h
  by_cases h0 : s.sp = 0
  · exact .inl ⟨_, if_pos h0, if_pos h0⟩
  · have hpos : 1 ≤ s.sp.toNat := Nat.one_le_iff_ne_zero.mpr fun hz => h0 (UInt8.toNat.inj hz)
    have hlast : stack[s.sp.toNat - 1]? = s.stack[s.sp.toNat - 1]? := hstack _ (by omega)
    unfold Core.leave
    simp only [withCalls, if_neg h0, hlast]
    cases s.stack[s.sp.toNat - 1]? with
    | none => exact .inl ⟨_, rfl, rfl⟩
    | some a =>
      refine .inr ⟨_, _, rfl, rfl, stack, rfl, ?_⟩
      intro k hk
      have hlt : k < (s.sp - 1).toNat := hk
      exact hstack k (Nat.lt_of_lt_of_le hlt (Nat.le.intro (toNat_sub_one_add_one h0)))

theorem AlikeInUse.enter (h : s.AlikeInUse s') (a : UInt16) :
    (∃ fault, s.enter a = .error fault ∧ s'.enter a = .error fault) ∨
    ∃ t t', s.enter a = .ok t ∧ s'.enter a = .ok t' ∧ t.AlikeInUse t' := by
  obtain ⟨stack, rfl, hstack⟩ := h
  by_cases hs : s.sp.toNat < callLimit
  · refine .inr ⟨_, _, dif_pos hs, dif_pos hs, _, rfl, ?_⟩
    intro k hk
    have h15 : s.sp.toNat < 15 := hs
    have hk' : k < s.sp.toNat + 1 := toNat_sp_add_one hs ▸ hk
    have hset (v : Vector UInt16 16) (h16 : s.sp.toNat < 16) :
        (v.set s.sp.toNat s.pc h16)[k]? = if s.sp.toNat = k then some s.pc else v[k]? :=
      Vector.getElem?_set ..
    refine (hset stack (by omega)).trans (Eq.trans ?_ (hset s.stack (by omega)).symm)
    split
    · rfl
    · exact hstack k (by omega)
  · exact .inl ⟨_, dif_neg hs, dif_neg hs⟩

/-- Alike cores are told apart by no instruction. -/
theorem AlikeInUse.execute (h : s.AlikeInUse s') (chance : UInt8) (i : Instruction) :
    (∃ fault, i.execute chance s = .error fault ∧ i.execute chance s' = .error fault) ∨
    ∃ t t', i.execute chance s = .ok t ∧ i.execute chance s' = .ok t' ∧ t.AlikeInUse t' := by
  rcases i.calls_cases with rfl | ⟨a, rfl⟩ | hi
  · exact h.leave
  · exact h.enter a
  · obtain ⟨stack, rfl, hstack⟩ := h
    obtain ⟨t, ht, ht'⟩ := Instruction.execute_withCalls hi chance s stack s.sp
    obtain ⟨hs, hsp⟩ := Instruction.execute_keeps_calls hi ht
    refine .inr ⟨t, _, ht, ht', stack, by rw [hsp], ?_⟩
    rw [hs, hsp]
    exact hstack

section
variable (h : s.AlikeInUse s')
include h

theorem AlikeInUse.advance : s.advance.AlikeInUse s'.advance := by
  obtain ⟨stack, rfl, hstack⟩ := h
  exact ⟨stack, rfl, hstack⟩

theorem AlikeInUse.countDown : s.countDown.AlikeInUse s'.countDown := by
  obtain ⟨stack, rfl, hstack⟩ := h
  exact ⟨stack, rfl, hstack⟩

theorem AlikeInUse.with_memory (memory : Memory) :
    Core.AlikeInUse { s with memory := memory } { s' with memory := memory } := by
  obtain ⟨stack, rfl, hstack⟩ := h
  exact ⟨stack, rfl, hstack⟩

theorem AlikeInUse.with_keypad (keypad : Keypad) :
    Core.AlikeInUse { s with keypad := keypad } { s' with keypad := keypad } := by
  obtain ⟨stack, rfl, hstack⟩ := h
  exact ⟨stack, rfl, hstack⟩

theorem AlikeInUse.with_dirty (dirty : Bool) :
    Core.AlikeInUse { s with dirty := dirty } { s' with dirty := dirty } := by
  obtain ⟨stack, rfl, hstack⟩ := h
  exact ⟨stack, rfl, hstack⟩

end

end Core

namespace Machine

variable {m m' : Machine}

theorem AlikeInUse.of_core {s s' : Core} (h : m.AlikeInUse m') (hs : s.AlikeInUse s') (n : Nat) :
    AlikeInUse { m with core := s, entropy := m.entropy.skip n }
      { m' with core := s', entropy := m'.entropy.skip n } :=
  ⟨hs, h.history, h.config, congrArg (Entropy.skip · n) h.entropy⟩

theorem AlikeInUse.step (h : m.AlikeInUse m') : m.step.Matches AlikeInUse m'.step := by
  have hfetch : m'.core.fetch = m.core.fetch := by
    obtain ⟨stack, hs, _⟩ := h.core
    rw [hs]
    rfl
  have hpc : m'.core.pc = m.core.pc := by
    obtain ⟨stack, hs, _⟩ := h.core
    rw [hs]
    rfl
  have hseen (i : Instruction) : m'.seen m'.core.fetch i = m.seen m.core.fetch i := by
    obtain ⟨stack, hs, _⟩ := h.core
    rw [hfetch, Machine.seen, Machine.seen, hs]
    rfl
  have hpassed : m.passed.AlikeInUse m'.passed := ⟨h.core.advance, h.history, h.config, h.entropy⟩
  cases hd : Instruction.decode m.core.fetch with
  | none =>
    rw [step_unknown hd, step_unknown (hfetch ▸ hd), hfetch, hpc]
    exact ⟨hpassed, rfl, rfl⟩
  | some i =>
    have hd' : Instruction.decode m'.core.fetch = some i := hfetch ▸ hd
    obtain ⟨fault, he, he'⟩ | ⟨t, t', he, he', ht⟩ := h.core.advance.execute m.entropy.chance i
    · rw [step_refused hd he, step_refused hd' (h.entropy ▸ he'), hseen]
      exact ⟨hpassed, rfl, rfl⟩
    · rw [step_done hd he, step_done hd' (h.entropy ▸ he'), hseen]
      exact ⟨h.of_core ht _, rfl, rfl⟩

theorem AlikeInUse.ready (h : m.AlikeInUse m') : m.ready.AlikeInUse m'.ready :=
  ⟨h.core.countDown, List.forall₂_take _ (.cons h.core h.history), h.config, h.entropy⟩

theorem haltRecord_matches {o o' : Outcome (Except Fault Flow)} (h : o.Matches AlikeInUse o') :
    haltRecord o = haltRecord o' := by
  have hpc : o.machine.core.currentAddress = o'.machine.core.currentAddress := by
    obtain ⟨stack, hs, _⟩ := h.machine.core
    rw [hs]
    rfl
  simp only [haltRecord, h.answer, hpc]

theorem AlikeInUse.tick (h : m.AlikeInUse m') : m.tick.Matches AlikeInUse m'.tick := by
  have hb := batch_matches (fun _ _ hm => hm.step) m.config.batch h.ready []
  have hbuzz : buzz m.core = buzz m'.core := by
    obtain ⟨stack, hs, _⟩ := h.core
    rw [hs]
    rfl
  unfold Machine.tick
  rw [← h.config]
  refine ⟨hb.machine, ?_, hb.answer⟩
  dsimp only
  rw [hbuzz, hb.events, haltRecord_matches hb]

theorem AlikeInUse.rewind (h : m.AlikeInUse m') : m.rewind.Matches AlikeInUse m'.rewind := by
  have hh := h.history
  rcases hm : m.history with _ | ⟨saved, older⟩ <;>
    rcases hm' : m'.history with _ | ⟨saved', older'⟩ <;>
    rw [hm, hm'] at hh
  · rw [rewind_nil hm, rewind_nil hm']
    exact ⟨h, rfl, rfl⟩
  · cases hh
  · cases hh
  · have hkeypad : m'.core.keypad = m.core.keypad := by
      obtain ⟨stack, hs, _⟩ := h.core
      rw [hs]
      rfl
    obtain ⟨⟨stack, rfl, hstack⟩, holder⟩ := List.forall₂_cons.mp hh
    rw [rewind_cons hm, rewind_cons hm', hm, hm', hkeypad]
    exact ⟨⟨⟨stack, rfl, hstack⟩, holder, h.config, h.entropy⟩, rfl, rfl⟩

theorem AlikeInUse.with_memory (h : m.AlikeInUse m') (memory : Memory) :
    Machine.AlikeInUse { m with core := { m.core with memory := memory } }
      { m' with core := { m'.core with memory := memory } } :=
  ⟨h.core.with_memory memory, h.history, h.config, h.entropy⟩

theorem AlikeInUse.load (h : m.AlikeInUse m') (source : ByteSource) :
    (m.load source).Matches AlikeInUse (m'.load source) := by
  have hmemory : m'.core.memory = m.core.memory := by
    obtain ⟨stack, hs, _⟩ := h.core
    rw [hs]
    rfl
  unfold Machine.load
  dsimp only
  split
  · exact ⟨h, rfl, rfl⟩
  · rw [hmemory]
    -- which bytes are loaded does not matter, as long as they are the same
    generalize m.core.memory.overlay _ = memory
    exact ⟨h.with_memory memory, by rw [h.config], rfl⟩

theorem AlikeInUse.apply (h : m.AlikeInUse m') (op : Operation) :
    (m.apply op).Matches AlikeInUse (m'.apply op) := by
  have hsame : m'.core.memory = m.core.memory ∧ m'.core.keypad = m.core.keypad := by
    obtain ⟨stack, hs, _⟩ := h.core
    rw [hs]
    exact ⟨rfl, rfl⟩
  cases op with
  | load source =>
    have hl := h.load source
    exact ⟨hl.machine, hl.events, congrArg Answer.loading hl.answer⟩
  | clearProgram =>
    unfold Machine.apply Machine.clearProgram
    rw [hsame.1]
    generalize m.core.memory.clearProgram = memory
    exact ⟨h.with_memory memory, rfl, rfl⟩
  | step =>
    have hs := h.step
    exact ⟨hs.machine, hs.events, congrArg Answer.flow hs.answer⟩
  | tick =>
    have ht := h.tick
    exact ⟨ht.machine, ht.events, congrArg Answer.flow ht.answer⟩
  | rewind =>
    have hr := h.rewind
    exact ⟨hr.machine, hr.events, congrArg Answer.rewound hr.answer⟩
  | press k | release k =>
    unfold Machine.apply
    simp only [Machine.press, Machine.release, hsame.2]
    exact ⟨⟨h.core.with_keypad _, h.history, h.config, h.entropy⟩, rfl, rfl⟩
  | setKeypad keypad =>
    exact ⟨⟨h.core.with_keypad keypad, h.history, h.config, h.entropy⟩, rfl, rfl⟩
  | setSpeed speed =>
    refine ⟨⟨h.core, h.history, ?_, h.entropy⟩, rfl, rfl⟩
    exact congrArg (fun config : Config => { config with speed := speed }) h.config
  | acknowledge => exact ⟨⟨h.core.with_dirty false, h.history, h.config, h.entropy⟩, rfl, rfl⟩

theorem AlikeInUse.instants (h : m.AlikeInUse m') (op : Operation) :
    List.Forall₂ AlikeInUse (m.instants op) (m'.instants op) := by
  cases op with
  | step => exact .cons h .nil
  | tick =>
    change List.Forall₂ _ _ (batchInstants m'.config.batch m'.ready)
    rw [← h.config]
    exact batchInstants_matches (fun _ _ hm => hm.step) m.config.batch h.ready
  | _ => exact .nil

end Machine
end ChipMachine
