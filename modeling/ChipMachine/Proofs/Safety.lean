import ChipMachine.Proofs.Checked.Machine

namespace ChipMachine

/-- A result, a halt, or a fault of the kind that the operation can cause. -/
def Answer.Regular : Answer → Prop
  | .loading l => ∀ fault, l.result = .error fault → ∃ reason, fault = .unreadable reason
  | .flow result => ∀ fault, result = .error fault →
      (∃ word a, fault = .unknownWord word a) ∨ (∃ a, fault = .emptyStack a) ∨
      ∃ a, fault = .fullStack a
  | .rewound _ => True
  | .done => True

namespace Machine

variable {d : Dialect} {m : Machine}

theorem Sound.step_regular (h : m.Sound d) : (Answer.flow m.step.answer).Regular := by
  intro fault hf
  obtain ⟨_, hs⟩ | ⟨i, f, _, he, hs⟩ | ⟨i, t, _, _, hs⟩ := m.step_cases
  · rw [hs] at hf
    cases hf
    exact .inl ⟨_, _, rfl⟩
  · rw [hs] at hf
    cases hf
    obtain ⟨a, _, _, hf⟩ | ⟨_, _, hf⟩ | ⟨_, hlt, _⟩ := Instruction.execute_error he
    · exact .inr (.inr ⟨_, hf⟩)
    · exact .inr (.inl ⟨_, hf⟩)
    · -- the stack pointer would have to be out of bounds
      have hd : m.core.sp.toNat ≤ 15 := h.core.depth
      change 16 < m.core.sp.toNat at hlt
      omega
  · rw [hs] at hf
    cases hf

theorem Sound.batch_regular (h : m.Sound d) (n : Nat) (past : List Event) :
    (Answer.flow (batch n m past).answer).Regular := by
  induction n generalizing m past with
  | zero =>
    intro fault hf
    cases hf
  | succ n ih =>
    simp only [batch]
    split
    · exact ih h.step _
    · exact h.step_regular

theorem load_regular (m : Machine) (source : ByteSource) :
    (Answer.loading (m.load source).answer).Regular := by
  intro fault hf
  unfold load at hf
  dsimp only at hf
  split at hf
  · cases hf
    exact ⟨_, rfl⟩
  · cases hf

theorem Sound.apply_regular (h : m.Sound d) (op : Operation) : (m.apply op).answer.Regular := by
  cases op with
  | load source => exact m.load_regular source
  | step => exact h.step_regular
  | tick => exact h.ready.batch_regular _ _
  | _ => trivial

theorem Sound.run_regular (h : m.Sound d) (ops : List Operation) :
    ∀ answer ∈ (m.run ops).answer, answer.Regular := by
  induction ops generalizing m with
  | nil => simp [Machine.run]
  | cons op ops ih =>
    intro answer ha
    rw [run_cons] at ha
    rcases List.mem_cons.mp ha with rfl | ha
    · exact h.apply_regular op
    · exact ih (h.apply op) answer ha

/-- Whatever is done with a new machine, it stays sound, between operations and between the
instructions of one, no check fails on the way, and every operation comes to a regular answer. -/
theorem run_in_bounds (config : Config) (entropy : Entropy) (ops : List Operation) :
    let start := fresh config entropy
    let done := start.run ops
    done.machine.Sound config.dialect ∧
    (∀ m ∈ start.runInstants ops, m.Sound config.dialect) ∧
    Checked.run start ops = .ok done ∧
    (∀ b pressed, Checked.setKey done.machine b pressed =
      .ok (done.machine.setKeypad (done.machine.core.keypad.set (Keypad.key b) pressed))) ∧
    ∀ answer ∈ done.answer, answer.Regular := by
  intro start done
  have hs : start.Sound config.dialect := fresh_sound config entropy
  refine ⟨hs.run ops, hs.instants ops, Checked.run_eq hs ops, ?_, hs.run_regular ops⟩
  exact fun b pressed => Checked.setKey_eq done.machine b pressed

end Machine
end ChipMachine
