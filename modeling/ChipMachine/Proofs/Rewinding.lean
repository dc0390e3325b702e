import ChipMachine.Proofs.Run

namespace ChipMachine

namespace Operation

def isTick : Operation → Bool
  | .tick => true
  | _ => false

def isRewind : Operation → Bool
  | .rewind => true
  | _ => false

/-- Whether the operation moves keys and nothing else. -/
def isKey : Operation → Bool
  | .press _ | .release _ | .setKeypad _ => true
  | _ => false

end Operation

namespace Machine

theorem step_history (m : Machine) : m.step.machine.history = m.history := by
  obtain ⟨_, hs⟩ | ⟨_, _, _, _, hs⟩ | ⟨_, _, _, _, hs⟩ := m.step_cases
  · rw [hs]; rfl
  · rw [hs]; rfl
  · rw [hs]

/-- A tick keeps what the machine was, whatever comes of the instructions in it. -/
theorem tick_history (m : Machine) :
    m.tick.machine.history = (m.core :: m.history).take historyLimit := by
  rw [tick_machine]
  refine batch_preserves (P := fun t => t.history = (m.core :: m.history).take historyLimit)
    ?_ _ _ _ rfl
  intro t ht
  rw [t.step_history, ht]

theorem apply_history {m : Machine} {op : Operation} (ht : op.isTick = false)
    (hr : op.isRewind = false) : (m.apply op).machine.history = m.history := by
  by_cases ho : op.isOuter = true
  · obtain ⟨memory, keypad, dirty, speed, hm⟩ := m.apply_outer ho
    rw [hm]
  · cases op with
    | step => exact m.step_history
    | tick => cases ht
    | rewind => cases hr
    | _ => exact absurd rfl ho

/-- The cores at which the ticks of a run begin, the latest first. -/
def begun (m : Machine) : List Operation → List Core
  | [] => []
  | op :: ops => (m.apply op).machine.begun ops ++ if op.isTick then [m.core] else []

theorem length_begun (m : Machine) (ops : List Operation) :
    (m.begun ops).length = ops.countP Operation.isTick := by
  induction ops generalizing m with
  | nil => rfl
  | cons op ops ih =>
    rw [begun, List.length_append, ih, List.countP_cons]
    cases op.isTick <;> rfl

/-- Without rewinding, the history is what the ticks of the run began with, as far as it goes. -/
theorem run_history (m : Machine) (ops : List Operation)
    (hops : ∀ op ∈ ops, op.isRewind = false) (hm : m.history.length ≤ historyLimit) :
    (m.run ops).machine.history = (m.begun ops ++ m.history).take historyLimit := by
  induction ops generalizing m with
  | nil => exact (List.take_of_length_le hm).symm
  | cons op ops ih =>
    obtain ⟨hop, hops⟩ := List.forall_mem_cons.mp hops
    rw [run_cons, begun]
    cases ht : op.isTick with
    | false =>
      have hh := apply_history (m := m) ht hop
      rw [ih _ hops (hh ▸ hm), hh]
      simp
    | true =>
      have hh : (m.apply op).machine.history = (m.core :: m.history).take historyLimit := by
        cases op with
        | tick => exact m.tick_history
        | _ => cases ht
      have hlen : (m.apply op).machine.history.length ≤ historyLimit := by
        rw [hh, List.length_take]
        exact Nat.min_le_left ..
      rw [ih _ hops hlen, hh]
      simp only [if_true, List.append_assoc, List.singleton_append]
      rw [List.take_append, List.take_append, List.take_take, Nat.min_eq_left (Nat.sub_le ..)]

/-- Each core that a tick began with is where the run stood before that tick. -/
theorem begun_getElem? {m : Machine} {ops : List Operation} {j : Nat} {s : Core}
    (h : (m.begun ops)[j]? = some s) :
    ∃ earlier later, ops = earlier ++ .tick :: later ∧ later.countP Operation.isTick = j ∧
      s = (m.run earlier).machine.core := by
  induction ops generalizing m with
  | nil => cases h
  | cons op ops ih =>
    rw [begun] at h
    by_cases hj : j < ((m.apply op).machine.begun ops).length
    · rw [List.getElem?_append_left hj] at h
      obtain ⟨earlier, later, hops, hcount, hs⟩ := ih h
      exact ⟨op :: earlier, later, by rw [hops]; rfl, hcount, hs⟩
    · rw [List.getElem?_append_right (Nat.le_of_not_lt hj)] at h
      cases op with
      | tick =>
        -- this is the tick looked for, and all the others come later
        have hlast : j - ((m.apply .tick).machine.begun ops).length = 0 := by
          have := (List.getElem?_eq_some_iff.mp h).1
          simpa [Operation.isTick] using this
        rw [hlast] at h
        refine ⟨[], ops, rfl, ?_, (Option.some.inj h).symm⟩
        rw [← length_begun (m.apply .tick).machine]
        omega
      | _ => cases h

/-- Rewinds use up the history from its latest core on; keys do not touch it. -/
theorem back_history (m : Machine) (back : List Operation)
    (hback : ∀ op ∈ back, op.isRewind = true ∨ op.isKey = true) :
    (m.run back).machine.history = m.history.drop (back.countP Operation.isRewind) := by
  induction back generalizing m with
  | nil => rfl
  | cons op back ih =>
    obtain ⟨hop, hback⟩ := List.forall_mem_cons.mp hback
    rw [run_cons, ih _ hback, List.countP_cons]
    cases op with
    | rewind =>
      have hh : (m.apply .rewind).machine.history = m.history.drop 1 := by
        change m.rewind.machine.history = _
        cases hm : m.history with
        | nil => rw [rewind_nil hm, hm]; rfl
        | cons saved older => rw [rewind_cons hm, hm]; rfl
      rw [hh, List.drop_drop, Nat.add_comm]
      rfl
    | press | release | setKeypad => rfl
    | _ => simp [Operation.isRewind, Operation.isKey] at hop

/-- Rewinding undoes ticks, the latest first, as far as six hundred of them, and nothing else. -/
theorem rewind_restores (config : Config) (entropy : Entropy) :
    (∀ m : Machine, m.tick.machine.rewind =
      ⟨{ m.tick.machine with
          core := { m.core with keypad := m.tick.machine.core.keypad, dirty := true }
          history := m.history.take (historyLimit - 1) }, [], true⟩) ∧
    (∀ ops back : List Operation,
      (∀ op ∈ ops, op.isRewind = false) →
      (∀ op ∈ back, op.isRewind = true ∨ op.isKey = true) →
      let start := fresh config entropy
      let m := (start.run (ops ++ back)).machine
      let undone := back.countP Operation.isRewind
      (undone < min (ops.countP Operation.isTick) historyLimit →
        ∃ earlier later, ops = earlier ++ .tick :: later ∧
          later.countP Operation.isTick = undone ∧
          m.rewind = ⟨{ m with
            core := { (start.run earlier).machine.core with
              keypad := m.core.keypad, dirty := true }
            history := m.history.tail }, [], true⟩) ∧
      (min (ops.countP Operation.isTick) historyLimit ≤ undone → m.rewind = ⟨m, [], false⟩)) ∧
    (∀ m : Machine, m.rewind.machine.entropy = m.entropy ∧ m.rewind.machine.config = m.config ∧
      m.rewind.events = []) := by
  refine ⟨?_, ?_, ?_⟩
  · intro m
    have hh : m.tick.machine.history = m.core :: m.history.take (historyLimit - 1) := m.tick_history
    rw [rewind_cons hh, hh]
    rfl
  · intro ops back hops hback start m undone
    have hm : m.history = ((start.begun ops).take historyLimit).drop undone := by
      have hr := run_history start ops hops (Nat.zero_le _)
      rw [show start.history = [] from rfl, List.append_nil] at hr
      rw [← hr, ← back_history _ back hback]
      simp only [m, run_append]
    have hlen : ((start.begun ops).take historyLimit).length =
        min (ops.countP Operation.isTick) historyLimit := by
      rw [List.length_take, length_begun, Nat.min_comm]
    constructor
    · intro hlt
      cases hh : m.history with
      | nil =>
        rw [hm, List.drop_eq_nil_iff] at hh
        omega
      | cons saved older =>
        have hsaved : (start.begun ops)[undone]? = some saved := by
          have h0 : (((start.begun ops).take historyLimit).drop undone)[0]? = some saved := by
            rw [← hm, hh]
            rfl
          rw [List.getElem?_drop, Nat.add_zero, List.getElem?_take_of_lt (by omega)] at h0
          exact h0
        obtain ⟨earlier, later, heq, hcount, rfl⟩ := begun_getElem? hsaved
        refine ⟨earlier, later, heq, hcount, ?_⟩
        rw [rewind_cons hh, hh]
    · intro hle
      apply rewind_nil
      rw [hm, List.drop_eq_nil_iff]
      omega
  · intro m
    cases hm : m.history with
    | nil => rw [rewind_nil hm]; exact ⟨rfl, rfl, rfl⟩
    | cons saved older => rw [rewind_cons hm]; exact ⟨rfl, rfl, rfl⟩

/-- The first of two ticks has called a subroutine. The second rewind goes back to what was loaded,
and takes the return address out of the stack. -/
theorem rewind_restores_visited :
    let loaded := ((fresh .standard (.cycle [])).run [.load (.ofList visit)]).machine
    let m := ((fresh .standard (.cycle [])).run
      ([.load (.ofList visit), .tick, .press 3, .tick] ++ [.rewind, .release 3])).machine
    loaded.tick.answer = .ok .halt ∧ loaded.tick.machine.core.stack[0]? = some 0x202 ∧
      loaded.core.stack[0]? = some 0 ∧
      m.rewind = ⟨{ m with
        core := { loaded.core with keypad := m.core.keypad, dirty := true }
        history := m.history.tail }, [], true⟩ := by
  obtain ⟨loaded, hrun, hvisit, hcore, -⟩ := AtVisit.loaded (.cycle [])
  -- with the operations unknown, nothing tries to carry them out
  obtain ⟨ops, hops⟩ : ∃ ops : List Operation,
      [.load (.ofList visit), .tick, .press 3, .tick] = ops := ⟨_, rfl⟩
  rw [hrun, hops]
  intro _ m
  refine ⟨hvisit.tick.1, ?_, by rw [hcore]; rfl, ?_⟩
  · change loaded.tick.machine.core.stack[0]? = _
    simp [hvisit.tick.2]
  have hrewind : ∀ op ∈ ops, op.isRewind = false := by simp [← hops, Operation.isRewind]
  have hticks : ops.countP Operation.isTick = 2 := by
    rw [← hops]
    rfl
  obtain ⟨earlier, later, hsplit, hcount, h⟩ := ((rewind_restores .standard (.cycle [])).2.1 ops
    [.rewind, .release 3] hrewind (by simp [Operation.isRewind, Operation.isKey])).1
    (by rw [hticks]; decide)
  have hfirst : earlier = [.load (.ofList visit)] := by
    rw [← hops] at hsplit
    cases earlier with
    | nil => cases (List.cons.inj hsplit).1
    | cons op rest =>
      obtain ⟨rfl, htail⟩ := List.cons.inj hsplit
      cases rest with
      | nil => rfl
      | cons op rest =>
        have hlater : [.press 3, .tick] = rest ++ .tick :: later := (List.cons.inj htail).2
        have hticks := congrArg (List.countP Operation.isTick) hlater
        have hone : later.countP Operation.isTick = 1 := hcount
        have hpos : Operation.tick.isTick = true := rfl
        rw [List.countP_append, List.countP_cons_of_pos hpos, hone] at hticks
        simp [Operation.isTick] at hticks
  subst hfirst
  rwa [hrun] at h

end Machine
end ChipMachine
