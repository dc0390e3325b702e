import ChipMachine.Proofs.Calls.Nesting
import ChipMachine.Proofs.Calls.Unused

namespace ChipMachine.Machine

theorem apply_outer_calls (m : Machine) {op : Operation} (h : op.isOuter = true) :
    (m.apply op).machine.core.calls = m.core.calls := by
  obtain ⟨memory, keypad, dirty, speed, hm⟩ := m.apply_outer h
  rw [hm]
  rfl

theorem rewind_calls {m : Machine} {saved : Core} {older : List Core}
    (h : m.history = saved :: older) : m.rewind.machine.core.calls = saved.calls := by
  rw [rewind_cons h]
  rfl

/-- The stack is a list of return addresses of which the machine uses nothing but the ends: each
instruction of a run treats it so, returns pair up with calls like brackets, rewinding brings back
the list of the snapshot, and what unused slots hold is never noticed. -/
theorem calls_refine_list (config : Config) (entropy : Entropy) (ops : List Operation) :
    let start := fresh config entropy
    let m := (start.run ops).machine
    (∀ t ∈ start.runInstants ops, t.CallsAsList) ∧
    Nested ((Trail.mk [] []).follow start ops).moves m.core.calls ∧
    (∀ op, op.isOuter = true → (m.apply op).machine.core.calls = m.core.calls) ∧
    (∀ saved older, m.history = saved :: older → m.rewind.machine.core.calls = saved.calls) ∧
    ∀ m', m.AlikeInUse m' → ∀ later,
      (m.run later).Matches AlikeInUse (m'.run later) ∧
      List.Forall₂ AlikeInUse (m.runInstants later) (m'.runInstants later) := by
  intro start m
  have hs : start.Sound config.dialect := fresh_sound config entropy
  have hleads : (Trail.mk [] []).Leads start := ⟨nested_nil, .nil⟩
  refine ⟨fun t ht => (hs.instants ops t ht).callsAsList, (hs.leads_run hleads ops).moves,
    fun op ho => m.apply_outer_calls ho, fun saved older hh => rewind_calls hh, ?_⟩
  intro m' hm later
  exact ⟨run_matches (fun _ _ op h => h.apply op) later hm,
    runInstants_matches (fun _ _ op h => h.apply op) (fun _ _ op h => h.instants op) later hm⟩

/-- What an unused slot holds makes no difference to a call that takes the slot. -/
theorem calls_refine_list_visited :
    let m := ((fresh .standard (.cycle [])).run [.load (.ofList visit)]).machine
    let other := { m with core := { m.core with stack := m.core.stack.setIfInBounds 0 7 } }
    (m.run [.tick]).Matches AlikeInUse (other.run [.tick]) ∧
      m.core.stack[0]? = some 0 ∧ other.core.stack[0]? = some 7 ∧
      (m.run [.tick]).answer = [.flow (.ok .halt)] ∧
      (m.run [.tick]).machine.core.stack[0]? = some 0x202 ∧
      (other.run [.tick]).machine.core.stack[0]? = some 0x202 := by
  obtain ⟨loaded, hrun, hvisit, hcore, hhistory⟩ := AtVisit.loaded (.cycle [])
  have hunused := (calls_refine_list .standard (.cycle []) [.load (.ofList visit)]).2.2.2.2
  rw [hrun] at hunused ⊢
  intro m other
  have hother : other.AtVisit := ⟨hvisit.batch, hvisit.memory, hvisit.pc, hvisit.sp⟩
  have hstack : loaded.core.stack[0]? = some 0 := by rw [hcore]; rfl
  have halike : loaded.AlikeInUse other := by
    refine ⟨⟨loaded.core.stack.setIfInBounds 0 7, rfl, ?_⟩, ?_, rfl, rfl⟩
    · intro k hk
      have hsp : loaded.core.sp.toNat = 0 := congrArg UInt8.toNat hvisit.sp
      exact absurd (hsp ▸ hk) (Nat.not_lt_zero k)
    · simp [other, m, hhistory]
  refine ⟨(hunused other halike [.tick]).1, hstack, by simp [other], ?_, ?_, ?_⟩
  · change [Answer.flow loaded.tick.answer] = _
    rw [hvisit.tick.1]
  · change loaded.tick.machine.core.stack[0]? = _
    simp [hvisit.tick.2]
  · change other.tick.machine.core.stack[0]? = _
    simp [hother.tick.2]

end ChipMachine.Machine
