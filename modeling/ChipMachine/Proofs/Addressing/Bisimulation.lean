import ChipMachine.Proofs.Addressing.Wrapping
import ChipMachine.Proofs.Run
import Mathlib.Data.List.Forall2

namespace ChipMachine

/-- The same record with addresses in twelve bits. -/
def Record.wrapped : Record → Record
  | .executing address word i v index =>
    .executing (Memory.wrap address) word i v (Memory.wrap index)
  | .halted address => .halted (Memory.wrap address)
  | .stopping fault => .stopping fault.wrapped
  | r => r

def Event.wrapped : Event → Event
  | .buzz order => .buzz order
  | .recorded r => .recorded r.wrapped

/-- The same answer, a fault in it with its address in twelve bits. -/
def Answer.wrapped : Answer → Answer
  | .loading l => .loading ⟨Fault.wrapResult id l.result, l.consumed⟩
  | .flow result => .flow (Fault.wrapResult id result)
  | .rewound moved => .rewound moved
  | .done => .done

theorem Event.buzz?_wrapped (e : Event) : e.wrapped.buzz? = e.buzz? := by cases e <;> rfl

theorem Event.filterMap_buzz?_wrapped (es : List Event) :
    (es.map wrapped).filterMap buzz? = es.filterMap buzz? := by
  rw [List.filterMap_map]
  exact congrArg (es.filterMap ·) (funext buzz?_wrapped)

namespace Machine

/-- The same machine with addresses in twelve bits, those it can be rewound to included. -/
def wrapped (m : Machine) : Machine :=
  { m with core := m.core.wrapped, history := m.history.map Core.wrapped }

/-- The same machines, but for the high digits of addresses in the core and in the snapshots. -/
structure AlikeWrapped (m m' : Machine) : Prop where
  core : m.core.AlikeWrapped m'.core
  history : List.Forall₂ Core.AlikeWrapped m.history m'.history
  config : m.config = m'.config
  entropy : m.entropy = m'.entropy

end Machine

/-- An outcome with addresses in twelve bits, its answer seen through `f`. -/
def Outcome.wrapped (f : α → β) (o : Outcome α) : Outcome β :=
  ⟨o.machine.wrapped, o.events.map Event.wrapped, f o.answer⟩

namespace Machine

variable {m m' : Machine}

theorem wrapped_wrapped (m : Machine) : m.wrapped.wrapped = m.wrapped := by
  simp only [wrapped, Core.wrapped_wrapped, List.map_map, Function.comp_def]

theorem wrapped_eq (core : m.core.wrapped = m'.core.wrapped)
    (history : m.history.map Core.wrapped = m'.history.map Core.wrapped)
    (config : m.config = m'.config) (entropy : m.entropy = m'.entropy) :
    m.wrapped = m'.wrapped := by
  rw [wrapped, wrapped, core, history, config, entropy]

theorem wrapped_eq_iff : m.wrapped = m'.wrapped ↔ m.AlikeWrapped m' := by
  have hhistory : List.Forall₂ Core.AlikeWrapped m.history m'.history ↔
      m.history.map Core.wrapped = m'.history.map Core.wrapped := by
    rw [← List.forall₂_eq_eq_eq, List.forall₂_map_left_iff, List.forall₂_map_right_iff]
    simp only [Core.wrapped_eq_iff]
  constructor
  · intro h
    obtain ⟨s, older, config, entropy⟩ := m
    obtain ⟨s', older', config', entropy'⟩ := m'
    simp only [wrapped, mk.injEq] at h
    exact ⟨Core.wrapped_eq_iff.mp h.1, hhistory.mpr h.2.1, h.2.2.1, h.2.2.2⟩
  · intro h
    exact wrapped_eq (Core.wrapped_eq_iff.mpr h.core) (hhistory.mp h.history) h.config h.entropy

/-- Settings and random words of machines that are alike are the same, and stay with them. -/
theorem with_core_history_congr (h : m.wrapped = m'.wrapped) {s t : Core} {older older' : List Core}
    (hcore : s.wrapped = t.wrapped)
    (hhistory : older.map Core.wrapped = older'.map Core.wrapped) :
    wrapped { m with core := s, history := older } =
      wrapped { m' with core := t, history := older' } :=
  wrapped_eq hcore hhistory (wrapped_eq_iff.mp h).config (wrapped_eq_iff.mp h).entropy

theorem step_congr (h : m.wrapped = m'.wrapped) :
    m.step.wrapped (Fault.wrapResult id) = m'.step.wrapped (Fault.wrapResult id) := by
  have hcore : m.core.wrapped = m'.core.wrapped := congrArg core h
  have hconfig := (wrapped_eq_iff.mp h).config
  have hentropy := (wrapped_eq_iff.mp h).entropy
  have hfetch : m.core.fetch = m'.core.fetch := Core.wrapped_congr hcore _ Core.fetch_wrapped
  have hpc : Memory.wrap m.core.pc = Memory.wrap m'.core.pc := congrArg Core.pc hcore
  have hadvance : m.core.advance.wrapped = m'.core.advance.wrapped :=
    Core.wrapped_congr hcore (fun s => s.advance.wrapped) Core.advance_wrapped
  have hpassed : m.passed.wrapped = m'.passed.wrapped :=
    wrapped_eq hadvance (congrArg history h) hconfig hentropy
  have hseen (i : Instruction) :
      (m.seen m.core.fetch i).wrapped = (m'.seen m'.core.fetch i).wrapped := by
    have hi : Memory.wrap m.core.i = Memory.wrap m'.core.i := congrArg Core.i hcore
    have hv : m.core.v = m'.core.v := Core.wrapped_congr hcore Core.v fun _ => rfl
    simp only [seen, Event.wrapped, Record.wrapped, hfetch, hpc, hi, hv]
  cases hd : Instruction.decode m.core.fetch with
  | none =>
    rw [step_unknown hd, step_unknown (hfetch ▸ hd)]
    simp only [Outcome.wrapped, hpassed, hfetch, Fault.wrapResult, Fault.wrapped, hpc, List.map_nil]
  | some i =>
    have hd' : Instruction.decode m'.core.fetch = some i := hfetch ▸ hd
    obtain ⟨fault, fault', he, he', hf⟩ | ⟨t, t', he, he', ht⟩ :=
      Fault.wrapResult_cases (Instruction.execute_congr hadvance i m.entropy.chance)
    · rw [step_refused hd he, step_refused hd' (hentropy ▸ he')]
      simp only [Outcome.wrapped, hpassed, Fault.wrapResult, hf, List.map_cons, hseen, List.map_nil]
    · rw [step_done hd he, step_done hd' (hentropy ▸ he')]
      simp only [Outcome.wrapped, List.map_cons, hseen, Fault.wrapResult]
      congr 1
      exact wrapped_eq ht (congrArg history h) hconfig (congrArg (Entropy.skip · _) hentropy)

theorem batch_congr (n : Nat) (h : m.wrapped = m'.wrapped) (past past' : List Event)
    (hpast : past.map Event.wrapped = past'.map Event.wrapped) :
    (batch n m past).wrapped (Fault.wrapResult id) =
      (batch n m' past').wrapped (Fault.wrapResult id) := by
  -- the events gathered so far go through the loop reversed and need only be alike
  induction n generalizing m m' past past' with
  | zero => simp only [batch, Outcome.wrapped, h, List.map_reverse, hpast]
  | succ n ih =>
    obtain ⟨hmachine, hevents, hanswer⟩ := Outcome.mk.inj (step_congr h)
    have hlog : (m.step.events.reverseAux past).map Event.wrapped =
        (m'.step.events.reverseAux past').map Event.wrapped := by
      simp only [List.reverseAux_eq, List.map_append, List.map_reverse, hevents, hpast]
    simp only [batch]
    obtain ⟨fault, fault', ha, ha', hf⟩ | ⟨flow, flow', ha, ha', hflow⟩ :=
      Fault.wrapResult_cases hanswer
    · rw [ha, ha']
      simp only [Outcome.wrapped, hmachine, List.map_reverse, hlog, Fault.wrapResult, hf]
    · obtain rfl : flow = flow' := hflow
      rw [ha, ha']
      cases flow with
      | proceed => exact ih hmachine _ _ hlog
      | halt => simp only [Outcome.wrapped, hmachine, List.map_reverse, hlog]

theorem ready_congr (h : m.wrapped = m'.wrapped) : m.ready.wrapped = m'.ready.wrapped := by
  have hcore : m.core.wrapped = m'.core.wrapped := congrArg core h
  have hhistory : m.history.map Core.wrapped = m'.history.map Core.wrapped := congrArg history h
  refine with_core_history_congr h (congrArg Core.countDown hcore) ?_
  change ((m.core :: m.history).take historyLimit).map Core.wrapped =
    ((m'.core :: m'.history).take historyLimit).map Core.wrapped
  rw [List.map_take, List.map_take, List.map_cons, List.map_cons, hcore, hhistory]

theorem haltRecord_congr {o o' : Outcome (Except Fault Flow)}
    (h : o.wrapped (Fault.wrapResult id) = o'.wrapped (Fault.wrapResult id)) :
    (haltRecord o).map Event.wrapped = (haltRecord o').map Event.wrapped := by
  obtain ⟨hmachine, _, hanswer⟩ := Outcome.mk.inj h
  obtain ⟨fault, fault', ha, ha', _⟩ | ⟨flow, flow', ha, ha', hflow⟩ :=
    Fault.wrapResult_cases hanswer
  · simp only [haltRecord, ha, ha']
  · obtain rfl : flow = flow' := hflow
    cases flow with
    | proceed => simp only [haltRecord, ha, ha']
    | halt =>
      have hcore : o.machine.core.wrapped = o'.machine.core.wrapped := congrArg core hmachine
      have hlast : Memory.wrap o.machine.core.currentAddress =
          Memory.wrap o'.machine.core.currentAddress :=
        Core.wrapped_congr hcore (fun s => Memory.wrap s.currentAddress) Core.currentAddress_wrapped
      simp only [haltRecord, ha, ha', List.map_cons, List.map_nil, Event.wrapped, Record.wrapped,
        hlast]

theorem tick_congr (h : m.wrapped = m'.wrapped) :
    m.tick.wrapped (Fault.wrapResult id) = m'.tick.wrapped (Fault.wrapResult id) := by
  have hbuzz : buzz m.core = buzz m'.core :=
    Core.wrapped_congr (congrArg core h) buzz fun _ => rfl
  have hbatch := batch_congr m'.config.batch (ready_congr h) [] [] rfl
  have hhalt := haltRecord_congr hbatch
  obtain ⟨hmachine, hevents, hanswer⟩ := Outcome.mk.inj hbatch
  simp only [tick, Outcome.wrapped, List.map_cons, List.map_append]
  rw [(wrapped_eq_iff.mp h).config, hmachine, hevents, hanswer, hhalt, hbuzz]

theorem rewind_congr (h : m.wrapped = m'.wrapped) :
    m.rewind.wrapped id = m'.rewind.wrapped id := by
  have hhistory : m.history.map Core.wrapped = m'.history.map Core.wrapped := congrArg history h
  have hkeypad : m.core.keypad = m'.core.keypad :=
    Core.wrapped_congr (congrArg core h) Core.keypad fun _ => rfl
  rcases hm : m.history with _ | ⟨saved, older⟩ <;>
    rcases hm' : m'.history with _ | ⟨saved', older'⟩ <;>
    rw [hm, hm'] at hhistory
  · rw [rewind_nil hm, rewind_nil hm', Outcome.wrapped, Outcome.wrapped, h]
  · cases hhistory
  · cases hhistory
  · obtain ⟨hsaved, holder⟩ := List.cons.inj hhistory
    rw [rewind_cons hm, rewind_cons hm', hm, hm', hkeypad]
    simp only [Outcome.wrapped, List.map_nil]
    congr 1
    refine with_core_history_congr h ?_ holder
    exact congrArg (fun s : Core => { s with keypad := m'.core.keypad, dirty := true }) hsaved

/-- A change of the core that does not depend on addresses keeps machines alike. -/
theorem core_congr (h : m.wrapped = m'.wrapped) (f : Core → Core)
    (hf : ∀ s, f s.wrapped = (f s).wrapped) :
    wrapped { m with core := f m.core } = wrapped { m' with core := f m'.core } := by
  refine with_core_history_congr h ?_ (congrArg history h)
  have hcore : m.core.wrapped = m'.core.wrapped := congrArg core h
  rw [← hf, hcore, hf]

theorem load_congr (h : m.wrapped = m'.wrapped) (source : ByteSource) :
    (m.load source).wrapped id = (m'.load source).wrapped id := by
  rcases load_cases source with ⟨reason, n, hl⟩ | ⟨program, warnings, n, hl⟩
  · rw [hl, hl, Outcome.wrapped, Outcome.wrapped, h]
  · have hcore := core_congr h (fun s => { s with memory := s.memory.overlay program })
      fun s => s.memory_wrapped rfl
    simp only [hl, Outcome.wrapped, hcore]
    rw [(wrapped_eq_iff.mp h).config]

theorem quietly_congr (h : m.wrapped = m'.wrapped) :
    m.quietly.wrapped Answer.wrapped = m'.quietly.wrapped Answer.wrapped := by
  rw [quietly, quietly, Outcome.wrapped, Outcome.wrapped, h]

/-- What is done to a machine does not depend on the high digits of its addresses. -/
theorem apply_congr (h : m.wrapped = m'.wrapped) (op : Operation) :
    (m.apply op).wrapped Answer.wrapped = (m'.apply op).wrapped Answer.wrapped := by
  cases op with
  | load source =>
    exact congrArg (Outcome.map (Answer.wrapped ∘ Answer.loading)) (load_congr h source)
  | clearProgram =>
    exact quietly_congr (core_congr h (fun s => { s with memory := s.memory.clearProgram })
      fun s => s.memory_wrapped rfl)
  | step => exact congrArg (Outcome.map Answer.flow) (step_congr h)
  | tick => exact congrArg (Outcome.map Answer.flow) (tick_congr h)
  | rewind => exact congrArg (Outcome.map Answer.rewound) (rewind_congr h)
  | press k =>
    exact quietly_congr (core_congr h (fun s => { s with keypad := s.keypad.set k true })
      fun _ => rfl)
  | release k =>
    exact quietly_congr (core_congr h (fun s => { s with keypad := s.keypad.set k false })
      fun _ => rfl)
  | setKeypad keypad =>
    exact quietly_congr (core_congr h (fun s => { s with keypad := keypad }) fun _ => rfl)
  | acknowledge =>
    exact quietly_congr (core_congr h (fun s => { s with dirty := false }) fun _ => rfl)
  | setSpeed speed =>
    obtain ⟨_, _, hconfig, hentropy⟩ := wrapped_eq_iff.mp h
    refine quietly_congr (wrapped_eq (congrArg core h) (congrArg history h) ?_ hentropy)
    exact congrArg (fun c : Config => { c with speed := speed }) hconfig

theorem run_congr (h : m.wrapped = m'.wrapped) (ops : List Operation) :
    (m.run ops).wrapped (List.map Answer.wrapped) =
      (m'.run ops).wrapped (List.map Answer.wrapped) := by
  induction ops generalizing m m' with
  | nil => rw [run, run, Outcome.wrapped, Outcome.wrapped, h]
  | cons op ops ih =>
    obtain ⟨hmachine, hevents, hanswer⟩ := Outcome.mk.inj (apply_congr h op)
    obtain ⟨hlast, hlater, hanswers⟩ := Outcome.mk.inj (ih hmachine)
    simp only [run_cons, Outcome.wrapped, List.map_append, List.map_cons, hlast, hevents, hlater,
      hanswer, hanswers]

/-- Of every address only the low twelve bits matter: machines that are alike but for the others
stay alike whatever is done with them, give the buzzer the same orders and answer the same, but for
the addresses of faults. So a machine behaves like the one with all its addresses in twelve bits. -/
theorem run_alike_wrapped :
    (∀ m m' : Machine, m.AlikeWrapped m' → ∀ ops : List Operation,
      (m.run ops).machine.AlikeWrapped (m'.run ops).machine ∧
      (m.run ops).orders = (m'.run ops).orders ∧
      (m.run ops).answer.map Answer.wrapped = (m'.run ops).answer.map Answer.wrapped) ∧
    ∀ m : Machine, m.AlikeWrapped m.wrapped := by
  constructor
  · intro m m' h ops
    obtain ⟨hmachine, hevents, hanswer⟩ := Outcome.mk.inj (run_congr (wrapped_eq_iff.mpr h) ops)
    refine ⟨wrapped_eq_iff.mp hmachine, ?_, hanswer⟩
    rw [Outcome.orders, ← Event.filterMap_buzz?_wrapped, hevents, Event.filterMap_buzz?_wrapped]
    rfl
  · intro m
    exact wrapped_eq_iff.mp m.wrapped_wrapped.symm

/-- After the visit the counter stands in the subroutine, without a call to return from. -/
theorem AtVisit.answers (h : m.AtVisit) : (m.run [.tick, .step, .rewind, .tick]).answer =
    [.flow (.ok .halt), .flow (.error (.emptyStack 0x204)), .rewound true, .flow (.ok .halt)] := by
  obtain ⟨memory, hmemory⟩ := h.memory
  obtain ⟨hhalt, hdone⟩ := h.tick
  let core := { m.core.countDown with stack := m.core.stack.set 0 0x202, pc := 0x204 }
  let done : Machine := { m.ready with core := core }
  have hword : done.core.fetch = Word.ofBytes 0x00 0xEE :=
    Core.fetch_overlay (a := 0x204) hmemory rfl (by decide) rfl rfl
  have hsp : done.core.advance.sp = 0 := h.sp
  have hplace : done.core.advance.currentAddress = 0x204 := by
    change (0x204 + 2 - 2 : UInt16) = 0x204
    decide
  have hempty : done.core.advance.leave = .error (.emptyStack 0x204) := by
    rw [Core.leave, if_pos hsp, hplace]
  have hfault : done.step = ⟨done.passed, [done.seen done.core.fetch .ret],
      .error (.emptyStack 0x204)⟩ :=
    step_refused (i := .ret) (by rw [hword]; rfl) hempty
  have hhistory : done.passed.history = m.core :: m.history.take (historyLimit - 1) := rfl
  have hrewind := rewind_cons hhistory
  have hagain := AtVisit.tick (m := done.passed.rewind.machine)
    (by rw [hrewind]; exact ⟨h.batch, h.memory, h.pc, h.sp⟩)
  change [Answer.flow m.tick.answer, .flow m.tick.machine.step.answer,
    .rewound m.tick.machine.step.machine.rewind.answer,
    .flow m.tick.machine.step.machine.rewind.machine.tick.answer] = _
  rw [hhalt, hdone]
  change [Answer.flow _, .flow done.step.answer, .rewound done.step.machine.rewind.answer,
    .flow done.step.machine.rewind.machine.tick.answer] = _
  rw [hfault, hagain.1, hrewind]

/-- A machine that stands a whole memory further on, with its index in the last page, calls and
returns all the same. -/
theorem run_alike_wrapped_visited :
    let m := ((fresh .standard (.cycle [])).run [.load (.ofList visit)]).machine
    let m' := { m with core := { m.core with pc := 0x1200, i := 0xF000 } }
    let ops := [.tick, .step, .rewind, .tick]
    m.AlikeWrapped m' ∧ (m.run ops).machine.AlikeWrapped (m'.run ops).machine ∧
      (m.run ops).orders = (m'.run ops).orders ∧
      (m.run ops).answer.map Answer.wrapped = (m'.run ops).answer.map Answer.wrapped ∧
      (m.run ops).answer = [.flow (.ok .halt), .flow (.error (.emptyStack 0x204)), .rewound true,
        .flow (.ok .halt)] := by
  obtain ⟨loaded, hrun, hvisit, hcore, hhistory⟩ := AtVisit.loaded (.cycle [])
  rw [hrun]
  intro m m' ops
  have hi : loaded.core.i = 0 := by rw [hcore]; rfl
  have halike : loaded.AlikeWrapped m' := by
    refine ⟨⟨?_, ?_, fun _ => rfl, rfl⟩, by simp [m', m, hhistory], rfl, rfl⟩
    · change loaded.core.pc.toNat % 4096 = (0x1200 : UInt16).toNat % 4096
      rw [hvisit.pc]
      decide
    · change loaded.core.i.toNat % 4096 = (0xF000 : UInt16).toNat % 4096
      rw [hi]
      decide
  obtain ⟨hmachine, horders, hanswer⟩ := run_alike_wrapped.1 loaded m' halike ops
  exact ⟨halike, hmachine, horders, hanswer, hvisit.answers⟩

end Machine
end ChipMachine
