import ChipMachine.Proofs.Batching
import ChipMachine.Proofs.Lines

namespace ChipMachine

/-- What was recorded. -/
def Outcome.records (o : Outcome α) : List Record := o.events.filterMap Event.record?

namespace Machine

/-- The record of the instruction that a machine stands before, if the word there stands for one. -/
def trace? (m : Machine) : Option Record :=
  (Instruction.decode m.core.fetch).map
    fun i => .executing m.core.pc m.core.fetch i m.core.v m.core.i

/-- The record of the switch that a machine stands before, if it stands before one. -/
def switch? (m : Machine) : Option Record :=
  if m.core.fetch = 0x00FE then some (.switching .low)
  else if m.core.fetch = 0x00FF then some (.switching .high)
  else none

/-- All that the word a machine stands before leaves in the log. -/
def account (m : Machine) : List Record :=
  match m.trace? with
  | none => []
  | some r => r :: m.switch?.toList

variable {m : Machine}

theorem account_unknown (hd : Instruction.decode m.core.fetch = none) : m.account = [] := by
  rw [account, trace?, hd]
  rfl

/-- The words that switch are those of the instructions that do. -/
theorem account_known {i : Instruction} (hd : Instruction.decode m.core.fetch = some i) :
    m.account = .executing m.core.pc m.core.fetch i m.core.v m.core.i ::
      i.mode?.toList.map .switching := by
  have hswitch : m.switch?.toList = i.mode?.toList.map .switching := by
    have hword : i.encode = m.core.fetch := (Instruction.decode_eq_some_iff.mp hd).2
    unfold switch?
    split
    · rename_i hlow
      rw [hlow] at hd
      obtain rfl := Option.some.inj hd
      rfl
    · rename_i hlow
      split
      · rename_i hhigh
        rw [hhigh] at hd
        obtain rfl := Option.some.inj hd
        rfl
      · rename_i hhigh
        cases i with
        | lowMode => exact absurd hword.symm hlow
        | highMode => exact absurd hword.symm hhigh
        | _ => rfl
  rw [account, trace?, hd, ← hswitch]
  rfl

theorem step_records (m : Machine) : m.step.records = m.account := by
  obtain ⟨hd, hs⟩ | ⟨i, fault, hd, he, hs⟩ | ⟨i, t, hd, _, hs⟩ := m.step_cases
  · rw [hs, account_unknown hd]
    rfl
  · rw [hs, account_known hd]
    -- only a call or a return is refused, and neither switches
    obtain ⟨a, rfl, _⟩ | ⟨rfl, _⟩ | ⟨rfl, _⟩ := Instruction.execute_error he <;> rfl
  · rw [hs, account_known hd]
    simp [Outcome.records, seen, Event.record?, List.filterMap_map, Function.comp_def]

theorem batch_records (n : Nat) (m : Machine) :
    (batch n m []).records = (batchInstants n m).flatMap account := by
  induction n generalizing m with
  | zero => rfl
  | succ n ih =>
    have hstep := m.step_records
    have hrest := ih m.step.machine
    rw [Outcome.records] at hstep hrest
    by_cases hgo : m.step.answer = .ok .proceed
    · rw [batch_succ_proceed hgo, batch_past, Outcome.records, List.reverseAux_eq, List.append_nil,
        List.reverse_reverse, List.filterMap_append, hstep, hrest]
      simp only [batchInstants, hgo, List.flatMap_cons]
    · rw [batch_succ_stop hgo, Outcome.records, List.reverseAux_eq, List.append_nil,
        List.reverse_reverse, hstep]
      cases ha : m.step.answer with
      | error fault => simp [batchInstants, ha]
      | ok flow =>
        cases flow with
        | proceed => exact absurd ha hgo
        | halt => simp [batchInstants, ha]

theorem tick_records_eq (m : Machine) : m.tick.records =
    (m.instants .tick).flatMap account ++
      (haltRecord (batch m.config.batch m.ready [])).filterMap Event.record? := by
  have hbatch := batch_records m.config.batch m.ready
  rw [Outcome.records] at hbatch
  change ([] ++ (_ ++ _ : List Event).filterMap Event.record? : List Record) = _
  rw [List.filterMap_append, hbatch]
  rfl

theorem tick_records (h : m.tick.answer ≠ .ok .halt) :
    m.tick.records = (m.instants .tick).flatMap account := by
  have hnone : haltRecord (batch m.config.batch m.ready []) = [] := by
    unfold haltRecord
    split
    · rename_i hhalt
      exact absurd hhalt h
    · rfl
  rw [tick_records_eq, hnone]
  exact List.append_nil _

/-- A tick that halts tells so last of all, right after the instruction that it halts at. -/
theorem tick_records_halt (h : m.tick.answer = .ok .halt) : ∃ earlier last,
    m.instants .tick = earlier ++ [last] ∧ last.core.fetch = 0x00FD ∧
      m.tick.records = earlier.flatMap account ++
        [.executing last.core.pc 0x00FD .halt last.core.v last.core.i, .halted last.core.pc] := by
  have hhalt : (batch m.config.batch m.ready []).answer = .ok .halt := h
  obtain ⟨earlier, last, hinstants, hfetch, hpassed⟩ := batch_halt hhalt
  have hlast : last.account =
      [.executing last.core.pc 0x00FD .halt last.core.v last.core.i] := by
    rw [account_known (i := .halt) (by rw [hfetch]; rfl), hfetch]
    rfl
  -- the counter has moved on, and is taken back to where the halt was found
  have hrecord : haltRecord (batch m.config.batch m.ready []) =
      [.recorded (.halted last.core.pc)] := by
    rw [haltRecord, hhalt, hpassed]
    exact congrArg (fun a => [Event.recorded (.halted a)]) Core.currentAddress_advance
  refine ⟨earlier, last, hinstants, hfetch, ?_⟩
  have hticked : m.instants .tick = earlier ++ [last] := hinstants
  rw [tick_records_eq, hrecord, hticked, List.flatMap_append, List.flatMap_singleton, hlast,
    List.append_assoc]
  rfl

theorem run_records (m : Machine) (before : List Operation) (op : Operation)
    (after : List Operation) :
    let t := (m.run before).machine
    (m.run (before ++ op :: after)).records =
      (m.run before).records ++ (t.apply op).records ++
        ((t.apply op).machine.run after).records := by
  rw [run_append, run_cons]
  simp only [Outcome.records, List.filterMap_append, List.append_assoc]

theorem filter_trace_account (m : Machine) :
    m.account.filter (·.level = .trace) = m.trace?.toList := by
  cases hd : Instruction.decode m.core.fetch with
  | none =>
    rw [account_unknown hd, trace?, hd]
    rfl
  | some i =>
    rw [account_known hd, trace?, hd]
    cases i.mode? <;> rfl

/-- Whatever is done, the traces are those of the instructions that it takes the machine
through. -/
theorem apply_traces (m : Machine) (op : Operation) :
    (m.apply op).records.filter (·.level = .trace) = (m.instants op).filterMap trace? := by
  have hinstants (ms : List Machine) :
      (ms.flatMap account).filter (·.level = .trace) = ms.filterMap trace? := by
    rw [List.filter_flatMap, List.filterMap_eq_flatMap_toList]
    exact congrArg (ms.flatMap ·) (funext filter_trace_account)
  cases op with
  | step =>
    change m.step.records.filter _ = _
    rw [step_records, ← List.flatMap_singleton account m]
    exact hinstants [m]
  | tick =>
    have hhalt (done : Outcome (Except Fault Flow)) :
        ((haltRecord done).filterMap Event.record?).filter (·.level = .trace) = [] := by
      unfold haltRecord
      split <;> rfl
    change m.tick.records.filter _ = _
    rw [tick_records_eq, List.filter_append, hinstants, hhalt, List.append_nil]
  | rewind =>
    change m.rewind.records.filter _ = _
    cases hm : m.history with
    | nil => rw [rewind_nil hm]; rfl
    | cons saved older => rw [rewind_cons hm]; rfl
  | load source =>
    change (m.load source).records.filter _ = _
    unfold load
    dsimp only
    split
    · rfl
    · split <;> rfl
  | clearProgram | press | release | setKeypad | setSpeed | acknowledge => rfl

theorem run_traces (m : Machine) (ops : List Operation) :
    (m.run ops).records.filter (·.level = .trace) = (m.runInstants ops).filterMap trace? := by
  induction ops generalizing m with
  | nil => rfl
  | cons op ops ih =>
    have hfirst := m.apply_traces op
    have hrest := ih (m.apply op).machine
    rw [Outcome.records] at hfirst hrest
    rw [runInstants, List.filterMap_append, ← hfirst, ← hrest, run_cons, Outcome.records,
      List.filterMap_append, List.filter_append]

/-- The line of a trace tells all that was recorded. -/
theorem trace_line_inj {t : Machine} {r r' : Record} (hr : m.trace? = some r)
    (hr' : t.trace? = some r') (h : r.line = r'.line) : r = r' := by
  obtain ⟨i, hd, rfl⟩ := Option.map_eq_some_iff.mp hr
  obtain ⟨i', hd', rfl⟩ := Option.map_eq_some_iff.mp hr'
  exact Record.executing_line_inj hd hd' h

/-- The log is what was executed. The traces of a run are those of the machines that stand before
an instruction, one for each of them whose word stands for one, in order, and the line of a trace
tells all of it. Wherever steps and ticks stand in a run, each leaves the accounts of its own
instructions; only a tick that halts adds something, and that is where it found the halt. -/
theorem log_follows_execution (m : Machine) (ops : List Operation) :
    (m.run ops).records.filter (·.level = .trace) = (m.runInstants ops).filterMap trace? ∧
    (∀ t ∈ m.runInstants ops, ∀ t' ∈ m.runInstants ops, ∀ r r', t.trace? = some r →
      t'.trace? = some r' → r.line = r'.line → r = r') ∧
    ∀ before op after, ops = before ++ op :: after →
      let t := (m.run before).machine
      let told := (t.apply op).records
      (m.run ops).records =
        (m.run before).records ++ told ++ ((t.apply op).machine.run after).records ∧
      (op = .step → told = t.account) ∧
      (op = .tick → t.tick.answer ≠ .ok .halt → told = (t.instants .tick).flatMap account) ∧
      (op = .tick → t.tick.answer = .ok .halt → ∃ earlier last,
        t.instants .tick = earlier ++ [last] ∧ last.core.fetch = 0x00FD ∧
        told = earlier.flatMap account ++
          [.executing last.core.pc 0x00FD .halt last.core.v last.core.i,
            .halted last.core.pc]) := by
  refine ⟨run_traces m ops, fun t _ t' _ r r' hr hr' => trace_line_inj hr hr', ?_⟩
  rintro before op after rfl
  refine ⟨run_records m before op after, ?_, ?_, ?_⟩
  · rintro rfl
    exact step_records _
  · rintro rfl h
    exact tick_records h
  · rintro rfl h
    exact tick_records_halt h

end Machine

/-- A switch and a halt in the last four bytes that an address can reach. Behind them lies the
font, whose first two bytes stand for nothing. -/
def brink : Memory := Memory.fresh.writeBlock [0x00, 0xFF, 0x00, 0xFD] 0xFFFC

theorem fetch_brink {s : Core} (h : s.memory = brink) {a : UInt16} {w : Word} (hpc : s.pc = a)
    (hw : (a, w) ∈ [(0xFFFC, 0x00FF), (0xFFFE, 0x00FD), (0x0000, 0xF090)]) : s.fetch = w := by
  have hbelow : brink.read 0 = Memory.fresh.read 0 ∧ brink.read (0 + 1) = Memory.fresh.read 1 := by
    simp [brink, Memory.writeBlock, Memory.read_write, Memory.cell]
  rw [Core.fetch, h, hpc]
  simp only [List.mem_cons, Prod.mk.injEq, List.not_mem_nil, or_false] at hw
  obtain ⟨rfl, rfl⟩ | ⟨rfl, rfl⟩ | ⟨rfl, rfl⟩ := hw
  case inr.inr =>
    rw [hbelow.1, hbelow.2, Memory.read_fresh, Memory.read_fresh]
    rfl
  all_goals
    simp [brink, Memory.writeBlock, Memory.read_write, Memory.cell]
    rfl

namespace Machine

/-- A tick that switches and halts, and leaves the counter at the bottom of memory. -/
theorem tick_brink {m : Machine} (hbatch : m.config.batch = 2) (hmemory : m.core.memory = brink)
    (hpc : m.core.pc = 0xFFFC) : ∃ switched : Machine,
    m.instants .tick = [m.ready, switched] ∧ m.ready.core.fetch = 0x00FF ∧
      switched.core.pc = 0xFFFE ∧ switched.core.v = m.core.v ∧ switched.core.i = m.core.i ∧
      m.tick.answer = .ok .halt ∧ m.tick.machine.core.pc = 0 ∧
      m.tick.machine.core.fetch = 0xF090 := by
  let switched : Machine := { m.ready with core := m.core.countDown.advance.switchTo .high }
  have hpc' : switched.core.pc = 0xFFFE := congrArg (· + 2) hpc
  have hend : switched.passed.core.pc = 0 := congrArg (· + 2) hpc'
  have hone : m.ready.core.fetch = 0x00FF := fetch_brink hmemory hpc (by decide)
  have htwo : switched.core.fetch = 0x00FD :=
    fetch_brink (s := switched.core) hmemory hpc' (by decide)
  have hthree : switched.passed.core.fetch = 0xF090 :=
    fetch_brink (s := switched.passed.core) hmemory hend (by decide)
  have hfirst : m.ready.step =
      ⟨switched, [m.ready.seen 0x00FF .highMode, .recorded (.switching .high)], .ok .proceed⟩ := by
    rw [← hone]
    exact step_done (by rw [hone]; rfl) rfl
  have hsecond : switched.step = ⟨switched.passed, [switched.seen 0x00FD .halt], .ok .halt⟩ := by
    rw [← htwo]
    exact step_done (by rw [htwo]; rfl) rfl
  have hinstants : m.instants .tick = [m.ready, switched] := by
    simp only [instants, hbatch, batchInstants, hfirst, hsecond]
  have htick : m.tick.answer = .ok .halt ∧ m.tick.machine = switched.passed := by
    simp only [tick, hbatch, batch, hfirst, hsecond, and_self]
  rw [htick.2]
  exact ⟨switched, hinstants, hone, hpc', rfl, rfl, htick.1, hend, hthree⟩

/-- The halt lies at the last address that can be reached. The tick records it there, although the
counter has come around to zero, and the step behind it leaves nothing in the log. -/
theorem log_follows_execution_wrapping :
    let m : Machine :=
      ⟨{ Core.fresh .vip with pc := 0xFFFC, memory := brink }, [], ⟨.vip, 2, 1⟩, .cycle []⟩
    let v := m.core.v
    m.tick.answer = .ok .halt ∧ m.tick.machine.core.pc = 0 ∧
      m.tick.machine.step.answer = .error (.unknownWord 0xF090 0) ∧
      (m.run [.tick, .step]).records =
        [.executing 0xFFFC 0x00FF .highMode v 0, .switching .high,
          .executing 0xFFFE 0x00FD .halt v 0, .halted 0xFFFE] := by
  intro m v
  -- no more is needed of the machine, and its memory is not to be looked at again
  obtain ⟨n, hn, hbatch, hmemory, hpc, hindex⟩ : ∃ n, m = n ∧ n.config.batch = 2 ∧
      n.core.memory = brink ∧ n.core.pc = 0xFFFC ∧ n.core.i = 0 :=
    ⟨m, rfl, by decide, rfl, rfl, rfl⟩
  simp only [v]
  rw [hn]
  obtain ⟨switched, hinstants, hfirst, hpc', hv, hi, hhalt, hend, hword⟩ :=
    tick_brink hbatch hmemory hpc
  have hunknown : Instruction.decode n.tick.machine.core.fetch = none := by
    rw [hword]
    rfl
  have hswitch : n.ready.account =
      [.executing 0xFFFC 0x00FF .highMode n.core.v 0, .switching .high] := by
    rw [account_known (i := .highMode) (by rw [hfirst]; rfl), hfirst, ← hpc, ← hindex]
    rfl
  obtain ⟨-, -, hlog⟩ := log_follows_execution n [.tick, .step]
  obtain ⟨hwhole, -, -, hticked⟩ := hlog [] .tick [.step] rfl
  obtain ⟨-, hstepped, -⟩ := hlog [.tick] .step [] rfl
  obtain ⟨earlier, last, hsplit, -, htold⟩ := hticked rfl hhalt
  have hparts : [n.ready] ++ [switched] = earlier ++ [last] := hinstants.symm.trans hsplit
  obtain ⟨rfl, hlast⟩ := List.append_inj' hparts rfl
  obtain rfl := (List.cons.inj hlast).1
  rw [List.flatMap_singleton, hswitch, hpc', hv, hi, hindex] at htold
  have hnothing : n.tick.machine.step.records = [] :=
    (hstepped rfl).trans (account_unknown hunknown)
  have hstep : (n.tick.machine.run [.step]).records = n.tick.machine.step.records := by
    rw [Outcome.records, run_cons]
    exact congrArg _ (List.append_nil _)
  refine ⟨hhalt, hend, by rw [step_unknown hunknown, hword, hend], ?_⟩
  calc (n.run [.tick, .step]).records
      = [] ++ (n.apply .tick).records ++ (n.tick.machine.run [.step]).records := hwhole
    _ = (n.apply .tick).records := by rw [hstep, hnothing, List.nil_append, List.append_nil]
    _ = _ := htold

end Machine
end ChipMachine
