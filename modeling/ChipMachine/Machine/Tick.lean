import ChipMachine.Machine.Step

namespace ChipMachine.Machine

/-- Steps until one halts or faults, at most `n`. Events gathered before come last first in
`past`. -/
def batch : Nat → Machine → List Event → Outcome (Except Fault Flow)
  | 0, m, past => ⟨m, past.reverse, .ok .proceed⟩
  | n + 1, m, past =>
    let done := m.step
    let past := done.events.reverseAux past
    match done.answer with
    | .ok .proceed => batch n done.machine past
    | stop => ⟨done.machine, past.reverse, stop⟩

theorem batch_past (n : Nat) (m : Machine) (past : List Event) :
    batch n m past =
      { batch n m [] with events := past.reverse ++ (batch n m []).events } := by
  induction n generalizing m past with
  | zero => simp [batch]
  | succ n ih =>
    simp only [batch]
    split
    · rw [ih _ (List.reverseAux _ past), ih _ (List.reverseAux _ [])]
      simp
    · simp

/-- The core is kept for rewinding; the oldest of too many snapshots is dropped. -/
def save (m : Machine) : Machine :=
  { m with history := (m.core :: m.history).take historyLimit }

/-- The buzzer sounds while the sound timer runs. -/
def buzz (s : Core) : Buzz := if s.sound = 0 then .pause else .play

def haltRecord (done : Outcome (Except Fault Flow)) : List Event :=
  match done.answer with
  | .ok .halt => [.recorded (.halted done.machine.core.currentAddress)]
  | _ => []

/-- A tick before its first instruction. -/
def ready (m : Machine) : Machine := { m.save with core := m.core.countDown }

/-- A sixtieth of a second: a snapshot, the timers and the buzzer, then a batch of instructions. -/
def tick (m : Machine) : Outcome (Except Fault Flow) :=
  let done := batch m.config.batch m.ready []
  { done with events := .buzz (buzz m.core) :: (done.events ++ haltRecord done) }

/-- Back to the beginning of the latest tick, if one is remembered. The keys stay as they are now,
and the picture has to be shown again. -/
def rewind (m : Machine) : Outcome Bool :=
  match m.history with
  | [] => ⟨m, [], false⟩
  | saved :: older =>
    ⟨{ m with
        core := { saved with keypad := m.core.keypad, dirty := true }
        history := older }, [], true⟩

end ChipMachine.Machine
