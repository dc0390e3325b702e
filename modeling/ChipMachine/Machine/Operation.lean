import ChipMachine.Machine.Load
import ChipMachine.Machine.Tick

namespace ChipMachine

/-- What can be done with a machine from outside. -/
inductive Operation where
  | load (source : ByteSource)
  | clearProgram
  | step
  | tick
  | rewind
  | press (k : Fin 16)
  | release (k : Fin 16)
  | setKeypad (keypad : Keypad)
  | setSpeed (speed : UInt64)
  | acknowledge

inductive Answer where
  | loading (loading : Machine.Loading)
  | flow (result : Except Fault Flow)
  | rewound (moved : Bool)
  | done

namespace Outcome

def map (f : α → β) (o : Outcome α) : Outcome β := ⟨o.machine, o.events, f o.answer⟩

end Outcome

namespace Machine

def quietly (m : Machine) : Outcome Answer := ⟨m, [], .done⟩

def apply (m : Machine) : Operation → Outcome Answer
  | .load source => (m.load source).map .loading
  | .clearProgram => m.clearProgram.quietly
  | .step => m.step.map .flow
  | .tick => m.tick.map .flow
  | .rewind => m.rewind.map .rewound
  | .press k => (m.press k).quietly
  | .release k => (m.release k).quietly
  | .setKeypad keypad => (m.setKeypad keypad).quietly
  | .setSpeed speed => (m.setSpeed speed).quietly
  | .acknowledge => m.acknowledge.quietly

/-- A run: the machine at the end, all events, and the answers in order. -/
def run (m : Machine) : List Operation → Outcome (List Answer)
  | [] => ⟨m, [], []⟩
  | op :: ops =>
    let first := m.apply op
    let rest := first.machine.run ops
    ⟨rest.machine, first.events ++ rest.events, first.answer :: rest.answer⟩

end Machine
end ChipMachine
