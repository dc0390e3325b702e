import ChipMachine.Proofs.Footprint
import ChipMachine.Proofs.Run

namespace ChipMachine

inductive Timer where
  | delay
  | sound
  deriving DecidableEq

def Core.timer (s : Core) : Timer → UInt8
  | .delay => s.delay
  | .sound => s.sound

/-- The timer that an instruction sets, and the register that it takes the value from. -/
def Instruction.sets? : Instruction → Option (Timer × Reg)
  | setDelay x => some (.delay, x)
  | setSound x => some (.sound, x)
  | _ => none

/-- What the timers depend on: a tick that begins, or an instruction that sets one of them. -/
inductive Beat where
  | tick
  | set (w : Timer) (v : UInt8)
  deriving DecidableEq

namespace Event

/-- Each tick gives its order as it begins, and an instruction is recorded with the registers that
it finds. -/
def beat? : Event → Option Beat
  | buzz _ => some .tick
  | recorded (.executing _ _ i v _) => i.sets?.map fun (w, x) => .set w (v.get x)
  | recorded _ => none

/-- The beats among some events, the latest first. -/
def beats (es : List Event) : List Beat := (es.filterMap beat?).reverse

theorem beats_append (es later : List Event) : beats (es ++ later) = beats later ++ beats es := by
  rw [beats, List.filterMap_append, List.reverse_append]
  rfl

theorem beats_buzz (order : Buzz) (es : List Event) :
    beats (.buzz order :: es) = beats es ++ [.tick] :=
  beats_append [.buzz order] es

theorem beats_switching (modes : List Mode) :
    beats (modes.map (.recorded <| .switching ·)) = [] := by
  simp [beats, List.filterMap_map, Function.comp_def, beat?]

end Event

namespace Timer

/-- The value that was stored last, and zero if none was. -/
def stored (w : Timer) : List Beat → UInt8
  | [] => 0
  | .tick :: past => w.stored past
  | .set u v :: past => if u = w then v else w.stored past

/-- How many ticks have begun since then. -/
def since (w : Timer) : List Beat → Nat
  | [] => 0
  | .tick :: past => w.since past + 1
  | .set u _ :: past => if u = w then 0 else w.since past

/-- The latest beat that sets a timer decides what was stored, and the ticks behind it count. -/
theorem append_set {w : Timer} {later : List Beat} (h : ∀ u, .set w u ∉ later) (v : UInt8)
    (earlier : List Beat) :
    w.stored (later ++ .set w v :: earlier) = v ∧
      w.since (later ++ .set w v :: earlier) = later.count .tick := by
  induction later with
  | nil => exact ⟨if_pos rfl, if_pos rfl⟩
  | cons b later ih =>
    obtain ⟨hstored, hsince⟩ := ih fun u hu => h u (List.mem_cons_of_mem _ hu)
    cases b with
    | tick =>
      rw [List.count_cons_self, ← hsince]
      exact ⟨hstored, rfl⟩
    | set w' u =>
      have hother : w' ≠ w := fun hw => h u (hw ▸ List.mem_cons_self)
      rw [List.count_cons_of_ne (by simp), ← hsince]
      exact ⟨(if_neg hother).trans hstored, if_neg hother⟩

end Timer

/-- The orders that the ticks among some beats are to give, the latest first. -/
def ordered : List Beat → List Buzz
  | [] => []
  | .tick :: past =>
    (if Timer.sound.since past < (Timer.sound.stored past).toNat then .play else .pause) ::
      ordered past
  | .set _ _ :: past => ordered past

theorem length_ordered (past : List Beat) : (ordered past).length = past.count .tick := by
  induction past with
  | nil => rfl
  | cons b past ih =>
    cases b with
    | tick => rw [List.count_cons_self, ← ih]; rfl
    | set w v => rw [List.count_cons_of_ne (by simp), ← ih]; rfl

/-- After the last time that the sound timer is set, the ticks order a tone as often as the value
says, and then silence. -/
theorem ordered_append_set {v : UInt8} {later earlier : List Beat}
    (h : ∀ u, .set .sound u ∉ later) :
    ordered (later ++ .set .sound v :: earlier) =
      .replicate (later.count .tick - v.toNat) .pause ++
      .replicate (min v.toNat (later.count .tick)) .play ++ ordered earlier := by
  induction later with
  | nil => simp [ordered]
  | cons b later ih =>
    have hlater : ∀ u, .set .sound u ∉ later := fun u hu => h u (List.mem_cons_of_mem _ hu)
    cases b with
    | set w u =>
      rw [List.count_cons_of_ne (by simp), ← ih hlater]
      rfl
    | tick =>
      have hrest := ih hlater
      obtain ⟨hstored, hsince⟩ := Timer.append_set hlater v earlier
      rw [List.count_cons_self, List.cons_append, ordered, hstored, hsince, hrest]
      by_cases hv : later.count .tick < v.toNat
      · have hbefore : later.count .tick - v.toNat = 0 := by omega
        have hafter : later.count .tick + 1 - v.toNat = 0 := by omega
        rw [if_pos hv, hbefore, hafter, Nat.min_eq_right (by omega), Nat.min_eq_right hv]
        rfl
      · have hmin : min v.toNat (later.count .tick + 1) = min v.toNat (later.count .tick) := by
          omega
        rw [if_neg hv, hmin, Nat.sub_add_comm (Nat.le_of_not_lt hv)]
        rfl

/-- Events without an order hold no tick. -/
theorem ordered_beats_append {es : List Event} (h : es.filterMap Event.buzz? = [])
    (past : List Beat) : ordered (Event.beats es ++ past) = ordered past := by
  induction es generalizing past with
  | nil => rfl
  | cons e es ih =>
    cases e with
    | buzz order => cases h
    | recorded r =>
      rw [show Event.recorded r :: es = [.recorded r] ++ es from rfl, Event.beats_append,
        List.append_assoc, ih h]
      cases r with
      | executing a word i v index => cases i <;> rfl
      | _ => rfl

namespace Instruction

variable {i : Instruction} {s t : Core}

theorem Footprint.timer_eq (h : i.Footprint s t) (hi : i.sets? = none) (w : Timer) :
    t.timer w = s.timer w := by
  refine Decidable.byContradiction fun hne => ?_
  cases w with
  | delay =>
    obtain ⟨x, rfl⟩ := h.delay hne
    cases hi
  | sound =>
    obtain ⟨x, rfl⟩ := h.sound hne
    cases hi

theorem execute_timer {chance : UInt8} (h : i.execute chance s = .ok t) (w : Timer) :
    t.timer w = match i.sets? with
      | some (u, x) => if u = w then s.reg x else s.timer w
      | none => s.timer w := by
  have hfoot := execute_footprint h
  cases i
  case setDelay x | setSound x =>
    obtain rfl := Except.ok.inj h
    cases w <;> rfl
  all_goals exact hfoot.timer_eq rfl w

/-- An instruction that is refused sets no timer. -/
theorem sets?_of_refused {chance : UInt8} {fault : Fault} (h : i.execute chance s = .error fault) :
    i.sets? = none := by
  obtain ⟨a, rfl, _⟩ | ⟨rfl, _⟩ | ⟨rfl, _⟩ := execute_error h <;> rfl

end Instruction

theorem Core.countDown_timer (s : Core) (w : Timer) :
    (s.countDown.timer w).toNat = (s.timer w).toNat - 1 := by
  have hdown (b : UInt8) : (if b = 0 then 0 else b - 1).toNat = b.toNat - 1 := by
    split
    · rename_i hb
      rw [hb]
      rfl
    · rename_i hb
      exact Nat.eq_sub_of_add_eq (toNat_sub_one_add_one hb)
  cases w with
  | delay => exact hdown s.delay
  | sound => exact hdown s.sound

namespace Machine

/-- The timers are what the beats of the past have made of them. -/
def KeepsTime (m : Machine) (past : List Beat) : Prop :=
  ∀ w, (m.core.timer w).toNat = (w.stored past).toNat - w.since past

variable {m : Machine} {past : List Beat}

theorem KeepsTime.of_core {m' : Machine} (h : m.KeepsTime past)
    (hdelay : m'.core.delay = m.core.delay) (hsound : m'.core.sound = m.core.sound) :
    m'.KeepsTime past := by
  intro w
  rw [← h w]
  cases w with
  | delay => exact congrArg _ hdelay
  | sound => exact congrArg _ hsound

theorem beats_seen (m : Machine) (word : Word) (i : Instruction) :
    Event.beats [m.seen word i] =
      (i.sets?.map fun (w, x) => Beat.set w (m.core.reg x)).toList := by
  cases h : i.sets? <;> simp [Event.beats, seen, Event.beat?, h, Core.reg]

theorem KeepsTime.step (h : m.KeepsTime past) :
    m.step.machine.KeepsTime (Event.beats m.step.events ++ past) := by
  obtain ⟨_, hs⟩ | ⟨i, fault, _, he, hs⟩ | ⟨i, t, _, he, hs⟩ := m.step_cases
  · rw [hs]
    exact h.of_core rfl rfl
  · rw [hs, beats_seen, Instruction.sets?_of_refused he]
    exact h.of_core rfl rfl
  · intro w
    have htimer := Instruction.execute_timer he w
    have hw := h w
    rw [hs]
    dsimp only
    rw [htimer, ← List.singleton_append, Event.beats_append, Event.beats_switching, beats_seen]
    cases i.sets? with
    | none => exact hw
    | some p =>
      obtain ⟨u, x⟩ := p
      by_cases hu : u = w
      · simp [Timer.stored, Timer.since, hu, Core.reg, Core.advance]
      · simp [Timer.stored, Timer.since, hu, ← hw, Core.advance, Core.timer]

theorem KeepsTime.batch (h : m.KeepsTime past) (n : Nat) :
    (batch n m []).machine.KeepsTime (Event.beats (batch n m []).events ++ past) := by
  induction n generalizing m past with
  | zero => exact h
  | succ n ih =>
    have hstep := h.step
    simp only [Machine.batch, List.reverseAux_eq, List.append_nil]
    split
    · have hrest := ih hstep
      rw [batch_past, List.reverse_reverse, Event.beats_append, List.append_assoc]
      exact hrest
    · rw [List.reverse_reverse]
      exact hstep

theorem KeepsTime.ready (h : m.KeepsTime past) : m.ready.KeepsTime (.tick :: past) := by
  intro w
  change (m.core.countDown.timer w).toNat = (w.stored past).toNat - (w.since past + 1)
  rw [Core.countDown_timer, h w]
  exact Nat.sub_sub ..

theorem beats_haltRecord (done : Outcome (Except Fault Flow)) :
    Event.beats (haltRecord done) = [] := by
  unfold haltRecord
  split <;> rfl

theorem KeepsTime.tick (h : m.KeepsTime past) :
    m.tick.machine.KeepsTime (Event.beats m.tick.events ++ past) := by
  have hdone := h.ready.batch m.config.batch
  simp only [Machine.tick, Event.beats_buzz, Event.beats_append, beats_haltRecord, List.nil_append,
    List.append_assoc]
  exact hdone

theorem load_beats (m : Machine) (source : ByteSource) :
    Event.beats (m.load source).events = [] := by
  unfold load
  dsimp only
  split
  · rfl
  · split <;> rfl

theorem KeepsTime.apply (h : m.KeepsTime past) {op : Operation} (hop : op ≠ .rewind) :
    (m.apply op).machine.KeepsTime (Event.beats (m.apply op).events ++ past) := by
  cases op with
  | rewind => exact absurd rfl hop
  | tick => exact h.tick
  | step => exact h.step
  | load source =>
    obtain ⟨memory, hm⟩ := m.load_machine source
    change (m.load source).machine.KeepsTime (Event.beats (m.load source).events ++ past)
    rw [load_beats, hm]
    exact h.of_core rfl rfl
  | clearProgram =>
    obtain ⟨memory, hm⟩ := m.clearProgram_machine
    change m.clearProgram.KeepsTime past
    rw [hm]
    exact h.of_core rfl rfl
  | press | release | setKeypad | setSpeed | acknowledge =>
    change KeepsTime _ past
    exact h.of_core rfl rfl

theorem KeepsTime.run {ops : List Operation} (h : m.KeepsTime past) (hops : .rewind ∉ ops) :
    (m.run ops).machine.KeepsTime (Event.beats (m.run ops).events ++ past) := by
  induction ops generalizing m past with
  | nil => exact h
  | cons op ops ih =>
    rw [List.mem_cons, not_or] at hops
    have hrest := ih (h.apply (Ne.symm hops.1)) hops.2
    rw [run_cons, Event.beats_append, List.append_assoc]
    exact hrest

theorem step_orders (m : Machine) : m.step.orders = [] := by
  obtain ⟨_, hs⟩ | ⟨i, fault, _, _, hs⟩ | ⟨i, t, _, _, hs⟩ := m.step_cases
  · rw [hs]
    rfl
  · rw [hs]
    rfl
  · have hmodes :
        (i.mode?.toList.map (Event.recorded <| .switching ·)).filterMap Event.buzz? = [] := by
      simp [List.filterMap_map, Function.comp_def, Event.buzz?]
    rw [hs]
    exact hmodes

theorem batch_orders (n : Nat) (m : Machine) : (batch n m []).orders = [] := by
  induction n generalizing m with
  | zero => rfl
  | succ n ih =>
    have hstep := m.step_orders
    have hrest := ih m.step.machine
    simp only [Outcome.orders] at hstep hrest
    simp only [Machine.batch, List.reverseAux_eq, List.append_nil, Outcome.orders]
    split
    · rw [batch_past, List.reverse_reverse, List.filterMap_append, hstep, hrest]
      rfl
    · rw [List.reverse_reverse]
      exact hstep

/-- A tick gives one order, before anything else. -/
theorem tick_events (m : Machine) :
    ∃ rest, m.tick.events = .buzz (buzz m.core) :: rest ∧ rest.filterMap Event.buzz? = [] := by
  refine ⟨_, rfl, ?_⟩
  have hbatch := batch_orders m.config.batch m.ready
  rw [Outcome.orders] at hbatch
  rw [List.filterMap_append, hbatch]
  unfold haltRecord
  split <;> rfl

theorem tick_orders (m : Machine) : m.tick.orders = [buzz m.core] := by
  obtain ⟨rest, hevents, hrest⟩ := m.tick_events
  rw [Outcome.orders, hevents]
  exact congrArg (buzz m.core :: ·) hrest

theorem apply_orders (m : Machine) {op : Operation} (h : op ≠ .tick) :
    (m.apply op).orders = [] := by
  cases op with
  | tick => exact absurd rfl h
  | step => exact m.step_orders
  | rewind =>
    change m.rewind.orders = []
    cases hm : m.history with
    | nil => rw [rewind_nil hm]; rfl
    | cons saved older => rw [rewind_cons hm]; rfl
  | load source =>
    change (m.load source).orders = []
    obtain ⟨_, _, hload⟩ | ⟨_, _, _, hload⟩ := load_cases source
    · rw [hload]
      rfl
    · rw [hload]
      exact Event.filterMap_buzz?_recorded _
  | clearProgram | press | release | setKeypad | setSpeed | acknowledge => rfl

theorem KeepsTime.buzz_eq (h : m.KeepsTime past) :
    buzz m.core =
      if Timer.sound.since past < (Timer.sound.stored past).toNat then .play else .pause := by
  have hsound : m.core.sound.toNat =
      (Timer.sound.stored past).toNat - Timer.sound.since past := h .sound
  unfold buzz
  by_cases h0 : m.core.sound = 0
  · rw [if_pos h0, if_neg]
    rw [h0] at hsound
    exact Nat.not_lt_of_le (Nat.le_of_sub_eq_zero hsound.symm)
  · have hpos : m.core.sound.toNat ≠ 0 := fun hz => h0 (UInt8.toNat.inj hz)
    rw [if_neg h0, if_pos]
    exact Nat.lt_of_sub_ne_zero (hsound ▸ hpos)

/-- The orders of a run are those that its beats call for. -/
theorem KeepsTime.ordered_run {ops : List Operation} (h : m.KeepsTime past)
    (hops : .rewind ∉ ops) :
    ordered (Event.beats (m.run ops).events ++ past) =
      (m.run ops).orders.reverse ++ ordered past := by
  induction ops generalizing m past with
  | nil => rfl
  | cons op ops ih =>
    rw [List.mem_cons, not_or] at hops
    have hrest := ih (h.apply (Ne.symm hops.1)) hops.2
    have hfirst : ordered (Event.beats (m.apply op).events ++ past) =
        (m.apply op).orders.reverse ++ ordered past := by
      by_cases hop : op = .tick
      · subst hop
        obtain ⟨later, hevents, hlater⟩ := m.tick_events
        change ordered (Event.beats m.tick.events ++ past) = m.tick.orders.reverse ++ ordered past
        rw [tick_orders, hevents, Event.beats_buzz, List.append_assoc,
          ordered_beats_append hlater, h.buzz_eq]
        rfl
      · have hnone := m.apply_orders hop
        rw [hnone]
        exact ordered_beats_append hnone past
    have horders : (m.run (op :: ops)).orders =
        (m.apply op).orders ++ ((m.apply op).machine.run ops).orders := List.filterMap_append ..
    rw [horders, List.reverse_append, List.append_assoc, ← hfirst, ← hrest, run_cons,
      Event.beats_append, List.append_assoc]

end Machine

/-- A program that sounds for one tick and halts; no word stands behind that. -/
def chirp : List UInt8 := [0x60, 0x01, 0xF0, 0x18, 0x00, 0xFD]

theorem fetch_chirp {s : Core} (h : s.memory = Memory.fresh.overlay chirp) {a : UInt16} {w : Word}
    (hpc : s.pc = a)
    (hw : (a, w) ∈ [(0x200, 0x6001), (0x202, 0xF018), (0x204, 0x00FD), (0x206, 0x0000)]) :
    s.fetch = w := by
  rw [Core.fetch, h, hpc, Memory.read_overlay, Memory.read_overlay]
  simp only [List.mem_cons, Prod.mk.injEq, List.not_mem_nil, or_false] at hw
  obtain ⟨rfl, rfl⟩ | ⟨rfl, rfl⟩ | ⟨rfl, rfl⟩ | ⟨rfl, rfl⟩ := hw
  case inr.inr.inr =>
    rw [Memory.read_fresh, Memory.read_fresh]
    rfl
  all_goals rfl

namespace Machine

section
variable {m : Machine} (hbatch : m.config.batch = 2)
  (hmemory : m.core.memory = Memory.fresh.overlay chirp)
include hbatch hmemory

/-- The first tick sets the sound timer. -/
theorem tick_chirp_first (hpc : m.core.pc = 0x200) :
    m.tick.machine =
      { m.ready with core := { m.core.countDown.put 0 1 with pc := 0x204, sound := 1 } } ∧
    m.tick.answer = .ok .proceed ∧ Event.beats m.tick.events = [.set .sound 1, .tick] := by
  let halfway : Machine := { m.ready with core := m.core.countDown.advance.put 0 1 }
  have hpc' : halfway.core.pc = 0x202 := congrArg (· + 2) hpc
  have hlast : halfway.core.advance.pc = 0x204 := congrArg (· + 2) hpc'
  have hone : m.ready.core.fetch = 0x6001 := fetch_chirp hmemory hpc (by decide)
  have htwo : halfway.core.fetch = 0xF018 :=
    fetch_chirp (s := halfway.core) hmemory hpc' (by decide)
  have hset : halfway.core.reg 0 = 1 := (Core.reg_put ..).trans (if_pos rfl)
  have hfirst : m.ready.step = ⟨halfway, [m.ready.seen 0x6001 (.setByte 0 1)], .ok .proceed⟩ := by
    rw [← hone]
    exact step_done (by rw [hone]; rfl) rfl
  have hsecond : halfway.step =
      ⟨{ halfway with core := { halfway.core.advance with sound := halfway.core.reg 0 } },
        [halfway.seen 0xF018 (.setSound 0)], .ok .proceed⟩ := by
    rw [← htwo]
    exact step_done (by rw [htwo]; rfl) rfl
  have hbeat : Event.beats [halfway.seen 0xF018 (.setSound 0)] = [.set .sound 1] := by
    rw [beats_seen, ← hset]
    rfl
  simp only [tick, hbatch, batch, hfirst, hsecond, hset]
  refine ⟨?_, trivial, ?_⟩
  · simp only [Core.advance] at hlast ⊢
    rw [hlast]
    rfl
  · exact congrArg (· ++ [Beat.tick]) hbeat

theorem tick_chirp_second (hpc : m.core.pc = 0x204) :
    m.tick.machine = m.ready.passed ∧ m.tick.answer = .ok .halt ∧
      Event.beats m.tick.events = [.tick] := by
  have hword : m.ready.core.fetch = 0x00FD := fetch_chirp hmemory hpc (by decide)
  have hstep : m.ready.step = ⟨m.ready.passed, [m.ready.seen 0x00FD .halt], .ok .halt⟩ := by
    rw [← hword]
    exact step_done (by rw [hword]; rfl) rfl
  simp only [tick, hbatch, batch, hstep]
  exact ⟨trivial, trivial, rfl⟩

theorem tick_chirp_third (hpc : m.core.pc = 0x206) :
    m.tick.answer = .error (.unknownWord 0 0x206) ∧ Event.beats m.tick.events = [.tick] := by
  have hword : m.ready.core.fetch = 0 := fetch_chirp hmemory hpc (by decide)
  have hstep : m.ready.step = ⟨m.ready.passed, [], .error (.unknownWord 0 0x206)⟩ := by
    rw [step_unknown (by rw [hword]; rfl), hword, show m.ready.core.pc = 0x206 from hpc]
  simp only [tick, hbatch, batch, hstep]
  exact ⟨trivial, rfl⟩

end

/-- In a run without rewinding, whatever its operations come to: a timer shows the value that was
last stored in it less the ticks begun since, between operations and anywhere inside a tick; a tick
gives one order, before its first instruction, and no other operation gives any; and after the last
time that the sound timer was set to `v` the next `v` ticks have ordered a tone, and all later ones
silence. -/
theorem timers_count_ticks (config : Config) (entropy : Entropy) (ops : List Operation)
    (h : .rewind ∉ ops) :
    let done := (fresh config entropy).run ops
    let m := done.machine
    let past := Event.beats done.events
    (∀ w, (m.core.timer w).toNat = (w.stored past).toNat - w.since past) ∧
    (∀ w n,
      let inside := batch n m.ready []
      let past := Event.beats inside.events ++ .tick :: past
      (inside.machine.core.timer w).toNat = (w.stored past).toNat - w.since past) ∧
    (∃ rest, m.tick.events = .buzz (if 0 < m.core.sound then .play else .pause) :: rest ∧
      rest.filterMap Event.buzz? = []) ∧
    (∀ op ≠ .tick, (m.apply op).orders = []) ∧
    ∀ later v earlier, past = later ++ .set .sound v :: earlier → (∀ u, .set .sound u ∉ later) →
      ∃ before, before.length = earlier.count .tick ∧ done.orders = before ++
        .replicate (min v.toNat (later.count .tick)) .play ++
        .replicate (later.count .tick - v.toNat) .pause := by
  intro done m past
  have hfresh : (fresh config entropy).KeepsTime [] := by
    intro w
    cases w <;> rfl
  have hm : m.KeepsTime past := by
    have hrun := hfresh.run h
    rwa [List.append_nil] at hrun
  refine ⟨hm, fun w n => hm.ready.batch n w, ?_, fun op hop => m.apply_orders hop, ?_⟩
  · have hbuzz : buzz m.core = if 0 < m.core.sound then .play else .pause := by
      unfold buzz
      by_cases h0 : m.core.sound = 0
      · rw [if_pos h0, h0]
        rfl
      · rw [if_neg h0, if_pos (UInt8.pos_iff_ne_zero.mpr h0)]
    rw [← hbuzz]
    exact m.tick_events
  · intro later v earlier hpast hlater
    have horders := hfresh.ordered_run h
    rw [List.append_nil, ordered, List.append_nil] at horders
    change ordered past = done.orders.reverse at horders
    rw [hpast, ordered_append_set hlater] at horders
    refine ⟨(ordered earlier).reverse, ?_, ?_⟩
    · rw [List.length_reverse, length_ordered]
    · rw [← List.reverse_reverse done.orders, ← horders]
      simp

/-- The first tick ends normally, the second halts and the third fails; the second sounds. -/
theorem timers_count_ticks_chirp :
    let ops := [.load (.ofList chirp), .tick, .tick, .tick]
    let done := (fresh ⟨.vip, 2, 1⟩ (.cycle [])).run ops
    .rewind ∉ ops ∧ Event.beats done.events = [.tick, .tick] ++ .set .sound 1 :: [.tick] ∧
      (∀ u, .set .sound u ∉ [Beat.tick, .tick]) ∧
      done.answer.tail =
        [.flow (.ok .proceed), .flow (.ok .halt), .flow (.error (.unknownWord 0 0x206))] ∧
      done.machine.core.sound = 0 ∧ ∃ first, done.orders = [first, .play, .pause] := by
  intro ops done
  have hrewind : .rewind ∉ ops := by simp [ops]
  have hlater : ∀ u, .set .sound u ∉ [Beat.tick, .tick] := by simp
  let loaded : Machine :=
    { core := { Core.fresh .vip with memory := Memory.fresh.overlay chirp }
      history := [], config := ⟨.vip, 2, 1⟩, entropy := .cycle [] }
  have hload : (fresh ⟨.vip, 2, 1⟩ (.cycle [])).load (.ofList chirp) =
      ⟨loaded, [.recorded (.loaded 6 .vip)], .ok (), 6⟩ := rfl
  obtain ⟨hm₁, ha₁, hbeats₁⟩ := tick_chirp_first (m := loaded) (by decide) rfl rfl
  obtain ⟨hm₂, ha₂, hbeats₂⟩ := tick_chirp_second (m := loaded.tick.machine)
    (by rw [hm₁]; decide) (by rw [hm₁]; rfl) (by rw [hm₁])
  obtain ⟨ha₃, hbeats₃⟩ := tick_chirp_third (m := loaded.tick.machine.tick.machine)
    (by rw [hm₂, hm₁]; decide) (by rw [hm₂, hm₁]; rfl) (by rw [hm₂, hm₁]; rfl)
  have hrun (m : Machine) (source : ByteSource) :
      let m₀ := (m.load source).machine
      let done := m.run [.load source, .tick, .tick, .tick]
      done.events = (m.load source).events ++ (m₀.tick.events ++
        (m₀.tick.machine.tick.events ++ m₀.tick.machine.tick.machine.tick.events)) ∧
      done.answer.tail = [.flow m₀.tick.answer, .flow m₀.tick.machine.tick.answer,
        .flow m₀.tick.machine.tick.machine.tick.answer] := by
    simp only [run, apply, Outcome.map, List.append_nil, List.tail_cons, and_self]
  obtain ⟨hevents, hanswers⟩ := hrun (fresh ⟨.vip, 2, 1⟩ (.cycle [])) (.ofList chirp)
  rw [hload] at hevents hanswers
  have hbeats : Event.beats done.events = [.tick, .tick] ++ .set .sound 1 :: [.tick] := by
    simp only [done, ops]
    rw [hevents, Event.beats_append, Event.beats_append, Event.beats_append, hbeats₁, hbeats₂,
      hbeats₃]
    rfl
  rw [ha₁, ha₂, ha₃] at hanswers
  obtain ⟨htimers, -, -, -, horders⟩ := timers_count_ticks ⟨.vip, 2, 1⟩ (.cycle []) ops hrewind
  obtain ⟨before, hbefore, horders⟩ := horders _ _ _ hbeats hlater
  have hsound := htimers .sound
  rw [hbeats] at hsound
  have hzero (s : Core) (h : (s.timer .sound).toNat = 0) : s.sound = 0 := UInt8.toNat.inj h
  refine ⟨hrewind, hbeats, hlater, hanswers, hzero _ hsound, ?_⟩
  obtain ⟨first, rfl⟩ := List.length_eq_one_iff.mp hbefore
  exact ⟨first, horders⟩

end Machine
end ChipMachine
