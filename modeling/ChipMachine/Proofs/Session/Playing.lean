import ChipMachine.Proofs.Session.Cutting
import ChipMachine.Proofs.Session.Sounding

namespace ChipMachine

namespace Tone

/-- The sample behind `k` others when nothing comes between them. -/
def wave (t : Tone) (k : Nat) : Float32 := (advance^[k] t).sample

theorem fill_eq (t : Tone) (n : Nat) :
    t.fill n = ((List.range n).map t.wave, advance^[n] t) := by
  induction n generalizing t with
  | zero => rfl
  | succ n ih =>
    rw [fill_succ, ih, List.range_succ_eq_map, List.map_cons, List.map_map]
    rfl

end Tone

/-- Whether the call tells the playback device to start or to stop. -/
def Call.isOrder : Call → Bool
  | .resume | .pause => true
  | _ => false

/-- Whether it is no more than a line of text. -/
def Happening.isText : Happening → Bool
  | .recorded _ | .printed _ => true
  | _ => false

/-- What concerns the playback device: how it is set, and what it was told and has taken so far. -/
structure Playback where
  pull : Nat
  tone : Tone
  sounding : Bool
  orders : List Call
  samples : List Float32
  polls : Nat

namespace Device

def orders (d : Device) : List Call := d.calls.filter Call.isOrder

def polls (d : Device) : Nat := d.calls.count .poll

/-- All samples the device has taken, poll after poll. -/
def samples (d : Device) : List Float32 :=
  d.happenings.flatMap fun
    | .sampled samples => samples
    | _ => []

def playback (d : Device) : Playback :=
  ⟨d.pull, d.tone, d.sounding, d.orders, d.samples, d.polls⟩

theorem samples_note (d : Device) (h : Happening) :
    (d.note h).samples = d.samples ++ match h with
      | .sampled samples => samples
      | _ => [] := by
  cases h <;> simp [samples, happenings, note]

theorem rate_made (d : Device) (c : Call) : (d.made c).rate = d.rate := by
  cases c <;> rfl

theorem samples_made (d : Device) (c : Call) : (d.made c).samples = d.samples := by
  have hreact : (d.react c).samples = d.samples := by cases c <;> rfl
  rw [made, samples_note, hreact, List.append_nil]

theorem orders_made (d : Device) (c : Call) :
    (d.made c).orders = d.orders ++ if c.isOrder then [c] else [] := by
  rw [orders, calls_made, List.filter_append, List.filter_cons, List.filter_nil, orders]

theorem polls_made (d : Device) (c : Call) :
    (d.made c).polls = d.polls + if c = .poll then 1 else 0 := by
  rw [polls, calls_made, List.count_append, List.count_singleton, polls]
  simp only [beq_iff_eq]

theorem playback_note (d : Device) {h : Happening} (hh : h.isText = true) :
    (d.note h).playback = d.playback := by
  have hcalls := d.calls_note h
  have hsamples := d.samples_note h
  cases h with
  | called | sampled => cases hh
  | recorded | printed =>
    rw [List.append_nil] at hcalls hsamples
    simp only [playback, orders, polls, hcalls, hsamples]
    rfl

end Device

namespace Playback

/-- Orders by turns; the first is to start. -/
def byTurns (n : Nat) : List Call :=
  (List.range n).map fun k => if k % 2 = 0 then .resume else .pause

/-- What a call changes, on a device that runs at its own rate or else at the one asked for. -/
def called (rate : Option Int32) (p : Playback) : Call → Playback
  | .openPlayback frequency _ =>
    { p with tone := Tone.atRate (rate.getD (Int32.ofNat frequency)), sounding := false }
  | .resume => { p with sounding := true, orders := p.orders ++ [.resume] }
  | .pause => { p with sounding := false, orders := p.orders ++ [.pause] }
  | .poll => { p with polls := p.polls + 1 }
  | _ => p

/-- The next samples are taken if the device sounds. -/
def pulled (p : Playback) : Playback :=
  if p.sounding then
    { p with
      tone := (p.tone.fill p.pull).2
      samples := p.samples ++ (p.tone.fill p.pull).1 }
  else p

def polled (p : Playback) : Playback := { p.pulled with polls := p.polls + 1 }

/-- The device is told to sound or not to, unless it does already what it is to do. -/
def told (on : Bool) (p : Playback) : Playback :=
  if p.sounding = on then p
  else { p with sounding := on, orders := p.orders ++ [if on then .resume else .pause] }

section
variable (p : Playback) (on : Bool)

theorem pull_polled : p.polled.pull = p.pull := by
  unfold polled pulled
  split <;> rfl

theorem sounding_polled : p.polled.sounding = p.sounding := by
  unfold polled pulled
  split <;> rfl

theorem orders_polled : p.polled.orders = p.orders := by
  unfold polled pulled
  split <;> rfl

theorem pull_told : (p.told on).pull = p.pull := by
  unfold told
  split <;> rfl

theorem polls_told : (p.told on).polls = p.polls := by
  unfold told
  split <;> rfl

end

/-- The orders went by turns, and what was taken is the beginning of one wave, which goes on where
the last samples ended. -/
structure Steady (start : Tone) (heard : Nat) (p : Playback) : Prop where
  orders : p.orders = byTurns p.orders.length
  sounding : p.sounding = decide (p.orders.length % 2 = 1)
  taken : (p.samples, p.tone) = start.fill (p.pull * heard)

variable {start : Tone} {heard : Nat} {p : Playback}

theorem Steady.idle (start : Tone) (pull : Nat) : Steady start 0 ⟨pull, start, false, [], [], 0⟩ :=
  ⟨rfl, rfl, rfl⟩

theorem Steady.polled (h : Steady start heard p) :
    Steady start (heard + if p.sounding then 1 else 0) p.polled := by
  unfold Playback.polled Playback.pulled
  split
  · refine ⟨h.orders, h.sounding, ?_⟩
    rw [Nat.mul_succ, Tone.fill_add, ← h.taken]
  · exact ⟨h.orders, h.sounding, h.taken⟩

theorem byTurns_succ (n : Nat) :
    byTurns (n + 1) = byTurns n ++ [if n % 2 = 0 then .resume else .pause] := by
  rw [byTurns, List.range_succ, List.map_append]
  rfl

theorem Steady.told (h : Steady start heard p) (on : Bool) : Steady start heard (p.told on) := by
  unfold Playback.told
  split
  · exact h
  · rename_i hne
    have hlength : p.orders.length % 2 = if on then 0 else 1 := by
      have hs := h.sounding
      rw [Bool.eq_not.mpr hne] at hs
      cases on <;> simp at hs ⊢ <;> omega
    refine ⟨?_, ?_, h.taken⟩
    · dsimp only
      rw [List.length_append, List.length_singleton, byTurns_succ, ← h.orders, hlength]
      cases on <;> rfl
    · dsimp only
      rw [List.length_append, List.length_singleton, Nat.add_mod, hlength]
      cases on <;> rfl

end Playback

namespace Device

theorem playback_made (d : Device) (c : Call) :
    (d.made c).playback = d.playback.called d.rate c := by
  have hmade : (d.made c).playback =
      ⟨(d.react c).pull, (d.react c).tone, (d.react c).sounding,
        d.orders ++ if c.isOrder then [c] else [], d.samples,
        d.polls + if c = .poll then 1 else 0⟩ := by
    simp only [playback, orders_made, polls_made, samples_made]
    rfl
  rw [hmade]
  cases c <;> simp [playback, Playback.called, react, Call.isOrder]

theorem playback_takeSamples (d : Device) : d.takeSamples.playback = d.playback.pulled := by
  have horders : d.takeSamples.orders = d.orders := by rw [orders, calls_takeSamples, orders]
  have hpolls : d.takeSamples.polls = d.polls := by rw [polls, calls_takeSamples, polls]
  simp only [playback, horders, hpolls]
  unfold takeSamples Playback.pulled
  dsimp only
  split
  · rw [samples_note]
    rfl
  · rfl

theorem playback_poll (d : Device) : (d.takeSamples.made .poll).playback = d.playback.polled := by
  have hpolls : d.playback.pulled.polls = d.playback.polls := by
    unfold Playback.pulled
    split <;> rfl
  rw [playback_made, playback_takeSamples, Playback.called, hpolls, Playback.polled]

end Device

namespace Session

variable {s : Session} {on : Bool}

theorem Sounds.playback_buzzed (h : s.Sounds on) (order : Buzz) :
    (s.buzzed order).device.playback = s.device.playback.told (order == .play) := by
  have hb := h.buzzing
  have hs : s.device.playback.sounding = on := h.sounding
  unfold Session.buzzed Playback.told
  rw [hs]
  cases order <;> cases on <;> rw [hb]
  · exact s.device.playback_made .resume
  · rfl
  · rfl
  · exact s.device.playback_made .pause

theorem playback_heardRecords {es : List Event} (hes : es.filterMap Event.buzz? = []) :
    (es.foldl heard s).device.playback = s.device.playback := by
  induction es generalizing s with
  | nil => rfl
  | cons e es ih =>
    cases e with
    | buzz order => cases hes
    | recorded r => exact (ih hes).trans (s.device.playback_note (h := .recorded r) rfl)

theorem playback_adopted {o : Outcome α} (ho : o.orders = []) :
    (s.adopted o).device.playback = s.device.playback :=
  playback_heardRecords (s := { s with machine := o.machine }) ho

theorem playback_loaded (s : Session) (source : ByteSource) :
    (s.adopted (s.machine.load source)).device.playback = s.device.playback := by
  have hload : Operation.load source ≠ .tick := nofun
  exact playback_adopted (s.machine.apply_orders hload)

theorem Sounds.playback_ticked (h : s.Sounds on) :
    (s.adopted s.machine.tick).device.playback =
      s.device.playback.told (s.machine.core.sound != 0) := by
  obtain ⟨rest, hevents, hrest⟩ := s.machine.tick_events
  have htaken : ({ s with machine := s.machine.tick.machine } : Session).Sounds on :=
    h.of_eq rfl rfl rfl
  have hbuzzed := htaken.playback_buzzed (Machine.buzz s.machine.core)
  rw [Machine.buzz_eq_play] at hbuzzed
  unfold Session.adopted
  rw [hevents]
  exact (playback_heardRecords hrest).trans hbuzzed

theorem Sounds.playback_moved (h : s.Sounds on) :
    s.moved.2.device.playback =
      if s.rewinding then s.device.playback
      else s.device.playback.told (s.machine.core.sound != 0) := by
  have hback : Operation.rewind ≠ .tick := nofun
  have hrewound := playback_adopted (s := s) (s.machine.apply_orders hback)
  have hticked := h.playback_ticked
  unfold Session.moved
  cases s.rewinding with
  | true => exact hrewound
  | false =>
    rw [if_neg Bool.false_ne_true, if_neg Bool.false_ne_true]
    dsimp only
    split
    · exact hticked
    · exact (Device.playback_note (h := .recorded _) _ rfl).trans hticked

theorem playback_rendered (s : Session) : s.rendered.device.playback = s.device.playback := by
  unfold rendered
  split
  · simp only [called, Device.playback_made, Playback.called]
  · rfl

theorem playback_polled (s : Session) (inputs : List Input) :
    (s.polled inputs).device.playback =
      if (s.heedAll inputs).1 then s.device.playback.polled else s.device.playback := by
  have hsteered : (s.heedAll inputs).2.device = s.device := by
    obtain ⟨_, _, _, hst⟩ := s.steered_heedAll inputs
    rw [hst]
  unfold polled
  split <;> rename_i heq <;> rw [heq] at hsteered ⊢ <;> dsimp only at hsteered <;> rw [← hsteered]
  · exact Device.playback_poll _
  · rfl

/-- At a turn the device is polled. Then it is told what the tick demands, if the turn goes
forth. -/
theorem Sounds.playback_turn (h : s.Sounds on) {inputs : List Input} {t : Turn}
    (ht : s.turn? inputs = some t) :
    t.began.device.playback = s.device.playback.polled ∧
    t.ended.device.playback =
      if t.began.rewinding then t.began.device.playback
      else t.began.device.playback.told (t.began.machine.core.sound != 0) := by
  obtain ⟨t', ht', hgoes, hbegan, hended, -⟩ | ⟨hnone, -⟩ := turn?_cases h.works inputs
  · obtain rfl := Option.some.inj (ht.symm.trans ht')
    have hpolled : t.began.Sounds on := hbegan ▸ h.rendered.polled inputs
    rw [hended, hpolled.playback_moved, hbegan, playback_polled, hgoes, if_pos rfl,
      playback_rendered]
    exact ⟨rfl, rfl⟩
  · rw [hnone] at ht
    cases ht

theorem Sounds.playback_quit (h : s.Sounds on) {inputs : List Input}
    (hnone : s.turn? inputs = none) :
    (s.framed inputs).2.device.playback = s.device.playback := by
  have hquit : (s.rendered.heedAll inputs).1 = false := by
    refine Bool.eq_false_of_not_eq_true fun hgoes => ?_
    rw [turn?_eq h.works, if_pos hgoes] at hnone
    cases hnone
  unfold Session.framed
  rw [hquit, if_neg Bool.false_ne_true]
  dsimp only
  rw [playback_polled, hquit, playback_rendered]
  rfl

/-- A frame that goes back gives no order. -/
theorem Sounds.orders_back (h : s.Sounds on) {inputs : List Input}
    (hback : (s.framed inputs).2.rewinding = true) :
    (s.framed inputs).2.device.orders = s.device.orders := by
  obtain ⟨t, ht, -, -, hended, hframed⟩ | ⟨hnone, -⟩ := turn?_cases h.works inputs
  · obtain ⟨hbegan, hmoved⟩ := h.playback_turn ht
    rw [hframed, ← hended] at hback ⊢
    have hrewinding : t.began.rewinding = true := by
      rw [← hback, hended, t.began.moved_machine.2]
    rw [hrewinding, if_pos rfl, hbegan] at hmoved
    exact (congrArg Playback.orders hmoved).trans (Playback.orders_polled _)
  · exact congrArg Playback.orders (h.playback_quit hnone)

theorem keeps_frame_sounds (inputs : List Input) :
    Keeps (fun u => ∃ on, u.Sounds on) (frame inputs) := by
  rintro u ⟨on, hu⟩
  rw [perform_frame hu.works]
  obtain ⟨t, -, hended, hsounds⟩ | ⟨-, -, hsounds⟩ := hu.framed_cases inputs
  · exact ⟨_, hended ▸ hsounds⟩
  · exact ⟨on, hsounds⟩

theorem Sounds.orders_film (h : s.Sounds on) (script : List (List Input)) :
    ∀ f ∈ s.film script, f.ended.rewinding = true →
      f.ended.device.orders = f.began.device.orders := by
  intro f hf hback
  obtain ⟨u, inputs, ⟨on, hu⟩, rfl⟩ :=
    film_preserves (fun u inputs => keeps_frame_sounds inputs u) script ⟨on, h⟩ f hf
  simp only [shoot, perform_frame hu.works] at hback ⊢
  exact hu.orders_back hback

/-- A session that has played on since its device was opened with a tone. -/
structure Plays (start : Tone) (pull : Nat) (past : List Turn) (s : Session) : Prop
    extends s.Sounds (Turn.sounded past) where
  pull : s.device.playback.pull = pull
  polls : s.device.playback.polls = past.length
  steady : s.device.playback.Steady start (past.countP (·.began.device.sounding))

variable {start : Tone} {pull : Nat} {past : List Turn}

theorem Plays.framed (h : s.Plays start pull past) (inputs : List Input) :
    (∃ t, s.turn? inputs = some t ∧ t.ended = (s.framed inputs).2 ∧
      t.ended.Plays start pull (past ++ [t])) ∨
    (s.turn? inputs = none ∧ (s.framed inputs).1 = false ∧
      (s.framed inputs).2.Plays start pull past) := by
  obtain ⟨t, ht, hended, hsounds⟩ | ⟨hnone, hends, hsounds⟩ := h.toSounds.framed inputs
  · obtain ⟨hbegan, hmoved⟩ := h.playback_turn ht
    have hsounding : t.began.device.sounding = s.device.playback.sounding :=
      (congrArg Playback.sounding hbegan).trans (Playback.sounding_polled _)
    have hsteady : t.began.device.playback.Steady start
        ((past ++ [t]).countP (·.began.device.sounding)) := by
      rw [List.countP_append, List.countP_singleton, hsounding, hbegan]
      exact h.steady.polled
    have hpull : t.began.device.playback.pull = pull := by
      rw [hbegan, Playback.pull_polled, h.pull]
    have hpolls : t.began.device.playback.polls = (past ++ [t]).length := by
      rw [hbegan, List.length_append, ← h.polls]
      rfl
    refine .inl ⟨t, ht, hended, hsounds, ?_, ?_, ?_⟩ <;> rw [hmoved] <;> split
    · exact hpull
    · exact (Playback.pull_told ..).trans hpull
    · exact hpolls
    · exact (Playback.polls_told ..).trans hpolls
    · exact hsteady
    · exact hsteady.told _
  · have hsame := h.playback_quit hnone
    refine .inr ⟨hnone, hends, hsounds, ?_, ?_, ?_⟩ <;> rw [hsame]
    · exact h.pull
    · exact h.polls
    · exact h.steady

theorem Plays.turns (h : s.Plays start pull past) (script : List (List Input)) :
    (s.perform (frames script)).2.Plays start pull (past ++ s.turns script) ∧
    ∀ (k : Nat) t, (s.turns script)[k]? = some t →
      t.ended.Plays start pull (past ++ (s.turns script).take (k + 1)) :=
  turns_preserve (P := fun past u => u.Plays start pull past) (fun _ _ hu => hu.works)
    (fun _ _ inputs hu => hu.framed inputs) h script

theorem perform_openWindow (h : s.device.Works) (setup : Setup) :
    (∃ e, s.perform (openWindow setup) = (.error e, s)) ∨
    ∃ width height,
      s.perform (openWindow setup) = (.ok (), s.called (.makeWindow setup.title width height)) := by
  rw [openWindow_eq]
  dsimp only
  split
  · exact .inr ⟨_, _, perform_call h _⟩
  · exact .inl ⟨_, rfl⟩

/-- All other parts of the device are started before playback is opened, or the window is too
large. -/
theorem startDevice_cases (h : s.device.Works) (setup : Setup) : ∃ t : Session,
    t.device.Works ∧ t.device.playback = s.device.playback ∧ t.device.rate = s.device.rate ∧
    ((∃ e, s.perform (startDevice setup) = (.error e, t)) ∨
      s.perform (startDevice setup) = (.ok (), t.called (.openPlayback Tone.sampleRate 1))) := by
  have hlibrary := works_called h .startLibrary
  have hvideo := works_called hlibrary .startVideo
  unfold startDevice
  rw [perform_call_bind h, perform_call_bind hlibrary, perform_bind]
  obtain ⟨e, herror⟩ | ⟨width, height, hwindow⟩ := perform_openWindow hvideo setup
  · rw [herror]
    refine ⟨_, hvideo, ?_, rfl, .inl ⟨e, rfl⟩⟩
    simp only [called, Device.playback_made, Playback.called]
  · have hwindow' := works_called hvideo (.makeWindow setup.title width height)
    have hrenderer := works_called hwindow' .makeRenderer
    have hevents := works_called hrenderer .startEvents
    have haudio := works_called hevents .startAudio
    rw [hwindow]
    dsimp only
    rw [perform_call_bind hwindow', perform_call_bind hrenderer, perform_call_bind hevents,
      perform_call haudio]
    refine ⟨_, ?_, ?_, ?_, .inr rfl⟩
    · exact haudio
    · simp only [called, Device.playback_made, Playback.called]
    · simp only [called, Device.rate_made]

/-- When the opening is done the device has its tone, and nothing has been heard yet; and nothing
was heard if the opening has failed. -/
theorem playback_opening (setup : Setup) (folder : Folder) (rate : Option Int32)
    (pull padding : Nat) (entropy : Entropy) :
    let opened := (fresh setup (.idle none rate pull padding) entropy).perform
      (opening setup folder)
    ∃ tone, opened.2.device.playback = ⟨pull, tone, false, [], [], 0⟩ ∧
      (opened.1 = .ok () → tone = Tone.atRate (rate.getD (Int32.ofNat Tone.sampleRate))) := by
  intro opened
  have hworks : (fresh setup (.idle none rate pull padding) entropy).device.Works := rfl
  have hopening : opened = _ := perform_bind (startDevice setup) fun _ => startProgram setup folder
  obtain ⟨t, ht, hplayback, hrate, ⟨e, herror⟩ | hdone⟩ := startDevice_cases hworks setup
  · rw [herror] at hopening
    rw [hopening]
    refine ⟨_, hplayback, fun hok => ?_⟩
    cases hok
  · rw [hdone] at hopening
    rw [hopening]
    let start := Tone.atRate (rate.getD (Int32.ofNat Tone.sampleRate))
    have hopened : (t.called (.openPlayback Tone.sampleRate 1)).device.playback =
        ⟨pull, start, false, [], [], 0⟩ := by
      rw [called, Device.playback_made, hplayback, hrate]
      rfl
    have hkept := keeps_startProgram
      (P := fun u => u.device.Works ∧ u.device.playback = ⟨pull, start, false, [], [], 0⟩)
      (fun _ hu => hu.1)
      (fun u r hu => ⟨hu.1, (u.device.playback_note (h := .recorded r) rfl).trans hu.2⟩)
      (fun u text hu => ⟨hu.1, (u.device.playback_note (h := .printed text) rfl).trans hu.2⟩)
      (fun u source hu => ?_) setup folder _ ⟨works_called ht _, hopened⟩
    · exact ⟨start, hkept.2, fun _ => rfl⟩
    · exact ⟨works_adopted hu.1 _, (u.playback_loaded source).trans hu.2⟩

/-- On a device that refuses nothing, the orders to start and to stop the tone go by turns, and the
first is to start. After each tick the device sounds if and only if the tick began with the sound
timer running, and a frame that goes back gives no order. There is a poll for each turn, and what
the device takes at those polls at which it sounds is one wave from its beginning, however it is cut
into pieces and whatever lies between them. -/
theorem playback_is_one_wave (setup : Setup) (folder : Folder) (script : List (List Input))
    (rate : Option Int32) (pull padding : Nat) (entropy : Entropy) :
    let device := Device.idle none rate pull padding
    let done := (run setup folder script device entropy).2.device
    let turns := turned setup folder script device entropy
    let start := Tone.atRate (rate.getD (Int32.ofNat Tone.sampleRate))
    done.orders = Playback.byTurns done.orders.length ∧
    (∀ t ∈ turns, t.began.rewinding = false →
      (t.ended.device.sounding = true ↔ 0 < t.began.machine.core.sound)) ∧
    (∀ f ∈ filmed setup folder script device entropy, f.ended.rewinding = true →
      f.ended.device.orders = f.began.device.orders) ∧
    done.polls = turns.length ∧
    done.samples =
      (List.range (pull * turns.countP (·.began.device.sounding))).map start.wave := by
  intro device done turns start
  obtain ⟨tone, hplayback, htone⟩ := playback_opening setup folder rate pull padding entropy
  have hsilent := sounds_opening setup folder rate pull padding entropy
  cases hs : (fresh setup device entropy).perform (opening setup folder) with
  | mk result s =>
    rw [hs] at hplayback htone hsilent
    dsimp only at hplayback htone hsilent
    cases result with
    | error e =>
      have hdone : done = s.device := by simp only [done, run_of_unopened hs]
      have hturns : turns = [] := turned_of_unopened hs script
      have horders : s.device.orders = [] := congrArg Playback.orders hplayback
      have hsamples : s.device.samples = [] := congrArg Playback.samples hplayback
      have hpolls : s.device.polls = 0 := congrArg Playback.polls hplayback
      rw [hdone, hturns, horders, hsamples, hpolls, filmed, hs, List.countP_nil, Nat.mul_zero]
      refine ⟨rfl, ?_, ?_, rfl, rfl⟩
      · intro t ht
        cases ht
      · intro f hf
        cases hf
    | ok =>
      obtain rfl := htone rfl
      have hdone : done = (s.perform (frames script)).2.device := by
        simp only [done, run_of_opened hs]
      have hturned : turns = s.turns script := turned_of_opened hs script
      have hplays : s.Plays start pull [] := by
        refine ⟨hsilent, ?_, ?_, ?_⟩ <;> rw [hplayback]
        · rfl
        · exact .idle start pull
      obtain ⟨hend, hturns⟩ := hplays.turns script
      rw [List.nil_append] at hend
      rw [hdone, hturned, filmed, hs]
      dsimp only
      refine ⟨hend.steady.orders, fun t ht hforth => ?_, hplays.orders_film script, hend.polls, ?_⟩
      · obtain ⟨k, hk⟩ := List.mem_iff_getElem?.mp ht
        have hsounding := (hturns k t hk).sounding
        rw [List.nil_append, List.take_add_one, hk, Option.toList_some, Turn.sounded_concat,
          hforth] at hsounding
        rw [hsounding]
        exact bne_iff_ne.trans UInt8.pos_iff_ne_zero.symm
      · have htaken := congrArg Prod.fst hend.steady.taken
        rw [hend.pull, Tone.fill_eq] at htaken
        exact htaken

end Session
end ChipMachine
