import ChipMachine.Proofs.Session.Uploading
import ChipMachine.Session.Run

namespace ChipMachine

namespace Device

/-- The device after a call that went through. -/
def made (d : Device) (c : Call) : Device := (d.react c).note (.called c none)

/-- A device that refuses nothing. -/
def Works (d : Device) : Prop := d.breakdown = none

variable {d : Device}

theorem Works.call (h : d.Works) (c : Call) : d.call c = (none, d.made c) := by
  have hb : d.breakdown = none := h
  simp [Device.call, refusal?, wear, hb, made]

theorem Works.made (h : d.Works) (c : Call) : (d.made c).Works := by
  cases c <;> exact h

theorem Works.takeSamples (h : d.Works) : d.takeSamples.Works := by
  unfold Device.takeSamples
  split <;> exact h

end Device

namespace Session

/-- What a part of a session comes to, and the session after it. -/
def perform (s : Session) (x : Act α) : Except SessionError α × Session := x.run.run s

variable {s : Session}

theorem perform_bind (x : Act α) (f : α → Act β) :
    s.perform (x >>= f) = match s.perform x with
      | (.ok a, t) => t.perform (f a)
      | (.error e, t) => (.error e, t) := by
  unfold perform
  change (match x.run.run s with | (r, t) => (ExceptT.bindCont f r).run t) = _
  rcases x.run.run s with ⟨_ | a, t⟩ <;> rfl

theorem perform_get_bind (f : Session → Act α) : s.perform (get >>= f) = s.perform (f s) := rfl

theorem perform_set (t : Session) : s.perform (set t) = (.ok ⟨⟩, t) := rfl

theorem perform_set_bind (t : Session) (f : PUnit → Act α) :
    s.perform (set t >>= f) = t.perform (f ⟨⟩) := rfl

theorem perform_modify (g : Session → Session) : s.perform (modify g) = (.ok ⟨⟩, g s) := rfl

/-- A session after a call that went through. -/
def called (s : Session) (c : Call) : Session := { s with device := s.device.made c }

theorem works_called (h : s.device.Works) (c : Call) : (s.called c).device.Works := h.made c

theorem perform_call (h : s.device.Works) (c : Call) :
    s.perform (call c) = (.ok (), s.called c) := by
  unfold call
  rw [perform_get_bind, h.call]
  rfl

theorem perform_call_bind (h : s.device.Works) (c : Call) (f : Unit → Act α) :
    s.perform (call c >>= f) = (s.called c).perform (f ()) := by
  rw [perform_bind, perform_call h]

/-- A session whose buzzer has been given an order. -/
def buzzed (s : Session) (order : Buzz) : Session :=
  match order, s.buzzing with
  | .play, false => { s.called .resume with buzzing := true }
  | .pause, true => { s.called .pause with buzzing := false }
  | _, _ => s

theorem perform_buzz (h : s.device.Works) (order : Buzz) :
    s.perform (buzz order) = (.ok (), s.buzzed order) := by
  unfold buzz buzzed
  rw [perform_get_bind]
  cases order <;> cases s.buzzing
  case play.false | pause.true =>
    dsimp only
    rw [perform_call_bind h]
    rfl
  all_goals rfl

theorem works_buzzed (h : s.device.Works) (order : Buzz) : (s.buzzed order).device.Works := by
  unfold buzzed
  split
  · exact h.made _
  · exact h.made _
  · exact h

/-- A session that has heard an event of its machine. -/
def heard (s : Session) : Event → Session
  | .buzz order => s.buzzed order
  | .recorded r => { s with device := s.device.note (.recorded r) }

theorem perform_heedEvent (h : s.device.Works) (e : Event) :
    s.perform (heedEvent e) = (.ok (), s.heard e) := by
  cases e with
  | buzz order => exact perform_buzz h order
  | recorded r => rfl

theorem works_heard (h : s.device.Works) (e : Event) : (s.heard e).device.Works := by
  cases e with
  | buzz order => exact works_buzzed h order
  | recorded r => exact h

theorem perform_heedEvents (h : s.device.Works) (es : List Event) :
    s.perform (es.forM heedEvent) = (.ok ⟨⟩, es.foldl heard s) := by
  induction es generalizing s with
  | nil => rfl
  | cons e es ih =>
    change s.perform (heedEvent e >>= fun _ => es.forM heedEvent) = _
    rw [perform_bind, perform_heedEvent h]
    exact ih (works_heard h e)

theorem works_heardAll (h : s.device.Works) (es : List Event) :
    (es.foldl heard s).device.Works := by
  induction es generalizing s with
  | nil => exact h
  | cons e es ih => exact ih (works_heard h e)

/-- A session that has taken over a machine and heard all that its operation reported. -/
def adopted (s : Session) (o : Outcome α) : Session :=
  o.events.foldl heard { s with machine := o.machine }

theorem perform_adopt (h : s.device.Works) (o : Outcome α) :
    s.perform (adopt o) = (.ok o.answer, s.adopted o) := by
  unfold adopt
  rw [perform_bind, perform_modify]
  dsimp only
  rw [perform_bind, perform_heedEvents (s := { s with machine := o.machine }) h]
  rfl

theorem works_adopted (h : s.device.Works) (o : Outcome α) : (s.adopted o).device.Works :=
  works_heardAll (s := { s with machine := o.machine }) h o.events

end Session

/-- The active part of the screen in the colours of a palette. -/
def Machine.picture (palette : Palette) (m : Machine) : Picture :=
  ⟨m.core.mode.width, m.core.mode.height, Texture.bytes palette m.core.mode m.core.bitmap⟩

namespace Session

variable {s : Session}

/-- A session whose device has shown the screen if it was marked. -/
def rendered (s : Session) : Session :=
  if s.machine.core.dirty then
    let mode := s.machine.core.mode
    let copied := ((s.called (.makeTexture mode.width mode.height)).called .lockTexture).called
      .copyTexture
    { copied.called (.present (s.machine.picture s.palette)) with
      machine := s.machine.acknowledge }
  else s

/-- Whatever the padding of its textures, a device that refuses nothing shows the screen as it
is. -/
theorem perform_render (h : s.device.Works) : s.perform render = (.ok (), s.rendered) := by
  unfold render rendered
  rw [perform_get_bind, Machine.frame?]
  by_cases hd : s.machine.core.dirty = true
  · rw [if_pos hd, if_pos hd]
    dsimp only
    obtain ⟨buffer, hupload, hvisible⟩ := Texture.upload_lines s.palette s.machine.core.mode
      s.machine.core.bitmap s.device.padding
    -- the buffer has a padded row for each line, so that the lines fit into it
    have hmade := works_called h (.makeTexture s.machine.core.mode.width s.machine.core.mode.height)
    have hlocked := works_called hmade .lockTexture
    have hcopied := works_called hlocked .copyTexture
    rw [perform_call_bind h, perform_call_bind hmade, hupload]
    dsimp only
    rw [perform_call_bind hlocked, perform_call_bind hcopied, hvisible]
    rfl
  · rw [if_neg hd, if_neg hd]
    rfl

theorem works_rendered (h : s.device.Works) : s.rendered.device.Works := by
  unfold rendered
  split
  · exact (((h.made _).made _).made _).made _
  · exact h

/-- Inputs reach the keys of the machine and the two keys of the session, and nothing else. -/
def Steered (s t : Session) : Prop :=
  ∃ keypad rewinding hurrying, t =
    { s with
      machine := s.machine.setKeypad keypad, rewinding := rewinding, hurrying := hurrying }

theorem Steered.refl (s : Session) : s.Steered s := ⟨s.machine.core.keypad, _, _, rfl⟩

theorem Steered.trans {t u : Session} (h : s.Steered t) (h' : t.Steered u) : s.Steered u := by
  obtain ⟨_, _, _, rfl⟩ := h
  obtain ⟨keypad, rewinding, hurrying, rfl⟩ := h'
  exact ⟨keypad, rewinding, hurrying, rfl⟩

theorem steered_holdKey (s : Session) (code : Scancode) (held : Bool) :
    s.Steered (s.holdKey code held) := by
  unfold holdKey
  split
  · cases held <;> exact ⟨_, _, _, rfl⟩
  · split
    · exact ⟨s.machine.core.keypad, _, held, rfl⟩
    · exact ⟨s.machine.core.keypad, held, _, rfl⟩
    · exact .refl s

theorem steered_heed (s : Session) (input : Input) : s.Steered (s.heed input) := by
  unfold heed
  split
  · exact s.steered_holdKey _ true
  · exact s.steered_holdKey _ false
  · exact .refl s

theorem heedAll_cons {input : Input} (h : input ≠ .quit) (s : Session) (rest : List Input) :
    s.heedAll (input :: rest) = (s.heed input).heedAll rest := by
  cases input with
  | quit => exact absurd rfl h
  | _ => rfl

theorem steered_heedAll (s : Session) (inputs : List Input) :
    s.Steered (s.heedAll inputs).2 := by
  fun_induction heedAll s inputs with
  | case1 s | case2 s => exact .refl s
  | case3 s input rest _ ih => exact (s.steered_heed input).trans ih

theorem Steered.works {t : Session} (hst : s.Steered t) (h : s.device.Works) : t.device.Works := by
  obtain ⟨_, _, _, rfl⟩ := hst
  exact h

/-- A session whose inputs have been heeded, and whose device has been polled unless they end it. -/
def polled (s : Session) (inputs : List Input) : Session :=
  match s.heedAll inputs with
  | (true, t) => { t with device := t.device.takeSamples.made .poll }
  | (false, t) => t

theorem works_polled (h : s.device.Works) (inputs : List Input) :
    (s.polled inputs).device.Works := by
  have h := (s.steered_heedAll inputs).works h
  unfold polled
  split
  case h_1 t heq =>
    rw [heq] at h
    exact (Device.Works.takeSamples h).made _
  case h_2 t heq =>
    rw [heq] at h
    exact h

theorem perform_poll (h : s.device.Works) (inputs : List Input) :
    s.perform (poll inputs) = (.ok (s.heedAll inputs).1, s.polled inputs) := by
  have h := (s.steered_heedAll inputs).works h
  unfold poll polled
  rw [perform_get_bind]
  cases hheed : s.heedAll inputs with
  | mk goesOn t =>
    rw [hheed] at h
    cases goesOn with
    | false => rfl
    | true =>
      have hsampled : ({ t with device := t.device.takeSamples } : Session).device.Works :=
        Device.Works.takeSamples h
      dsimp only
      rw [perform_set_bind, if_pos rfl, perform_bind, perform_set]
      dsimp only
      rw [perform_call_bind hsampled]
      rfl

/-- A session whose machine has moved a tick back or forth, and whether it goes on. -/
def moved (s : Session) : Bool × Session :=
  if s.rewinding then (true, s.adopted s.machine.rewind)
  else
    let t := s.adopted s.machine.tick
    match s.machine.tick.answer with
    | .ok _ => (true, t)
    | .error fault => (false, { t with device := t.device.note (.recorded (.stopping fault)) })

theorem perform_move (h : s.device.Works) : s.perform move = (.ok s.moved.1, s.moved.2) := by
  unfold move moved
  rw [perform_get_bind]
  cases s.rewinding
  · rw [if_neg Bool.false_ne_true, if_neg Bool.false_ne_true, perform_bind, perform_adopt h]
    dsimp only
    cases s.machine.tick.answer <;> rfl
  · rw [if_pos rfl, if_pos rfl, perform_bind, perform_adopt h]
    rfl

theorem works_moved (h : s.device.Works) : s.moved.2.device.Works := by
  have htick := works_adopted h s.machine.tick
  unfold moved
  split
  · exact works_adopted h _
  · dsimp only
    split <;> exact htick

/-- A session after a frame, and whether it goes on. -/
def framed (s : Session) (inputs : List Input) : Bool × Session :=
  if (s.rendered.heedAll inputs).1 then (s.rendered.polled inputs).moved
  else (false, s.rendered.polled inputs)

theorem perform_frame (h : s.device.Works) (inputs : List Input) :
    s.perform (frame inputs) = (.ok (s.framed inputs).1, (s.framed inputs).2) := by
  have hr := works_rendered h
  unfold frame framed
  rw [perform_bind, perform_render h]
  dsimp only
  rw [perform_bind, perform_poll hr]
  dsimp only
  split
  · exact perform_move (works_polled hr inputs)
  · rfl

theorem works_framed (h : s.device.Works) (inputs : List Input) :
    (s.framed inputs).2.device.Works := by
  have hp := works_polled (works_rendered h) inputs
  unfold framed
  split
  · exact works_moved hp
  · exact hp

theorem multiply_eq {a b : UInt32} (h : a.toNat * b.toNat < UInt32.size) :
    multiply a b = pure (a * b) := if_pos h

/-- The width is the side that can be too large, and the device cannot have it before it does not
fit 32 bits. -/
theorem openWindow_eq (setup : Setup) : openWindow setup =
    let width := Mode.low.width * setup.scale.toNat
    if width ≤ sizeLimit then
      call (.makeWindow setup.title width (Mode.low.height * setup.scale.toNat))
    else throw (if width < UInt32.size then .windowTooLarge .width width else .overflow) := by
  dsimp only
  by_cases hwidth : Mode.low.width * setup.scale.toNat < UInt32.size
  · have hheight : Mode.low.height * setup.scale.toNat < UInt32.size :=
      Nat.lt_of_le_of_lt (Nat.mul_le_mul_right _ (by decide)) hwidth
    have hopen : openWindow setup = makeWindow setup.title (Mode.low.width * setup.scale.toNat)
        (Mode.low.height * setup.scale.toNat) := by
      rw [openWindow, multiply_eq (a := UInt32.ofNat Mode.low.width) hwidth, pure_bind,
        multiply_eq (a := UInt32.ofNat Mode.low.height) hheight, pure_bind]
      have hwide : (UInt32.ofNat Mode.low.width * setup.scale).toNat =
          Mode.low.width * setup.scale.toNat := Nat.mod_eq_of_lt hwidth
      have hhigh : (UInt32.ofNat Mode.low.height * setup.scale).toNat =
          Mode.low.height * setup.scale.toNat := Nat.mod_eq_of_lt hheight
      rw [hwide, hhigh]
    rw [hopen, makeWindow, if_pos hwidth]
    by_cases hlimit : Mode.low.width * setup.scale.toNat ≤ sizeLimit
    · have hlower : Mode.low.height * setup.scale.toNat ≤ sizeLimit :=
        Nat.le_trans (Nat.mul_le_mul_right _ (by decide)) hlimit
      rw [if_neg (Nat.not_lt.mpr hlimit), if_neg (Nat.not_lt.mpr hlower), if_pos hlimit]
    · rw [if_pos (Nat.lt_of_not_le hlimit), if_neg hlimit]
  · have hlimit : ¬Mode.low.width * setup.scale.toNat ≤ sizeLimit :=
      fun h => hwidth (Nat.lt_of_le_of_lt h (by decide))
    have hoverflow : multiply (UInt32.ofNat Mode.low.width) setup.scale = throw .overflow :=
      if_neg hwidth
    rw [openWindow, hoverflow, if_neg hlimit, if_neg hwidth]
    rfl

/-- The device is started by calls of its parts, one after another, unless the window is too
large. -/
theorem startDevice_of {C : Act Unit → Prop} (hcall : ∀ c, c.part? ≠ none → C (call c))
    (hthrow : ∀ e, e = .overflow ∨ (∃ side size, e = .windowTooLarge side size) → C (throw e))
    (hbind : ∀ x y, C x → C y → C (x >>= fun _ => y)) (setup : Setup) : C (startDevice setup) := by
  have hwindow : C (openWindow setup) := by
    rw [openWindow_eq]
    dsimp only
    split
    · exact hcall _ nofun
    · refine hthrow _ ?_
      split
      · exact .inr ⟨_, _, rfl⟩
      · exact .inl rfl
  unfold startDevice
  refine hbind _ _ (hcall _ nofun) (hbind _ _ (hcall _ nofun) ?_)
  refine hbind _ _ hwindow (hbind _ _ (hcall _ nofun) ?_)
  refine hbind _ _ (hcall _ nofun) (hbind _ _ (hcall _ nofun) ?_)
  exact hcall _ nofun

end Session
end ChipMachine
