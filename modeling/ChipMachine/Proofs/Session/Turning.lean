import ChipMachine.Proofs.Session.Filming

namespace ChipMachine

/-- What a frame does to the machine: the session as it is about to move the machine a tick back or
forth, and when it has done so. -/
structure Turn where
  began : Session
  ended : Session

namespace Session

/-- The turn of a frame; there is none if the screen cannot be shown or the inputs end the
session. -/
def turn? (s : Session) (inputs : List Input) : Option Turn :=
  match s.perform (render >>= fun _ => poll inputs) with
  | (.ok true, t) => some ⟨t, (t.perform move).2⟩
  | _ => none

/-- The turns that a script comes to. Closing the window at its end is none. -/
def turns (s : Session) : List (List Input) → List Turn
  | [] => []
  | inputs :: later =>
    (s.turn? inputs).toList ++ match s.perform (frame inputs) with
      | (.ok true, t) => t.turns later
      | _ => []

/-- The turns of a whole session. -/
def turned (setup : Setup) (folder : Folder) (script : List (List Input)) (device : Device)
    (entropy : Entropy) : List Turn :=
  match (fresh setup device entropy).perform (opening setup folder) with
  | (.ok _, s) => s.turns script
  | (.error _, _) => []

variable {s : Session}

theorem turn?_eq (h : s.device.Works) (inputs : List Input) :
    s.turn? inputs =
      if (s.rendered.heedAll inputs).1 then
        some ⟨s.rendered.polled inputs, (s.framed inputs).2⟩
      else none := by
  have hr := works_rendered h
  rw [turn?, perform_bind, perform_render h]
  dsimp only
  rw [perform_poll hr]
  unfold framed
  cases (s.rendered.heedAll inputs).1 with
  | false => rfl
  | true =>
    dsimp only
    rw [perform_move (works_polled hr inputs)]
    rfl

/-- A frame has a turn, and goes on if its turn does, or its inputs end the session. -/
theorem turn?_cases (h : s.device.Works) (inputs : List Input) :
    (∃ t, s.turn? inputs = some t ∧ (s.rendered.heedAll inputs).1 = true ∧
      t.began = s.rendered.polled inputs ∧ t.ended = t.began.moved.2 ∧
      s.framed inputs = t.began.moved) ∨
    (s.turn? inputs = none ∧ s.framed inputs = (false, s.rendered.polled inputs)) := by
  rw [turn?_eq h]
  unfold framed
  cases (s.rendered.heedAll inputs).1 with
  | false => exact .inr ⟨rfl, rfl⟩
  | true => exact .inl ⟨_, rfl, rfl, rfl, rfl, rfl⟩

theorem turns_cons (h : s.device.Works) (inputs : List Input) (later : List (List Input)) :
    s.turns (inputs :: later) = (s.turn? inputs).toList ++
      if (s.framed inputs).1 then (s.framed inputs).2.turns later else [] := by
  rw [turns, perform_frame h]
  cases (s.framed inputs).1 <;> rfl

theorem perform_frames_cons (h : s.device.Works) (inputs : List Input)
    (later : List (List Input)) :
    s.perform (frames (inputs :: later)) =
      if (s.framed inputs).1 then (s.framed inputs).2.perform (frames later)
      else (.ok (), (s.framed inputs).2) := by
  rw [frames, perform_bind, perform_frame h]
  cases (s.framed inputs).1 <;> rfl

section
variable {setup : Setup} {folder : Folder} {device : Device} {entropy : Entropy}

theorem turned_of_opened
    (h : (fresh setup device entropy).perform (opening setup folder) = (.ok (), s))
    (script : List (List Input)) : turned setup folder script device entropy = s.turns script := by
  rw [turned, h]

theorem turned_of_unopened {e : SessionError}
    (h : (fresh setup device entropy).perform (opening setup folder) = (.error e, s))
    (script : List (List Input)) : turned setup folder script device entropy = [] := by
  rw [turned, h]

end

/-- A turn is that of a session which the frames before it have led to. What holds at first, and is
kept by each frame that goes on, holds of that session too. -/
theorem turn_reached {P : List (List Input) → Session → Prop}
    (hframe : ∀ past (u : Session) inputs, u.device.Works → P past u →
      (u.framed inputs).1 = true → P (past ++ [inputs]) (u.framed inputs).2)
    (past : List (List Input)) {script : List (List Input)} (hworks : s.device.Works)
    (hpast : P past s) {n : Nat} {t : Turn} (ht : (s.turns script)[n]? = some t) :
    ∃ (u : Session) (inputs : List Input) (later : List (List Input)), u.device.Works ∧
      P (past ++ script.take n) u ∧ script.drop n = inputs :: later ∧ u.turn? inputs = some t ∧
      (s.turns script).drop n = u.turns (inputs :: later) ∧
      s.perform (frames script) = u.perform (frames (inputs :: later)) := by
  induction script generalizing s past n with
  | nil => cases ht
  | cons inputs later ih =>
    obtain ⟨first, hturn, -⟩ | ⟨hturn, hends⟩ := turn?_cases hworks inputs
    · cases n with
      | zero =>
        rw [turns_cons hworks, hturn] at ht
        obtain rfl := Option.some.inj ht
        rw [← List.append_nil past] at hpast
        exact ⟨s, inputs, later, hworks, hpast, rfl, hturn, rfl, rfl⟩
      | succ n =>
        rw [turns_cons hworks, hturn, Option.toList_some, List.singleton_append,
          List.getElem?_cons_succ] at ht
        cases hgoes : (s.framed inputs).1 with
        | false => simp [hgoes] at ht
        | true =>
          rw [hgoes, if_pos rfl] at ht
          obtain ⟨u, next, rest, hu, hpast', hdrop, hturn', hturns, hend⟩ :=
            ih _ (works_framed hworks inputs) (hframe past s inputs hworks hpast hgoes) ht
          rw [List.append_assoc] at hpast'
          refine ⟨u, next, rest, hu, hpast', hdrop, hturn', ?_, ?_⟩
          · rw [← hturns, turns_cons hworks, hturn, hgoes, if_pos rfl]
            rfl
          · rw [← hend, perform_frames_cons hworks, hgoes, if_pos rfl]
    · rw [turns_cons hworks, hturn, hends] at ht
      simp at ht

/-- What a frame keeps, with its turn added to the turns so far, holds after each turn and at the
end. -/
theorem turns_preserve {P : List Turn → Session → Prop}
    (hworks : ∀ past u, P past u → u.device.Works)
    (hframe : ∀ past u inputs, P past u →
      (∃ t, u.turn? inputs = some t ∧ t.ended = (u.framed inputs).2 ∧ P (past ++ [t]) t.ended) ∨
      (u.turn? inputs = none ∧ (u.framed inputs).1 = false ∧ P past (u.framed inputs).2))
    {past : List Turn} (h : P past s) (script : List (List Input)) :
    P (past ++ s.turns script) (s.perform (frames script)).2 ∧
    ∀ (k : Nat) t, (s.turns script)[k]? = some t →
      P (past ++ (s.turns script).take (k + 1)) t.ended := by
  -- on the script, from the turns that the frames before it have come to
  induction script generalizing s past with
  | nil =>
    refine ⟨?_, fun k t ht => by cases ht⟩
    have hquit : s.turn? [.quit] = none := turn?_eq (hworks past s h) [.quit]
    rw [frames, perform_bind, perform_frame (hworks past s h), Session.turns, List.append_nil]
    obtain ⟨t, ht, -⟩ | ⟨-, -, hclosed⟩ := hframe past s [.quit] h
    · rw [hquit] at ht
      cases ht
    · exact hclosed
  | cons inputs later ih =>
    rw [turns_cons (hworks past s h), perform_frames_cons (hworks past s h)]
    obtain ⟨t, ht, hended, hkept⟩ | ⟨hnone, hends, hkept⟩ := hframe past s inputs h
    · have hall (rest : List Turn) (hrest : ∀ (k : Nat) u, rest[k]? = some u →
          P ((past ++ [t]) ++ rest.take (k + 1)) u.ended) :
          ∀ (k : Nat) u, (t :: rest)[k]? = some u →
            P (past ++ (t :: rest).take (k + 1)) u.ended := by
        intro k u hu
        cases k with
        | zero =>
          obtain rfl := Option.some.inj hu
          exact hkept
        | succ k =>
          have hu := hrest k u hu
          rwa [List.append_assoc] at hu
      rw [ht, ← hended, Option.toList_some, List.singleton_append]
      cases (s.framed inputs).1 with
      | false => exact ⟨hkept, hall [] fun k u hu => by cases hu⟩
      | true =>
        obtain ⟨hend, hlater⟩ := ih hkept
        rw [List.append_assoc] at hend
        exact ⟨hend, hall _ hlater⟩
    · rw [hnone, hends]
      refine ⟨?_, fun k t ht => by cases ht⟩
      simpa using hkept

theorem rendered_eq (s : Session) : ∃ device,
    s.rendered = { s with machine := s.machine.acknowledge, device := device } := by
  unfold rendered
  split
  · exact ⟨_, rfl⟩
  · rename_i hd
    refine ⟨s.device, ?_⟩
    rw [Machine.acknowledge, ← eq_false_of_ne_true hd]

theorem polled_eq (s : Session) (inputs : List Input) : ∃ device,
    s.polled inputs = { (s.heedAll inputs).2 with device := device } := by
  unfold polled
  split <;> rename_i heq <;> rw [heq] <;> exact ⟨_, rfl⟩

theorem heardAll_eq (s : Session) (es : List Event) : ∃ device buzzing,
    es.foldl heard s = { s with device := device, buzzing := buzzing } := by
  induction es generalizing s with
  | nil => exact ⟨_, _, rfl⟩
  | cons e es ih =>
    have hheard : ∃ device buzzing,
        s.heard e = { s with device := device, buzzing := buzzing } := by
      cases e with
      | recorded r => exact ⟨_, s.buzzing, rfl⟩
      | buzz order =>
        simp only [heard, buzzed]
        split
        · exact ⟨_, true, rfl⟩
        · exact ⟨_, false, rfl⟩
        · exact ⟨s.device, s.buzzing, rfl⟩
    obtain ⟨_, _, hheard⟩ := hheard
    obtain ⟨device, buzzing, hlater⟩ := ih (s.heard e)
    refine ⟨device, buzzing, ?_⟩
    rw [List.foldl_cons, hlater, hheard]

theorem moved_eq (s : Session) : ∃ device buzzing, s.moved.2 =
    { s with
      machine := if s.rewinding then s.machine.rewind.machine else s.machine.tick.machine
      device := device
      buzzing := buzzing } := by
  unfold moved
  split
  · exact heardAll_eq { s with machine := s.machine.rewind.machine } s.machine.rewind.events
  · obtain ⟨device, buzzing, htick⟩ :=
      heardAll_eq { s with machine := s.machine.tick.machine } s.machine.tick.events
    dsimp only
    split
    · exact ⟨device, buzzing, htick⟩
    · rename_i fault _
      refine ⟨device.note (.recorded (.stopping fault)), buzzing, ?_⟩
      rw [adopted, htick]

theorem rendered_machine (s : Session) : s.rendered.machine = s.machine.acknowledge := by
  obtain ⟨_, h⟩ := s.rendered_eq
  rw [h]

theorem rendered_rewinding (s : Session) : s.rendered.rewinding = s.rewinding := by
  obtain ⟨_, h⟩ := s.rendered_eq
  rw [h]

theorem moved_machine (s : Session) :
    s.moved.2.machine = (if s.rewinding then s.machine.rewind.machine else s.machine.tick.machine) ∧
      s.moved.2.rewinding = s.rewinding := by
  obtain ⟨_, _, h⟩ := s.moved_eq
  rw [h]
  exact ⟨rfl, rfl⟩

theorem polled_machine (s : Session) (inputs : List Input) :
    (s.polled inputs).machine = (s.heedAll inputs).2.machine ∧
      (s.polled inputs).rewinding = (s.heedAll inputs).2.rewinding := by
  obtain ⟨_, h⟩ := s.polled_eq inputs
  rw [h]
  exact ⟨rfl, rfl⟩

/-- A session at the beginning of a frame, as far as the machine's way is concerned. -/
structure Stands (s : Session) (m : Machine) (back : Bool) : Prop where
  works : s.device.Works
  machine : s.machine = m
  rewinding : s.rewinding = back

section
variable {m : Machine} {back : Bool}

theorem Stands.called (h : s.Stands m back) (c : Call) : (s.called c).Stands m back :=
  ⟨works_called h.works c, h.machine, h.rewinding⟩

theorem Stands.startDevice (h : s.Stands m back) (setup : Setup)
    (hscale : Mode.low.width * setup.scale.toNat ≤ sizeLimit) :
    ∃ t, s.perform (startDevice setup) = (.ok (), t) ∧ t.Stands m back := by
  have hlibrary := h.called .startLibrary
  have hvideo := hlibrary.called .startVideo
  have hwindow := hvideo.called (.makeWindow setup.title (Mode.low.width * setup.scale.toNat)
    (Mode.low.height * setup.scale.toNat))
  have hrenderer := hwindow.called .makeRenderer
  have hevents := hrenderer.called .startEvents
  have haudio := hevents.called .startAudio
  refine ⟨_, ?_, haudio.called (.openPlayback Tone.sampleRate 1)⟩
  rw [Session.startDevice, openWindow_eq]
  dsimp only
  rw [if_pos hscale, perform_call_bind h.works, perform_call_bind hlibrary.works,
    perform_call_bind hvideo.works, perform_call_bind hwindow.works,
    perform_call_bind hrenderer.works, perform_call_bind hevents.works, perform_call haudio.works]

/-- On a device that refuses nothing, a window that is not too large and a program that can be read
are enough for a first frame. -/
theorem Stands.opening (h : s.Stands m back) (setup : Setup) (folder : Folder)
    (source : ByteSource) (hscale : Mode.low.width * setup.scale.toNat ≤ sizeLimit)
    (hopen : folder.openFile setup.path = .ok source)
    (hload : (m.load source).answer.result = .ok ()) :
    ∃ t, s.perform (opening setup folder) = (.ok (), t) ∧
      t.Stands (m.load source).machine back := by
  obtain ⟨u, hstart, hu⟩ := h.startDevice setup hscale
  obtain ⟨device, buzzing, hheard⟩ :=
    heardAll_eq { u with machine := (m.load source).machine } (m.load source).events
  have hworks := works_adopted hu.works (m.load source)
  have hadopted : u.adopted (m.load source) = _ := hheard
  rw [hadopted] at hworks
  rw [Session.opening, perform_bind, hstart]
  dsimp only
  rw [startProgram, hopen]
  dsimp only
  rw [perform_get_bind, hu.machine, perform_bind, perform_adopt hu.works, hadopted]
  dsimp only
  rw [hload]
  exact ⟨_, rfl, hworks, rfl, hu.rewinding⟩

theorem stands_fresh (setup : Setup) (rate : Option Int32) (pull padding : Nat)
    (entropy : Entropy) :
    (fresh setup (.idle none rate pull padding) entropy).Stands (.fresh setup.config entropy)
      false := ⟨rfl, rfl, rfl⟩

end

theorem heedAll_nil {back : Bool} (h : s.rewinding = back) :
    s.heedAll [] = (true, { s with rewinding := back }) := by
  rw [← h]
  rfl

theorem heedAll_escape (s : Session) :
    s.heedAll [.down (some .escape) false] = (true, { s with rewinding := true }) := rfl

section
variable {m : Machine} {back back' : Bool} {inputs : List Input} (h : s.Stands m back)
  (hinputs : ∀ t : Session, t.rewinding = back →
    t.heedAll inputs = (true, { t with rewinding := back' }))
include h hinputs

/-- A frame whose inputs move no key and do not end the session. -/
theorem Stands.polled : (s.rendered.polled inputs).Stands m.acknowledge back' := by
  have hheed := hinputs s.rendered (s.rendered_rewinding.trans h.rewinding)
  obtain ⟨hmachine, hrewinding⟩ := s.rendered.polled_machine inputs
  rw [hheed] at hmachine hrewinding
  rw [rendered_machine, h.machine] at hmachine
  exact ⟨works_polled (works_rendered h.works) inputs, hmachine, hrewinding⟩

theorem Stands.turns_cons (later : List (List Input)) :
    s.turns (inputs :: later) = ⟨s.rendered.polled inputs, (s.framed inputs).2⟩ ::
      if (s.framed inputs).1 then (s.framed inputs).2.turns later else [] := by
  have hheed := hinputs s.rendered (s.rendered_rewinding.trans h.rewinding)
  rw [Session.turns_cons h.works, turn?_eq h.works, hheed]
  rfl

variable (hgoes : back' = true ∨ ∃ flow, m.acknowledge.tick.answer = .ok flow)
include hgoes

theorem Stands.framed : (s.framed inputs).1 = true ∧ (s.framed inputs).2.Stands
    (if back' then m.acknowledge.rewind.machine else m.acknowledge.tick.machine) back' := by
  have hheed := hinputs s.rendered (s.rendered_rewinding.trans h.rewinding)
  obtain ⟨hworks, hmachine, hrewinding⟩ := h.polled hinputs
  obtain ⟨hmoved, hback⟩ := (s.rendered.polled inputs).moved_machine
  rw [hmachine, hrewinding] at hmoved
  have hframed : s.framed inputs = (s.rendered.polled inputs).moved := by
    rw [Session.framed, hheed]
    rfl
  rw [hframed]
  refine ⟨?_, works_moved hworks, hmoved, hback.trans hrewinding⟩
  unfold moved
  rw [hmachine, hrewinding]
  obtain rfl | ⟨flow, hflow⟩ := hgoes
  · rfl
  · cases back' with
    | true => rfl
    | false => rw [hflow]; rfl

theorem Stands.turn :
    ∃ t : Turn, (∀ later, s.turns (inputs :: later) = t :: t.ended.turns later) ∧
      t.began.Stands m.acknowledge back' ∧
      t.ended.Stands
        (if back' then m.acknowledge.rewind.machine else m.acknowledge.tick.machine) back' := by
  obtain ⟨hgo, hended⟩ := h.framed hinputs hgoes
  refine ⟨⟨s.rendered.polled inputs, (s.framed inputs).2⟩, fun later => ?_, h.polled hinputs,
    hended⟩
  rw [h.turns_cons hinputs, if_pos hgo]

end

end Session
end ChipMachine
