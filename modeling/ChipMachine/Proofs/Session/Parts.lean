import ChipMachine.Proofs.Session.Working

namespace ChipMachine

/-- The size of the window that a call asks for. -/
def Call.window? : Call → Option (Nat × Nat)
  | .makeWindow _ width height => some (width, height)
  | _ => none

namespace Session

/-- The same session, on a device that breaks down otherwise. -/
def breaking (s : Session) (breakdown : Option Breakdown) : Session :=
  { s with device := { s.device with breakdown := breakdown } }

theorem perform_call_eq (s : Session) (c : Call) : s.perform (call c) = match s.device.call c with
    | (some r, d) => (.error (.refused r), { s with device := d })
    | (none, d) => (.ok (), { s with device := d }) := by
  unfold call
  rw [perform_get_bind]
  rcases s.device.call c with ⟨_ | r, d⟩ <;> rfl

theorem device_call (s : Session) (c : Call) :
    (s.perform (call c)).2.device = (s.device.call c).2 := by
  rw [perform_call_eq]
  rcases s.device.call c with ⟨_ | r, d⟩ <;> rfl

/-- The first half of a poll. -/
def heeding (inputs : List Input) : Act Bool := modifyGet (·.heedAll inputs)

/-- In the second half the device takes samples, and is asked. -/
def sampling : Act Unit := modify fun s => { s with device := s.device.takeSamples }

theorem poll_eq (inputs : List Input) : poll inputs = (do
    let goesOn ← heeding inputs
    if goesOn then
      sampling
      call .poll
    pure goesOn) := by
  funext s
  change s.perform (poll inputs) = (s.heedAll inputs).2.perform (do
    if (s.heedAll inputs).1 then
      sampling
      call .poll
    pure (s.heedAll inputs).1)
  unfold poll
  rw [perform_get_bind]
  rcases s.heedAll inputs with ⟨_ | _, t⟩ <;> rfl

/-- What holds of the smallest parts of a session, and of all that is put together from parts of
which it holds. A session is looked at without regard to how its device breaks down. -/
structure Composes (C : {α : Type} → Act α → Prop) : Prop where
  pure (a : α) : C (pure a : Act α)
  throw (e : SessionError) : C (throw e : Act α)
  bind {x : Act α} {f : α → Act β} (hx : C x) (hf : ∀ a, C (f a)) : C (x >>= f)
  look {f : Session → Act α} (hf : ∀ s, C (f s)) (hsame : ∀ s b, f (s.breaking b) = f s) :
    C (get >>= f)
  change {g : Session → Session} (hdevice : ∀ s, (g s).device = s.device)
    (hsame : ∀ s b, g (s.breaking b) = (g s).breaking b) : C (modify g)
  note {h : Happening} (hh : ∀ c r, h ≠ .called c r) : C (note h)
  call {c : Call} (hc : c.window? = none) : C (call c)
  heeding (inputs : List Input) : C (heeding inputs)
  sampling : C sampling

namespace Composes

variable {C : {α : Type} → Act α → Prop}

theorem buzz (h : Composes C) (order : Buzz) : C (buzz order) := by
  refine h.look (fun s => ?_) fun _ _ => rfl
  split
  · exact h.bind (h.call rfl) fun _ => h.change (fun _ => rfl) fun _ _ => rfl
  · exact h.bind (h.call rfl) fun _ => h.change (fun _ => rfl) fun _ _ => rfl
  · exact h.pure _

theorem record (h : Composes C) (r : Record) : C (record r) := h.note nofun

theorem adopt (h : Composes C) (o : Outcome α) : C (adopt o) := by
  have hheed (e : Event) : C (heedEvent e) := by
    cases e with
    | buzz order => exact h.buzz order
    | recorded r => exact h.record r
  have hall (es : List Event) : C (es.forM heedEvent) := by
    induction es with
    | nil => exact h.pure _
    | cons e es ih => exact h.bind (hheed e) fun _ => ih
  refine h.bind (h.change (fun _ => rfl) fun _ _ => rfl) fun _ => ?_
  exact h.bind (hall _) fun _ => h.pure _

theorem render (h : Composes C) : C render := by
  refine h.look (fun s => ?_) fun _ _ => rfl
  split
  · exact h.pure _
  · refine h.bind (h.call rfl) fun _ => ?_
    refine h.bind (h.call rfl) fun _ => ?_
    split
    · exact h.throw _
    · refine h.bind (h.call rfl) fun _ => ?_
      refine h.bind (h.call rfl) fun _ => ?_
      exact h.change (fun _ => rfl) fun _ _ => rfl

theorem poll (h : Composes C) (inputs : List Input) : C (poll inputs) := by
  rw [poll_eq]
  refine h.bind (h.heeding inputs) fun goesOn => ?_
  cases goesOn with
  | false => exact h.pure _
  | true => exact h.bind h.sampling fun _ => h.bind (h.call rfl) fun _ => h.pure _

theorem move (h : Composes C) : C move := by
  refine h.look (fun s => ?_) fun _ _ => rfl
  split
  · exact h.bind (h.adopt _) fun _ => h.pure _
  · refine h.bind (h.adopt _) fun answer => ?_
    split
    · exact h.pure _
    · exact h.bind (h.record _) fun _ => h.pure _

theorem frame (h : Composes C) (inputs : List Input) : C (frame inputs) := by
  refine h.bind h.render fun _ => h.bind (h.poll inputs) fun goesOn => ?_
  split
  · exact h.move
  · exact h.pure _

theorem frames (h : Composes C) (script : List (List Input)) : C (frames script) := by
  induction script with
  | nil => exact h.bind (h.frame _) fun _ => h.pure _
  | cons inputs later ih =>
    refine h.bind (h.frame inputs) fun goesOn => ?_
    split
    · exact ih
    · exact h.pure _

theorem startProgram (h : Composes C) (setup : Setup) (folder : Folder) :
    C (startProgram setup folder) := by
  unfold Session.startProgram
  split
  · exact h.throw _
  · refine h.look (fun s => ?_) fun _ _ => rfl
    refine h.bind (h.adopt _) fun loading => ?_
    split
    · exact h.throw _
    · exact h.bind (h.record _) fun _ => h.note nofun

end Composes

end Session
end ChipMachine
