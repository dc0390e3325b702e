import ChipMachine.Proofs.Session.Working

namespace ChipMachine

/-- A frame that was played: the session as it began, whenever an input was asked for, and as it
ended. -/
structure Frame where
  began : Session
  polled : List Session
  ended : Session

namespace Session

/-- The sessions at which an input is asked for, the last time in vain or to get a quit. -/
def pollings (s : Session) : List Input → List Session
  | [] | .quit :: _ => [s]
  | input :: rest => s :: (s.heed input).pollings rest

def shoot (s : Session) (inputs : List Input) : Frame where
  began := s
  polled := match s.perform render with
    | (.ok _, t) => t.pollings inputs
    | (.error _, _) => []
  ended := (s.perform (frame inputs)).2

/-- The frames that a script comes to, which ends with the window being closed. -/
def film (s : Session) : List (List Input) → List Frame
  | [] => [s.shoot [.quit]]
  | inputs :: later =>
    s.shoot inputs :: match s.perform (frame inputs) with
      | (.ok true, t) => t.film later
      | _ => []

/-- All that comes before the first frame. -/
def opening (setup : Setup) (folder : Folder) : Act Unit := do
  startDevice setup
  startProgram setup folder

/-- The frames of a whole session; there are none if the device or the program cannot be started. -/
def filmed (setup : Setup) (folder : Folder) (script : List (List Input)) (device : Device)
    (entropy : Entropy) : List Frame :=
  match (fresh setup device entropy).perform (opening setup folder) with
  | (.ok _, s) => s.film script
  | (.error _, _) => []

variable {s : Session}

theorem steered_of_mem_pollings {t : Session} {inputs : List Input} (h : t ∈ s.pollings inputs) :
    s.Steered t := by
  fun_induction pollings s inputs with
  | case1 | case2 =>
    obtain rfl := List.mem_singleton.mp h
    exact .refl _
  | case3 s input rest _ ih =>
    obtain rfl | h := List.mem_cons.mp h
    · exact .refl _
    · exact (s.steered_heed input).trans (ih h)

theorem film_ne_nil (s : Session) (script : List (List Input)) : s.film script ≠ [] := by
  cases script <;> exact List.cons_ne_nil _ _

theorem shoot_ended (h : s.device.Works) (inputs : List Input) :
    (s.shoot inputs).ended = (s.framed inputs).2 := by
  rw [shoot, perform_frame h]

theorem film_cons (h : s.device.Works) (inputs : List Input) (later : List (List Input)) :
    s.film (inputs :: later) =
      s.shoot inputs :: if (s.framed inputs).1 then (s.framed inputs).2.film later else [] := by
  rw [film, perform_frame h]
  cases (s.framed inputs).1 <;> rfl

/-- What a frame keeps holds at the beginning of all frames. -/
theorem film_preserves {P : Session → Prop}
    (hframe : ∀ s inputs, P s → P (s.perform (frame inputs)).2) (script : List (List Input))
    (h : P s) : ∀ f ∈ s.film script, ∃ t inputs, P t ∧ f = t.shoot inputs := by
  -- on the script, from the session that the frames before it have left
  induction script generalizing s with
  | nil =>
    intro f hf
    exact ⟨s, [.quit], h, List.mem_singleton.mp hf⟩
  | cons inputs later ih =>
    intro f hf
    have hnext := hframe s inputs h
    rw [film] at hf
    obtain rfl | hf := List.mem_cons.mp hf
    · exact ⟨s, inputs, h, rfl⟩
    · split at hf
      · rename_i t heq
        rw [heq] at hnext
        exact ih hnext f hf
      · cases hf

/-- A device that refuses nothing is played on until the last frame, whose end is that of the
session. -/
theorem perform_frames (h : s.device.Works) (script : List (List Input)) :
    ∃ f, (s.film script).getLast? = some f ∧ s.perform (frames script) = (.ok (), f.ended) := by
  induction script generalizing s with
  | nil =>
    refine ⟨_, rfl, ?_⟩
    unfold frames
    rw [perform_bind, shoot, perform_frame h]
    rfl
  | cons inputs later ih =>
    have hnext := works_framed h inputs
    unfold frames
    rw [film_cons h, perform_bind, shoot, perform_frame h]
    cases hgoes : (s.framed inputs).1 with
    | false => exact ⟨_, rfl, rfl⟩
    | true =>
      obtain ⟨f, hlast, hend⟩ := ih hnext
      refine ⟨f, ?_, hend⟩
      rw [← hlast]
      exact List.getLast?_cons_of_ne_nil (film_ne_nil _ _)

theorem run_eq (setup : Setup) (folder : Folder) (script : List (List Input)) (device : Device)
    (entropy : Entropy) :
    run setup folder script device entropy =
      match (fresh setup device entropy).perform (opening setup folder) with
      | (.ok _, s) => s.perform (frames script)
      | (.error e, s) => (.error e, s) := by
  have hplay : play setup folder script = opening setup folder >>= fun _ => frames script := by
    rw [play, opening, bind_assoc]
  change (fresh setup device entropy).perform (play setup folder script) = _
  rw [hplay, perform_bind]
  rcases (fresh setup device entropy).perform (opening setup folder) with ⟨_ | _, _⟩ <;> rfl

section
variable {setup : Setup} {folder : Folder} {device : Device} {entropy : Entropy}

theorem filmed_of_opened
    (h : (fresh setup device entropy).perform (opening setup folder) = (.ok (), s))
    (script : List (List Input)) : filmed setup folder script device entropy = s.film script := by
  rw [filmed, h]

theorem run_of_opened
    (h : (fresh setup device entropy).perform (opening setup folder) = (.ok (), s))
    (script : List (List Input)) :
    run setup folder script device entropy = s.perform (frames script) := by
  rw [run_eq, h]

theorem run_of_unopened {e : SessionError}
    (h : (fresh setup device entropy).perform (opening setup folder) = (.error e, s))
    (script : List (List Input)) : run setup folder script device entropy = (.error e, s) := by
  rw [run_eq, h]

end

end Session
end ChipMachine
