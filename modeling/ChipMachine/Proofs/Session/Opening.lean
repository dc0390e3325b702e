import ChipMachine.Proofs.Session.Filming

namespace ChipMachine
namespace Session

/-- What holds before a part of a session holds after it, whatever it comes to. -/
def Keeps (P : Session → Prop) (x : Act α) : Prop := ∀ s, P s → P (s.perform x).2

variable {P : Session → Prop}

theorem Keeps.bind {x : Act α} {f : α → Act β} (hx : Keeps P x) (hf : ∀ a, Keeps P (f a)) :
    Keeps P (x >>= f) := by
  intro s hs
  have h := hx s hs
  rw [perform_bind]
  split
  · rename_i a t heq
    rw [heq] at h
    exact hf a t h
  · rename_i e t heq
    rw [heq] at h
    exact h

theorem keeps_throw (e : SessionError) : Keeps P (throw e : Act α) := fun _ hs => hs

theorem keeps_startDevice (hworks : ∀ s, P s → s.device.Works)
    (hcalled : ∀ s c, c.part? ≠ none → P s → P (s.called c)) (setup : Setup) :
    Keeps P (startDevice setup) := by
  refine startDevice_of (fun c hc s hs => ?_) (fun _ _ => keeps_throw _)
    (fun _ _ hx hy => hx.bind fun _ => hy) setup
  rw [perform_call (hworks s hs)]
  exact hcalled s c hc hs

theorem keeps_startProgram (hworks : ∀ s, P s → s.device.Works)
    (hrecord : ∀ s r, P s → P { s with device := s.device.note (.recorded r) })
    (hprint : ∀ s text, P s → P { s with device := s.device.note (.printed text) })
    (hload : ∀ s source, P s → P (s.adopted (s.machine.load source)))
    (setup : Setup) (folder : Folder) : Keeps P (startProgram setup folder) := by
  unfold startProgram
  split
  · exact keeps_throw _
  · rename_i source _
    intro s hs
    have hloaded := hload s source hs
    rw [perform_get_bind, perform_bind, perform_adopt (hworks s hs)]
    dsimp only
    split
    · exact hloaded
    · exact hprint _ _ (hrecord _ _ hloaded)

/-- What holds of a new session, and still holds when a part of the device is started, a program is
loaded or something is noted, holds when the first frame begins, or when there is to be none. -/
theorem keeps_opening (hworks : ∀ s, P s → s.device.Works)
    (hcalled : ∀ s c, c.part? ≠ none → P s → P (s.called c))
    (hnote : ∀ s h, (∀ c r, h ≠ .called c r) → P s → P { s with device := s.device.note h })
    (hload : ∀ s source, P s → P (s.adopted (s.machine.load source)))
    (setup : Setup) (folder : Folder) : Keeps P (opening setup folder) :=
  .bind (keeps_startDevice hworks hcalled setup) fun _ =>
    keeps_startProgram hworks (fun s _ => hnote s _ nofun) (fun s _ => hnote s _ nofun) hload setup
      folder

end Session
end ChipMachine
