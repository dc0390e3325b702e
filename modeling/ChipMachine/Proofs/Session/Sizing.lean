import ChipMachine.CommandLine
import ChipMachine.Proofs.Session.Cutting
import ChipMachine.Proofs.Session.Opening
import Mathlib.Algebra.Group.Nat.Defs

namespace ChipMachine

namespace Device

/-- The sizes of all windows the device was asked for, refused ones included. -/
def windows (d : Device) : List (Nat × Nat) := d.calls.filterMap Call.window?

theorem windows_note (d : Device) (h : Happening) : (d.note h).windows = d.windows ++ match h with
    | .called c _ => c.window?.toList
    | _ => [] := by
  rw [windows, calls_note, List.filterMap_append]
  cases h with
  | called c refusal => cases c <;> rfl
  | _ => rfl

theorem windows_made (d : Device) (c : Call) :
    (d.made c).windows = d.windows ++ c.window?.toList := by
  have hreact : (d.react c).windows = d.windows := by cases c <;> rfl
  rw [made, windows_note, hreact]

theorem windows_call (d : Device) (c : Call) :
    (d.call c).2.windows = d.windows ++ c.window?.toList := by
  have hwear : (d.wear c).windows = d.windows := by
    unfold wear
    split
    · split <;> rfl
    · rfl
  unfold call
  split
  · exact d.windows_note _
  · exact ((d.wear c).windows_made c).trans (congrArg (· ++ _) hwear)

theorem windows_takeSamples (d : Device) : d.takeSamples.windows = d.windows := by
  rw [windows, calls_takeSamples, windows]

end Device

/-- The size of a screen mode when each pixel is so many times as wide and as high. -/
def Mode.scaled (mode : Mode) (n : Nat) : Nat × Nat := (mode.width * n, mode.height * n)

namespace Session

/-- A part of a session that asks for no window. -/
def Windowless (x : Act α) : Prop := ∀ sizes, Keeps (fun s => s.device.windows = sizes) x

theorem Windowless.bind {x : Act α} {f : α → Act β} (hx : Windowless x)
    (hf : ∀ a, Windowless (f a)) : Windowless (x >>= f) :=
  fun sizes => (hx sizes).bind fun a => hf a sizes

theorem windowless_modify {g : Session → Session}
    (hg : ∀ s, (g s).device.windows = s.device.windows) : Windowless (modify g) :=
  fun _ s hs => (hg s).trans hs

theorem windowless_note {h : Happening} (hh : ∀ c r, h ≠ .called c r) : Windowless (note h) := by
  intro sizes s hs
  refine Eq.trans ?_ hs
  change (s.device.note h).windows = _
  rw [Device.windows_note]
  cases h with
  | called c r => exact absurd rfl (hh c r)
  | _ => exact List.append_nil _

theorem windowless_call {c : Call} (hc : c.window? = none) : Windowless (call c) := by
  intro sizes s hs
  rw [device_call, Device.windows_call, hc, hs]
  exact List.append_nil _

theorem windowless_heeding (inputs : List Input) : Windowless (heeding inputs) := by
  intro sizes s hs
  obtain ⟨_, _, _, hsteered⟩ := s.steered_heedAll inputs
  change (s.heedAll inputs).2.device.windows = sizes
  rwa [hsteered]

theorem composes_windowless : Composes @Windowless where
  pure _ _ _ hs := hs
  throw e _ := keeps_throw e
  bind := .bind
  look hf _ sizes s hs := hf s sizes s hs
  change hdevice _ := windowless_modify fun s => congrArg Device.windows (hdevice s)
  note := windowless_note
  call := windowless_call
  heeding := windowless_heeding
  sampling := windowless_modify fun s => s.device.windows_takeSamples

/-- A part of a session that is to open its window: it asks for the low mode at the scale and for no
other window, or fails before it has asked for any. From 2 ^ 26 on the failure may be an
overflow. -/
def Asks (scale : Nat) (x : Act α) : Prop := ∀ s : Session, s.device.windows = [] →
  ((s.perform x).2.device.windows = [] ∧
    ∃ e, (s.perform x).1 = .error e ∧ (scale < 2 ^ 26 → e.isReturned = true)) ∨
  scale < 2 ^ 25 ∧ (s.perform x).2.device.windows = [Mode.low.scaled scale]

variable {scale : Nat}

theorem Asks.before {c : Call} {f : Unit → Act α} (hc : c.window? = none)
    (hf : ∀ a, Asks scale (f a)) : Asks scale (call c >>= f) := by
  intro s hs
  have h : (s.perform (call c)).2.device.windows = [] := windowless_call hc [] s hs
  rw [device_call] at h
  rw [perform_bind, perform_call_eq]
  rcases hcall : s.device.call c with ⟨_ | r, d⟩ <;> rw [hcall] at h
  · exact hf () _ h
  · exact .inl ⟨h, _, rfl, fun _ => rfl⟩

theorem Asks.after {x : Act α} {f : α → Act β} (hx : Asks scale x) (hf : ∀ a, Windowless (f a)) :
    Asks scale (x >>= f) := by
  intro s hs
  have h := hx s hs
  rw [perform_bind]
  cases hdone : s.perform x with
  | mk result t =>
    rw [hdone] at h
    cases result with
    | error e =>
      obtain ⟨hnone, e', he, hreturned⟩ | hasked := h
      · cases he
        exact .inl ⟨hnone, e, rfl, hreturned⟩
      · exact .inr hasked
    | ok a =>
      obtain ⟨-, e, he, -⟩ | ⟨hscale, hasked⟩ := h
      · cases he
      · exact .inr ⟨hscale, hf a [Mode.low.scaled scale] t hasked⟩

/-- The width is computed first, and it is the side that is too large first: the device cannot have
it from 2 ^ 25 on, and from 2 ^ 26 on it does not fit 32 bits. -/
theorem openWindow_scaled (setup : Setup) : openWindow setup =
    let scale := setup.scale.toNat
    let size := Mode.low.scaled scale
    if scale < 2 ^ 25 then call (.makeWindow setup.title size.1 size.2)
    else throw (if scale < 2 ^ 26 then .windowTooLarge .width size.1 else .overflow) := by
  have hlimit : Mode.low.width * setup.scale.toNat ≤ sizeLimit ↔ setup.scale.toNat < 2 ^ 25 := by
    change 64 * _ ≤ 0x7FFFFFFF ↔ _
    omega
  have hsize : Mode.low.width * setup.scale.toNat < UInt32.size ↔ setup.scale.toNat < 2 ^ 26 := by
    change 64 * _ < 2 ^ 32 ↔ _
    omega
  rw [openWindow_eq]
  simp only [hlimit, hsize, Mode.scaled]

theorem asks_openWindow (setup : Setup) : Asks setup.scale.toNat (openWindow setup) := by
  intro s hs
  rw [openWindow_scaled]
  dsimp only
  split
  · rename_i hscale
    rw [device_call, Device.windows_call, hs]
    exact .inr ⟨hscale, rfl⟩
  · refine .inl ⟨hs, _, rfl, fun hscale => ?_⟩
    rw [if_pos hscale]
    rfl

/-- Two parts of the device are started before the window is opened; nothing that comes behind it
asks for another. -/
theorem play_eq (setup : Setup) (folder : Folder) (script : List (List Input)) :
    ∃ rest : Act Unit, Windowless rest ∧ play setup folder script = (do
      call .startLibrary
      call .startVideo
      openWindow setup
      rest) := by
  refine ⟨do
    call .makeRenderer
    call .startEvents
    call .startAudio
    call (.openPlayback Tone.sampleRate 1)
    startProgram setup folder
    frames script, ?_, by simp only [play, startDevice, bind_assoc]⟩
  refine .bind (windowless_call rfl) fun _ => .bind (windowless_call rfl) fun _ => ?_
  refine .bind (windowless_call rfl) fun _ => .bind (windowless_call rfl) fun _ => ?_
  exact .bind (composes_windowless.startProgram setup folder) fun _ =>
    composes_windowless.frames script

theorem asks_play (setup : Setup) (folder : Folder) (script : List (List Input)) :
    Asks setup.scale.toNat (play setup folder script) := by
  obtain ⟨rest, hrest, hplay⟩ := play_eq setup folder script
  rw [hplay]
  refine .before rfl fun _ => .before rfl fun _ => ?_
  exact (asks_openWindow setup).after fun _ => hrest

section Working

variable {setup : Setup} {s : Session} (h : s.device.Works) (hs : s.device.windows = [])
include h hs

theorem windows_play (hscale : setup.scale.toNat < 2 ^ 25) (folder : Folder)
    (script : List (List Input)) :
    (s.perform (play setup folder script)).2.device.windows =
      [Mode.low.scaled setup.scale.toNat] := by
  obtain ⟨rest, hrest, hplay⟩ := play_eq setup folder script
  have hlibrary := works_called h .startLibrary
  have hvideo := works_called hlibrary .startVideo
  rw [hplay, perform_call_bind h, perform_call_bind hlibrary, openWindow_scaled]
  dsimp only
  rw [if_pos hscale, perform_call_bind hvideo]
  refine hrest _ _ ?_
  simp only [called, Device.windows_made, hs]
  rfl

theorem perform_play_error (hscale : ¬setup.scale.toNat < 2 ^ 25) (folder : Folder)
    (script : List (List Input)) :
    (s.perform (play setup folder script)).2.device.windows = [] ∧
    (s.perform (play setup folder script)).1 = .error (if setup.scale.toNat < 2 ^ 26
      then .windowTooLarge .width (Mode.low.scaled setup.scale.toNat).1 else .overflow) := by
  obtain ⟨rest, -, hplay⟩ := play_eq setup folder script
  have hlibrary := works_called h .startLibrary
  rw [hplay, perform_call_bind h, perform_call_bind hlibrary, openWindow_scaled]
  dsimp only
  rw [if_neg hscale]
  refine ⟨?_, rfl⟩
  change ((s.called .startLibrary).called .startVideo).device.windows = []
  simp only [called, Device.windows_made, hs]
  rfl

end Working

/-- The session asks for one window, as many times the size of the low mode as the scale says, or it
asks for none and returns an error. -/
def KeepsScale (scale : Nat) (done : Except SessionError Unit × Session) : Prop :=
  done.2.device.windows = [Mode.low.scaled scale] ∨
    done.2.device.windows = [] ∧ ∃ e, done.1 = .error e ∧ e.isReturned = true

/-- The sides of the window are products of 32 bits. Below 2 ^ 25 the session asks for a window of
the size that the scale says. From there on the device cannot have such a window, and the session
asks for none and returns an error; but from 2 ^ 26 on the width does not fit 32 bits, and the
program stops on the spot. -/
theorem window_size_overflows (setup : Setup) (folder : Folder) (script : List (List Input))
    (breakdown : Option Breakdown) (rate : Option Int32) (pull padding : Nat) (entropy : Entropy) :
    let done := run setup folder script (.idle breakdown rate pull padding) entropy
    let scale := setup.scale.toNat
    (scale < 2 ^ 25 ∧ done.2.device.windows = [(64 * scale, 32 * scale)] ∨
      done.2.device.windows = [] ∧ ∃ e, done.1 = .error e) ∧
    (scale < 2 ^ 26 → KeepsScale scale done) ∧
    (breakdown = none →
      (scale < 2 ^ 25 → done.2.device.windows = [(64 * scale, 32 * scale)]) ∧
      (2 ^ 25 ≤ scale → scale < 2 ^ 26 → done.1 = .error (.windowTooLarge .width (64 * scale))) ∧
      (2 ^ 26 ≤ scale → done.1 = .error .overflow) ∧
      (KeepsScale scale done ↔ scale < 2 ^ 26)) := by
  intro done scale
  have hasks := asks_play setup folder script
    (fresh setup (.idle breakdown rate pull padding) entropy) rfl
  have hkeeps (hscale : scale < 2 ^ 26) : KeepsScale scale done := by
    obtain ⟨hnone, e, he, hreturned⟩ | ⟨-, hasked⟩ := hasks
    · exact .inr ⟨hnone, e, he, hreturned hscale⟩
    · exact .inl hasked
  refine ⟨?_, hkeeps, ?_⟩
  · obtain ⟨hnone, e, he, -⟩ | hasked := hasks
    · exact .inr ⟨hnone, e, he⟩
    · exact .inl hasked
  · rintro rfl
    let start := fresh setup (.idle none rate pull padding) entropy
    have herror (hscale : ¬setup.scale.toNat < 2 ^ 25) :=
      perform_play_error (s := start) rfl rfl hscale folder script
    have hoverflow (hscale : 2 ^ 26 ≤ scale) :
        done.2.device.windows = [] ∧ done.1 = .error .overflow := by
      obtain ⟨hnone, he⟩ := herror (Nat.not_lt.mpr (Nat.le_trans (by decide) hscale))
      rw [if_neg (Nat.not_lt.mpr hscale)] at he
      exact ⟨hnone, he⟩
    refine ⟨fun hscale => ?_, fun hscale hsize => ?_, fun hscale => (hoverflow hscale).2,
      fun hlaw => ?_, hkeeps⟩
    · exact windows_play (s := start) rfl rfl hscale folder script
    · obtain ⟨-, he⟩ := herror (Nat.not_lt.mpr hscale)
      rwa [if_pos hsize] at he
    · refine Nat.lt_of_not_le fun hscale => ?_
      obtain ⟨hnone, he⟩ := hoverflow hscale
      obtain hasked | ⟨-, e, he', hreturned⟩ := hlaw
      · rw [hnone] at hasked
        cases hasked
      · cases he.symm.trans he'
        cases hreturned

/-- The command line takes a scale just past 2 ^ 27, and the session overflows. A scale just past
2 ^ 25 is refused as it should be, and the least scale gets its window. -/
theorem window_size_overflows_huge :
    ∃ huge large least : Setup,
      (CommandLine.parse ["--rom", "rom.ch8", "--scale", "134217729"]).map (·.setup) = .ok huge ∧
      (CommandLine.parse ["--rom", "rom.ch8", "--scale", "33554433"]).map (·.setup) = .ok large ∧
      (CommandLine.parse ["--rom", "rom.ch8", "--scale", "1"]).map (·.setup) = .ok least ∧
      let done (setup : Setup) :=
        run setup ⟨[("rom.ch8", [0x00, 0xFD])]⟩ [] (.idle none none 0 0) (.cycle [])
      ¬KeepsScale huge.scale.toNat (done huge) ∧ (done huge).1 = .error .overflow ∧
      KeepsScale large.scale.toNat (done large) ∧
      (done large).1 = .error (.windowTooLarge .width 2147483712) ∧
      (done least).2.device.windows = [(64, 32)] := by
  let setup (scale : UInt32) : Setup := ⟨⟨.vip, 10, 1⟩, .green, scale, "rom.ch8"⟩
  have hsizes (scale : UInt32) := window_size_overflows (setup scale)
    ⟨[("rom.ch8", [0x00, 0xFD])]⟩ [] none none 0 0 (.cycle [])
  obtain ⟨-, -, hhuge⟩ := hsizes 134217729
  obtain ⟨-, hlarge, hrefused⟩ := hsizes 33554433
  obtain ⟨-, -, hleast⟩ := hsizes 1
  obtain ⟨-, -, hoverflow, hlaw⟩ := hhuge rfl
  refine ⟨setup 134217729, setup 33554433, setup 1, rfl, rfl, rfl, fun hkeeps => ?_,
    hoverflow (by decide), hlarge (by decide), ?_, ?_⟩
  · exact absurd (hlaw.mp hkeeps) (by decide)
  · obtain ⟨-, hwide, -⟩ := hrefused rfl
    have herror := hwide (by decide) (by decide)
    have hwidth : 64 * (setup 33554433).scale.toNat = 2147483712 := by decide
    rw [herror, hwidth]
  · obtain ⟨hwindow, -⟩ := hleast rfl
    have hlow := hwindow (by decide)
    rw [hlow]
    decide

end Session
end ChipMachine
