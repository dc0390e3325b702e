import ChipMachine.Proofs.Session.Opening
import ChipMachine.Proofs.Session.Turning
import ChipMachine.Proofs.Timers

namespace ChipMachine

theorem Machine.buzz_eq_play (s : Core) : (Machine.buzz s == .play) = (s.sound != 0) := by
  unfold Machine.buzz
  by_cases h0 : s.sound = 0
  · rw [if_pos h0, h0]
    rfl
  · rw [if_neg h0, bne_iff_ne.mpr h0]
    rfl

namespace Turn

/-- Whether the latest of some turns that went forth began with the sound timer running. -/
def sounded (turns : List Turn) : Bool :=
  (turns.reverse.find? (! ·.began.rewinding)).any (·.began.machine.core.sound != 0)

theorem sounded_concat (turns : List Turn) (t : Turn) :
    sounded (turns ++ [t]) =
      if t.began.rewinding then sounded turns else t.began.machine.core.sound != 0 := by
  rw [sounded, List.reverse_append, List.reverse_singleton, List.singleton_append]
  cases h : t.began.rewinding <;> simp [h, sounded]

end Turn

namespace Session

variable {s : Session}

/-- The tone of a device that works: it is on or off, and the session knows. -/
structure Sounds (on : Bool) (s : Session) : Prop where
  works : s.device.Works
  buzzing : s.buzzing = on
  sounding : s.device.sounding = on

variable {on : Bool}

theorem Sounds.of_eq {t : Session} (h : s.Sounds on)
    (hworks : t.device.breakdown = s.device.breakdown) (hbuzzing : t.buzzing = s.buzzing)
    (hsounding : t.device.sounding = s.device.sounding) : t.Sounds on :=
  ⟨hworks.trans h.works, hbuzzing.trans h.buzzing, hsounding.trans h.sounding⟩

theorem Sounds.called (h : s.Sounds on) {c : Call} (hc : s.device.react c = s.device) :
    (s.called c).Sounds on := by
  refine ⟨works_called h.works c, h.buzzing, ?_⟩
  change (s.device.react c).sounding = on
  rw [hc]
  exact h.sounding

/-- An order is carried out, or it is what the device does already. -/
theorem Sounds.buzzed (h : s.Sounds on) (order : Buzz) :
    (s.buzzed order).Sounds (order == .play) := by
  have hb := h.buzzing
  unfold Session.buzzed
  cases order <;> cases on <;> rw [hb]
  · exact ⟨h.works, rfl, rfl⟩
  · exact h
  · exact h
  · exact ⟨h.works, rfl, rfl⟩

theorem Sounds.heardRecords (h : s.Sounds on) {es : List Event}
    (hes : es.filterMap Event.buzz? = []) : (es.foldl heard s).Sounds on := by
  induction es generalizing s with
  | nil => exact h
  | cons e es ih =>
    cases e with
    | buzz order => cases hes
    | recorded r =>
      have hnoted : (s.heard (.recorded r)).Sounds on := h.of_eq rfl rfl rfl
      exact ih hnoted hes

theorem Sounds.adopted (h : s.Sounds on) {o : Outcome α} (ho : o.orders = []) :
    (s.adopted o).Sounds on := by
  have htaken : ({ s with machine := o.machine } : Session).Sounds on := h.of_eq rfl rfl rfl
  exact htaken.heardRecords ho

theorem Sounds.ticked (h : s.Sounds on) :
    (s.adopted s.machine.tick).Sounds (s.machine.core.sound != 0) := by
  obtain ⟨rest, hevents, hrest⟩ := s.machine.tick_events
  have htaken : ({ s with machine := s.machine.tick.machine } : Session).Sounds on :=
    h.of_eq rfl rfl rfl
  have hbuzzed := htaken.buzzed (Machine.buzz s.machine.core)
  rw [Machine.buzz_eq_play] at hbuzzed
  unfold Session.adopted
  rw [hevents]
  exact hbuzzed.heardRecords hrest

theorem Sounds.moved (h : s.Sounds on) :
    s.moved.2.Sounds (if s.rewinding then on else s.machine.core.sound != 0) := by
  have hticked := h.ticked
  have hback : Operation.rewind ≠ .tick := nofun
  have hrewound : (s.adopted s.machine.rewind).Sounds on :=
    h.adopted (s.machine.apply_orders hback)
  unfold Session.moved
  cases s.rewinding with
  | true => exact hrewound
  | false =>
    rw [if_neg Bool.false_ne_true, if_neg Bool.false_ne_true]
    dsimp only
    split
    · exact hticked
    · exact hticked.of_eq rfl rfl rfl

theorem Sounds.rendered (h : s.Sounds on) : s.rendered.Sounds on := by
  unfold Session.rendered
  split
  · have hmade :=
      h.called (c := .makeTexture s.machine.core.mode.width s.machine.core.mode.height) rfl
    have hcopied := (hmade.called (c := .lockTexture) rfl).called (c := .copyTexture) rfl
    have hshown := hcopied.called (c := .present (s.machine.picture s.palette)) rfl
    exact hshown.of_eq rfl rfl rfl
  · exact h

theorem Steered.sounds {t : Session} (hst : s.Steered t) (h : s.Sounds on) : t.Sounds on := by
  obtain ⟨_, _, _, rfl⟩ := hst
  exact h.of_eq rfl rfl rfl

theorem Sounds.polled (h : s.Sounds on) (inputs : List Input) : (s.polled inputs).Sounds on := by
  have h := (s.steered_heedAll inputs).sounds h
  unfold Session.polled
  split
  case h_1 t heq =>
    rw [heq] at h
    have hsampled : ({ t with device := t.device.takeSamples } : Session).Sounds on := by
      unfold Device.takeSamples
      split
      · exact h.of_eq rfl rfl rfl
      · exact h
    exact hsampled.called (c := .poll) rfl
  case h_2 t heq =>
    rw [heq] at h
    exact h

/-- A frame moves the machine, and then sounds as the machine demands, or it ends the session. -/
theorem Sounds.framed_cases (h : s.Sounds on) (inputs : List Input) :
    (∃ t, s.turn? inputs = some t ∧ t.ended = (s.framed inputs).2 ∧
      t.ended.Sounds (if t.began.rewinding then on else t.began.machine.core.sound != 0)) ∨
    (s.turn? inputs = none ∧ (s.framed inputs).1 = false ∧ (s.framed inputs).2.Sounds on) := by
  have hpolled := h.rendered.polled inputs
  obtain ⟨t, ht, -, hbegan, hended, hframed⟩ | ⟨hnone, hframed⟩ := turn?_cases h.works inputs
  · refine .inl ⟨t, ht, by rw [hframed, hended], ?_⟩
    rw [hended, hbegan]
    exact hpolled.moved
  · rw [hframed]
    exact .inr ⟨hnone, rfl, hpolled⟩

theorem Sounds.framed {past : List Turn} (h : s.Sounds (Turn.sounded past))
    (inputs : List Input) :
    (∃ t, s.turn? inputs = some t ∧ t.ended = (s.framed inputs).2 ∧
      t.ended.Sounds (Turn.sounded (past ++ [t]))) ∨
    (s.turn? inputs = none ∧ (s.framed inputs).1 = false ∧
      (s.framed inputs).2.Sounds (Turn.sounded past)) := by
  refine (h.framed_cases inputs).imp_left ?_
  rintro ⟨t, ht, hended, hsounds⟩
  rw [← Turn.sounded_concat] at hsounds
  exact ⟨t, ht, hended, hsounds⟩

/-- After any of its turns, and at the end, a session sounds as the turns so far demand. -/
theorem Sounds.turns {past : List Turn} (h : s.Sounds (Turn.sounded past))
    (script : List (List Input)) :
    (s.perform (frames script)).2.Sounds (Turn.sounded (past ++ s.turns script)) ∧
    ∀ (k : Nat) t, (s.turns script)[k]? = some t →
      t.ended.Sounds (Turn.sounded (past ++ (s.turns script).take (k + 1))) :=
  turns_preserve (P := fun past u => u.Sounds (Turn.sounded past)) (fun _ _ hu => hu.works)
    (fun _ _ inputs hu => hu.framed inputs) h script

/-- Nothing sounds before the first frame. -/
theorem sounds_opening (setup : Setup) (folder : Folder) (rate : Option Int32) (pull padding : Nat)
    (entropy : Entropy) :
    ((fresh setup (.idle none rate pull padding) entropy).perform
      (opening setup folder)).2.Sounds false := by
  refine keeps_opening (fun _ hs => hs.works) ?_ (fun _ _ _ hs => hs.of_eq rfl rfl rfl) ?_ setup
    folder _ ⟨rfl, rfl, rfl⟩
  · intro s c hc hs
    refine ⟨works_called hs.works c, hs.buzzing, ?_⟩
    have hsilent := hs.sounding
    cases c with
    | resume => exact absurd rfl hc
    | openPlayback | pause => rfl
    | _ => exact hsilent
  · intro s source hs
    have hload : Operation.load source ≠ .tick := nofun
    exact hs.adopted (s.machine.apply_orders hload)

/-- On a device that refuses nothing, a session sounds after each turn, and at its end, if and only
if the latest tick by then began with the sound timer running. So a tick that begins with the timer
at zero leaves the device silent; but going back gives no order, and leaves on a tone that was on,
whatever it makes of the timer. -/
theorem tone_follows_latest_tick (setup : Setup) (folder : Folder) (script : List (List Input))
    (rate : Option Int32) (pull padding : Nat) (entropy : Entropy) :
    let device := Device.idle none rate pull padding
    let turns := turned setup folder script device entropy
    (run setup folder script device entropy).2.device.sounding = Turn.sounded turns ∧
    ∀ (k : Nat) t, turns[k]? = some t →
      t.ended.device.sounding = Turn.sounded (turns.take (k + 1)) ∧
      (t.began.rewinding = false → t.began.machine.core.sound = 0 →
        t.ended.device.sounding = false) := by
  intro device turns
  have hopened := sounds_opening setup folder rate pull padding entropy
  rw [run_eq]
  simp only [turns, turned]
  cases hs : (fresh setup device entropy).perform (opening setup folder) with
  | mk result s =>
    rw [hs] at hopened
    cases result with
    | error e => exact ⟨hopened.sounding, fun k t ht => by cases ht⟩
    | ok =>
      have hsilent : s.Sounds (Turn.sounded []) := hopened
      obtain ⟨hend, hturns⟩ := hsilent.turns script
      refine ⟨hend.sounding, fun k t ht => ?_⟩
      have hsounding : t.ended.device.sounding = Turn.sounded ((s.turns script).take (k + 1)) :=
        (hturns k t ht).sounding
      refine ⟨hsounding, fun hforth hzero => ?_⟩
      rw [hsounding, List.take_add_one, ht, Option.toList_some, Turn.sounded_concat, hforth, hzero]
      rfl

/-- A program has sounded and stopped when it is taken back as far as possible and further: the
sound timer is at zero before and after the last turn, and the device still sounds. It was silent
after the first turn, a tick at the beginning of which the timer was at zero. -/
theorem tone_follows_latest_tick_rewound :
    let setup : Setup := ⟨⟨.vip, 2, 1⟩, .green, 10, "rom.ch8"⟩
    let script := [[], [], [.down (some .escape) false], [], []]
    let turns := turned setup ⟨[("rom.ch8", chirp)]⟩ script (.idle none none 0 0) (.cycle [])
    (∃ t, turns[0]? = some t ∧ t.began.rewinding = false ∧ t.began.machine.core.sound = 0 ∧
      t.ended.device.sounding = false) ∧
    ∃ t, turns[4]? = some t ∧ t.began.machine.core.sound = 0 ∧ t.ended.machine.core.sound = 0 ∧
      t.ended.device.sounding = true := by
  intro setup script turns
  let loaded : Machine :=
    { core := { Core.fresh .vip with memory := Memory.fresh.overlay chirp }
      history := [], config := setup.config, entropy := .cycle [] }
  obtain ⟨s, hopened, hstands⟩ : ∃ s : Session, _ ∧ s.Stands loaded false :=
    (stands_fresh setup none 0 0 (.cycle [])).opening setup ⟨[("rom.ch8", chirp)]⟩
      (.ofList chirp) (by decide) (by simp [Folder.openFile, setup]) rfl
  -- two turns forth, and three back, the last of them in vain
  obtain ⟨hm₁, ha₁, -⟩ := Machine.tick_chirp_first (m := loaded.acknowledge) rfl rfl rfl
  obtain ⟨t₁, ht₁, hb₁, he₁⟩ := hstands.turn (fun _ => heedAll_nil) (.inr ⟨_, ha₁⟩)
  rw [if_neg Bool.false_ne_true] at he₁
  obtain ⟨hm₂, ha₂, -⟩ :=
    Machine.tick_chirp_second (m := loaded.acknowledge.tick.machine.acknowledge)
      (by rw [hm₁]; rfl) (by rw [hm₁]; rfl) (by rw [hm₁]; rfl)
  obtain ⟨t₂, ht₂, hb₂, he₂⟩ := he₁.turn (fun _ => heedAll_nil) (.inr ⟨_, ha₂⟩)
  rw [if_neg Bool.false_ne_true] at he₂
  obtain ⟨t₃, ht₃, hb₃, he₃⟩ := he₂.turn (fun t _ => t.heedAll_escape) (.inl rfl)
  rw [if_pos rfl] at he₃
  obtain ⟨t₄, ht₄, hb₄, he₄⟩ := he₃.turn (fun _ => heedAll_nil) (.inl rfl)
  rw [if_pos rfl] at he₄
  obtain ⟨t₅, ht₅, hb₅, he₅⟩ := he₄.turn (fun _ => heedAll_nil) (.inl rfl)
  rw [if_pos rfl] at he₅
  have hturns : turns = [t₁, t₂, t₃, t₄, t₅] := by
    have hfilm : turns = s.turns script := turned_of_opened hopened script
    rw [hfilm, ht₁, ht₂, ht₃, ht₄, ht₅]
    rfl
  have htone := (tone_follows_latest_tick setup ⟨[("rom.ch8", chirp)]⟩ script none 0 0
    (.cycle [])).2
  have hfirst : turns[0]? = some t₁ := by rw [hturns]; rfl
  have hlast : turns[4]? = some t₅ := by rw [hturns]; rfl
  have hzero : t₁.began.machine.core.sound = 0 := by rw [hb₁.machine]; rfl
  have hone : t₂.began.machine.core.sound = 1 := by rw [hb₂.machine, hm₁]; rfl
  have hlatest : Turn.sounded (turns.take 5) = true := by
    rw [hturns]
    simp [Turn.sounded, hb₅.rewinding, hb₄.rewinding, hb₃.rewinding, hb₂.rewinding, hone]
  refine ⟨⟨t₁, hfirst, hb₁.rewinding, hzero, (htone 0 t₁ hfirst).2 hb₁.rewinding hzero⟩,
    ⟨t₅, hlast, ?_, ?_, (htone 4 t₅ hlast).1.trans hlatest⟩⟩
  · rw [hb₅.machine, hm₂, hm₁]
    rfl
  · rw [he₅.machine, hm₂, hm₁]
    rfl

end Session
end ChipMachine
