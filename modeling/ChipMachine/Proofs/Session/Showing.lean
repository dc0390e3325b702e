import ChipMachine.Proofs.Freshness
import ChipMachine.Proofs.Session.Opening
import ChipMachine.Proofs.Session.Picturing
import ChipMachine.Proofs.Session.Turning

namespace ChipMachine

/-- A picture of the active part of the screen in the colours of a palette: it has the size of the
mode, and three bytes for each pixel, row after row. -/
structure Picture.Depicts (picture : Picture) (palette : Palette) (mode : Mode) (b : Bitmap) :
    Prop where
  width : picture.width = mode.width
  height : picture.height = mode.height
  length : picture.pixels.length = 3 * mode.width * mode.height
  pixel : ∀ x y, x < mode.width → y < mode.height →
    let colour := if b.lit x y then palette.ink else palette.paper
    (picture.pixels.drop (3 * (y * mode.width + x))).take 3 =
      [colour.red, colour.green, colour.blue]

theorem Machine.depicts_picture (palette : Palette) (m : Machine) :
    (m.picture palette).Depicts palette m.core.mode m.core.bitmap where
  width := rfl
  height := rfl
  length := Texture.length_bytes palette m.core.mode m.core.bitmap
  pixel _ _ hx hy := Texture.take_drop_pixel palette m.core.mode m.core.bitmap hx hy

def Happening.picture? : Happening → Option Picture
  | .called (.present picture) none => some picture
  | _ => none

namespace Device

/-- The pictures that have been shown, in order. -/
def pictures (d : Device) : List Picture := d.happenings.filterMap Happening.picture?

theorem pictures_note (d : Device) (h : Happening) :
    (d.note h).pictures = d.pictures ++ h.picture?.toList := by
  cases hh : h.picture? <;> simp [pictures, happenings, note, hh]

theorem pictures_made (d : Device) (c : Call) :
    (d.made c).pictures = d.pictures ++ (Happening.called c none).picture?.toList := by
  rw [made, pictures_note]
  cases c <;> rfl

theorem breakdown_made (d : Device) (c : Call) : (d.made c).breakdown = d.breakdown := by
  cases c <;> rfl

end Device

namespace Session

/-- Nothing was shown on the way from `s` to `t`, and if the screen was changed, it is marked. -/
structure Follows (s t : Session) : Prop where
  palette : t.palette = s.palette
  breakdown : t.device.breakdown = s.device.breakdown
  pictures : t.device.pictures = s.device.pictures
  marks : s.machine.core.MarksChanges t.machine.core

variable {s t u : Session}

theorem Follows.refl (s : Session) : s.Follows s := ⟨rfl, rfl, rfl, .refl _⟩

theorem Follows.trans (h : s.Follows t) (h' : t.Follows u) : s.Follows u :=
  ⟨h'.palette.trans h.palette, h'.breakdown.trans h.breakdown, h'.pictures.trans h.pictures,
    h.marks.trans h'.marks⟩

theorem follows_note (s : Session) {h : Happening} (hp : h.picture? = none) :
    s.Follows { s with device := s.device.note h } := by
  refine ⟨rfl, rfl, ?_, .refl _⟩
  rw [Device.pictures_note, hp]
  exact List.append_nil _

theorem follows_called (s : Session) {c : Call} (hc : (Happening.called c none).picture? = none) :
    s.Follows (s.called c) := by
  refine ⟨rfl, s.device.breakdown_made c, ?_, .refl _⟩
  rw [called, Device.pictures_made, hc]
  exact List.append_nil _

theorem follows_heard (s : Session) (e : Event) : s.Follows (s.heard e) := by
  cases e with
  | recorded r => exact s.follows_note rfl
  | buzz order =>
    change s.Follows (s.buzzed order)
    unfold buzzed
    split
    · exact (s.follows_called (c := .resume) rfl).trans ⟨rfl, rfl, rfl, .refl _⟩
    · exact (s.follows_called (c := .pause) rfl).trans ⟨rfl, rfl, rfl, .refl _⟩
    · exact .refl s

theorem follows_heardAll (s : Session) (es : List Event) : s.Follows (es.foldl heard s) := by
  induction es generalizing s with
  | nil => exact .refl s
  | cons e es ih => exact (s.follows_heard e).trans (ih _)

theorem follows_adopted (s : Session) {o : Outcome α}
    (ho : s.machine.core.MarksChanges o.machine.core) : s.Follows (s.adopted o) := by
  have htaken : s.Follows { s with machine := o.machine } := ⟨rfl, rfl, rfl, ho⟩
  exact htaken.trans (follows_heardAll _ o.events)

theorem Steered.follows (h : s.Steered t) : s.Follows t := by
  obtain ⟨_, _, _, rfl⟩ := h
  exact ⟨rfl, rfl, rfl, .inr ⟨rfl, rfl, rfl⟩⟩

theorem follows_polled (s : Session) (inputs : List Input) : s.Follows (s.polled inputs) := by
  have h := (s.steered_heedAll inputs).follows
  unfold polled
  split
  case h_1 t heq =>
    rw [heq] at h
    have hsampled : t.Follows { t with device := t.device.takeSamples } := by
      unfold Device.takeSamples
      split
      · exact (t.follows_note (h := .sampled _) rfl).trans ⟨rfl, rfl, rfl, .refl _⟩
      · exact .refl t
    exact (h.trans hsampled).trans (follows_called _ rfl)
  case h_2 t heq =>
    rw [heq] at h
    exact h

theorem follows_moved (s : Session) : s.Follows s.moved.2 := by
  have htick := s.follows_adopted s.machine.marksChanges_tick
  unfold moved
  split
  · exact s.follows_adopted s.machine.marksChanges_rewind
  · dsimp only
    split
    · exact htick
    · exact htick.trans (follows_note _ rfl)

/-- The window shows the machine's screen, or has not shown any and the screen was never used. -/
def Shows (palette : Palette) (s : Session) : Prop :=
  match s.device.pictures.getLast? with
  | some picture => picture.Depicts palette s.machine.core.mode s.machine.core.bitmap
  | none => s.machine.core.bitmap = .blank ∧ s.machine.core.mode = .low

theorem Shows.of_eq {palette : Palette} (h : s.Shows palette)
    (hpictures : t.device.pictures = s.device.pictures)
    (hbitmap : t.machine.core.bitmap = s.machine.core.bitmap)
    (hmode : t.machine.core.mode = s.machine.core.mode) : t.Shows palette := by
  simpa only [Shows, hpictures, hbitmap, hmode] using h

/-- What holds of a session between any two of its parts: the window shows the machine's screen, or
it is marked to be shown. -/
structure KeepsShowing (palette : Palette) (s : Session) : Prop where
  works : s.device.Works
  coloured : s.palette = palette
  shows : s.machine.core.dirty = true ∨ s.Shows palette

section
variable {palette : Palette}

theorem KeepsShowing.follows (h : s.KeepsShowing palette) (hst : s.Follows t) :
    t.KeepsShowing palette := by
  refine ⟨hst.breakdown.trans h.works, hst.palette.trans h.coloured, ?_⟩
  obtain hdirty | ⟨hdirty, hbitmap, hmode⟩ := hst.marks
  · exact .inl hdirty
  · rw [hdirty]
    exact h.shows.imp_right fun hs => hs.of_eq hst.pictures hbitmap hmode

theorem pictures_rendered (s : Session) : s.rendered.device.pictures = s.device.pictures ++
    if s.machine.core.dirty then [s.machine.picture s.palette] else [] := by
  unfold rendered
  split
  · simp [called, Device.pictures_made, Happening.picture?]
  · exact (List.append_nil _).symm

theorem dirty_rendered (s : Session) : s.rendered.machine.core.dirty = false := by
  unfold rendered
  split
  · rfl
  · rename_i hd
    exact eq_false_of_ne_true hd

/-- Rendering brings the window up to date if it was not. -/
theorem KeepsShowing.rendered (h : s.KeepsShowing palette) :
    s.rendered.KeepsShowing palette ∧ s.rendered.Shows palette := by
  have hshows : s.rendered.Shows palette := by
    have hpictures := s.pictures_rendered
    by_cases hd : s.machine.core.dirty = true
    · rw [if_pos hd, h.coloured] at hpictures
      rw [Shows, hpictures, List.getLast?_concat]
      simp only [Session.rendered, if_pos hd]
      exact s.machine.depicts_picture palette
    · have hsame : s.rendered = s := if_neg hd
      rw [hsame]
      exact h.shows.resolve_left hd
  refine ⟨⟨works_rendered h.works, ?_, .inr hshows⟩, hshows⟩
  rw [← h.coloured]
  unfold Session.rendered
  split <;> rfl

theorem follows_framed (s : Session) (inputs : List Input) :
    s.rendered.Follows (s.framed inputs).2 := by
  have hpolled := s.rendered.follows_polled inputs
  unfold framed
  split
  · exact hpolled.trans (follows_moved _)
  · exact hpolled

theorem KeepsShowing.framed (h : s.KeepsShowing palette) (inputs : List Input) :
    (s.framed inputs).2.KeepsShowing palette :=
  h.rendered.1.follows (s.follows_framed inputs)

end

/-- Part of a session that shows nothing, whatever it comes to. -/
def Unseen (s : Session) (x : Act α) : Prop := s.device.Works → s.Follows (s.perform x).2

/-- Nothing is shown before the first frame. -/
theorem unseen_opening (setup : Setup) (folder : Folder) : s.Unseen (opening setup folder) := by
  intro hs
  have hkeeps : Keeps (fun t => t.device.Works ∧ s.Follows t) (opening setup folder) := by
    refine keeps_opening (fun _ ht => ht.1) ?_ ?_ ?_ setup folder
    · intro t c hc ht
      have hunseen : (Happening.called c none).picture? = none := by
        cases c with
        | present => exact absurd rfl hc
        | _ => rfl
      exact ⟨works_called ht.1 c, ht.2.trans (t.follows_called hunseen)⟩
    · intro t h hh ht
      have hunseen : h.picture? = none := by
        cases h with
        | called c r => exact absurd rfl (hh c r)
        | _ => rfl
      exact ⟨ht.1, ht.2.trans (t.follows_note hunseen)⟩
    · intro t source ht
      obtain ⟨memory, hm⟩ := t.machine.load_machine source
      have hloaded : t.Follows (t.adopted (t.machine.load source)) :=
        t.follows_adopted (by rw [hm]; exact .inr ⟨rfl, rfl, rfl⟩)
      exact ⟨works_adopted ht.1 _, ht.2.trans hloaded⟩
  exact (hkeeps s ⟨hs, .refl s⟩).2

section
variable {palette : Palette}

theorem KeepsShowing.polled (h : s.KeepsShowing palette) (inputs : List Input) :
    (s.shoot inputs).polled ≠ [] ∧
    ∀ t ∈ (s.shoot inputs).polled, t.machine.core.dirty = false ∧ t.Shows palette := by
  simp only [shoot, perform_render h.works]
  refine ⟨?_, fun t ht => ?_⟩
  · unfold pollings
    split <;> exact List.cons_ne_nil _ _
  · obtain ⟨_, _, _, rfl⟩ := steered_of_mem_pollings ht
    exact ⟨s.dirty_rendered, h.rendered.2.of_eq rfl rfl rfl⟩

theorem KeepsShowing.pictures_ended (h : s.KeepsShowing palette) (inputs : List Input) :
    let after := (s.shoot inputs).ended.device.pictures
    (s.machine.core.dirty = true → ∃ picture : Picture,
      picture.Depicts palette s.machine.core.mode s.machine.core.bitmap ∧
      after = s.device.pictures ++ [picture]) ∧
    (s.machine.core.dirty = false → after = s.device.pictures) := by
  intro after
  have hafter : after = s.device.pictures ++
      if s.machine.core.dirty then [s.machine.picture palette] else [] := by
    simp only [after]
    rw [shoot_ended h.works, (s.follows_framed inputs).pictures, pictures_rendered, h.coloured]
  refine ⟨fun hdirty => ?_, fun hclean => ?_⟩
  · rw [if_pos hdirty] at hafter
    exact ⟨_, s.machine.depicts_picture palette, hafter⟩
  · rwa [if_neg (ne_true_of_eq_false hclean), List.append_nil] at hafter

theorem keepsShowing_fresh (setup : Setup) (rate : Option Int32) (pull padding : Nat)
    (entropy : Entropy) :
    (fresh setup (.idle none rate pull padding) entropy).KeepsShowing setup.palette :=
  ⟨rfl, rfl, .inr ⟨rfl, rfl⟩⟩

end

/-- On a device that refuses nothing, the window shows the machine's screen whenever the player is
asked for an input, each pixel in its colour: a marked screen is shown first, once in a frame, and
an unmarked one is what was shown before or was never used. -/
theorem window_shows_machine (setup : Setup) (folder : Folder) (script : List (List Input))
    (rate : Option Int32) (pull padding : Nat) (entropy : Entropy) :
    let device := Device.idle none rate pull padding
    let frames := filmed setup folder script device entropy
    (∀ f ∈ frames,
      f.polled ≠ [] ∧
      (∀ s ∈ f.polled, s.machine.core.dirty = false ∧ s.Shows setup.palette) ∧
      (f.began.machine.core.dirty = true → ∃ picture : Picture,
        picture.Depicts setup.palette f.began.machine.core.mode f.began.machine.core.bitmap ∧
        f.ended.device.pictures = f.began.device.pictures ++ [picture]) ∧
      (f.began.machine.core.dirty = false →
        f.ended.device.pictures = f.began.device.pictures)) ∧
    match frames.getLast? with
    | some f => run setup folder script device entropy = (.ok (), f.ended)
    | none => ∃ e s, run setup folder script device entropy = (.error e, s) ∧
        s.device.pictures = [] := by
  intro device frames
  have hfresh := keepsShowing_fresh setup rate pull padding entropy
  have hopened := unseen_opening setup folder hfresh.works
  rw [run_eq]
  simp only [frames, filmed]
  cases hs : (fresh setup device entropy).perform (opening setup folder) with
  | mk result s =>
    rw [hs] at hopened
    cases result with
    | error e => exact ⟨by simp, e, s, rfl, hopened.pictures⟩
    | ok =>
      -- nothing is shown before the frames, each of which then keeps the window up to date
      have hkeeps := hfresh.follows hopened
      constructor
      · intro f hf
        obtain ⟨t, inputs, ht, rfl⟩ := film_preserves (P := KeepsShowing setup.palette)
          (fun t inputs ht => by rw [perform_frame ht.works]; exact ht.framed inputs)
          script hkeeps f hf
        exact ⟨(ht.polled inputs).1, (ht.polled inputs).2, ht.pictures_ended inputs⟩
      · obtain ⟨f, hlast, hend⟩ := perform_frames hkeeps.works script
        rw [hlast]
        exact hend

/-- A session in which a tick draws and is then taken back, frame by frame. -/
theorem filmed_sketch :
    let frames := filmed ⟨⟨.vip, 2, 1⟩, .yellow, 1, ""⟩ ⟨[("", sketch)]⟩
      [[], [.down (some .escape) false], []] (.idle none none 0 0) (.cycle [])
    ∃ s drew back : Session,
      (s.shoot [] ∈ frames ∧ s.device.pictures = [] ∧ s.machine.core.dirty = false) ∧
      (drew.shoot [.down (some .escape) false] ∈ frames ∧ (s.shoot []).ended = drew ∧
        drew.machine.core.dirty = true ∧ drew.machine.core.mode = .low ∧
        drew.machine.core.bitmap.lit 0 0 = true) ∧
      back.shoot [] ∈ frames ∧ (drew.shoot [.down (some .escape) false]).ended = back ∧
        back.machine.core.dirty = true ∧ back.machine.core.mode = .low ∧
        back.machine.core.bitmap = .blank := by
  intro frames
  let setup : Setup := ⟨⟨.vip, 2, 1⟩, .yellow, 1, ""⟩
  let loaded : Machine :=
    { core := { Core.fresh .vip with memory := Memory.fresh.overlay sketch }
      history := [], config := setup.config, entropy := .cycle [] }
  have hfresh := stands_fresh setup none 0 0 (.cycle [])
  obtain ⟨s, hopened, hstands⟩ : ∃ s : Session, _ ∧ s.Stands loaded false :=
    hfresh.opening setup ⟨[("", sketch)]⟩ (.ofList sketch) (by decide) rfl rfl
  have hnone := (unseen_opening setup ⟨[("", sketch)]⟩ hfresh.works).pictures
  rw [hopened] at hnone
  obtain ⟨v, bitmap, hlit, hhalt, hdrawn⟩ :=
    Machine.tick_sketch (m := loaded.acknowledge) (by decide) rfl
  obtain ⟨hgoes, hdrew⟩ := hstands.framed (fun _ => heedAll_nil) (.inr ⟨_, hhalt⟩)
  rw [if_neg Bool.false_ne_true] at hdrew
  obtain ⟨hgoes', hback⟩ := hdrew.framed (fun t _ => t.heedAll_escape) (.inl rfl)
  rw [if_pos rfl] at hback
  have hframes : frames = s.film [[], [.down (some .escape) false], []] :=
    filmed_of_opened hopened _
  rw [film_cons hstands.works, hgoes, if_pos rfl, film_cons hdrew.works, hgoes', if_pos rfl, film]
    at hframes
  refine ⟨s, _, _, ⟨?_, hnone, by rw [hstands.machine]; rfl⟩,
    ⟨?_, shoot_ended hstands.works [], ?_⟩, ?_, shoot_ended hdrew.works _, ?_⟩
  · simp [hframes]
  · simp [hframes]
  · rw [hdrew.machine, hdrawn]
    exact ⟨rfl, rfl, hlit⟩
  · simp [hframes]
  · rw [hback.machine, hdrawn]
    exact ⟨rfl, rfl, rfl⟩

/-- A program draws in the first of three frames. The second frame shows the lit pixel in the corner
and takes the tick back, and the third shows the corner dark. -/
theorem window_shows_machine_rewound :
    let frames := filmed ⟨⟨.vip, 2, 1⟩, .yellow, 1, ""⟩ ⟨[("", sketch)]⟩
      [[], [.down (some .escape) false], []] (.idle none none 0 0) (.cycle [])
    (∃ f ∈ frames, ∃ picture : Picture, f.began.device.pictures = [] ∧
      f.ended.device.pictures = [picture] ∧ picture.pixels.take 3 = [255, 204, 1]) ∧
    (∃ f ∈ frames, ∃ picture : Picture, f.began.device.pictures ≠ [] ∧
      f.ended.device.pictures = f.began.device.pictures ++ [picture] ∧
      picture.pixels.take 3 = [154, 102, 1]) := by
  intro frames
  have hall := (window_shows_machine ⟨⟨.vip, 2, 1⟩, .yellow, 1, ""⟩ ⟨[("", sketch)]⟩
    [[], [.down (some .escape) false], []] none 0 0 (.cycle [])).1
  obtain ⟨s, drew, back, ⟨hfirst, hnone, hclean⟩, ⟨hsecond, hdrew, hdirty, hlow, hlit⟩,
    hthird, hback, hdirty', hlow', hblank⟩ := filmed_sketch
  have hnone' : drew.device.pictures = [] := by
    rw [← hdrew]
    exact ((hall _ hfirst).2.2.2 hclean).trans hnone
  obtain ⟨shown, hdepicts, hshown⟩ := (hall _ hsecond).2.2.1 hdirty
  obtain ⟨shown', hdepicts', hshown'⟩ := (hall _ hthird).2.2.1 hdirty'
  change shown.Depicts .yellow drew.machine.core.mode drew.machine.core.bitmap at hdepicts
  change shown'.Depicts .yellow back.machine.core.mode back.machine.core.bitmap at hdepicts'
  rw [hlow] at hdepicts
  rw [hlow', hblank] at hdepicts'
  refine ⟨⟨_, hsecond, shown, hnone', ?_, ?_⟩, ⟨_, hthird, shown', ?_, hshown', ?_⟩⟩
  · rw [hshown]
    change drew.device.pictures ++ [shown] = [shown]
    rw [hnone']
    rfl
  · exact (hdepicts.pixel 0 0 (by decide) (by decide)).trans (by rw [hlit]; rfl)
  · change back.device.pictures ≠ []
    rw [← hback, hshown]
    simp
  · exact (hdepicts'.pixel 0 0 (by decide) (by decide)).trans rfl

end Session
end ChipMachine
