import ChipMachine.Proofs.Session.Parts

namespace ChipMachine

/-- Whether a call is one of a part of the device. -/
def Call.isOf (part : Part) (c : Call) : Bool := c.part? == some part

namespace Device

/-- The same device, when calls of a part fail once some more of them have succeeded. -/
def failing (d : Device) (refusal : Refusal) (left : Nat) : Device :=
  { d with breakdown := some ⟨refusal, left⟩ }

theorem calls_note (d : Device) (h : Happening) : (d.note h).calls = d.calls ++ match h with
    | .called c _ => [c]
    | _ => [] := by
  cases h <;> simp [calls, happenings, note]

theorem calls_made (d : Device) (c : Call) : (d.made c).calls = d.calls ++ [c] := by
  have hreact : (d.react c).calls = d.calls := by cases c <;> rfl
  rw [made, calls_note, hreact]

theorem calls_takeSamples (d : Device) : d.takeSamples.calls = d.calls := by
  unfold takeSamples
  split
  · rw [calls_note, List.append_nil]
    rfl
  · rfl

theorem react_failing (d : Device) (refusal : Refusal) (left : Nat) (c : Call) :
    (d.failing refusal left).react c = (d.react c).failing refusal left := by
  cases c <;> rfl

theorem takeSamples_failing (d : Device) (refusal : Refusal) (left : Nat) :
    (d.failing refusal left).takeSamples = d.takeSamples.failing refusal left := by
  unfold takeSamples
  cases h : d.sounding with
  | false => simp [failing, h]
  | true => simp [failing, h, note]

/-- While enough calls of its part are left to succeed, a call goes through as on a device that
works. -/
theorem call_spared (d : Device) {refusal : Refusal} {left : Nat} {c : Call}
    (h : [c].countP (·.isOf refusal.part) ≤ left) :
    (d.failing refusal left).call c =
      (none, (d.made c).failing refusal (left - [c].countP (·.isOf refusal.part))) := by
  by_cases hc : c.part? = some refusal.part
  · have hone : [c].countP (·.isOf refusal.part) = 1 := by simp [Call.isOf, hc]
    rw [hone] at h ⊢
    have hleft : left ≠ 0 := Nat.ne_of_gt h
    have hworn : (d.failing refusal left).wear c = d.failing refusal (left - 1) := by
      simp [wear, failing, hc]
    have hrefusal : (d.failing refusal left).refusal? c = none := by
      simp [refusal?, failing, hleft]
    rw [Device.call, hrefusal]
    simp only [hworn, react_failing]
    rfl
  · have hnone : [c].countP (·.isOf refusal.part) = 0 := by simp [Call.isOf, hc]
    have hworn : (d.failing refusal left).wear c = d.failing refusal left := by
      simp [wear, failing, hc]
    have hrefusal : (d.failing refusal left).refusal? c = none := by
      simp [refusal?, failing, hc]
    rw [Device.call, hrefusal, hnone]
    simp only [hworn, react_failing]
    rfl

theorem call_refused (d : Device) {refusal : Refusal} {c : Call}
    (h : c.part? = some refusal.part) :
    (d.failing refusal 0).call c =
      (some refusal, (d.failing refusal 0).note (.called c (some refusal))) := by
  simp [Device.call, refusal?, failing, h]

end Device

namespace Session

/-- The same session, when calls of a part of the device fail once some more of them have
succeeded. -/
def failing (s : Session) (refusal : Refusal) (left : Nat) : Session :=
  { s with device := s.device.failing refusal left }

/-- The calls that a part of a session makes on a device that works, and how it fares when one of
them is refused: it makes the calls up to that one, and ends with its error. When none is refused,
nothing is different. -/
structure CutAt (refusal : Refusal) (x : Act α) (s : Session) (made : List Call) : Prop where
  works : (s.perform x).2.device.Works
  calls : (s.perform x).2.device.calls = s.device.calls ++ made
  spared : ∀ left, made.countP (·.isOf refusal.part) ≤ left →
    (s.failing refusal left).perform x =
      ((s.perform x).1, (s.perform x).2.failing refusal (left - made.countP (·.isOf refusal.part)))
  refused : ∀ left, left < made.countP (·.isOf refusal.part) →
    ∃ before c later t, made = before ++ c :: later ∧ c.part? = some refusal.part ∧
      before.countP (·.isOf refusal.part) = left ∧
      (s.failing refusal left).perform x = (.error (.refused refusal), t) ∧
      t.device.calls = s.device.calls ++ (before ++ [c])

/-- A part of a session that a refusal cuts short, wherever it begins on a device that works. -/
def CutShort (x : Act α) : Prop :=
  ∀ refusal s, s.device.Works → ∃ made, CutAt refusal x s made

/-- What asks nothing of the device. -/
theorem CutShort.of_silent {x : Act α}
    (hworks : ∀ s : Session, s.device.Works → (s.perform x).2.device.Works)
    (hcalls : ∀ s : Session, (s.perform x).2.device.calls = s.device.calls)
    (hfailing : ∀ (s : Session) refusal left, (s.failing refusal left).perform x =
      ((s.perform x).1, (s.perform x).2.failing refusal left)) : CutShort x := by
  intro refusal s h
  refine ⟨[], hworks s h, ?_, fun left _ => hfailing s refusal left, fun left hleft => ?_⟩
  · rw [hcalls, List.append_nil]
  · exact absurd hleft (Nat.not_lt_zero _)

theorem cutShort_pure (a : α) : CutShort (pure a : Act α) :=
  .of_silent (fun _ h => h) (fun _ => rfl) (fun _ _ _ => rfl)

theorem cutShort_throw (e : SessionError) : CutShort (throw e : Act α) :=
  .of_silent (fun _ h => h) (fun _ => rfl) (fun _ _ _ => rfl)

theorem cutShort_note {h : Happening} (hh : ∀ c r, h ≠ .called c r) : CutShort (note h) := by
  refine .of_silent (fun _ h => h) (fun s => ?_) (fun _ _ _ => rfl)
  change (s.device.note h).calls = s.device.calls
  rw [Device.calls_note]
  cases h with
  | called c r => exact absurd rfl (hh c r)
  | _ => exact List.append_nil _

theorem cutShort_call (c : Call) : CutShort (call c) := by
  intro refusal s h
  have hmade := perform_call h c
  refine ⟨[c], ?_, ?_, fun left hleft => ?_, fun left hleft => ?_⟩
  · rw [hmade]
    exact works_called h c
  · rw [hmade]
    exact s.device.calls_made c
  · rw [hmade, perform_call_eq]
    have hcall := s.device.call_spared hleft
    simp only [failing, hcall]
    rfl
  · have hc : c.part? = some refusal.part := by
      refine Decidable.byContradiction fun hc => ?_
      simp [Call.isOf, hc] at hleft
    have hzero : left = 0 := by
      have hone := List.countP_le_length (p := fun c => c.isOf refusal.part) (l := [c])
      exact Nat.lt_one_iff.mp (Nat.lt_of_lt_of_le hleft hone)
    subst hzero
    refine ⟨[], c, [],
      { s with device := (s.device.failing refusal 0).note (.called c (some refusal)) }, rfl, hc,
      rfl, ?_, ?_⟩
    · rw [perform_call_eq]
      have hcall := s.device.call_refused hc
      simp only [failing, hcall]
    · exact Device.calls_note (s.device.failing refusal 0) (.called c (some refusal))

theorem CutShort.bind {x : Act α} {f : α → Act β} (hx : CutShort x) (hf : ∀ a, CutShort (f a)) :
    CutShort (x >>= f) := by
  intro refusal s h
  obtain ⟨made, hmade⟩ := hx refusal s h
  obtain ⟨hworks, hcalls, hspared, hrefused⟩ := hmade
  cases hs : s.perform x with
  | mk result t =>
    simp only [hs] at hworks hcalls hspared
    cases result with
    | error e =>
      have herror : s.perform (x >>= f) = (.error e, t) := by rw [perform_bind, hs]
      refine ⟨made, by rwa [herror], by rwa [herror], fun left hleft => ?_, fun left hleft => ?_⟩
      · rw [herror, perform_bind, hspared left hleft]
      · obtain ⟨before, c, later, u, hsplit, hc, hcount, hu, hucalls⟩ := hrefused left hleft
        refine ⟨before, c, later, u, hsplit, hc, hcount, ?_, hucalls⟩
        rw [perform_bind, hu]
    | ok a =>
      have hok : s.perform (x >>= f) = t.perform (f a) := by rw [perform_bind, hs]
      obtain ⟨made', hworks', hcalls', hspared', hrefused'⟩ := hf a refusal t hworks
      refine ⟨made ++ made', by rwa [hok], ?_, fun left hleft => ?_, fun left hleft => ?_⟩
      · rw [hok, hcalls', hcalls, List.append_assoc]
      · rw [List.countP_append] at hleft
        rw [hok, perform_bind, hspared left (by omega), List.countP_append, ← Nat.sub_sub]
        exact hspared' _ (by omega)
      · rw [List.countP_append] at hleft
        -- the call that is refused is one of the first part or of the second
        by_cases hfirst : left < made.countP (·.isOf refusal.part)
        · obtain ⟨before, c, later, u, rfl, hc, hcount, hu, hucalls⟩ := hrefused left hfirst
          refine ⟨before, c, later ++ made', u, by simp, hc, hcount, ?_, hucalls⟩
          rw [perform_bind, hu]
        · obtain ⟨before, c, later, u, rfl, hc, hcount, hu, hucalls⟩ :=
            hrefused' (left - made.countP (·.isOf refusal.part)) (by omega)
          refine ⟨made ++ before, c, later, u, by simp, hc, ?_, ?_, ?_⟩
          · rw [List.countP_append, hcount]
            omega
          · rw [perform_bind, hspared left (by omega)]
            exact hu
          · rw [hucalls, hcalls, List.append_assoc, List.append_assoc]

/-- Looking at a session is no more than knowing it, if the part of it that is looked at does not
depend on the breakdown. -/
theorem CutShort.get_bind {f : Session → Act α} (hf : ∀ s, CutShort (f s))
    (hsame : ∀ s refusal left, f (s.failing refusal left) = f s) : CutShort (get >>= f) := by
  intro refusal s h
  obtain ⟨made, hmade⟩ := hf s refusal s h
  have hget (left : Nat) : (s.failing refusal left).perform (get >>= f) =
      (s.failing refusal left).perform (f s) := by
    rw [perform_get_bind, hsame]
  refine ⟨made, hmade.works, hmade.calls, fun left hleft => ?_, fun left hleft => ?_⟩
  · rw [hget]
    exact hmade.spared left hleft
  · rw [hget]
    exact hmade.refused left hleft

theorem cutShort_modify {g : Session → Session} (hdevice : ∀ s, (g s).device = s.device)
    (hsame : ∀ s refusal left, g (s.failing refusal left) = (g s).failing refusal left) :
    CutShort (modify g) := by
  refine .of_silent (fun s h => ?_) (fun s => ?_) (fun s refusal left => ?_)
  · rw [perform_modify, hdevice]
    exact h
  · rw [perform_modify, hdevice]
  · rw [perform_modify, perform_modify, hsame]

theorem holdKey_failing (s : Session) (refusal : Refusal) (left : Nat) (code : Scancode)
    (held : Bool) :
    (s.failing refusal left).holdKey code held = (s.holdKey code held).failing refusal left := by
  unfold holdKey
  cases code.keypad? with
  | some k => rfl
  | none => cases code <;> rfl

theorem heed_failing (s : Session) (refusal : Refusal) (left : Nat) (input : Input) :
    (s.failing refusal left).heed input = (s.heed input).failing refusal left := by
  rcases input with ⟨_ | code, again⟩ | ⟨_ | code⟩ | _ | _
  case down.some | up.some => exact s.holdKey_failing refusal left code _
  all_goals rfl

theorem heedAll_failing (s : Session) (refusal : Refusal) (left : Nat) (inputs : List Input) :
    (s.failing refusal left).heedAll inputs =
      ((s.heedAll inputs).1, (s.heedAll inputs).2.failing refusal left) := by
  fun_induction heedAll s inputs with
  | case1 s | case2 s => rfl
  | case3 s input rest hgoes ih => rw [heedAll_cons hgoes, heed_failing, ih]

theorem cutShort_heeding (inputs : List Input) : CutShort (heeding inputs) := by
  have hdevice (s : Session) : (s.heedAll inputs).2.device = s.device := by
    obtain ⟨_, _, _, hsteered⟩ := s.steered_heedAll inputs
    rw [hsteered]
  refine .of_silent (fun s h => ?_) (fun s => ?_) (fun s refusal left => ?_)
  · change (s.heedAll inputs).2.device.Works
    rwa [hdevice]
  · exact congrArg Device.calls (hdevice s)
  · change (Except.ok ((s.failing refusal left).heedAll inputs).1,
      ((s.failing refusal left).heedAll inputs).2) = _
    rw [heedAll_failing]
    rfl

theorem cutShort_sampling : CutShort sampling := by
  refine .of_silent (fun s h => h.takeSamples) (fun s => s.device.calls_takeSamples)
    fun s refusal left => ?_
  have htaken := s.device.takeSamples_failing refusal left
  rw [sampling, perform_modify]
  simp only [failing, htaken]
  rfl

theorem composes_cutShort : Composes @CutShort where
  pure := cutShort_pure
  throw := cutShort_throw
  bind := .bind
  look hf hsame := .get_bind hf fun s refusal left => hsame s (some ⟨refusal, left⟩)
  change hdevice hsame :=
    cutShort_modify hdevice fun s refusal left => hsame s (some ⟨refusal, left⟩)
  note := cutShort_note
  call _ := cutShort_call _
  heeding := cutShort_heeding
  sampling := cutShort_sampling

theorem cutShort_startDevice (setup : Setup) : CutShort (startDevice setup) :=
  startDevice_of (fun c _ => cutShort_call c) (fun _ _ => cutShort_throw _)
    (fun _ _ hx hy => hx.bind fun _ => hy) setup

theorem cutShort_play (setup : Setup) (folder : Folder) (script : List (List Input)) :
    CutShort (play setup folder script) :=
  .bind (cutShort_startDevice setup) fun _ =>
    .bind (composes_cutShort.startProgram setup folder) fun _ => composes_cutShort.frames script

end Session
end ChipMachine
