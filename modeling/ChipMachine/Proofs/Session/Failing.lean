import ChipMachine.Proofs.Run
import ChipMachine.Proofs.Session.Cutting
import ChipMachine.Proofs.Session.Turning

namespace ChipMachine
namespace Session

variable {s : Session}

/-- What a part of a session comes to on a device that works, which it still does afterwards: no
error but some. -/
def EndsBy (E : SessionError → Prop) (x : Act α) : Prop :=
  ∀ s : Session, s.device.Works →
    (s.perform x).2.device.Works ∧ ∀ e, (s.perform x).1 = .error e → E e

variable {E : SessionError → Prop}

theorem EndsBy.of_ok {x : Act α} (h : ∀ s : Session, s.device.Works →
    ∃ a t, s.perform x = (.ok a, t) ∧ t.device.Works) : EndsBy E x := by
  intro s hs
  obtain ⟨a, t, hx, ht⟩ := h s hs
  rw [hx]
  exact ⟨ht, nofun⟩

theorem EndsBy.bind {x : Act α} {f : α → Act β} (hx : EndsBy E x) (hf : ∀ a, EndsBy E (f a)) :
    EndsBy E (x >>= f) := by
  intro s hs
  have h := hx s hs
  rw [perform_bind]
  split
  · rename_i a t heq
    rw [heq] at h
    exact hf a t h.1
  · rename_i e t heq
    rw [heq] at h
    refine ⟨h.1, fun e' he => h.2 e' ?_⟩
    exact congrArg Except.error (Except.error.inj he)

theorem endsBy_throw {e : SessionError} (he : E e) : EndsBy E (throw e : Act α) := by
  intro s hs
  refine ⟨hs, fun e' h => ?_⟩
  obtain rfl := Except.error.inj h
  exact he

theorem endsBy_call (c : Call) : EndsBy E (call c) :=
  .of_ok fun _ hs => ⟨_, _, perform_call hs c, works_called hs c⟩

theorem endsBy_note (h : Happening) : EndsBy E (note h) := .of_ok fun _ hs => ⟨_, _, rfl, hs⟩

theorem endsBy_frames (script : List (List Input)) : EndsBy E (frames script) := by
  have hframe (inputs : List Input) : EndsBy E (frame inputs) :=
    .of_ok fun _ hs => ⟨_, _, perform_frame hs inputs, works_framed hs inputs⟩
  have hpure : EndsBy E (pure () : Act Unit) := .of_ok fun _ hs => ⟨_, _, rfl, hs⟩
  induction script with
  | nil => exact .bind (hframe _) fun _ => hpure
  | cons inputs later ih =>
    refine .bind (hframe inputs) fun goesOn => ?_
    split
    · exact ih
    · exact hpure

end Session

/-- An error of what the session was given: a window too large, or a program that cannot be opened
or read. -/
def SessionError.Outward : SessionError → Prop
  | overflow | windowTooLarge .. | unopened _ | unloaded (.unreadable _) => True
  | _ => False

namespace Session

variable {s : Session}

theorem endsBy_startDevice (setup : Setup) : EndsBy SessionError.Outward (startDevice setup) :=
  startDevice_of (fun c _ => endsBy_call c)
    (fun _ he => endsBy_throw <| by obtain rfl | ⟨_, _, rfl⟩ := he <;> trivial)
    (fun _ _ hx hy => hx.bind fun _ => hy) setup

theorem endsBy_startProgram (setup : Setup) (folder : Folder) :
    EndsBy SessionError.Outward (startProgram setup folder) := by
  unfold startProgram
  split
  · exact endsBy_throw trivial
  · rename_i source _
    intro s hs
    have hworks := works_adopted hs (s.machine.load source)
    rw [perform_get_bind, perform_bind, perform_adopt hs]
    obtain ⟨reason, n, hload⟩ | ⟨program, warnings, n, hload⟩ := Machine.load_cases source
    · rw [hload] at hworks ⊢
      exact endsBy_throw (e := .unloaded (.unreadable reason)) trivial _ hworks
    · rw [hload] at hworks ⊢
      exact EndsBy.bind (endsBy_note _) (fun _ => endsBy_note _) _ hworks

theorem works_opening (setup : Setup) (folder : Folder) (h : s.device.Works) :
    (s.perform (opening setup folder)).2.device.Works :=
  ((endsBy_startDevice setup).bind (fun _ => endsBy_startProgram setup folder) s h).1

theorem endsBy_play (setup : Setup) (folder : Folder) (script : List (List Input)) :
    EndsBy SessionError.Outward (play setup folder script) :=
  .bind (endsBy_startDevice setup) fun _ =>
    .bind (endsBy_startProgram setup folder) fun _ => endsBy_frames script

/-- A fault is recorded, and that is all: it ends the frames like a quit. -/
theorem perform_frames_fault (hworks : s.device.Works) {script : List (List Input)} {n : Nat}
    {t : Turn} {fault : Fault} (ht : (s.turns script)[n]? = some t)
    (hforth : t.began.rewinding = false) (hfault : t.began.machine.tick.answer = .error fault) :
    (s.turns script).length = n + 1 ∧ s.perform (frames script) = (.ok (), t.ended) ∧
      t.ended.device.happenings.getLast? = some (.recorded (.stopping fault)) := by
  obtain ⟨u, inputs, later, hu, -, -, hturn, hturns, hperform⟩ :=
    turn_reached (P := fun _ _ => True) (fun _ _ _ _ _ _ => trivial) [] hworks trivial ht
  obtain ⟨first, hfirst, -, -, hended, hframed⟩ | ⟨hnone, -⟩ := turn?_cases hu inputs
  · obtain rfl := Option.some.inj (hfirst.symm.trans hturn)
    have hmoved : first.began.moved.1 = false ∧ first.began.moved.2.device.happenings.getLast? =
        some (.recorded (.stopping fault)) := by
      simp [moved, hforth, hfault, Device.note, Device.happenings]
    rw [turns_cons hu, hturn, hframed, hmoved.1] at hturns
    refine ⟨?_, ?_, ?_⟩
    · have hlength := congrArg List.length hturns
      have hlast := (List.getElem?_eq_some_iff.mp ht).1
      simp at hlength
      omega
    · rw [hperform, perform_frames_cons hu, hframed, hmoved.1, hended]
      rfl
    · rw [hended]
      exact hmoved.2
  · cases hnone.symm.trans hturn

theorem perform_frames_goesOn (h : s.device.Works) {inputs : List Input}
    (hgoes : (s.framed inputs).1 = true) (later : List (List Input)) :
    s.perform (frames (inputs :: later)) = (s.framed inputs).2.perform (frames later) := by
  rw [perform_frames_cons h, if_pos hgoes]

/-- A picture is shown when the first frame has been taken back. -/
theorem countP_lock_rewound :
    (run ⟨⟨.vip, 0, 1⟩, .yellow, 1, ""⟩ ⟨[("", [])]⟩ [[], [.down (some .escape) false]]
      (.idle none none 0 0) (.cycle [])).2.device.calls.countP (·.isOf .lock) = 1 := by
  obtain ⟨s, hopened, hworks, hfirst, hsecond, hcount⟩ : ∃ s : Session,
      (fresh ⟨⟨.vip, 0, 1⟩, .yellow, 1, ""⟩ (.idle none none 0 0) (.cycle [])).perform
        (opening ⟨⟨.vip, 0, 1⟩, .yellow, 1, ""⟩ ⟨[("", [])]⟩) = (.ok (), s) ∧ s.device.Works ∧
      (s.framed []).1 = true ∧ ((s.framed []).2.framed [.down (some .escape) false]).1 = true ∧
      (((s.framed []).2.framed [.down (some .escape) false]).2.framed [.quit]).2.device.calls.countP
        (·.isOf .lock) = 1 :=
    ⟨_, rfl, rfl, by decide +kernel, by decide +kernel, by decide +kernel⟩
  have hworks' := works_framed (works_framed hworks []) [.down (some .escape) false]
  rw [run_of_opened hopened, perform_frames_goesOn hworks hfirst,
    perform_frames_goesOn (works_framed hworks []) hsecond, frames, perform_bind,
    perform_frame hworks']
  exact hcount

end Session

theorem Machine.tick_return {m : Machine} (hbatch : m.config.batch = 1)
    (hmemory : m.core.memory = Memory.fresh.overlay [0x00, 0xEE]) (hpc : m.core.pc = 0x200)
    (hsp : m.core.sp = 0) : m.tick.answer = .error (.emptyStack 0x200) := by
  have hword : m.ready.core.fetch = Word.ofBytes 0x00 0xEE :=
    Core.fetch_overlay hmemory hpc (by decide) rfl rfl
  have hrefused : Instruction.ret.execute m.ready.entropy.chance m.ready.core.advance =
      .error (.emptyStack 0x200) := by
    have hsp' : m.ready.core.advance.sp = 0 := hsp
    have hplace : m.ready.core.advance.currentAddress = 0x200 := by
      change m.core.pc + 2 - 2 = 0x200
      rw [hpc]
      rfl
    change m.ready.core.advance.leave = _
    rw [Core.leave, if_pos hsp', hplace]
  have hstep := step_refused (m := m.ready) (by rw [hword]; rfl) hrefused
  simp only [tick, hbatch, batch, hstep]

namespace Session

/-- A program that begins with a return fails in the first turn. -/
theorem turn_return :
    ∃ t, (turned ⟨⟨.vip, 1, 1⟩, .yellow, 1, ""⟩ ⟨[("", [0x00, 0xEE])]⟩ [[], []]
      (.idle none none 0 0) (.cycle []))[0]? = some t ∧
      t.began.rewinding = false ∧ t.began.machine.tick.answer = .error (.emptyStack 0x200) := by
  let setup : Setup := ⟨⟨.vip, 1, 1⟩, .yellow, 1, ""⟩
  let loaded : Machine :=
    { core := { Core.fresh .vip with memory := Memory.fresh.overlay [0x00, 0xEE] }
      history := [], config := setup.config, entropy := .cycle [] }
  obtain ⟨s, hopened, hstands⟩ : ∃ s : Session, _ ∧ s.Stands loaded false :=
    (stands_fresh setup none 0 0 (.cycle [])).opening setup ⟨[("", [0x00, 0xEE])]⟩
      (.ofList [0x00, 0xEE]) (by decide) rfl rfl
  have hbegan := hstands.polled (fun _ => heedAll_nil)
  refine ⟨⟨s.rendered.polled [], (s.framed []).2⟩, ?_, hbegan.rewinding, ?_⟩
  · rw [turned_of_opened hopened, hstands.turns_cons (fun _ => heedAll_nil)]
    rfl
  · rw [hbegan.machine]
    exact Machine.tick_return rfl rfl rfl rfl

/-- A device that begins to refuse calls of a part cuts a session short, and does nothing else. The
session makes the calls that it would have made anyway, up to the first that is refused, and ends
with the refusal; if it makes no such call, everything that can be noticed is as it would have been.
Besides refusals only what the session was given can make it fail: a fault of the machine is
recorded, and ends the session like a quit. -/
theorem breakdown_cuts_run (setup : Setup) (folder : Folder) (script : List (List Input))
    (rate : Option Int32) (pull padding : Nat) (entropy : Entropy) :
    let whole := run setup folder script (.idle none rate pull padding) entropy
    let turns := turned setup folder script (.idle none rate pull padding) entropy
    (∀ refusal after,
      let failing :=
        run setup folder script (.idle (some ⟨refusal, after⟩) rate pull padding) entropy
      let count := whole.2.device.calls.countP (·.isOf refusal.part)
      (count ≤ after →
        failing.1 = whole.1 ∧ failing.2.device.happenings = whole.2.device.happenings) ∧
      (after < count → ∃ before c later, whole.2.device.calls = before ++ c :: later ∧
        c.part? = some refusal.part ∧ before.countP (·.isOf refusal.part) = after ∧
        failing.1 = .error (.refused refusal) ∧ failing.2.device.calls = before ++ [c])) ∧
    (∀ breakdown e,
      (run setup folder script (.idle breakdown rate pull padding) entropy).1 = .error e →
      e.Outward ∨ ∃ b, breakdown = some b ∧ e = .refused b.refusal) ∧
    (∀ (n : Nat) t fault, turns[n]? = some t → t.began.rewinding = false →
      t.began.machine.tick.answer = .error fault →
      whole = (.ok (), t.ended) ∧ turns.length = n + 1 ∧
      t.ended.device.happenings.getLast? = some (.recorded (.stopping fault))) := by
  intro whole turns
  let start := fresh setup (.idle none rate pull padding) entropy
  have hworks : start.device.Works := rfl
  have hends := (endsBy_play setup folder script start hworks).2
  have hcut (refusal : Refusal) :
      CutAt refusal (play setup folder script) start whole.2.device.calls := by
    obtain ⟨made, hmade⟩ := cutShort_play setup folder script refusal start hworks
    have hcalls : whole.2.device.calls = made := hmade.calls
    rwa [hcalls]
  have hspared (b : Breakdown)
      (h : whole.2.device.calls.countP (·.isOf b.refusal.part) ≤ b.after) :
      run setup folder script (.idle (some b) rate pull padding) entropy = _ :=
    (hcut b.refusal).spared b.after h
  have hrefused (b : Breakdown)
      (h : b.after < whole.2.device.calls.countP (·.isOf b.refusal.part)) :
      ∃ before c later t, whole.2.device.calls = before ++ c :: later ∧
        c.part? = some b.refusal.part ∧ before.countP (·.isOf b.refusal.part) = b.after ∧
        run setup folder script (.idle (some b) rate pull padding) entropy =
          (.error (.refused b.refusal), t) ∧ t.device.calls = before ++ [c] :=
    (hcut b.refusal).refused b.after h
  refine ⟨fun refusal after => ⟨fun h => ?_, fun h => ?_⟩, ?_, ?_⟩
  · rw [hspared ⟨refusal, after⟩ h]
    exact ⟨rfl, rfl⟩
  · obtain ⟨before, c, later, t, hsplit, hc, hcount, hfails, hcalls⟩ := hrefused ⟨refusal, after⟩ h
    rw [hfails]
    exact ⟨before, c, later, hsplit, hc, hcount, rfl, hcalls⟩
  · intro breakdown e he
    cases breakdown with
    | none => exact .inl (hends e he)
    | some b =>
      rcases Nat.lt_or_ge b.after (whole.2.device.calls.countP (·.isOf b.refusal.part)) with h | h
      · obtain ⟨_, _, _, t, -, -, -, hfails, -⟩ := hrefused b h
        rw [hfails] at he
        exact .inr ⟨b, rfl, (Except.error.inj he).symm⟩
      · rw [hspared b h] at he
        exact .inl (hends e he)
  · intro n t fault ht hforth hfault
    have hopening := works_opening setup folder hworks
    cases hs : start.perform (opening setup folder) with
    | mk result s =>
      rw [hs] at hopening
      cases result with
      | error e =>
        have hnone : turns = [] := turned_of_unopened hs script
        rw [hnone] at ht
        cases ht
      | ok =>
        have hturned : turns = s.turns script := turned_of_opened hs script
        rw [hturned] at ht ⊢
        obtain ⟨hlength, hperform, hlast⟩ := perform_frames_fault hopening ht hforth hfault
        exact ⟨(run_of_opened hs script).trans hperform, hlength, hlast⟩

/-- A session shows one picture, unless its texture cannot be locked; that a second one could not be
makes no difference. Another session is to have a window too wide, and the program of a third one
fails. -/
theorem breakdown_cuts_run_showing :
    (∃ whole cut spared : Except SessionError Unit × Session,
      run ⟨⟨.vip, 0, 1⟩, .yellow, 1, ""⟩ ⟨[("", [])]⟩ [[], [.down (some .escape) false]]
        (.idle none none 0 0) (.cycle []) = whole ∧
      run ⟨⟨.vip, 0, 1⟩, .yellow, 1, ""⟩ ⟨[("", [])]⟩ [[], [.down (some .escape) false]]
        (.idle (some ⟨⟨.lock, "lost"⟩, 0⟩) none 0 0) (.cycle []) = cut ∧
      run ⟨⟨.vip, 0, 1⟩, .yellow, 1, ""⟩ ⟨[("", [])]⟩ [[], [.down (some .escape) false]]
        (.idle (some ⟨⟨.lock, "lost"⟩, 1⟩) none 0 0) (.cycle []) = spared ∧
      (∃ before later, whole.2.device.calls = before ++ .lockTexture :: later ∧
        cut.1 = .error (.refused ⟨.lock, "lost"⟩) ∧
        cut.2.device.calls = before ++ [.lockTexture]) ∧
      spared.1 = whole.1 ∧ spared.2.device.happenings = whole.2.device.happenings) ∧
    (∃ e : SessionError, (run ⟨⟨.vip, 0, 1⟩, .yellow, 0x2000000, ""⟩ ⟨[]⟩ [] (.idle none none 0 0)
      (.cycle [])).1 = .error e ∧ e.Outward) ∧
    (run ⟨⟨.vip, 1, 1⟩, .yellow, 1, ""⟩ ⟨[("", [0x00, 0xEE])]⟩ [[], []] (.idle none none 0 0)
      (.cycle [])).1 = .ok () := by
  refine ⟨⟨_, _, _, rfl, rfl, rfl, ?_, ?_⟩, ?_, ?_⟩
  · obtain ⟨hcut, -, -⟩ := breakdown_cuts_run ⟨⟨.vip, 0, 1⟩, .yellow, 1, ""⟩ ⟨[("", [])]⟩
      [[], [.down (some .escape) false]] none 0 0 (.cycle [])
    have hone := countP_lock_rewound
    obtain ⟨before, c, later, hsplit, hc, -, hresult, hcalls⟩ :=
      (hcut ⟨.lock, "lost"⟩ 0).2 (by rw [hone]; exact Nat.one_pos)
    have hlock : c = .lockTexture := by cases c <;> first | rfl | cases hc
    subst hlock
    exact ⟨before, later, hsplit, hresult, hcalls⟩
  · obtain ⟨hcut, -, -⟩ := breakdown_cuts_run ⟨⟨.vip, 0, 1⟩, .yellow, 1, ""⟩ ⟨[("", [])]⟩
      [[], [.down (some .escape) false]] none 0 0 (.cycle [])
    exact (hcut ⟨.lock, "lost"⟩ 1).1 (Nat.le_of_eq countP_lock_rewound)
  · obtain ⟨-, herrors, -⟩ :=
      breakdown_cuts_run ⟨⟨.vip, 0, 1⟩, .yellow, 0x2000000, ""⟩ ⟨[]⟩ [] none 0 0 (.cycle [])
    have hwide : (run ⟨⟨.vip, 0, 1⟩, .yellow, 0x2000000, ""⟩ ⟨[]⟩ [] (.idle none none 0 0)
      (.cycle [])).1 = .error (.windowTooLarge .width 0x80000000) := rfl
    exact ⟨_, hwide, (herrors none _ hwide).resolve_right nofun⟩
  · obtain ⟨-, -, hfault⟩ := breakdown_cuts_run ⟨⟨.vip, 1, 1⟩, .yellow, 1, ""⟩
      ⟨[("", [0x00, 0xEE])]⟩ [[], []] none 0 0 (.cycle [])
    obtain ⟨t, ht, hforth, hanswer⟩ := turn_return
    exact congrArg Prod.fst (hfault 0 t _ ht hforth hanswer).1

end Session
end ChipMachine
