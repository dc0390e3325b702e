import ChipMachine.Proofs.Replaying
import ChipMachine.Proofs.Session.Opening
import ChipMachine.Proofs.Session.Turning

namespace ChipMachine

namespace Scancode

/-- The key that stands for a key of the keypad. -/
def forKeypad (k : Fin 16) : Scancode :=
  match k with
  | 0x0 => x | 0x1 => num1 | 0x2 => num2 | 0x3 => num3
  | 0x4 => q | 0x5 => w | 0x6 => e | 0x7 => a
  | 0x8 => s | 0x9 => d | 0xA => z | 0xB => c
  | 0xC => num4 | 0xD => r | 0xE => f | _ => v

/-- Each key of the keypad has one key that stands for it. -/
theorem keypad?_eq_some_iff {code : Scancode} {k : Fin 16} :
    code.keypad? = some k ↔ code = forKeypad k := by
  constructor
  · intro h
    cases code
    case other | escape | space => cases h
    all_goals
      obtain rfl := Option.some.inj h
      rfl
  · rintro rfl
    revert k
    decide

theorem keypad?_inj {code other : Scancode} {k : Fin 16} (h : code.keypad? = some k) :
    other.keypad? = some k ↔ other = code := by
  rw [keypad?_eq_some_iff, keypad?_eq_some_iff.mp h]

end Scancode

namespace Input

/-- The key that an input is about, and whether it is held from then on. -/
def key? : Input → Option (Scancode × Bool)
  | .down (some code) _ => some (code, true)
  | .up (some code) => some (code, false)
  | _ => none

/-- Whether the latest of some inputs about a key is that it goes down. -/
def held (code : Scancode) (inputs : List Input) : Bool :=
  ((inputs.filterMap key?).reverse.find? (·.1 == code)).any (·.2)

/-- An input tells nothing new after others if it is about no key, or about one without a meaning,
or if its key is already as it says. -/
def Idle (inputs : List Input) (input : Input) : Prop :=
  input ≠ .quit ∧ ∀ code now, input.key? = some (code, now) →
    held code inputs = now ∨ (code.keypad? = none ∧ code ≠ .escape ∧ code ≠ .space)

theorem held_concat (code : Scancode) (inputs : List Input) (input : Input) :
    held code (inputs ++ [input]) = match input.key? with
      | some (moved, now) => if moved = code then now else held code inputs
      | none => held code inputs := by
  cases hk : input.key? with
  | none => simp [held, hk]
  | some key =>
    by_cases h : key.1 = code
    · simp [held, hk, h]
    · simp [held, hk, h]

end Input

namespace Session

/-- A session takes for held what was held after the inputs handled so far, none of which ended
it. -/
structure Holds (handled : List Input) (s : Session) : Prop where
  goesOn : .quit ∉ handled
  keypad : ∀ code k, code.keypad? = some k →
    s.machine.core.keypad.isDown k = Input.held code handled
  rewinding : s.rewinding = Input.held .escape handled
  hurrying : s.hurrying = Input.held .space handled

variable {s t : Session} {handled : List Input}

theorem Holds.of_eq (h : s.Holds handled)
    (keypad : t.machine.core.keypad = s.machine.core.keypad)
    (rewinding : t.rewinding = s.rewinding) (hurrying : t.hurrying = s.hurrying) :
    t.Holds handled := by
  refine ⟨h.goesOn, fun code k hk => ?_, rewinding.trans h.rewinding, hurrying.trans h.hurrying⟩
  rw [keypad]
  exact h.keypad code k hk

theorem heed_eq (s : Session) (input : Input) :
    s.heed input = match input.key? with
      | some (code, now) => s.holdKey code now
      | none => s := by
  rcases input with ⟨_ | code, again⟩ | ⟨_ | code⟩ | _ | _ <;> rfl

theorem holdKey_keypad {code : Scancode} {k : Fin 16} (hk : code.keypad? = some k) (now : Bool) :
    s.holdKey code now =
      { s with machine := s.machine.setKeypad (s.machine.core.keypad.set k now) } := by
  cases now <;> simp only [holdKey, hk] <;> rfl

theorem holdKey_meaningless {code : Scancode} (hk : code.keypad? = none) (hescape : code ≠ .escape)
    (hspace : code ≠ .space) (now : Bool) : s.holdKey code now = s := by
  cases code with
  | escape => exact absurd rfl hescape
  | space => exact absurd rfl hspace
  | other => rfl
  | _ => cases hk

/-- The three kinds of keys: those of the keypad, the two that steer the session, and the others. -/
theorem Holds.holdKey (h : s.Holds handled) {input : Input} {code : Scancode} {now : Bool}
    (hinput : input.key? = some (code, now)) (hgoes : input ≠ .quit) :
    (s.holdKey code now).Holds (handled ++ [input]) := by
  have hq : .quit ∉ handled ++ [input] := by simp [h.goesOn, hgoes.symm]
  have hheld (other : Scancode) : Input.held other (handled ++ [input]) =
      if code = other then now else Input.held other handled := by
    rw [Input.held_concat, hinput]
  cases hpad : code.keypad? with
  | some k =>
    have hescape : code ≠ .escape := by rintro rfl; cases hpad
    have hspace : code ≠ .space := by rintro rfl; cases hpad
    rw [holdKey_keypad hpad]
    refine ⟨hq, fun other j hj => ?_, ?_, ?_⟩
    · change (s.machine.core.keypad.set k now).isDown j = _
      have hsame : k = j ↔ code = other := by
        rw [← Scancode.keypad?_inj hj, hpad, Option.some.injEq]
      rw [Keypad.isDown_set, h.keypad other j hj, hheld]
      simp only [hsame]
    · rw [hheld, if_neg hescape]
      exact h.rewinding
    · rw [hheld, if_neg hspace]
      exact h.hurrying
  | none =>
    have hkeypad (other : Scancode) (j : Fin 16) (hj : other.keypad? = some j) :
        s.machine.core.keypad.isDown j = Input.held other (handled ++ [input]) := by
      have hother : code ≠ other := by
        rintro rfl
        cases hpad.symm.trans hj
      rw [hheld, if_neg hother]
      exact h.keypad other j hj
    by_cases hescape : code = .escape
    · subst hescape
      refine ⟨hq, hkeypad, ?_, ?_⟩
      · simp [hheld, Session.holdKey, Scancode.keypad?]
      · simp [hheld, Session.holdKey, Scancode.keypad?, h.hurrying]
    · by_cases hspace : code = .space
      · subst hspace
        refine ⟨hq, hkeypad, ?_, ?_⟩
        · simp [hheld, Session.holdKey, Scancode.keypad?, h.rewinding]
        · simp [hheld, Session.holdKey, Scancode.keypad?]
      · rw [holdKey_meaningless hpad hescape hspace]
        refine ⟨hq, hkeypad, ?_, ?_⟩
        · rw [hheld, if_neg hescape, h.rewinding]
        · rw [hheld, if_neg hspace, h.hurrying]

theorem Holds.heed (h : s.Holds handled) {input : Input} (hgoes : input ≠ .quit) :
    (s.heed input).Holds (handled ++ [input]) := by
  rw [heed_eq]
  cases hkey : input.key? with
  | some key => exact h.holdKey hkey hgoes
  | none =>
    have hheld (code : Scancode) :
        Input.held code (handled ++ [input]) = Input.held code handled := by
      rw [Input.held_concat, hkey]
    refine ⟨by simp [h.goesOn, hgoes.symm], fun code k hk => ?_, ?_, ?_⟩
    · rw [hheld, h.keypad code k hk]
    · rw [hheld, h.rewinding]
    · rw [hheld, h.hurrying]

theorem Holds.heed_idle (h : s.Holds handled) {input : Input} (hidle : input.Idle handled) :
    s.heed input = s := by
  rw [heed_eq]
  cases hkey : input.key? with
  | none => rfl
  | some key =>
    obtain ⟨code, now⟩ := key
    obtain hnow | ⟨hpad, hescape, hspace⟩ := hidle.2 code now hkey
    · dsimp only
      cases hpad : code.keypad? with
      | some k =>
        have hset : s.machine.core.keypad.set k now = s.machine.core.keypad := by
          rw [← hnow, ← h.keypad code k hpad]
          exact Keypad.set_isDown _ k
        rw [holdKey_keypad hpad, hset]
        rfl
      | none =>
        have hrewinding := h.rewinding
        have hhurrying := h.hurrying
        cases code with
        | escape =>
          change { s with rewinding := now } = s
          rw [← hnow, ← hrewinding]
        | space =>
          change { s with hurrying := now } = s
          rw [← hnow, ← hhurrying]
        | other => rfl
        | _ => cases hpad
    · exact holdKey_meaningless hpad hescape hspace now

theorem heedAll_append {front : List Input} (h : .quit ∉ front) (s : Session) (rest : List Input) :
    s.heedAll (front ++ rest) = (s.heedAll front).2.heedAll rest := by
  induction front generalizing s with
  | nil => rfl
  | cons input front ih =>
    rw [List.mem_cons, not_or] at h
    obtain ⟨hinput, hfront⟩ := h
    rw [List.cons_append, heedAll_cons (Ne.symm hinput), heedAll_cons (Ne.symm hinput)]
    exact ih hfront _

theorem heedAll_quit {front : List Input} (h : .quit ∈ front) (s : Session) (rest : List Input) :
    s.heedAll (front ++ rest) = s.heedAll front := by
  induction front generalizing s with
  | nil => cases h
  | cons input front ih =>
    cases input with
    | quit => rfl
    | _ => exact ih (List.mem_of_ne_of_mem Input.noConfusion h) _

theorem heedAll_goesOn (s : Session) (inputs : List Input) :
    (s.heedAll inputs).1 = true ↔ .quit ∉ inputs := by
  fun_induction heedAll s inputs with
  | case1 s => simp
  | case2 s => simp
  | case3 s input rest hgoes ih => simp [ih, Ne.symm hgoes]

theorem Holds.heedAll (h : s.Holds handled) {inputs : List Input} (hgoes : .quit ∉ inputs) :
    (s.heedAll inputs).2.Holds (handled ++ inputs) := by
  induction inputs generalizing s handled with
  | nil => rwa [List.append_nil]
  | cons input rest ih =>
    rw [List.mem_cons, not_or] at hgoes
    obtain ⟨hinput, hrest⟩ := hgoes
    have hlater := ih (h.heed (Ne.symm hinput)) hrest
    rw [List.append_assoc] at hlater
    rwa [heedAll_cons (Ne.symm hinput)]

theorem Holds.rendered (h : s.Holds handled) : s.rendered.Holds handled := by
  obtain ⟨_, hs⟩ := s.rendered_eq
  rw [hs]
  exact h.of_eq rfl rfl rfl

theorem Holds.polled (h : s.Holds handled) {inputs : List Input} (hgoes : .quit ∉ inputs) :
    (s.polled inputs).Holds (handled ++ inputs) := by
  obtain ⟨_, hs⟩ := s.polled_eq inputs
  rw [hs]
  exact (h.heedAll hgoes).of_eq rfl rfl rfl

/-- Neither a tick nor going back moves a key. -/
theorem Holds.moved (h : s.Holds handled) : s.moved.2.Holds handled := by
  obtain ⟨_, _, hs⟩ := s.moved_eq
  rw [hs]
  refine h.of_eq ?_ rfl rfl
  dsimp only
  split
  · exact s.machine.rewind_keypad
  · exact s.machine.tick_givens.2

/-- The keys at a turn, and the way that it goes. -/
structure HeldThrough (handled : List Input) (t : Turn) : Prop where
  began : t.began.Holds handled
  ended : t.ended.Holds handled
  way : t.ended.machine =
    if Input.held .escape handled then t.began.machine.rewind.machine
    else t.began.machine.tick.machine

theorem Holds.turn (h : s.Holds handled) (hworks : s.device.Works) {inputs : List Input} {t : Turn}
    (ht : s.turn? inputs = some t) :
    HeldThrough (handled ++ inputs) t ∧ t.ended = (s.framed inputs).2 := by
  obtain ⟨first, hfirst, hgoes, hbegan, hended, hframed⟩ | ⟨hnone, -⟩ := turn?_cases hworks inputs
  · obtain rfl := Option.some.inj (hfirst.symm.trans ht)
    have hpolled : first.began.Holds (handled ++ inputs) := by
      rw [hbegan]
      exact h.rendered.polled ((heedAll_goesOn _ _).mp hgoes)
    have hway := first.began.moved_machine.1
    rw [hpolled.rewinding, ← hended] at hway
    refine ⟨⟨hpolled, ?_, hway⟩, by rw [hframed, hended]⟩
    rw [hended]
    exact hpolled.moved
  · cases hnone.symm.trans ht

theorem Holds.framed (h : s.Holds handled) (hworks : s.device.Works) {inputs : List Input}
    (hgoes : (s.framed inputs).1 = true) : (s.framed inputs).2.Holds (handled ++ inputs) := by
  obtain ⟨t, ht, -⟩ | ⟨-, hframed⟩ := turn?_cases hworks inputs
  · obtain ⟨hthrough, hended⟩ := h.turn hworks ht
    exact hended ▸ hthrough.ended
  · rw [hframed] at hgoes
    cases hgoes

theorem Holds.turns (h : s.Holds []) (hworks : s.device.Works) {script : List (List Input)}
    {n : Nat} {t : Turn} (ht : (s.turns script)[n]? = some t) :
    HeldThrough (script.take (n + 1)).flatten t := by
  have hframe (past : List (List Input)) (u : Session) (inputs : List Input) (hu : u.device.Works)
      (hpast : u.Holds past.flatten) (hgoes : (u.framed inputs).1 = true) :
      (u.framed inputs).2.Holds (past ++ [inputs]).flatten := by
    simpa using hpast.framed hu hgoes
  obtain ⟨u, inputs, later, hu, hholds, hdrop, hturn, -⟩ := turn_reached hframe [] hworks h ht
  have hthrough := (hholds.turn hu hturn).1
  have hinputs : script[n]? = some inputs := by
    rw [← List.head?_drop, hdrop]
    rfl
  rw [List.take_add_one, hinputs]
  simpa using hthrough

/-- A turn of the frame with the quit, or of a later one, would have handled it. -/
theorem Holds.length_turns (h : s.Holds []) (hworks : s.device.Works) {script : List (List Input)}
    {n : Nat} (hquit : .quit ∈ (script.take (n + 1)).flatten) : (s.turns script).length ≤ n := by
  refine Nat.le_of_not_lt fun hmore => ?_
  exact (h.turns hworks (List.getElem?_eq_getElem hmore)).began.goesOn hquit

/-- Where two scripts part, only the keys held by then matter. -/
theorem Holds.frames_congr (h : s.Holds handled) (hworks : s.device.Works)
    (earlier : List (List Input)) {rest rest' : List (List Input)}
    (hrest : ∀ t : Session, t.Holds (handled ++ earlier.flatten) → t.device.Works →
      t.perform (frames rest) = t.perform (frames rest')) :
    s.perform (frames (earlier ++ rest)) = s.perform (frames (earlier ++ rest')) := by
  induction earlier generalizing s handled with
  | nil =>
    rw [List.flatten_nil, List.append_nil] at hrest
    exact hrest s h hworks
  | cons inputs earlier ih =>
    rw [List.cons_append, List.cons_append, perform_frames_cons hworks, perform_frames_cons hworks]
    cases hgoes : (s.framed inputs).1 with
    | false => rfl
    | true =>
      refine ih (h.framed hworks hgoes) (works_framed hworks inputs) ?_
      rwa [List.append_assoc]

theorem framed_congr {inputs inputs' : List Input}
    (h : s.rendered.heedAll inputs = s.rendered.heedAll inputs') :
    s.framed inputs = s.framed inputs' := by
  unfold framed Session.polled
  rw [h]

theorem Holds.frames_idle (h : s.Holds handled) (hworks : s.device.Works) {front : List Input}
    {input : Input} (hidle : input.Idle (handled ++ front)) (back : List Input)
    (later : List (List Input)) :
    s.perform (frames ((front ++ input :: back) :: later)) =
      s.perform (frames ((front ++ back) :: later)) := by
  have hheed : s.rendered.heedAll (front ++ input :: back) =
      s.rendered.heedAll (front ++ back) := by
    by_cases hquit : .quit ∈ front
    · rw [heedAll_quit hquit, heedAll_quit hquit]
    · rw [heedAll_append hquit, heedAll_append hquit, heedAll_cons hidle.1,
        (h.rendered.heedAll hquit).heed_idle hidle]
  rw [perform_frames_cons hworks, perform_frames_cons hworks, framed_congr hheed]

theorem perform_frames_quit (hworks : s.device.Works) (inputs after : List Input)
    (later : List (List Input)) :
    s.perform (frames ((inputs ++ .quit :: after) :: later)) =
      s.perform (frames [inputs ++ [.quit]]) := by
  have hheed : s.rendered.heedAll (inputs ++ .quit :: after) =
      s.rendered.heedAll (inputs ++ [.quit]) := by
    by_cases hquit : .quit ∈ inputs
    · rw [heedAll_quit hquit, heedAll_quit hquit]
    · rw [heedAll_append hquit, heedAll_append hquit]
      rfl
  have hends : (s.framed (inputs ++ [.quit])).1 = false := by
    have hheeded : (s.rendered.heedAll (inputs ++ [.quit])).1 ≠ true := by
      rw [Ne, heedAll_goesOn]
      simp
    rw [Session.framed, if_neg hheeded]
  rw [perform_frames_cons hworks, perform_frames_cons hworks, framed_congr hheed, hends]
  rfl

/-- No key is held when the first frame begins. -/
theorem holds_opening (setup : Setup) (folder : Folder) (rate : Option Int32) (pull padding : Nat)
    (entropy : Entropy) :
    let opened := ((fresh setup (.idle none rate pull padding) entropy).perform
      (opening setup folder)).2
    opened.device.Works ∧ opened.Holds [] := by
  refine keeps_opening (P := fun s => s.device.Works ∧ s.Holds []) (fun _ hs => hs.1) ?_ ?_ ?_ setup
    folder _ ⟨rfl, ?_⟩
  · exact fun s c _ hs => ⟨works_called hs.1 c, hs.2.of_eq rfl rfl rfl⟩
  · exact fun _ _ _ hs => ⟨hs.1, hs.2.of_eq rfl rfl rfl⟩
  · intro s source hs
    refine ⟨works_adopted hs.1 _, ?_⟩
    obtain ⟨_, _, hadopted⟩ := heardAll_eq { s with machine := (s.machine.load source).machine }
      (s.machine.load source).events
    rw [adopted, hadopted]
    exact hs.2.of_eq (s.machine.apply_keypad (.load source)) rfl rfl
  · refine ⟨List.not_mem_nil, fun code k _ => ?_, rfl, rfl⟩
    change Keypad.released.isDown k = false
    simp [Keypad.released, Keypad.isDown, Vector.get]

/-- On a device that refuses nothing, the keypad is at every turn as the inputs so far have left it:
a key of it is down if the last that was heard of the one key that stands for it was that it went
down. In the same way Escape decides between back and forth. Only inputs move keys: turns leave all
of them alone, and an input that tells nothing new might as well be left out. A quit ends the
session, without a turn, and nothing that comes after it counts. -/
theorem keys_follow_inputs (setup : Setup) (folder : Folder) (script : List (List Input))
    (rate : Option Int32) (pull padding : Nat) (entropy : Entropy) :
    let device := Device.idle none rate pull padding
    let turns := turned setup folder script device entropy
    (∀ k, ∃! code : Scancode, code.keypad? = some k) ∧
    (∀ (n : Nat) t, turns[n]? = some t → HeldThrough (script.take (n + 1)).flatten t) ∧
    (∀ earlier front input back later, script = earlier ++ (front ++ input :: back) :: later →
      input.Idle (earlier.flatten ++ front) →
      run setup folder script device entropy =
        run setup folder (earlier ++ (front ++ back) :: later) device entropy) ∧
    (∀ earlier inputs after later, script = earlier ++ (inputs ++ .quit :: after) :: later →
      turns.length ≤ earlier.length ∧
      run setup folder script device entropy =
        run setup folder (earlier ++ [inputs ++ [.quit]]) device entropy) ∧
    (filmed setup folder script device entropy ≠ [] →
      (run setup folder script device entropy).1 = .ok ()) := by
  intro device turns
  have hkeys (k : Fin 16) : ∃! code : Scancode, code.keypad? = some k :=
    ⟨Scancode.forKeypad k, Scancode.keypad?_eq_some_iff.mpr rfl,
      fun _ => Scancode.keypad?_eq_some_iff.mp⟩
  have hopening := holds_opening setup folder rate pull padding entropy
  cases hs : (fresh setup device entropy).perform (opening setup folder) with
  | mk result s =>
    rw [hs] at hopening
    obtain ⟨hworks, hholds⟩ := hopening
    cases result with
    | error e =>
      have hrun := run_of_unopened hs
      have hnone : turns = [] := turned_of_unopened hs script
      have hfilm : filmed setup folder script device entropy = [] := by simp only [filmed, hs]
      refine ⟨hkeys, fun n t ht => ?_, fun _ _ _ _ _ _ _ => (hrun _).trans (hrun _).symm,
        fun _ _ _ _ _ => ⟨?_, (hrun _).trans (hrun _).symm⟩, fun h => absurd hfilm h⟩
      · rw [hnone] at ht
        cases ht
      · rw [hnone]
        exact Nat.zero_le _
    | ok =>
      have hrun := run_of_opened hs
      have hturned : turns = s.turns script := turned_of_opened hs script
      have hthrough (n : Nat) (t : Turn) (ht : turns[n]? = some t) :
          HeldThrough (script.take (n + 1)).flatten t := by
        rw [hturned] at ht
        exact hholds.turns hworks ht
      refine ⟨hkeys, hthrough, fun earlier front input back later hscript hidle => ?_,
        fun earlier inputs after later hscript => ⟨?_, ?_⟩, fun _ => ?_⟩
      · rw [hrun, hrun, hscript]
        exact hholds.frames_congr hworks earlier fun t ht htworks =>
          ht.frames_idle htworks hidle back later
      · rw [hturned, hscript]
        refine hholds.length_turns hworks ?_
        rw [List.take_add_one, List.take_left, List.getElem?_append_right (Nat.le_refl _)]
        simp
      · rw [hrun, hrun, hscript]
        exact hholds.frames_congr hworks earlier fun t _ htworks =>
          perform_frames_quit htworks inputs after later
      · obtain ⟨f, -, hf⟩ := perform_frames hworks script
        rw [hrun]
        exact congrArg Prod.fst hf

/-- Q is pressed in the first frame. In the second it is let go and, after Escape, W goes down and
repeats itself; the third ends the session before W is let go. -/
theorem keys_follow_inputs_steered :
    let setup : Setup := ⟨⟨.vip, 0, 1⟩, .yellow, 1, ""⟩
    let device := Device.idle none none 0 0
    let second : List Input := [.down (some .escape) false, .up (some .q), .down (some .w) false]
    let script : List (List Input) := [[.down (some .q) false],
      second ++ [.down (some .w) true], [.quit, .up (some .w)]]
    let turns := turned setup ⟨[("", [])]⟩ script device (.cycle [])
    (∃ t, turns[1]? = some t ∧ t.began.machine.core.keypad.isDown 4 = false ∧
      t.began.machine.core.keypad.isDown 5 = true ∧
      t.ended.machine = t.began.machine.rewind.machine) ∧
    run setup ⟨[("", [])]⟩ script device (.cycle []) =
      run setup ⟨[("", [])]⟩ [[.down (some .q) false], second ++ [], [.quit, .up (some .w)]] device
        (.cycle []) ∧
    turns.length ≤ 2 ∧ (run setup ⟨[("", [])]⟩ script device (.cycle [])).1 = .ok () := by
  intro setup device second script turns
  obtain ⟨-, hturns, hidle, hquit, hok⟩ :=
    keys_follow_inputs setup ⟨[("", [])]⟩ script none 0 0 (.cycle [])
  have hsecond : turns[1]?.isSome = true := by decide +kernel
  obtain ⟨t, ht⟩ := Option.isSome_iff_exists.mp hsecond
  have hfilmed : (filmed setup ⟨[("", [])]⟩ script device (.cycle [])).isEmpty = false := by
    decide +kernel
  have hthrough := hturns 1 t ht
  refine ⟨⟨t, ht, ?_, ?_, ?_⟩, ?_, ?_, hok ?_⟩
  · exact (hthrough.began.keypad .q 4 rfl).trans (by decide)
  · exact (hthrough.began.keypad .w 5 rfl).trans (by decide)
  · have hescape : Input.held .escape (script.take 2).flatten = true := by decide
    have hway := hthrough.way
    rwa [if_pos hescape] at hway
  · have hrepeated : (Input.down (some .w) true).Idle ([.down (some .q) false] ++ second) := by
      refine ⟨nofun, fun code now hkey => ?_⟩
      obtain ⟨rfl, rfl⟩ := Prod.mk.inj (Option.some.inj hkey)
      exact .inl (by decide)
    exact hidle [[.down (some .q) false]] second _ [] [[.quit, .up (some .w)]] rfl hrepeated
  · exact (hquit [[.down (some .q) false], second ++ [.down (some .w) true]] [] [.up (some .w)] []
      rfl).1
  · exact List.isEmpty_eq_false_iff.mp hfilmed

end Session
end ChipMachine
