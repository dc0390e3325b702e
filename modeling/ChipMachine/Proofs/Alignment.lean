import ChipMachine.Proofs.Calls.Steps
import ChipMachine.Proofs.Footprint
import ChipMachine.Proofs.Loading
import Mathlib.Algebra.Ring.Parity

namespace ChipMachine

/-- The address that an instruction itself leads to: that of a jump, of a call that there is room
for, or of a jump by an offset. From all others the counter goes on word by word, stays where it is
to wait for a key, or goes back to where a call was made. -/
def Instruction.target? (s : Core) : Instruction → Option UInt16
  | jump a => some a
  | call a => if s.sp.toNat < Core.callLimit then some a else none
  | jumpOffset a => some (a + (s.reg (s.offsetRegister a)).toUInt16)
  | _ => none

theorem even_add_two (a : UInt16) : Even (a + 2).toNat ↔ Even a.toNat := by
  have ha := a.toNat_lt
  rw [Nat.even_iff, Nat.even_iff, UInt16.toNat_add]
  change (a.toNat + 2) % 65536 % 2 = 0 ↔ _
  omega

theorem even_sub_two (a : UInt16) : Even (a - 2).toNat ↔ Even a.toNat := by
  rw [← even_add_two (a - 2), UInt16.sub_add_cancel]

/-- From an even address on, a word is two neighbours in memory. -/
theorem Memory.cell_add_one {a : UInt16} (h : Even a.toNat) :
    (cell (a + 1)).val = (cell a).val + 1 := by
  have ha := a.toNat_lt
  rw [Nat.even_iff] at h
  change (a + 1).toNat % 4096 = a.toNat % 4096 + 1
  rw [UInt16.toNat_add]
  change (a.toNat + 1) % 65536 % 4096 = _
  omega

namespace Core

/-- The counter and the addresses to return to are even. -/
structure Aligned (s : Core) : Prop where
  counter : Even s.pc.toNat
  calls : ∀ a ∈ s.calls, Even a.toNat

variable {s t : Core} {a : UInt16}

theorem fresh_aligned (d : Dialect) : (fresh d).Aligned := by
  refine ⟨⟨0x100, rfl⟩, fun a ha => ?_⟩
  simp [calls, fresh] at ha

theorem Aligned.of_calls (h : s.Aligned) (counter : Even t.pc.toNat) (stack : t.stack = s.stack)
    (sp : t.sp = s.sp) : t.Aligned :=
  ⟨counter, by rw [calls_of_eq stack sp]; exact h.calls⟩

theorem Aligned.advance (h : s.Aligned) : s.advance.Aligned :=
  h.of_calls ((even_add_two s.pc).mpr h.counter) rfl rfl

theorem Aligned.enter (h : s.Aligned) (ha : Even a.toNat) (he : s.enter a = .ok t) :
    t.Aligned := by
  obtain ⟨hs, _⟩ := enter_ok he
  have hlen : s.calls.length = s.sp.toNat :=
    length_calls (Nat.le_trans (Nat.le_of_lt hs) (by decide))
  obtain ⟨u, hu, hcalls, hpc⟩ := enter_calls (hlen ▸ hs) (Nat.le_of_lt hs) a
  obtain rfl : u = t := Except.ok.inj (hu.symm.trans he)
  refine ⟨hpc ▸ ha, fun b hb => ?_⟩
  rw [hcalls] at hb
  rcases List.mem_append.mp hb with hb | hb
  · exact h.calls b hb
  · exact List.mem_singleton.mp hb ▸ h.counter

theorem Aligned.leave (h : s.Aligned) (hl : s.leave = .ok t) : t.Aligned := by
  obtain ⟨hs, a, ha, rfl⟩ := leave_ok hl
  have hpopped := toNat_sub_one_add_one hs
  have hlast : a ∈ s.calls := by
    refine List.mem_of_getElem? (i := s.sp.toNat - 1) ?_
    rw [Core.calls, List.getElem?_take_of_lt (by omega)]
    simpa using ha
  exact ⟨h.calls a hlast, fun b hb =>
    h.calls b (List.take_subset_take_left _ (Nat.le.intro hpopped) hb)⟩

/-- Only an instruction that leads to an odd address makes the counter odd. -/
theorem Aligned.execute {i : Instruction} {chance : UInt8} (h : s.Aligned)
    (hi : ∀ a, i.target? s = some a → Even a.toNat) (he : i.execute chance s = .ok t) :
    t.Aligned := by
  rcases i.calls_cases with rfl | ⟨a, rfl⟩ | hspares
  · exact h.leave he
  · obtain ⟨hs, _⟩ := enter_ok he
    exact h.enter (hi a (if_pos hs)) he
  · obtain ⟨hstack, hsp⟩ := Instruction.execute_keeps_calls hspares he
    refine h.of_calls ?_ hstack hsp
    by_cases hpc : t.pc = s.pc
    · exact hpc ▸ h.counter
    · rcases (Instruction.execute_footprint he).counter hpc with hj | ⟨_, hpc⟩ | ⟨_, _, _, hpc⟩
      · cases i
        case jump a => exact Except.ok.inj he ▸ hi a rfl
        case jumpOffset a => exact Except.ok.inj he ▸ hi _ rfl
        case call a => exact absurd rfl (hspares.2 a)
        case ret => exact absurd rfl hspares.1
        all_goals cases hj
      · rw [hpc, even_add_two]
        exact h.counter
      · rw [hpc, even_sub_two]
        exact h.counter

end Core

namespace Machine

/-- The core and all that it can be rewound to are aligned. -/
structure Aligned (m : Machine) : Prop where
  core : m.core.Aligned
  snapshots : ∀ s ∈ m.history, s.Aligned

/-- Whether the instruction that the machine is about to run leads to an odd address. -/
def LeadsAstray (m : Machine) : Prop :=
  ∃ i a, Instruction.decode m.core.fetch = some i ∧ i.target? m.core = some a ∧ Odd a.toNat

variable {m : Machine}

theorem fresh_aligned (config : Config) (entropy : Entropy) : (fresh config entropy).Aligned :=
  ⟨Core.fresh_aligned _, by simp [fresh]⟩

theorem Aligned.step (h : m.Aligned) (hm : ¬ m.LeadsAstray) : m.step.machine.Aligned := by
  have hp : m.core.advance.Aligned := h.core.advance
  obtain ⟨_, hs⟩ | ⟨i, fault, _, _, hs⟩ | ⟨i, t, hd, he, hs⟩ := m.step_cases
  · rw [hs]
    exact ⟨hp, h.snapshots⟩
  · rw [hs]
    exact ⟨hp, h.snapshots⟩
  · have hi : ∀ a, i.target? m.core = some a → Even a.toNat := fun a ha =>
      Nat.not_odd_iff_even.mp fun hodd => hm ⟨i, a, hd, ha, hodd⟩
    -- where an instruction leads does not depend on where the counter stands
    have hi' : ∀ a, i.target? m.core.advance = some a → Even a.toNat := by cases i <;> exact hi
    rw [hs]
    exact ⟨hp.execute hi' he, h.snapshots⟩

theorem Aligned.ready (h : m.Aligned) : m.ready.Aligned := by
  refine ⟨h.core.of_calls h.core.counter rfl rfl, fun s hs => ?_⟩
  rcases List.mem_cons.mp (List.mem_of_mem_take hs) with rfl | hs
  · exact h.core
  · exact h.snapshots s hs

theorem Aligned.rewind (h : m.Aligned) : m.rewind.machine.Aligned := by
  cases hm : m.history with
  | nil =>
    rw [rewind_nil hm]
    exact h
  | cons saved older =>
    have hs : ∀ s ∈ saved :: older, s.Aligned := hm ▸ h.snapshots
    obtain ⟨hsaved, holder⟩ := List.forall_mem_cons.mp hs
    rw [rewind_cons hm, hm]
    exact ⟨hsaved.of_calls hsaved.counter rfl rfl, holder⟩

theorem Aligned.apply (h : m.Aligned) (op : Operation)
    (hop : ∀ t ∈ m.instants op, ¬ t.LeadsAstray) : (m.apply op).machine.Aligned := by
  by_cases ho : op.isOuter = true
  · obtain ⟨memory, keypad, dirty, speed, hm⟩ := m.apply_outer ho
    rw [hm]
    exact ⟨h.core.of_calls h.core.counter rfl rfl, h.snapshots⟩
  · cases op with
    | step => exact h.step (hop m List.mem_cons_self)
    | tick => exact batch_preserves_while (fun _ ht hn => ht.step hn) _ _ _ h.ready hop
    | rewind => exact h.rewind
    | _ => exact absurd rfl ho

/-- An instruction goes where it leads. -/
theorem step_target {i : Instruction} {a : UInt16}
    (hd : Instruction.decode m.core.fetch = some i) (ha : i.target? m.core = some a) :
    m.step.machine.core.pc = a := by
  cases i with
  | jump b =>
    rw [step_done hd rfl]
    exact Option.some.inj ha
  | call b =>
    simp only [Instruction.target?, Option.ite_none_right_eq_some, Option.some.injEq] at ha
    obtain ⟨hs, rfl⟩ := ha
    have he : m.core.advance.enter b = .ok _ := dif_pos hs
    rw [step_done hd he]
  | jumpOffset b =>
    rw [step_done hd rfl]
    exact Option.some.inj ha
  | _ => cases ha

/-- As long as jumps, calls and jumps by an offset lead to even addresses, the counter and all
addresses to return to stay even, here and in all snapshots, and no word is fetched across the end
of memory. In every run it is such an instruction after which the counter is odd first. -/
theorem counter_stays_even (config : Config) (entropy : Entropy) (ops : List Operation) :
    let start := fresh config entropy
    ((∀ t ∈ start.runInstants ops, ¬ t.LeadsAstray) →
      (∀ prior, prior <+: ops → (start.run prior).machine.Aligned) ∧
      ∀ t ∈ start.runInstants ops, t.Aligned ∧ t.step.machine.Aligned ∧
        (Memory.cell (t.core.pc + 1)).val = (Memory.cell t.core.pc).val + 1) ∧
    ∀ earlier t later, start.runInstants ops = earlier ++ t :: later →
      (∀ u ∈ earlier, Even u.step.machine.core.pc.toNat) →
      Odd t.step.machine.core.pc.toNat → t.LeadsAstray := by
  intro start
  have hstart : start.Aligned := fresh_aligned config entropy
  have hprior : ∀ earlier t later, start.runInstants ops = earlier ++ t :: later →
      (∀ u ∈ earlier, ¬ u.LeadsAstray) → t.Aligned := fun earlier t later hsplit =>
    runInstants_preserve_while (fun _ op hm hop => hm.apply op hop) (fun _ hm hn => hm.step hn)
      (fun _ hm => hm.ready) start ops hstart hsplit
  constructor
  · intro hops
    constructor
    · rintro prior ⟨later, rfl⟩
      rw [runInstants_append, List.forall_mem_append] at hops
      exact run_preserves_while (fun _ op hm hop => hm.apply op hop) start prior hstart hops.1
    · intro t ht
      obtain ⟨earlier, later, hsplit⟩ := List.append_of_mem ht
      have haligned : t.Aligned := hprior earlier t later hsplit fun u hu =>
        hops u (hsplit ▸ List.mem_append_left _ hu)
      exact ⟨haligned, haligned.step (hops t ht), Memory.cell_add_one haligned.core.counter⟩
  · intro earlier t later hsplit hearlier hodd
    refine Classical.byContradiction fun hn => ?_
    -- what leads astray would have left the counter odd earlier
    have haligned : t.Aligned := hprior earlier t later hsplit fun u hu hastray => by
      obtain ⟨i, a, hd, ha, hodd'⟩ := hastray
      exact Nat.not_even_iff_odd.mpr hodd' (step_target hd ha ▸ hearlier u hu)
    exact Nat.not_even_iff_odd.mpr hodd (haligned.step hn).core.counter

/-- A call of 204 keeps a new machine aligned, and a jump to 205 is what makes the counter odd. -/
theorem counter_stays_even_called :
    let start := fresh .standard (.cycle [])
    let called := [Operation.load (.ofList [0x22, 0x04]), .step]
    let jumped := [Operation.load (.ofList [0x12, 0x05]), .step]
    (start.run called).machine.Aligned ∧ (start.run called).machine.core.calls = [0x202] ∧
      ∃ t, start.runInstants jumped = [t] ∧ Odd t.step.machine.core.pc.toNat ∧
        t.LeadsAstray := by
  intro start called jumped
  have hload : ∀ high low : UInt8, (start.load (.ofList [high, low])).machine =
      { start with core := { start.core with
        memory := start.core.memory.overlay [high, low] } } :=
    fun high low => start.load_ofList (show 2 ≤ Memory.programCapacity by decide)
  have hfetch : ∀ high low : UInt8,
      (start.load (.ofList [high, low])).machine.core.fetch = Word.ofBytes high low := by
    intro high low
    rw [hload]
    exact Core.fetch_overlay (a := 0x200) rfl rfl (by decide) rfl rfl
  have hinstants : ∀ source, start.runInstants [.load source, .step] =
      [(start.load source).machine] := fun _ => rfl
  have hrun : ∀ source, (start.run [.load source, .step]).machine =
      (start.load source).machine.step.machine := fun _ => rfl
  refine ⟨?_, ?_, (start.load (.ofList [0x12, 0x05])).machine, hinstants _, ?_⟩
  · refine ((counter_stays_even .standard (.cycle []) called).1 fun t ht => ?_).1 called
      (List.prefix_refl _)
    rw [hinstants, List.mem_singleton] at ht
    rintro ⟨i, a, hd, ha, hastray⟩
    rw [ht, hfetch] at hd
    obtain rfl : .call 0x204 = i := Option.some.inj hd
    simp only [Instruction.target?, Option.ite_none_right_eq_some, Option.some.injEq] at ha
    rw [← ha.2] at hastray
    exact absurd hastray (by decide)
  · have hs : (start.load (.ofList [0x22, 0x04])).machine.Sound .vip :=
      (fresh_sound .standard (.cycle [])).apply (.load (.ofList [0x22, 0x04]))
    have hcalls := (hs.callsAsList.call (by rw [hfetch]; rfl) (by rw [hload]; decide)).2.1
    rw [hrun, hcalls, hload]
    rfl
  · have hjump : Instruction.decode (start.load (.ofList [0x12, 0x05])).machine.core.fetch =
        some (.jump 0x205) := by rw [hfetch]; rfl
    have hodd : Odd (start.load (.ofList [0x12, 0x05])).machine.step.machine.core.pc.toNat := by
      rw [step_target hjump rfl]
      decide
    refine ⟨hodd, ?_⟩
    exact (counter_stays_even .standard (.cycle []) jumped).2 [] _ [] (hinstants _) (by simp) hodd

end Machine
end ChipMachine
