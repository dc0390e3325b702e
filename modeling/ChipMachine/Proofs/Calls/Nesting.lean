import ChipMachine.Proofs.Calls.Steps
import ChipMachine.Proofs.Rewinding
import Mathlib.Data.List.Forall2

namespace ChipMachine

/-- A call from an address, or a return to one. -/
inductive Move where
  | call (address : UInt16)
  | ret (address : UInt16)
  deriving DecidableEq

/-- Calls and returns that pair up like brackets. -/
inductive Balanced : List Move → Prop where
  | nil : Balanced []
  | append {first second : List Move} : Balanced first → Balanced second →
    Balanced (first ++ second)
  | pair {inner : List Move} (a back : UInt16) : Balanced inner →
    Balanced (.call a :: inner ++ [.ret back])

/-- The calls without a partner are those that the addresses to return to belong to, in order. -/
inductive Pending : List Move → List UInt16 → Prop where
  | balanced {moves : List Move} : Balanced moves → Pending moves []
  | call {moves inner : List Move} {calls : List UInt16} (a : UInt16) :
    Pending moves calls → Balanced inner → Pending (moves ++ .call a :: inner) (calls ++ [a + 2])

/-- Every return pairs up with a call, and goes behind it. -/
def Matched (moves : List Move) : Prop :=
  ∀ before back after, moves = before ++ .ret back :: after →
    ∃ earlier a inner, before = earlier ++ .call a :: inner ∧ Balanced inner ∧ back = a + 2

/-- The moves that led to a list of addresses to return to. -/
structure Nested (moves : List Move) (calls : List UInt16) : Prop where
  pending : Pending moves calls
  matched : Matched moves

section
variable {moves more : List Move} {calls : List UInt16} {a back : UInt16}

theorem Pending.append (h : Pending moves calls) (hm : Balanced more) :
    Pending (moves ++ more) calls := by
  cases h with
  | balanced hb => exact .balanced (hb.append hm)
  | call a hp hb =>
    rw [List.append_assoc, List.cons_append]
    exact .call a hp (hb.append hm)

/-- The last address to return to belongs to the last call without a partner. -/
theorem Pending.last (h : Pending moves (calls ++ [back])) :
    ∃ earlier a inner, moves = earlier ++ .call a :: inner ∧ Pending earlier calls ∧
      Balanced inner ∧ back = a + 2 := by
  generalize hc : calls ++ [back] = all at h
  cases h with
  | balanced _ => simp at hc
  | call a hp hb =>
    obtain ⟨rfl, hto⟩ := List.append_inj' hc rfl
    exact ⟨_, a, _, rfl, hp, hb, (List.cons.inj hto).1⟩

theorem nested_nil : Nested [] [] := ⟨.balanced .nil, by simp [Matched]⟩

/-- One more move is matched unless it is a return that does not go behind the last open call. -/
theorem Matched.snoc (h : Matched moves) {x : Move} (hx : ∀ back, x = .ret back →
    ∃ earlier a inner, moves = earlier ++ .call a :: inner ∧ Balanced inner ∧ back = a + 2) :
    Matched (moves ++ [x]) := by
  intro before back after heq
  rcases after.eq_nil_or_concat' with rfl | ⟨middle, last, rfl⟩
  · obtain ⟨rfl, hlast⟩ := List.append_inj' heq rfl
    exact hx back (List.cons.inj hlast).1
  · have hsplit : moves ++ [x] = (before ++ .ret back :: middle) ++ [last] := by
      rw [heq, List.append_assoc, List.cons_append]
    exact h before back middle (List.append_inj' hsplit rfl).1

theorem Nested.call (h : Nested moves calls) (a : UInt16) :
    Nested (moves ++ [.call a]) (calls ++ [a + 2]) := by
  refine ⟨.call a h.pending .nil, h.matched.snoc ?_⟩
  intro back hx
  cases hx

theorem Nested.ret (h : Nested moves (calls ++ [back])) : Nested (moves ++ [.ret back]) calls := by
  obtain ⟨earlier, a, inner, rfl, hp, hb, rfl⟩ := h.pending.last
  constructor
  · rw [List.append_assoc]
    exact hp.append (.pair a (a + 2) hb)
  · refine h.matched.snoc ?_
    intro back hx
    cases hx
    exact ⟨earlier, a, inner, rfl, hb, rfl⟩

end

namespace Machine

/-- The call or return that a step makes, if it makes one. -/
def move? (m : Machine) : Option Move :=
  match m.step.answer with
  | .error _ => none
  | .ok _ =>
    if m.core.fetch.family.val = 2 then some (.call m.core.pc)
    else if m.core.fetch = 0x00EE then some (.ret m.step.machine.core.pc)
    else none

end Machine

/-- The moves that led to a state, and those that led to the snapshots it can be rewound to. -/
structure Trail where
  moves : List Move
  saved : List (List Move)

namespace Trail

/-- The moves of a tick are taken back with it. -/
def after (t : Trail) (m : Machine) : Operation → Trail
  | .step => { t with moves := t.moves ++ m.move?.toList }
  | .tick =>
    ⟨t.moves ++ (m.instants .tick).filterMap Machine.move?,
      (t.moves :: t.saved).take Machine.historyLimit⟩
  | .rewind =>
    match t.saved with
    | [] => t
    | moves :: older => ⟨moves, older⟩
  | _ => t

theorem after_outer (t : Trail) (m : Machine) {op : Operation} (h : op.isOuter = true) :
    t.after m op = t := by
  cases op <;> first | rfl | cases h

def follow (t : Trail) (m : Machine) : List Operation → Trail
  | [] => t
  | op :: ops => (t.after m op).follow (m.apply op).machine ops

/-- The trail of a machine and of all its snapshots. -/
structure Leads (t : Trail) (m : Machine) : Prop where
  moves : Nested t.moves m.core.calls
  saved : List.Forall₂ (fun moves s => Nested moves s.calls) t.saved m.history

end Trail

namespace Machine

variable {d : Dialect} {m : Machine} {moves : List Move}

theorem Sound.step_nested (h : m.Sound d) (hn : Nested moves m.core.calls) :
    Nested (moves ++ m.move?.toList) m.step.machine.core.calls := by
  have hc := h.callsAsList
  by_cases hcall : m.core.fetch.family.val = 2
  · rcases Nat.lt_or_eq_of_le hc.held.2 with hroom | hfull
    · obtain ⟨ha, hcalls, _⟩ := hc.call hcall hroom
      have hm : m.move? = some (.call m.core.pc) := by simp [move?, ha, hcall]
      rw [hm, hcalls]
      exact hn.call m.core.pc
    · obtain ⟨ha, hcalls⟩ := hc.full hcall hfull
      have hm : m.move? = none := by simp [move?, ha]
      rw [hm, hcalls]
      simpa using hn
  · by_cases hret : m.core.fetch = 0x00EE
    · rcases m.core.calls.eq_nil_or_concat' with hnil | ⟨earlier, back, hback⟩
      · obtain ⟨ha, hcalls⟩ := hc.empty hret hnil
        have hm : m.move? = none := by simp [move?, ha]
        rw [hm, hcalls, ← hnil]
        simpa using hn
      · obtain ⟨ha, hcalls, hpc⟩ := hc.ret earlier back hret hback
        have hm : m.move? = some (.ret back) := by
          unfold move?
          rw [ha]
          dsimp only
          rw [if_neg hcall, if_pos hret, hpc]
        rw [hm, hcalls]
        exact (hback ▸ hn).ret
    · have hm : m.move? = none := by
        unfold move?
        split
        · rfl
        · rw [if_neg hcall, if_neg hret]
      rw [hm, hc.other hcall hret]
      simpa using hn

theorem Sound.batch_nested (h : m.Sound d) (hn : Nested moves m.core.calls) (n : Nat)
    (past : List Event) :
    Nested (moves ++ (batchInstants n m).filterMap move?) (batch n m past).machine.core.calls := by
  induction n generalizing m moves past with
  | zero => simpa [batchInstants, batch] using hn
  | succ n ih =>
    have hs := h.step_nested hn
    have hmoves (later : List Machine) : moves ++ (m :: later).filterMap move? =
        moves ++ m.move?.toList ++ later.filterMap move? := by
      cases hm : m.move? <;> simp [hm]
    simp only [batchInstants, batch, hmoves]
    rcases m.step.answer with fault | flow
    · simpa using hs
    · cases flow with
      | proceed => exact ih h.step hs _
      | halt => simpa using hs

variable {t : Trail}

theorem leads_rewind (ht : t.Leads m) : (t.after m .rewind).Leads m.rewind.machine := by
  obtain ⟨hmoves, hsaved⟩ := ht
  unfold Trail.after
  rcases hts : t.saved with _ | ⟨moves, older⟩ <;>
    rcases hh : m.history with _ | ⟨saved, rest⟩ <;>
    rw [hts, hh] at hsaved
  · rw [rewind_nil hh]
    exact ⟨hmoves, by rw [hts, hh]; exact hsaved⟩
  · cases hsaved
  · cases hsaved
  · obtain ⟨hback, holder⟩ := List.forall₂_cons.mp hsaved
    rw [rewind_cons hh, hh]
    exact ⟨hback, holder⟩

theorem Sound.leads_apply (h : m.Sound d) (ht : t.Leads m) (op : Operation) :
    (t.after m op).Leads (m.apply op).machine := by
  obtain ⟨hmoves, hsaved⟩ := ht
  by_cases ho : op.isOuter = true
  · obtain ⟨memory, keypad, dirty, speed, hm⟩ := m.apply_outer ho
    rw [t.after_outer m ho, hm]
    exact ⟨hmoves, hsaved⟩
  · cases op with
    | step => exact ⟨h.step_nested hmoves, m.step_history ▸ hsaved⟩
    | tick =>
      refine ⟨h.ready.batch_nested hmoves _ _, ?_⟩
      change List.Forall₂ _ _ m.tick.machine.history
      rw [m.tick_history]
      exact List.forall₂_take _ (.cons hmoves hsaved)
    | rewind => exact leads_rewind ⟨hmoves, hsaved⟩
    | _ => exact absurd rfl ho

theorem Sound.leads_run (h : m.Sound d) (ht : t.Leads m) (ops : List Operation) :
    (t.follow m ops).Leads (m.run ops).machine := by
  induction ops generalizing m t with
  | nil => exact ht
  | cons op ops ih => exact ih (h.apply op) (h.leads_apply ht op)

end Machine
end ChipMachine
