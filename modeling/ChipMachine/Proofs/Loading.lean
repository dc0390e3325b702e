import ChipMachine.Proofs.Run
import Mathlib.Data.ENat.Lattice

namespace ChipMachine

namespace ByteSource

/-- All the bytes of a source in their order, and what comes after them. -/
inductive Contents where
  | ended (bytes : List UInt8)
  | failing (bytes : List UInt8) (reason : String)
  | endless (byte : Nat → UInt8)

namespace Contents

def length : Contents → ℕ∞
  | ended bytes | failing bytes _ => bytes.length
  | endless _ => ⊤

def byte? : Contents → Nat → Option UInt8
  | ended bytes, k | failing bytes _, k => bytes[k]?
  | endless byte, k => some (byte k)

def failure? : Contents → Option String
  | failing _ reason => some reason
  | _ => none

/-- The contents with some bytes in front. -/
def preceded (bs : List UInt8) : Contents → Contents
  | ended bytes => .ended (bs ++ bytes)
  | failing bytes reason => .failing (bs ++ bytes) reason
  | endless byte => .endless fun k => bs[k]?.getD (byte (k - bs.length))

/-- The first bytes, at most `n`. -/
def take (n : Nat) : Contents → List UInt8
  | ended bytes | failing bytes _ => bytes.take n
  | endless byte => (List.range n).map byte

variable (n : Nat) (bs : List UInt8) (c : Contents)

theorem preceded_nil : c.preceded [] = c := by
  cases c <;> rfl

theorem preceded_append (more : List UInt8) :
    c.preceded (bs ++ more) = (c.preceded more).preceded bs := by
  cases c with
  | ended bytes | failing bytes => simp [preceded]
  | endless byte =>
    refine congrArg endless (funext fun k => ?_)
    rw [List.getElem?_append, List.length_append]
    by_cases hk : k < bs.length
    · rw [if_pos hk, List.getElem?_eq_getElem hk]
      rfl
    · rw [if_neg hk, List.getElem?_eq_none (Nat.le_of_not_lt hk), Nat.sub_add_eq]
      rfl

theorem length_preceded : (c.preceded bs).length = bs.length + c.length := by
  cases c <;> simp [preceded, length]

theorem failure?_preceded : (c.preceded bs).failure? = c.failure? := by
  cases c <;> rfl

theorem length_take : ((c.take n).length : ℕ∞) = min (n : ℕ∞) c.length := by
  cases c with
  | ended bytes | failing bytes =>
    rw [take, length, List.length_take]
    exact Nat.mono_cast.map_min
  | endless byte => simp [take, length]

theorem getElem?_take (k : Nat) : (c.take n)[k]? = if k < n then c.byte? k else none := by
  cases c with
  | ended bytes | failing bytes => simp [take, byte?, List.getElem?_take]
  | endless byte =>
    by_cases hk : k < n
    · simp [take, byte?, hk]
    · simp [take, hk]

theorem take_take (k : Nat) : (c.take n).take k = c.take (min k n) := by
  apply List.ext_getElem?
  intro j
  rw [List.getElem?_take, getElem?_take, getElem?_take, ← ite_and]
  simp only [Nat.lt_min]

theorem take_preceded : (c.preceded bs).take n = bs.take n ++ c.take (n - bs.length) := by
  cases c with
  | ended bytes | failing bytes => exact List.take_append
  | endless byte =>
    apply List.ext_getElem?
    intro k
    rw [getElem?_take, List.getElem?_append, getElem?_take, List.getElem?_take,
      List.length_take]
    simp only [preceded, byte?]
    by_cases hb : k < bs.length
    · by_cases hk : k < n
      · rw [if_pos hk, if_pos hk, if_pos (by omega), List.getElem?_eq_getElem hb]
        rfl
      · rw [if_neg hk, if_neg (by omega), if_neg (by omega)]
    · rw [List.getElem?_eq_none (Nat.le_of_not_lt hb)]
      by_cases hk : k < n
      · rw [if_pos hk, if_neg (by omega), if_pos (by omega),
          Nat.min_eq_right (by omega)]
        rfl
      · rw [if_neg hk, if_neg (by omega), if_neg (by omega)]

end Contents

/-- What a source gives in all, however it is cut into pieces. -/
def contents : ByteSource → Contents
  | ended => .ended []
  | failed reason => .failing [] reason
  | interrupted next => next.contents
  | piece first others next => next.contents.preceded (first :: others)
  | endless byte => .endless byte

theorem add_lt_coe_iff (n limit : Nat) (length : ℕ∞) :
    n + length < limit ↔ length < (limit - n : Nat) := by
  induction length using ENat.recTopCoe with
  | top => simp
  | coe length =>
    rw [← Nat.cast_add, Nat.cast_lt, Nat.cast_lt]
    omega

/-- A reader gets the first bytes, and meets a failure only where it still wants more. -/
theorem take_eq (limit : Nat) (source : ByteSource) :
    source.take limit = ⟨source.contents.take limit,
      if source.contents.length < limit then source.contents.failure? else none⟩ := by
  induction source generalizing limit with
  | ended =>
    have hnone : ended.contents.failure? = none := rfl
    rw [hnone, ite_self]
    exact congrArg (Taken.mk · none) List.take_nil.symm
  | failed reason =>
    cases limit with
    | zero => simp [take, contents, Contents.take, Contents.length]
    | succ limit => simp [take, contents, Contents.take, Contents.failure?, Contents.length]
  | interrupted next ih => exact ih limit
  | piece first others next ih =>
    have hleft : limit - ((first :: others).take limit).length =
        limit - (first :: others).length := by
      rw [List.length_take]
      omega
    have hmore : (first :: others).length + next.contents.length < (limit : ℕ∞) ↔
        next.contents.length < (limit - (first :: others).length : Nat) :=
      add_lt_coe_iff ..
    simp only [take, hleft, ih, contents, Contents.take_preceded, Contents.length_preceded,
      Contents.failure?_preceded, hmore]
  | endless byte =>
    have hnone : (endless byte).contents.failure? = none := rfl
    rw [hnone, ite_self]
    rfl

theorem take_zero (source : ByteSource) : source.take 0 = ⟨[], none⟩ := by
  have hbytes : (source.contents.take 0).length = 0 := by
    have := source.contents.length_take 0
    simpa using this
  rw [take_eq, List.length_eq_zero_iff.mp hbytes, if_neg (by simp)]

/-- Bytes that fit are taken, and then what comes behind them. -/
theorem take_of_preceded {source rest : ByteSource} {given : List UInt8} {limit : Nat}
    (h : source.contents = rest.contents.preceded given) (hfits : given.length ≤ limit) :
    source.take limit = ⟨given ++ (rest.take (limit - given.length)).bytes,
      (rest.take (limit - given.length)).failure⟩ := by
  rw [take_eq, take_eq, h, Contents.take_preceded, Contents.failure?_preceded,
    Contents.length_preceded, List.take_of_length_le hfits]
  simp only [add_lt_coe_iff]

/-- What is left of a source while a piece is read. -/
def left : List UInt8 → ByteSource → ByteSource
  | [], next => next
  | b :: bs, next => .piece b bs next

theorem contents_left (bs : List UInt8) (next : ByteSource) :
    (left bs next).contents = next.contents.preceded bs := by
  cases bs with
  | nil => exact (Contents.preceded_nil _).symm
  | cons b bs => rfl

/-- A reader at work. Each read gives at least one byte of those that are left of a piece and still
wanted, or is interrupted and made again, or meets the end or a failure. -/
inductive Reads : Nat → ByteSource → Taken → Prop where
  | enough (source : ByteSource) : Reads 0 source ⟨[], none⟩
  | ended {limit : Nat} : 0 < limit → Reads limit .ended ⟨[], none⟩
  | failed {limit : Nat} {reason : String} :
    0 < limit → Reads limit (.failed reason) ⟨[], some reason⟩
  | interrupted {limit : Nat} {next : ByteSource} {taken : Taken} :
    0 < limit → Reads limit next taken → Reads limit (.interrupted next) taken
  | piece {limit : Nat} {given more : List UInt8} {next : ByteSource} {taken : Taken} :
    given ≠ [] → given.length ≤ limit → Reads (limit - given.length) (left more next) taken →
    Reads limit (left (given ++ more) next) ⟨given ++ taken.bytes, taken.failure⟩
  | endless {limit n : Nat} {byte : Nat → UInt8} {taken : Taken} :
    0 < n → n ≤ limit → Reads (limit - n) (.endless fun k => byte (n + k)) taken →
    Reads limit (.endless byte) ⟨(List.range n).map byte ++ taken.bytes, taken.failure⟩

/-- Whatever the reads give one by one, together they come to the same. -/
theorem Reads.eq {limit : Nat} {source : ByteSource} {taken : Taken}
    (h : source.Reads limit taken) : taken = source.take limit := by
  induction h with
  | enough source => exact source.take_zero.symm
  | ended => rfl
  | failed hpos => exact (if_neg (Nat.ne_of_gt hpos)).symm
  | interrupted _ _ ih => exact ih
  | @piece limit given more next taken _ hfits _ ih =>
    have hleft : (left (given ++ more) next).contents =
        (left more next).contents.preceded given := by
      rw [contents_left, contents_left, Contents.preceded_append]
    rw [take_of_preceded hleft hfits, ← ih]
  | @endless limit n byte taken _ hfits _ ih =>
    obtain ⟨more, rfl⟩ := Nat.exists_eq_add_of_le hfits
    rw [Nat.add_sub_cancel_left] at ih
    rw [ih]
    simp only [take, List.range_add, List.map_append, List.map_map]
    rfl

/-- A reader that always asks for all that it still wants comes to an end. -/
theorem exists_reads (limit : Nat) (source : ByteSource) : ∃ taken, source.Reads limit taken := by
  rcases Nat.eq_zero_or_pos limit with rfl | hpos
  · exact ⟨_, .enough source⟩
  induction source generalizing limit with
  | ended => exact ⟨_, .ended hpos⟩
  | failed reason => exact ⟨_, .failed hpos⟩
  | interrupted next ih =>
    obtain ⟨taken, h⟩ := ih limit hpos
    exact ⟨taken, .interrupted hpos h⟩
  | piece first others next ih =>
    rcases Nat.lt_or_ge (first :: others).length limit with hlt | hge
    · obtain ⟨taken, h⟩ := ih _ (Nat.sub_pos_of_lt hlt)
      have hpiece : Reads limit (left ((first :: others) ++ []) next) _ :=
        .piece (List.cons_ne_nil first others) (Nat.le_of_lt hlt) h
      rw [List.append_nil] at hpiece
      exact ⟨_, hpiece⟩
    · -- the piece has as much as is wanted
      have hlen : ((first :: others).take limit).length = limit := by
        rw [List.length_take, Nat.min_eq_left hge]
      have hne : (first :: others).take limit ≠ [] := by
        rw [← List.length_pos_iff, hlen]
        exact hpos
      have hrest : Reads (limit - ((first :: others).take limit).length)
          (left ((first :: others).drop limit) next) ⟨[], none⟩ := by
        rw [hlen, Nat.sub_self]
        exact .enough _
      have hpiece := Reads.piece hne (Nat.le_of_eq hlen) hrest
      rw [List.take_append_drop] at hpiece
      exact ⟨_, hpiece⟩
  | endless byte =>
    have hrest := Reads.enough (.endless fun k => byte (limit + k))
    rw [← Nat.sub_self limit] at hrest
    exact ⟨_, .endless hpos (Nat.le_refl limit) hrest⟩

theorem reads_iff {limit : Nat} {source : ByteSource} {taken : Taken} :
    source.Reads limit taken ↔ taken = source.take limit := by
  refine ⟨Reads.eq, ?_⟩
  rintro rfl
  obtain ⟨taken, h⟩ := source.exists_reads limit
  exact h.eq ▸ h

end ByteSource

namespace Memory

variable (m : Memory) (program : List UInt8)

theorem getElem?_overlay {k : Nat} (hk : k < programCapacity) (hp : k < program.length) :
    (m.overlay program).bytes[programStart + k]? = program[k]? := by
  have hsize : programStart + k < 4096 := by
    simp only [programCapacity, size, programStart] at hk ⊢
    omega
  rw [Vector.getElem?_eq_getElem hsize, overlay, Vector.getElem_ofFn, if_pos (Nat.le_add_right ..)]
  simp [hp]

theorem getElem?_overlay_of_ne {j : Nat} (h : ∀ k < program.length, j ≠ programStart + k) :
    (m.overlay program).bytes[j]? = m.bytes[j]? := by
  rw [overlay, Vector.getElem?_ofFn]
  split
  · rename_i hj
    have hkept : (if programStart ≤ j then program.toArray[j - programStart]?.getD m.bytes[j]
        else m.bytes[j]) = m.bytes[j] := by
      split
      · rename_i hstart
        have hout : program.length ≤ j - programStart :=
          Nat.le_of_not_lt fun hlt => h _ hlt (Nat.add_sub_of_le hstart).symm
        simp [List.getElem?_eq_none hout]
      · rfl
    rw [Vector.getElem?_eq_getElem hj]
    exact congrArg some hkept
  · rename_i hj
    exact (Vector.getElem?_eq_none (Nat.le_of_not_lt hj)).symm

end Memory

namespace Machine

variable (m : Machine) {source : ByteSource}

theorem load_of_contents_eq {other : ByteSource} (h : other.contents = source.contents) :
    m.load other = m.load source := by
  have hsame : other.take (Memory.programCapacity + 1) =
      source.take (Memory.programCapacity + 1) := by
    rw [source.take_eq, other.take_eq, h]
  unfold load
  rw [hsame]

theorem lt_room_iff (length : ℕ∞) : length < (Memory.programCapacity + 1 : Nat) ↔
    length ≤ Memory.programCapacity := by
  rw [Nat.cast_succ, ENat.lt_add_one_iff (ENat.natCast_ne_top _)]

theorem load_refused {reason : String} (h : source.contents.failure? = some reason)
    (hfits : source.contents.length ≤ Memory.programCapacity) :
    m.load source = ⟨m, [], .error (.unreadable reason),
      (source.contents.take (Memory.programCapacity + 1)).length⟩ := by
  have htake := source.take_eq (Memory.programCapacity + 1)
  rw [if_pos ((lt_room_iff _).mpr hfits), h] at htake
  simp only [load, htake]

theorem load_done
    (h : source.contents.failure? = none ∨ Memory.programCapacity < source.contents.length) :
    let program := source.contents.take Memory.programCapacity
    let taken := source.contents.take (Memory.programCapacity + 1)
    m.load source =
      ⟨{ m with core := { m.core with memory := m.core.memory.overlay program } },
        (if Memory.programCapacity < taken.length then [.recorded .truncated] else []) ++
          [.recorded (.loaded program.length m.config.dialect)], .ok (), taken.length⟩ := by
  have htake := source.take_eq (Memory.programCapacity + 1)
  have hnone : (if source.contents.length < (Memory.programCapacity + 1 : Nat) then
      source.contents.failure? else none) = none := by
    rcases h with hnone | hlong
    · rw [hnone, ite_self]
    · exact if_neg fun hlt => not_le_of_gt hlong ((lt_room_iff _).mp hlt)
  rw [hnone] at htake
  simp only [load, htake, ByteSource.Contents.take_take, Nat.min_eq_left (Nat.le_succ _)]

/-- A program in one piece, no longer than fits, lies over memory. -/
theorem load_ofList {program : List UInt8} (h : program.length ≤ Memory.programCapacity) :
    (m.load (.ofList program)).machine =
      { m with core := { m.core with memory := m.core.memory.overlay program } } := by
  have hcontents : (ByteSource.ofList program).contents = .ended program := by
    cases program with
    | nil => rfl
    | cons b bs => exact congrArg ByteSource.Contents.ended (List.append_nil _)
  rw [m.load_done (.inl (by rw [hcontents]; rfl)), hcontents]
  simp only [ByteSource.Contents.take, List.take_of_length_le h]

/-- Loading depends on what the source gives in all and on how it ends, and not on how its reads
are cut or interrupted. A source that fails with no more bytes than fit leaves the machine as it
was. From any other, one byte more is read than fits, if there is one, the program lies over memory,
and a warning tells that it was too long. -/
theorem load_takes_contents (source : ByteSource) :
    let given := source.contents
    let room := Memory.programCapacity
    let done := m.load source
    let memory := done.machine.core.memory
    (∀ reason, given.failure? = some reason → given.length ≤ room →
      done.answer.result = .error (.unreadable reason) ∧
      (done.answer.consumed : ℕ∞) = given.length ∧ done.machine = m ∧ done.events = []) ∧
    (given.failure? = none ∨ room < given.length →
      done.answer.result = .ok () ∧
      (done.answer.consumed : ℕ∞) = min given.length (room + 1) ∧
      (∀ k : Nat, k < min given.length room →
        memory.bytes[Memory.programStart + k]? = given.byte? k) ∧
      (∀ j : Nat, (∀ k : Nat, k < min given.length room → j ≠ Memory.programStart + k) →
        memory.bytes[j]? = m.core.memory.bytes[j]?) ∧
      done.machine = { m with core := { m.core with memory := memory } } ∧
      (.recorded .truncated ∈ done.events ↔ room < given.length)) ∧
    (∀ other : ByteSource, other.contents = given → m.load other = done) ∧
    ∀ taken, source.Reads (room + 1) taken ↔ taken = source.take (room + 1) := by
  refine ⟨fun reason hreason hfits => ?_, fun hok => ?_, fun _ => m.load_of_contents_eq,
    fun _ => ByteSource.reads_iff⟩
  · rw [m.load_refused hreason hfits]
    refine ⟨rfl, ?_, rfl, rfl⟩
    rw [ByteSource.Contents.length_take, min_eq_right ((lt_room_iff _).mpr hfits).le]
  · have hsize := source.contents.length_take Memory.programCapacity
    rw [min_comm] at hsize
    rw [m.load_done hok]
    refine ⟨rfl, ?_, fun k hk => ?_, fun j hj => ?_, rfl, ?_⟩
    · rw [ByteSource.Contents.length_take, min_comm]
      rfl
    · have hfit : k < Memory.programCapacity := Nat.cast_lt.mp (lt_min_iff.mp hk).2
      have hgiven : k < (source.contents.take Memory.programCapacity).length := by
        rwa [← Nat.cast_lt (α := ℕ∞), hsize]
      rw [Memory.getElem?_overlay _ _ hfit hgiven, ByteSource.Contents.getElem?_take, if_pos hfit]
    · refine Memory.getElem?_overlay_of_ne _ _ fun k hk => hj k ?_
      rwa [← hsize, Nat.cast_lt]
    · have hroom : (Memory.programCapacity : ℕ∞) < (Memory.programCapacity + 1 : Nat) :=
        Nat.cast_lt.mpr (Nat.lt_succ_self _)
      have hlong : Memory.programCapacity <
          (source.contents.take (Memory.programCapacity + 1)).length ↔
          Memory.programCapacity < source.contents.length := by
        rw [← Nat.cast_lt (α := ℕ∞), ByteSource.Contents.length_take, lt_min_iff,
          and_iff_right hroom]
      rw [← hlong]
      simp

/-- A source that fails behind its last byte: with one byte more than fits, nothing is noticed. -/
theorem load_takes_contents_failing :
    let m := fresh .standard (.cycle [])
    let source (n : Nat) := ByteSource.piece 7 (.replicate n 7) (.interrupted (.failed "broken"))
    ((m.load (source 3583)).answer.result = .error (.unreadable "broken") ∧
      (m.load (source 3583)).machine = m) ∧
    (m.load (source 3584)).answer.result = .ok () ∧
      (m.load (source 3584)).machine.core.memory.bytes[4095] = 7 := by
  intro m source
  have hlength : ∀ n, (source n).contents.length = (n + 1 : Nat) := by
    intro n
    have hlast : (ByteSource.failed "broken").interrupted.contents.length = 0 := rfl
    rw [ByteSource.contents, ByteSource.Contents.length_preceded, hlast, add_zero,
      List.length_cons, List.length_replicate]
  have hlong : (Memory.programCapacity : ℕ∞) < (source 3584).contents.length := by
    rw [hlength]
    exact Nat.cast_lt.mpr (Nat.lt_succ_self 3584)
  have hbyte? : ∀ n k, k < n + 1 → (source n).contents.byte? k = some 7 := by
    intro n k hk
    change ((7 :: List.replicate n 7) ++ [])[k]? = some 7
    rw [List.append_nil, ← List.replicate_succ, List.getElem?_replicate, if_pos hk]
  obtain ⟨hrefused, -, hsame, -⟩ :=
    (m.load_takes_contents (source 3583)).1 "broken" rfl (hlength 3583).le
  obtain ⟨hdone, -, hbytes, -⟩ := (m.load_takes_contents (source 3584)).2.1 (.inr hlong)
  refine ⟨⟨hrefused, hsame⟩, hdone, ?_⟩
  have hbyte := hbytes 3583 (by
    rw [hlength, lt_min_iff]
    exact ⟨Nat.cast_lt.mpr (by decide), Nat.cast_lt.mpr (by decide)⟩)
  rw [hbyte? 3584 3583 (by decide)] at hbyte
  exact Option.some.inj hbyte

end Machine
end ChipMachine
