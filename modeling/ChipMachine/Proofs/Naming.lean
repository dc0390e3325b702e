import ChipMachine.Dialect
import ChipMachine.Proofs.Lowercase
import Mathlib.Data.List.Nodup

namespace ChipMachine

namespace Text

/-- Letter for letter the same, save for the case of ASCII letters. -/
def SameButCase (s t : List Char) : Prop := s.map Char.toLower = t.map Char.toLower

instance (s t : List Char) : Decidable (SameButCase s t) :=
  inferInstanceAs (Decidable (_ = _))

variable {α : Type} {names : List (String × α)} {s t n : List Char} {v : α}

/-- The Kelvin sign makes a difference only to a name with the letter k, or with the sign. -/
theorem eq_map_foldCase_iff (hk : 'k' ∉ n) (hkelvin : kelvin ∉ n) :
    n = s.map foldCase ↔ n = s.map Char.toLower := by
  by_cases hs : kelvin ∈ s
  · constructor
    · rintro rfl
      exact absurd (List.mem_map.mpr ⟨kelvin, hs, rfl⟩) hk
    · rintro rfl
      exact absurd (List.mem_map.mpr ⟨kelvin, hs, rfl⟩) hkelvin
  · have hfold : s.map foldCase = s.map Char.toLower :=
      List.map_congr_left fun c hc => if_neg (ne_of_mem_of_not_mem hc hs)
    rw [hfold]

/-- No name has two values, so the order of the names does not matter. -/
theorem named?_eq_some_iff (hnames : (names.map (·.1)).Nodup) :
    named? names s = some v ↔ ∃ name, (name, v) ∈ names ∧ name.toList = s.map foldCase := by
  constructor
  · intro h
    obtain ⟨entry, hfound, rfl⟩ := Option.map_eq_some_iff.mp h
    exact ⟨entry.1, List.mem_of_find?_eq_some hfound, by simpa using List.find?_some hfound⟩
  · rintro ⟨name, hmem, hname⟩
    have hsome : (names.find? fun entry => entry.1.toList == s.map foldCase).isSome :=
      List.find?_isSome.mpr ⟨_, hmem, by simpa using hname⟩
    obtain ⟨entry, hfound⟩ := Option.isSome_iff_exists.mp hsome
    have hentry : entry.1.toList = s.map foldCase := by simpa using List.find?_some hfound
    have hsame : entry = (name, v) :=
      List.inj_on_of_nodup_map hnames (List.mem_of_find?_eq_some hfound) hmem
        (String.toList_injective (hentry.trans hname.symm))
    simp [named?, hfound, hsame]

end Text

namespace Dialect

/-- The names a dialect goes by. -/
def spellings : Dialect → List String
  | vip => ["original", "chip8", "chip-8"]
  | superChip => ["super", "schip", "superchip"]
  | xoChip => ["xo", "xochip", "xo-chip"]

theorem mem_names_iff {name : String} {d : Dialect} : (name, d) ∈ names ↔ name ∈ d.spellings := by
  cases d <;> simp [names, spellings]

/-- All names are small letters, digits and hyphens, and none has a k. -/
theorem spellings_plain {d : Dialect} : ∀ name ∈ d.spellings, ∀ c ∈ name.toList,
    c.toNat < 0x80 ∧ c.toLower = c ∧ c ≠ 'k' := by
  have hall : ∀ name ∈ d.spellings,
      name.toList.all fun c => c.toNat < 0x80 ∧ c.toLower = c ∧ c ≠ 'k' := by
    cases d <;> decide
  intro name hname c hc
  exact of_decide_eq_true (List.all_eq_true.mp (hall name hname) c hc)

variable {s : String} {d : Dialect}

theorem ofName_eq_ok_iff_folded : ofName s = .ok d ↔
    ∃ name ∈ d.spellings, name.toList = (Text.withoutBlanks s.toList).map Text.foldCase := by
  have hread : ofName s = .ok d ↔ ofName? s = some d := by
    unfold ofName
    split <;> simp [*]
  rw [hread, ofName?, Text.named?_eq_some_iff (by decide)]
  simp only [mem_names_iff]

theorem ofName_eq_ok_iff : ofName s = .ok d ↔
    ∃ name ∈ d.spellings, Text.SameButCase (Text.withoutBlanks s.toList) name.toList := by
  rw [ofName_eq_ok_iff_folded]
  refine exists_congr fun name => and_congr_right fun hname => ?_
  have hplain := spellings_plain name hname
  have hsmall : name.toList.map Char.toLower = name.toList :=
    (List.map_congr_left fun c hc => (hplain c hc).2.1).trans (List.map_id' _)
  have hk : 'k' ∉ name.toList := fun h => (hplain _ h).2.2 rfl
  have hkelvin : Text.kelvin ∉ name.toList := fun h => absurd (hplain _ h).1 (by decide)
  rw [Text.eq_map_foldCase_iff hk hkelvin, Text.SameButCase, hsmall, eq_comm]

theorem ofName_eq_ok_iff_lowered {t : List Char}
    (h : Text.Lowers (Text.withoutBlanks s.toList) t) :
    ofName s = .ok d ↔ ∃ name ∈ d.spellings, name.toList = t := by
  rw [ofName_eq_ok_iff_folded]
  refine exists_congr fun name => and_congr_right fun hname => ?_
  exact (h.eq_iff fun c hc => (spellings_plain name hname c hc).1).symm

/-- What names a dialect is made of blanks and of the letters of one of its names. -/
theorem letters_of_ofName (h : ofName s = .ok d) {c : Char} (hc : c ∈ s.toList) :
    Text.isBlank c = true ∨ c.toNat < 0x80 ∧ ∃ name ∈ d.spellings, c.toLower ∈ name.toList := by
  by_cases hblank : Text.isBlank c = true
  · exact .inl hblank
  obtain ⟨name, hname, hsame⟩ := ofName_eq_ok_iff.mp h
  have hkept : c ∈ Text.withoutBlanks s.toList :=
    List.mem_filter.mpr ⟨hc, by simpa using hblank⟩
  have hlower := List.mem_map_of_mem (f := Char.toLower) hkept
  rw [hsame] at hlower
  obtain ⟨x, hx, hxc⟩ := List.mem_map.mp hlower
  obtain ⟨hascii, hsmall, -⟩ := spellings_plain name hname x hx
  rw [hsmall] at hxc
  subst hxc
  refine .inr ⟨?_, name, hname, hx⟩
  by_cases hupper : c.isUpper = true
  · have := Text.isUpper_iff.mp hupper
    omega
  · have hsame : c.toLower = c := dif_neg fun hrange => hupper (decide_eq_true hrange)
    rwa [hsame] at hascii

theorem message_of_ofName {e : UnknownName} (h : ofName s = .error e) :
    e.message = "unknown spec `" ++ s ++ "`; expected one of original, super, xo" := by
  unfold ofName at h
  split at h
  · cases h
  · cases h
    rfl

/-- A text names a dialect when, blanks taken out, it is one of the dialect's names but for the case
of ASCII letters. By the lower case of the whole text, whatever it does outside ASCII, no more and
no fewer texts would. Nothing but blanks may stand between the letters of the name, and a refusal
quotes the text as it was given. -/
theorem name_decides_dialect (s : String) :
    (∀ d, ofName s = .ok d ↔
      ∃ name ∈ d.spellings, Text.SameButCase (Text.withoutBlanks s.toList) name.toList) ∧
    (∀ t, Text.Lowers (Text.withoutBlanks s.toList) t →
      ∀ d, ofName s = .ok d ↔ ∃ name ∈ d.spellings, name.toList = t) ∧
    (∀ d, ofName s = .ok d → ∀ c ∈ s.toList,
      Text.isBlank c = true ∨ c.toNat < 0x80 ∧ ∃ name ∈ d.spellings, c.toLower ∈ name.toList) ∧
    (∀ e, ofName s = .error e →
      e.message = "unknown spec `" ++ s ++ "`; expected one of original, super, xo") :=
  ⟨fun _ => ofName_eq_ok_iff, fun _ h _ => ofName_eq_ok_iff_lowered h,
    fun _ h _ hc => letters_of_ofName h hc, fun _ => message_of_ofName⟩

/-- Blanks of any kind, and capitals, do no harm. A dotted capital I does, since its small letter
has a mark that no name has. -/
theorem name_decides_dialect_dotted :
    ofName "\u00A0Xo\u2003- ChIp" = .ok xoChip ∧
    (∀ d, ofName "CH\u0130P8 " ≠ .ok d) ∧
    ∀ e, ofName "CH\u0130P8 " = .error e →
      e.message = "unknown spec `CH\u0130P8 `; expected one of original, super, xo" := by
  obtain ⟨haccepted, -⟩ := name_decides_dialect "\u00A0Xo\u2003- ChIp"
  obtain ⟨-, hlowered, -, hrefused⟩ := name_decides_dialect "CH\u0130P8 "
  refine ⟨(haccepted xoChip).mpr ⟨"xo-chip", by decide, by decide⟩, fun d hd => ?_, fun e he => ?_⟩
  · obtain ⟨name, hname, heq⟩ := (hlowered _ (Text.Lowers.flatMap _) d).mp hd
    have hmark : '\u0307' ∈ name.toList := by
      rw [heq]
      decide +kernel
    exact absurd (spellings_plain name hname _ hmark).1 (by decide)
  · exact hrefused e he

end Dialect
end ChipMachine
