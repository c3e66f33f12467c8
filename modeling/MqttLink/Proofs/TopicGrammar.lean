import MqttLink.Topic

/-!
The grammar of topics. It speaks of the characters next to each wildcard, while a filter is checked
level by level. Main statement: the checks accept just what the grammar allows.
-/

namespace MqttLink.Topic

variable {cs l rest before after : List Char} {w : Char}

/-! ## The grammar -/

/-- A level can begin after this text. -/
def LevelBegins (before : List Char) : Prop :=
  before = [] ∨ before.getLast? = some '/'

/-- A level can end before this text. -/
def LevelEnds (after : List Char) : Prop :=
  after = [] ∨ after.head? = some '/'

/-- Each `+` has a level of its own, and so has each `#`, with nothing after it. -/
structure Placed (cs : List Char) : Prop where
  plus : ∀ before after, cs = before ++ '+' :: after → LevelBegins before ∧ LevelEnds after
  hash : ∀ before after, cs = before ++ '#' :: after → LevelBegins before ∧ after = []

/-- What a filter has to be. -/
structure Grammatical (s : String) : Prop where
  nonempty : 1 ≤ s.utf8ByteSize
  short : s.utf8ByteSize ≤ 65535
  noNull : '\x00' ∉ s.toList
  placed : Placed s.toList

/-! ## Places at which a text can be cut -/

theorem levelBegins_of_slash : LevelBegins (l ++ '/' :: before) ↔ LevelBegins before := by
  cases before with
  | nil => simp [LevelBegins]
  | cons c cs => simp [LevelBegins, List.getLast?_append, List.getLast?_cons]

theorem levelEnds_of_slash : LevelEnds (after ++ '/' :: rest) ↔ LevelEnds after := by
  cases after <;> simp [LevelEnds]

theorem levelBegins_iff_of_notMem (h : '/' ∉ before) : LevelBegins before ↔ before = [] := by
  refine or_iff_left fun hlast => h ?_
  exact List.mem_of_getLast? hlast

theorem levelEnds_iff_of_notMem (h : '/' ∉ after) : LevelEnds after ↔ after = [] := by
  refine or_iff_left fun hhead => h ?_
  exact List.mem_of_head? hhead

/-- A character other than the slash stands in the first level or in the rest. -/
theorem append_slash_eq_iff (hw : w ≠ '/') :
    l ++ '/' :: rest = before ++ w :: after ↔
      (∃ a, l = before ++ w :: a ∧ after = a ++ '/' :: rest) ∨
        ∃ b, before = l ++ '/' :: b ∧ rest = b ++ w :: after := by
  rw [List.append_eq_append_iff]
  constructor
  · rintro (⟨b, rfl, hb⟩ | ⟨a, rfl, ha⟩)
    · cases b with
      | nil => exact absurd (List.cons.inj hb).1.symm hw
      | cons c b =>
        obtain ⟨rfl, rfl⟩ := List.cons.inj hb
        exact .inr ⟨b, rfl, rfl⟩
    · cases a with
      | nil => exact absurd (List.cons.inj ha).1 hw
      | cons c a =>
        obtain ⟨rfl, rfl⟩ := List.cons.inj ha
        exact .inl ⟨a, rfl, rfl⟩
  · rintro (⟨a, rfl, rfl⟩ | ⟨b, rfl, rfl⟩)
    · exact .inr ⟨w :: a, rfl, rfl⟩
    · exact .inl ⟨'/' :: b, rfl, rfl⟩

/-! ## A wildcard in one level and in the rest -/

/-- A level begins before each `w`, and `E` holds of what comes after it. -/
def Stands (w : Char) (E : List Char → Prop) (cs : List Char) : Prop :=
  ∀ before after, cs = before ++ w :: after → LevelBegins before ∧ E after

variable {E E' : List Char → Prop}

theorem stands_false_iff : Stands w (fun _ => False) cs ↔ w ∉ cs := by
  constructor
  · intro hstands hm
    obtain ⟨before, after, hcs⟩ := List.append_of_mem hm
    exact (hstands before after hcs).2
  · rintro hnone before after rfl
    exact absurd (List.mem_append_right before (List.mem_cons_self ..)) hnone

/-- In a text without slashes, a character that has a level of its own is all there is. -/
theorem stands_iff_of_notMem (h : '/' ∉ cs) (hE : ∀ after, '/' ∉ after → (E after ↔ after = [])) :
    Stands w E cs ↔ w ∉ cs ∨ cs = [w] := by
  constructor
  · intro hstands
    by_cases hw : w ∈ cs
    · obtain ⟨before, after, rfl⟩ := List.append_of_mem hw
      rw [List.mem_append, List.mem_cons, not_or, not_or] at h
      obtain ⟨hbegins, hends⟩ := hstands before after rfl
      rw [levelBegins_iff_of_notMem h.1] at hbegins
      rw [hE after h.2.2] at hends
      exact .inr (by rw [hbegins, hends, List.nil_append])
    · exact .inl hw
  · rintro (hnone | rfl) before after hcs
    · exact absurd (hcs ▸ List.mem_append_right before (List.mem_cons_self ..)) hnone
    · obtain ⟨rfl, rfl⟩ : before = [] ∧ after = [] := by
        simpa [List.cons_eq_append_iff] using hcs
      exact ⟨.inl rfl, (hE [] List.not_mem_nil).mpr rfl⟩

/-- Before a slash, `E'` asks of the rest of a level what `E` asks of the rest of the text. -/
theorem stands_append_slash (hw : w ≠ '/') (hE : ∀ a, E (a ++ '/' :: rest) ↔ E' a) :
    Stands w E (l ++ '/' :: rest) ↔ Stands w E' l ∧ Stands w E rest := by
  simp only [Stands, append_slash_eq_iff hw]
  constructor
  · intro hstands
    refine ⟨fun before a hl => ?_, fun b after hrest => ?_⟩
    · obtain ⟨hbegins, hends⟩ := hstands before _ (.inl ⟨a, hl, rfl⟩)
      exact ⟨hbegins, (hE a).mp hends⟩
    · obtain ⟨hbegins, hends⟩ := hstands _ after (.inr ⟨b, rfl, hrest⟩)
      exact ⟨levelBegins_of_slash.mp hbegins, hends⟩
  · rintro ⟨hlevel, hlater⟩ before after (⟨a, hl, rfl⟩ | ⟨b, rfl, hrest⟩)
    · obtain ⟨hbegins, hends⟩ := hlevel before a hl
      exact ⟨hbegins, (hE a).mpr hends⟩
    · obtain ⟨hbegins, hends⟩ := hlater b after hrest
      exact ⟨levelBegins_of_slash.mpr hbegins, hends⟩

/-! ## Level by level -/

theorem placed_iff : Placed cs ↔ Stands '+' LevelEnds cs ∧ Stands '#' (· = []) cs :=
  ⟨fun h => ⟨h.plus, h.hash⟩, fun h => ⟨h.1, h.2⟩⟩

theorem levelAllowed_iff {last : Bool} : levelAllowed last l ↔
    ('+' ∉ l ∨ l = ['+']) ∧ ('#' ∉ l ∨ last ∧ l = ['#']) := by
  simp [levelAllowed, and_comm]

theorem placed_of_notMem (h : '/' ∉ cs) : Placed cs ↔ levelAllowed true cs := by
  rw [placed_iff, stands_iff_of_notMem h fun _ => levelEnds_iff_of_notMem,
    stands_iff_of_notMem h fun _ _ => Iff.rfl, levelAllowed_iff]
  simp

theorem placed_append_slash (h : '/' ∉ l) :
    Placed (l ++ '/' :: rest) ↔ levelAllowed false l ∧ Placed rest := by
  have hplus : Stands '+' LevelEnds (l ++ '/' :: rest) ↔
      ('+' ∉ l ∨ l = ['+']) ∧ Stands '+' LevelEnds rest := by
    rw [stands_append_slash (by decide) fun _ => levelEnds_of_slash,
      stands_iff_of_notMem h fun _ => levelEnds_iff_of_notMem]
  have hhash : Stands '#' (· = []) (l ++ '/' :: rest) ↔ '#' ∉ l ∧ Stands '#' (· = []) rest := by
    have hmore (a : List Char) : a ++ '/' :: rest = [] ↔ False := by simp
    rw [stands_append_slash (by decide) hmore, stands_false_iff]
  rw [placed_iff, placed_iff, hplus, hhash, levelAllowed_iff]
  simp only [Bool.false_eq_true, false_and, or_false]
  exact and_and_and_comm

theorem levels_eq_splitOn (cs : List Char) : levels cs = cs.splitOn '/' := by
  induction cs with
  | nil => rfl
  | cons c cs ih =>
    rw [levels] at ih ⊢
    rw [List.foldr_cons, ih, List.splitOn_cons_eq_if_modifyHead]
    cases hsplit : cs.splitOn '/' with
    | nil => exact absurd hsplit (List.splitOn_ne_nil '/' cs)
    | cons l later => simp

theorem levelsAllowed_cons {ls : List (List Char)} (h : ls ≠ []) :
    levelsAllowed (l :: ls) ↔ levelAllowed false l ∧ levelsAllowed ls := by
  cases ls with
  | nil => exact absurd rfl h
  | cons k later => simp [levelsAllowed]

/-- The check by levels and the grammar agree on all wildcards. -/
theorem levelsAllowed_iff (cs : List Char) : levelsAllowed (levels cs) ↔ Placed cs := by
  rw [levels_eq_splitOn]
  by_cases h : '/' ∈ cs
  · obtain ⟨l, rest, hcs, hl⟩ := List.eq_append_cons_of_mem h
    have hlater := levelsAllowed_iff rest
    rw [levels_eq_splitOn] at hlater
    rw [hcs, List.splitOn_append_cons_self_of_not_mem hl, levelsAllowed_cons
      (List.splitOn_ne_nil '/' rest), placed_append_slash hl, hlater]
  · rw [List.splitOn_eq_singleton h, placed_of_notMem h, levelsAllowed]
termination_by cs.length
decreasing_by
  rw [hcs, List.length_append, List.length_cons]
  omega

/-! ## Main statement -/

theorem wellFormed_iff (s : String) : wellFormed s ↔
    1 ≤ s.utf8ByteSize ∧ s.utf8ByteSize ≤ 65535 ∧ '\x00' ∉ s.toList := by
  have hempty : (!s.isEmpty) ↔ 1 ≤ s.utf8ByteSize := by
    simp [String.isEmpty, Nat.one_le_iff_ne_zero]
  have hshort : decide (s.utf8ByteSize ≤ maxBytes) ↔ s.utf8ByteSize ≤ 65535 := decide_eq_true_iff
  rw [wellFormed, Bool.and_eq_true, Bool.and_eq_true, hempty, hshort, and_assoc]
  simp

theorem isFilter_iff (s : String) : isFilter s ↔ Grammatical s := by
  rw [isFilter, Bool.and_eq_true, wellFormed_iff, levelsAllowed_iff]
  constructor
  · rintro ⟨⟨hnonempty, hshort, hnull⟩, hplaced⟩
    exact ⟨hnonempty, hshort, hnull, hplaced⟩
  · rintro ⟨hnonempty, hshort, hnull, hplaced⟩
    exact ⟨⟨hnonempty, hshort, hnull⟩, hplaced⟩

/-- A text without wildcards has all of them in their places. -/
theorem placed_of_noWildcard (hplus : '+' ∉ cs) (hhash : '#' ∉ cs) : Placed cs where
  plus before after hcs := absurd (by simp [hcs]) hplus
  hash before after hcs := absurd (by simp [hcs]) hhash

theorem isName_iff (s : String) :
    isName s ↔ isFilter s ∧ '+' ∉ s.toList ∧ '#' ∉ s.toList := by
  have hnone : (!s.toList.any fun c => c == '+' || c == '#') ↔
      '+' ∉ s.toList ∧ '#' ∉ s.toList := by
    simp only [Bool.not_eq_true', List.any_eq_false, Bool.or_eq_true, beq_iff_eq, not_or]
    exact ⟨fun h => ⟨fun hm => (h _ hm).1 rfl, fun hm => (h _ hm).2 rfl⟩,
      fun h c hc => ⟨fun e => h.1 (e ▸ hc), fun e => h.2 (e ▸ hc)⟩⟩
  rw [isName, isFilter, Bool.and_eq_true, Bool.and_eq_true, hnone, levelsAllowed_iff]
  constructor
  · rintro ⟨hwell, hplus, hhash⟩
    exact ⟨⟨hwell, placed_of_noWildcard hplus hhash⟩, hplus, hhash⟩
  · rintro ⟨⟨hwell, -⟩, hwildcards⟩
    exact ⟨hwell, hwildcards⟩

/-- The checks accept just what the grammar allows, and what is turned down comes back as it was
given. A name is a filter without wildcards. -/
theorem check_iff_grammatical (s : String) :
    (isFilter s ↔ Grammatical s) ∧
    (isName s ↔ isFilter s ∧ '+' ∉ s.toList ∧ '#' ∉ s.toList) ∧
    (checkFilter s = .ok () ↔ isFilter s) ∧
    (¬ isFilter s → checkFilter s = .error (.invalidTopic s)) ∧
    (checkName s = .ok () ↔ isName s) ∧
    (¬ isName s → checkName s = .error (.invalidTopic s)) := by
  refine ⟨isFilter_iff s, isName_iff s, ?_, fun h => if_neg h, ?_, fun h => if_neg h⟩
  · rw [checkFilter, ite_eq_left_iff]
    simp
  · rw [checkName, ite_eq_left_iff]
    simp

end MqttLink.Topic
