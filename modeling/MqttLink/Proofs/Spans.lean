import MqttLink.Duration.Printer
import MqttLink.Duration.Reader
import MqttLink.Proofs.Literals

/-!
Durations as text. Main statement: the written form of a duration reads back as the duration, so no
sum on the way leaves its 64 bits.
-/

namespace MqttLink.Duration

variable {n : Nat} {total : Duration} {rest : List Char}

/-! ## Spans -/

theorem digit?_of_isDigit {c : Char} (h : Json.isDigit c) :
    digit? c = some (c.toNat - '0'.toNat) :=
  if_pos h

/-- The digits of a number go on with the number that was read so far. -/
theorem readAll?_digits {digits : List Char} (hdigits : ∀ c ∈ digits, Json.isDigit c)
    (h : Nat.ofDigitChars 10 digits n < 18446744073709551616) :
    readAll? (digits ++ rest) (.whole n, total) =
      readAll? rest (.whole (Nat.ofDigitChars 10 digits n), total) := by
  induction digits generalizing n with
  | nil => rfl
  | cons d ds ih =>
    obtain ⟨hd, hds⟩ := List.forall_mem_cons.mp hdigits
    rw [Nat.ofDigitChars_cons] at h ⊢
    have hle := Json.le_ofDigitChars ds (10 * n + (d.toNat - '0'.toNat))
    have hfits : fitting? (n * 10 + (d.toNat - '0'.toNat)) =
        some (10 * n + (d.toNat - '0'.toNat)) := by
      rw [fitting?, Nat.mul_comm n, if_pos (by omega)]
    rw [← ih hds h, List.cons_append, readAll?]
    simp only [read?, digit?_of_isDigit hd, hfits, Option.map_some]

/-- A span begins with a number. -/
theorem readAll?_number (hn : n < 18446744073709551616) (started : Bool) :
    readAll? (Nat.toDigits 10 n ++ rest) (.between started, total) =
      readAll? rest (.whole n, total) := by
  have hall : ∀ c ∈ Nat.toDigits 10 n, Json.isDigit c := fun _ => Json.isDigit_of_mem_toDigits
  have hvalue : Nat.ofDigitChars 10 (Nat.toDigits 10 n) 0 = n := Nat.ofDigitChars_ten_toDigits
  cases hdigits : Nat.toDigits 10 n with
  | nil => exact absurd hdigits Nat.toDigits_ne_nil
  | cons d ds =>
    rw [hdigits] at hall hvalue
    obtain ⟨hd, hds⟩ := List.forall_mem_cons.mp hall
    rw [Nat.ofDigitChars_cons, Nat.mul_zero, Nat.zero_add] at hvalue
    have hbegin : readAll? (d :: ds ++ rest) (.between started, total) =
        readAll? (ds ++ rest) (.whole (d.toNat - '0'.toNat), total) := by
      rw [List.cons_append, readAll?]
      simp only [read?, digit?_of_isDigit hd]
    rw [hbegin, readAll?_digits hds (by rwa [hvalue]), hvalue]

/-- Letters that a unit is named with, and nothing else. -/
def isUnitName (letters : List Char) : Bool :=
  letters ≠ [] && letters.all fun c => isUnitLetter c && digit? c = none && !Text.isBlank c

theorem readAll?_letters {fraction : Option (Nat × Nat)} {letters before : List Char}
    (h : ∀ c ∈ letters, isUnitLetter c ∧ digit? c = none ∧ Text.isBlank c = false) :
    readAll? (letters ++ rest) (.unit n fraction before, total) =
      readAll? rest (.unit n fraction (letters.reverse ++ before), total) := by
  induction letters generalizing before with
  | nil => rfl
  | cons c cs ih =>
    obtain ⟨⟨hletter, hdigit, hblank⟩, hcs⟩ := List.forall_mem_cons.mp h
    rw [List.reverse_cons, List.append_assoc, List.singleton_append, ← ih hcs, List.cons_append,
      readAll?]
    simp [read?, hletter, hdigit, hblank]

/-- The unit of a span follows its number. -/
theorem readAll?_unit {name : String} (h : isUnitName name.toList) :
    readAll? (name.toList ++ rest) (.whole n, total) =
      readAll? rest (.unit n none name.toList.reverse, total) := by
  simp only [isUnitName, Bool.and_eq_true, List.all_eq_true, decide_eq_true_eq, Bool.not_eq_true',
    and_assoc] at h
  obtain ⟨hne, hall⟩ := h
  cases hletters : name.toList with
  | nil => exact absurd hletters hne
  | cons c cs =>
    rw [hletters] at hall
    obtain ⟨⟨hletter, hdigit, hblank⟩, hcs⟩ := List.forall_mem_cons.mp hall
    have hbegin : readAll? (c :: cs ++ rest) (.whole n, total) =
        readAll? (cs ++ rest) (.unit n none [c], total) := by
      rw [List.cons_append, readAll?]
      simp [read?, hletter, hdigit, hblank]
    rw [hbegin, readAll?_letters hcs, List.reverse_cons]

theorem add?_of_lt {seconds nanos : Nat}
    (hs : total.seconds + seconds < 18446744073709551616)
    (hn : total.nanos + nanos < 1000000000) :
    total.add? seconds nanos =
      some ⟨total.seconds + seconds, total.nanos + nanos, hs, hn⟩ := by
  have hdiv : (total.nanos + nanos) / 1000000000 = 0 := Nat.div_eq_of_lt hn
  have hmod : (total.nanos + nanos) % 1000000000 = total.nanos + nanos := Nat.mod_eq_of_lt hn
  rw [add?, if_pos (by omega), ofParts?, dif_pos (by omega)]
  simp [hdiv, hmod]

theorem addSpan?_of_lt {name : String} {unit : TimeUnit} (hunit : TimeUnit.ofName? name = some unit)
    (hs : total.seconds + n * unit.parts.1 < 18446744073709551616)
    (hn : total.nanos + n * unit.parts.2 < 1000000000) :
    addSpan? total n none name.toList.reverse =
      some ⟨total.seconds + n * unit.parts.1, total.nanos + n * unit.parts.2, hs, hn⟩ := by
  have hseconds : fitting? (n * unit.parts.1) = some (n * unit.parts.1) := if_pos (by omega)
  have hnanos : fitting? (n * unit.parts.2) = some (n * unit.parts.2) := if_pos (by omega)
  simp [addSpan?, hunit, hseconds, hnanos, add?_of_lt hs hn, addFraction?]

/-! ## Parts -/

/-- What a part amounts to, in seconds and nanoseconds. -/
def worth (part : Nat × String) : Nat × Nat :=
  match TimeUnit.ofName? part.2 with
  | some unit => (part.1 * unit.parts.1, part.1 * unit.parts.2)
  | none => (0, 0)

def secondsOf : List (Nat × String) → Nat
  | [] => 0
  | part :: parts => (worth part).1 + secondsOf parts

def nanosOf : List (Nat × String) → Nat
  | [] => 0
  | part :: parts => (worth part).2 + nanosOf parts

/-- A part whose unit has a name that can be read. -/
def Readable (part : Nat × String) : Prop :=
  isUnitName part.2.toList ∧ (TimeUnit.ofName? part.2).isSome

theorem worth_zero (name : String) : worth (0, name) = (0, 0) := by
  unfold worth
  split <;> simp

theorem worth_filter (parts : List (Nat × String)) :
    secondsOf (parts.filter (·.1 ≠ 0)) = secondsOf parts ∧
      nanosOf (parts.filter (·.1 ≠ 0)) = nanosOf parts := by
  induction parts with
  | nil => exact ⟨rfl, rfl⟩
  | cons part parts ih =>
    obtain ⟨count, name⟩ := part
    by_cases hzero : count = 0
    · subst hzero
      simpa [secondsOf, nanosOf, worth_zero] using ih
    · simpa [secondsOf, nanosOf, hzero] using ih

theorem le_worth (unit : TimeUnit) (n : Nat) : n ≤ n * unit.parts.1 ∨ n ≤ n * unit.parts.2 := by
  cases unit <;> simp [TimeUnit.parts] <;> omega

section

variable {part : Nat × String} (h : Readable part)
  (hs : total.seconds + (worth part).1 < 18446744073709551616)
  (hn : total.nanos + (worth part).2 < 1000000000)
include h hs hn

theorem readAll?_part (started : Bool) :
    readAll? ((writePart part).toList ++ rest) (.between started, total) =
      readAll? rest (.unit part.1 none part.2.toList.reverse, total) := by
  obtain ⟨unit, hunit⟩ := Option.isSome_iff_exists.mp h.2
  have hcount : part.1 < 18446744073709551616 := by
    have hle := le_worth unit part.1
    simp only [worth, hunit] at hs hn
    omega
  rw [writePart, String.toList_append, Nat.toList_repr, List.append_assoc,
    readAll?_number hcount, readAll?_unit h.1]

theorem addSpan?_part : addSpan? total part.1 none part.2.toList.reverse =
    some ⟨total.seconds + (worth part).1, total.nanos + (worth part).2, hs, hn⟩ := by
  obtain ⟨unit, hunit⟩ := Option.isSome_iff_exists.mp h.2
  have hworth : worth part = (part.1 * unit.parts.1, part.1 * unit.parts.2) := by
    rw [worth, hunit]
  simp only [hworth] at hs hn ⊢
  exact addSpan?_of_lt hunit hs hn

end

/-- Parts that stand one after the other, with a blank between them, are added up. -/
theorem readAll?_parts {part : Nat × String} {parts : List (Nat × String)}
    (hreadable : ∀ p ∈ part :: parts, Readable p) (started : Bool)
    (hs : total.seconds + secondsOf (part :: parts) < 18446744073709551616)
    (hn : total.nanos + nanosOf (part :: parts) < 1000000000) :
    readAll? ([' '].intercalate ((part :: parts).map fun p => (writePart p).toList))
        (.between started, total) =
      some ⟨total.seconds + secondsOf (part :: parts), total.nanos + nanosOf (part :: parts),
        hs, hn⟩ := by
  have hfirst : Readable part := hreadable part (List.mem_cons_self ..)
  induction parts generalizing part total started with
  | nil =>
    have hone : secondsOf [part] = (worth part).1 ∧ nanosOf [part] = (worth part).2 := by
      simp [secondsOf, nanosOf]
    simp only [hone.1, hone.2] at hs hn ⊢
    rw [List.map_singleton, List.intercalate_singleton,
      ← List.append_nil (writePart part).toList, readAll?_part hfirst hs hn]
    exact addSpan?_part hfirst hs hn
  | cons next parts ih =>
    have hsum : secondsOf (part :: next :: parts) = (worth part).1 + secondsOf (next :: parts) ∧
        nanosOf (part :: next :: parts) = (worth part).2 + nanosOf (next :: parts) := by
      simp [secondsOf, nanosOf]
    simp only [hsum.1, hsum.2, ← Nat.add_assoc] at hs hn ⊢
    have hspan : addSpan? total part.1 none part.2.toList.reverse = _ :=
      addSpan?_part hfirst (by omega) (by omega)
    have hblank : digit? ' ' = none ∧ Text.isBlank ' ' := by decide
    rw [List.map_cons, List.map_cons, List.intercalate_cons_cons, List.append_assoc,
      readAll?_part hfirst (by omega) (by omega), List.singleton_append, readAll?]
    simp only [read?, hblank.1, hblank.2, if_true, hspan, Option.map_some]
    have hrest := fun p hp => hreadable p (List.mem_cons_of_mem _ hp)
    exact ih hrest true hs hn (hrest next (List.mem_cons_self ..))

/-! ## Written durations -/

/-- The names of the units that durations are written with. -/
def writtenUnits : List String :=
  ["year", "years", "month", "months", "day", "days", "h", "m", "s", "ms", "us", "ns"]

theorem mem_writtenUnits {d : Duration} {part : Nat × String} (h : part ∈ d.parts) :
    part.2 ∈ writtenUnits := by
  simp only [parts, List.mem_cons, List.not_mem_nil, or_false] at h
  rcases h with rfl | rfl | rfl | rfl | rfl | rfl | rfl | rfl | rfl
  all_goals
    simp only
    try split
    all_goals decide

theorem readable_of_mem_writtenUnits : ∀ name ∈ writtenUnits,
    isUnitName name.toList ∧ (TimeUnit.ofName? name).isSome := by
  decide

theorem secondsOf_cons {name : String} {unit : TimeUnit} (h : TimeUnit.ofName? name = some unit)
    (n : Nat) (parts : List (Nat × String)) :
    secondsOf ((n, name) :: parts) = n * unit.parts.1 + secondsOf parts := by
  rw [secondsOf, worth, h]

theorem nanosOf_cons {name : String} {unit : TimeUnit} (h : TimeUnit.ofName? name = some unit)
    (n : Nat) (parts : List (Nat × String)) :
    nanosOf ((n, name) :: parts) = n * unit.parts.2 + nanosOf parts := by
  rw [nanosOf, worth, h]

section

variable {year month day : String} (hyear : TimeUnit.ofName? year = some .year)
  (hmonth : TimeUnit.ofName? month = some .month) (hday : TimeUnit.ofName? day = some .day)
include hyear hmonth hday

/-- What nine parts amount to, from years down to nanoseconds. -/
theorem worth_nine (years months days hours minutes seconds ms us ns : Nat) :
    let nine := [(years, year), (months, month), (days, day), (hours, "h"), (minutes, "m"),
      (seconds, "s"), (ms, "ms"), (us, "us"), (ns, "ns")]
    secondsOf nine = 31557600 * years + 2630016 * months + 86400 * days + 3600 * hours +
        60 * minutes + seconds ∧
      nanosOf nine = 1000000 * ms + 1000 * us + ns := by
  have hhour : TimeUnit.ofName? "h" = some .hour := by decide
  have hminute : TimeUnit.ofName? "m" = some .minute := by decide
  have hsecond : TimeUnit.ofName? "s" = some .second := by decide
  have hms : TimeUnit.ofName? "ms" = some .millisecond := by decide
  have hus : TimeUnit.ofName? "us" = some .microsecond := by decide
  have hns : TimeUnit.ofName? "ns" = some .nanosecond := by decide
  have hempty : secondsOf [] = 0 ∧ nanosOf [] = 0 := ⟨rfl, rfl⟩
  intro nine
  constructor
  · rw [secondsOf_cons hyear, secondsOf_cons hmonth, secondsOf_cons hday, secondsOf_cons hhour,
      secondsOf_cons hminute, secondsOf_cons hsecond, secondsOf_cons hms, secondsOf_cons hus,
      secondsOf_cons hns, hempty.1]
    simp only [TimeUnit.parts]
    omega
  · rw [nanosOf_cons hyear, nanosOf_cons hmonth, nanosOf_cons hday, nanosOf_cons hhour,
      nanosOf_cons hminute, nanosOf_cons hsecond, nanosOf_cons hms, nanosOf_cons hus,
      nanosOf_cons hns, hempty.2]
    simp only [TimeUnit.parts]
    omega

end

/-- The parts of a duration make it up: what a unit leaves over goes to the smaller ones. -/
theorem worth_parts (d : Duration) : secondsOf d.parts = d.seconds ∧ nanosOf d.parts = d.nanos := by
  have hyear : ∀ n : Nat, TimeUnit.ofName? (if n = 1 then "year" else "years") = some .year := by
    intro n
    split <;> decide
  have hmonth : ∀ n : Nat,
      TimeUnit.ofName? (if n = 1 then "month" else "months") = some .month := by
    intro n
    split <;> decide
  have hday : ∀ n : Nat, TimeUnit.ofName? (if n = 1 then "day" else "days") = some .day := by
    intro n
    split <;> decide
  obtain ⟨hs, hn⟩ := worth_nine (hyear (d.seconds / 31557600))
    (hmonth (d.seconds % 31557600 / 2630016)) (hday (d.seconds % 31557600 % 2630016 / 86400))
    (d.seconds / 31557600) (d.seconds % 31557600 / 2630016)
    (d.seconds % 31557600 % 2630016 / 86400) (d.seconds % 31557600 % 2630016 % 86400 / 3600)
    (d.seconds % 31557600 % 2630016 % 86400 % 3600 / 60)
    (d.seconds % 31557600 % 2630016 % 86400 % 60)
    (d.nanos / 1000000) (d.nanos / 1000 % 1000) (d.nanos % 1000)
  constructor
  · exact hs.trans (by omega)
  · exact hn.trans (by omega)

theorem eq_of_parts {d : Duration} {seconds nanos : Nat} (hs : seconds = d.seconds)
    (hn : nanos = d.nanos) (hlt : seconds < 18446744073709551616) (hlt' : nanos < 1000000000) :
    (⟨seconds, nanos, hlt, hlt'⟩ : Duration) = d := by
  subst hs hn
  rfl

/-- A duration reads back from its written form. -/
theorem ofText?_written (d : Duration) : ofText? d.written = some d := by
  obtain ⟨hseconds, hnanos⟩ := worth_parts d
  obtain ⟨hshown, hshown'⟩ := worth_filter d.parts
  rw [hseconds] at hshown
  rw [hnanos] at hshown'
  have hreadable : ∀ p ∈ d.parts.filter (·.1 ≠ 0), Readable p := fun p hp =>
    readable_of_mem_writtenUnits _ (mem_writtenUnits (List.mem_filter.mp hp).1)
  unfold written
  cases hparts : d.parts.filter (·.1 ≠ 0) with
  | nil =>
    rw [hparts] at hshown hshown'
    have hzero : zero = d := eq_of_parts hshown hshown' _ _
    have hread : ofText? "0s" = some zero := by decide +kernel
    exact hread.trans (congrArg some hzero)
  | cons part parts =>
    rw [hparts] at hshown hshown' hreadable
    have hs : zero.seconds + secondsOf (part :: parts) = d.seconds := by
      rw [hshown]
      exact Nat.zero_add _
    have hn : zero.nanos + nanosOf (part :: parts) = d.nanos := by
      rw [hshown']
      exact Nat.zero_add _
    have hread : readAll? (" ".intercalate ((part :: parts).map writePart)).toList
        (.between false, zero) = some d := by
      have hseconds := d.seconds_lt
      have hnanos := d.nanos_lt
      rw [String.toList_intercalate, List.map_map]
      exact (readAll?_parts hreadable false (by rwa [hs]) (by rwa [hn])).trans
        (congrArg some (eq_of_parts hs hn _ _))
    have hne : " ".intercalate ((part :: parts).map writePart) ≠ "0" := by
      intro heq
      have hnone : readAll? ['0'] (.between false, zero) = none := rfl
      rw [heq] at hread
      exact absurd (hnone.symm.trans hread) (by simp)
    exact (if_neg hne).trans hread

end MqttLink.Duration
