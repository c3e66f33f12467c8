import MqttLink.Proofs.Members
import MqttLink.Proofs.SkippedValues

/-!
What has been read. Main statement: whatever a field is read from is one value of the grammar, with
blanks before it.
-/

namespace MqttLink

namespace Json

variable {cs rest : List Char} {negative : Bool} {g : Gathered} {n : Number}

/-! ## Words and strings -/

theorem word_of_readWord {ws : List Char} (h : readWord ws cs = .ok rest) : cs = ws ++ rest := by
  induction ws generalizing cs with
  | nil =>
    cases h
    rfl
  | cons w ws ih =>
    cases cs with
    | nil => cases h
    | cons c cs =>
      rw [readWord] at h
      split at h
      next heq => rw [heq, ih h, List.cons_append]
      next => cases h

theorem code_of_readString {leading : Option Nat} {acc : List Char} {r : List Char × List Char}
    (h : readString (.code leading 0 0) acc cs = .ok r) :
    ∃ ds n y, Code ds n ∧ cs = ds ++ y ∧ afterCode acc y (closeCode leading n) = .ok r := by
  have hdigit {k m : Nat} {cs : List Char}
      (h : readString (.code leading k m) acc cs = .ok r) :
      ∃ c d cs', Text.hexValue? c = some d ∧ cs = c :: cs' ∧
        (k < 3 → readString (.code leading (k + 1) (m * 16 + d)) acc cs' = .ok r) := by
    cases cs with
    | nil => cases h
    | cons c cs =>
      rw [readString] at h
      cases hvalue : Text.hexValue? c with
      | none => simp [hvalue] at h
      | some d =>
        refine ⟨c, d, cs, hvalue, rfl, fun hk => ?_⟩
        simpa only [hvalue, hk, if_true] using h
  obtain ⟨a, w, cs, first, rfl, hone⟩ := hdigit h
  obtain ⟨b, x, cs, second, rfl, htwo⟩ := hdigit (hone (by decide))
  obtain ⟨c, y, cs, third, rfl, hthree⟩ := hdigit (htwo (by decide))
  obtain ⟨d, z, cs, fourth, rfl, -⟩ := hdigit (hthree (by decide))
  have hcode := Code.intro first second third fourth
  exact ⟨_, _, cs, hcode, rfl, (readString_code hcode leading acc cs).symm.trans h⟩

/-- The second code of a pair. -/
theorem partner_of_readString {high : Nat} {acc : List Char} {r : List Char × List Char}
    (h : readString (.partnerBackslash high) acc cs = .ok r) :
    ∃ ds n y, Code ds n ∧ isTrailingSurrogate n ∧ cs = '\\' :: 'u' :: (ds ++ y) ∧
      readString .plain (joinSurrogates high n :: acc) y = .ok r := by
  cases cs with
  | nil => cases h
  | cons c cs =>
    rw [readString] at h
    split at h
    next hbackslash =>
      cases cs with
      | nil => cases h
      | cons d cs =>
        rw [readString] at h
        split at h
        next hmark =>
          obtain ⟨ds, n, y, digits, rfl, hafter⟩ := code_of_readString h
          simp only [closeCode] at hafter
          split at hafter
          next htrailing => exact ⟨ds, n, y, digits, htrailing, by rw [hbackslash, hmark], hafter⟩
          next => cases hafter
        next => cases h
    next => cases h

/-- What stands after a backslash spells one character. -/
theorem escape_of_readString {acc : List Char} {r : List Char × List Char}
    (h : readString .escaped acc cs = .ok r) :
    ∃ e d y, (∀ t ls, Spells t ls → Spells ('\\' :: (e ++ t)) (d :: ls)) ∧ cs = e ++ y ∧
      readString .plain (d :: acc) y = .ok r := by
  cases cs with
  | nil => cases h
  | cons c cs =>
    rw [readString] at h
    split at h
    next hmark =>
      subst hmark
      obtain ⟨ds, m, y, digits, rfl, hafter⟩ := code_of_readString h
      simp only [closeCode] at hafter
      split_ifs at hafter with htrailing hleading
      · cases hafter
      · obtain ⟨es, k, z, partner, htrailing, rfl, hread⟩ := partner_of_readString hafter
        refine ⟨'u' :: (ds ++ '\\' :: 'u' :: es), _, z, fun t ls spells => ?_, by simp, hread⟩
        simpa using Spells.pair digits hleading partner htrailing spells
      · rw [Bool.not_eq_true] at htrailing hleading
        refine ⟨'u' :: ds, _, y, fun t ls spells => ?_, rfl, hafter⟩
        exact .code digits htrailing hleading spells
    next =>
      cases hletter : unescape? c with
      | none => simp [hletter] at h
      | some d =>
        simp only [hletter] at h
        exact ⟨[c], d, cs, fun t ls spells => .escape hletter spells, rfl, h⟩

/-- What is read as a string spells what it is read as. -/
theorem spells_of_readString {acc ks : List Char}
    (h : readString .plain acc cs = .ok (ks, rest)) :
    ∃ t ls, Spells t ls ∧ cs = t ++ '"' :: rest ∧ ks = acc.reverse ++ ls := by
  induction hlength : cs.length using Nat.strongRecOn generalizing cs acc with
  | ind n ih =>
    cases cs with
    | nil => cases h
    | cons c cs =>
      rw [List.length_cons] at hlength
      rw [readString] at h
      split_ifs at h with hquote hbackslash hcontrol
      · cases h
        exact ⟨[], [], .nil, by rw [hquote]; rfl, by simp⟩
      · obtain ⟨e, d, y, hescape, rfl, hread⟩ := escape_of_readString h
        rw [List.length_append] at hlength
        obtain ⟨t, ls, spells, rfl, rfl⟩ := ih y.length (by omega) hread rfl
        exact ⟨_, _, hescape t ls spells, by simp [hbackslash], by simp⟩
      · obtain ⟨t, ls, spells, rfl, rfl⟩ := ih cs.length (by omega) h rfl
        exact ⟨_, _, .plain hquote hbackslash hcontrol spells, rfl, by simp⟩

/-! ## Numbers -/

theorem rest_of_closeDouble {cs : List Char} (h : closeDouble negative g cs = .ok (n, rest)) :
    cs = rest := by
  unfold closeDouble at h
  split at h <;> cases h
  rfl

theorem rest_of_closeWhole {cs : List Char} (h : closeWhole negative g cs = .ok (n, rest)) :
    cs = rest := by
  unfold closeWhole at h
  split_ifs at h
  · exact rest_of_closeDouble h
  · cases h
    rfl
  · cases h
    rfl

/-- Digits have been read up to where there are none. -/
theorem digits_of_takeWhile (h : cs.takeWhile isDigit ≠ []) :
    IsDigits (cs.takeWhile isDigit) ∧ cs = cs.takeWhile isDigit ++ cs.dropWhile isDigit :=
  ⟨⟨h, fun d hd => List.all_eq_true.mp (List.all_takeWhile ..) d hd⟩,
    List.takeWhile_append_dropWhile.symm⟩

theorem digits_of_afterSign (down : Bool) (h : afterSign negative g down cs = .ok (n, rest)) :
    ∃ ds, IsDigits ds ∧ cs = ds ++ rest := by
  have hnonempty : cs.takeWhile isDigit ≠ [] := by
    intro hnone
    simp [afterSign, hnone] at h
  obtain ⟨digits, heq⟩ := digits_of_takeWhile hnonempty
  have hrest : cs.dropWhile isDigit = rest := by
    obtain ⟨d, ds, hds⟩ := List.exists_cons_of_ne_nil hnonempty
    simp only [afterSign, hds] at h
    split at h
    · split at h <;> cases h
      rfl
    · exact rest_of_closeDouble h
  exact ⟨_, digits, hrest ▸ heq⟩

theorem exponent_of_readExponent (h : readExponent negative g cs = .ok (n, rest)) :
    ∃ sign ds, IsExponentSign sign ∧ IsDigits ds ∧ cs = sign ++ (ds ++ rest) := by
  by_cases hplus : ∃ y, cs = '+' :: y
  · obtain ⟨y, rfl⟩ := hplus
    obtain ⟨ds, digits, rfl⟩ := digits_of_afterSign false h
    exact ⟨_, ds, .plus, digits, rfl⟩
  · by_cases hminus : ∃ y, cs = '-' :: y
    · obtain ⟨y, rfl⟩ := hminus
      obtain ⟨ds, digits, rfl⟩ := digits_of_afterSign true h
      exact ⟨_, ds, .minus, digits, rfl⟩
    · rw [readExponent] at h
      · obtain ⟨ds, digits, rfl⟩ := digits_of_afterSign false h
        exact ⟨_, ds, .none, digits, rfl⟩
      · exact fun y heq => hplus ⟨y, heq⟩
      · exact fun y heq => hminus ⟨y, heq⟩

theorem exponent_of_readTail (h : readTail negative g cs = .ok (n, rest)) :
    ∃ exponent, IsExponent exponent ∧ cs = exponent ++ rest := by
  by_cases hmark : ∃ e y, (e = 'e' ∨ e = 'E') ∧ cs = e :: y
  · obtain ⟨e, y, mark, rfl⟩ := hmark
    have hread : readExponent negative g y = .ok (n, rest) := by
      rcases mark with rfl | rfl <;> exact h
    obtain ⟨sign, ds, isSign, digits, rfl⟩ := exponent_of_readExponent hread
    exact ⟨_, .some mark isSign digits, by simp⟩
  · rw [readTail] at h
    · exact ⟨[], .none, rest_of_closeDouble h⟩
    · exact fun y heq => hmark ⟨'e', y, .inl rfl, heq⟩
    · exact fun y heq => hmark ⟨'E', y, .inr rfl, heq⟩

theorem fraction_of_readFraction (h : readFraction negative g cs = .ok (n, rest)) :
    ∃ ds exponent, IsDigits ds ∧ IsExponent exponent ∧ cs = ds ++ (exponent ++ rest) := by
  have hnonempty : cs.takeWhile isDigit ≠ [] := by
    intro hnone
    simp [readFraction, hnone] at h
  obtain ⟨digits, heq⟩ := digits_of_takeWhile hnonempty
  obtain ⟨d, ds, hds⟩ := List.exists_cons_of_ne_nil hnonempty
  simp only [readFraction, hds] at h
  obtain ⟨exponent, isExponent, hrest⟩ := exponent_of_readTail h
  exact ⟨_, exponent, digits, isExponent, hrest ▸ heq⟩

theorem fraction_of_afterWhole (h : afterWhole negative g cs = .ok (n, rest)) :
    ∃ fraction exponent, IsFraction fraction ∧ IsExponent exponent ∧
      cs = fraction ++ (exponent ++ rest) := by
  by_cases hpoint : ∃ y, cs = '.' :: y
  · obtain ⟨y, rfl⟩ := hpoint
    obtain ⟨ds, exponent, digits, isExponent, rfl⟩ := fraction_of_readFraction h
    exact ⟨_, exponent, .some digits, isExponent, rfl⟩
  · by_cases hmark : ∃ e y, (e = 'e' ∨ e = 'E') ∧ cs = e :: y
    · obtain ⟨e, y, mark, rfl⟩ := hmark
      have hread : readExponent negative g y = .ok (n, rest) := by
        rcases mark with rfl | rfl <;> exact h
      obtain ⟨sign, ds, isSign, digits, rfl⟩ := exponent_of_readExponent hread
      exact ⟨[], _, .none, .some mark isSign digits, by simp⟩
    · rw [afterWhole] at h
      · exact ⟨[], [], .none, .none, rest_of_closeWhole h⟩
      · exact fun y heq => hpoint ⟨y, heq⟩
      · exact fun y heq => hmark ⟨'e', y, .inl rfl, heq⟩
      · exact fun y heq => hmark ⟨'E', y, .inr rfl, heq⟩

/-- No zero stands in front of the digits of a number that is read. -/
theorem afterWhole_of_readNumber (h : readNumber negative cs = .ok (n, rest)) :
    IsWhole (cs.takeWhile isDigit) ∧
      ∃ g, afterWhole negative g (cs.dropWhile isDigit) = .ok (n, rest) := by
  cases hds : cs.takeWhile isDigit with
  | nil => simp [readNumber, hds] at h
  | cons d ds =>
    obtain ⟨digits, -⟩ := digits_of_takeWhile (hds ▸ List.cons_ne_nil d ds)
    rw [hds] at digits
    obtain ⟨hfirst, hothers⟩ := List.forall_mem_cons.mp digits.digits
    by_cases hzero : d = '0'
    · subst hzero
      cases ds with
      | cons d' ds => simp [readNumber, hds] at h
      | nil =>
        simp only [readNumber, hds] at h
        exact ⟨.zero, _, h⟩
    · refine ⟨.digits hfirst hzero hothers, (d :: ds).foldl Gathered.addWhole ⟨0, 0, false⟩, ?_⟩
      rw [← h]
      simp only [readNumber, hds]
      split
      next heq => cases heq
      next heq => exact absurd (List.cons.inj heq).1 hzero
      next => rfl

/-- What is read as a number is one, without its sign. -/
theorem number_of_readNumber (h : readNumber negative cs = .ok (n, rest)) :
    ∃ whole fraction exponent, IsWhole whole ∧ IsFraction fraction ∧ IsExponent exponent ∧
      cs = whole ++ (fraction ++ (exponent ++ rest)) := by
  obtain ⟨isWhole, g, hafter⟩ := afterWhole_of_readNumber h
  obtain ⟨fraction, exponent, isFraction, isExponent, hrest⟩ := fraction_of_afterWhole hafter
  refine ⟨_, fraction, exponent, isWhole, isFraction, isExponent, ?_⟩
  rw [← hrest, List.takeWhile_append_dropWhile]

end Json

namespace Settings

open Json

variable {α β : Type} {cs rest : List Char}

/-! ## Values of fields -/

/-- What is read is one value. -/
def Takes (read : List Char → Except ReadFault (α × List Char)) : Prop :=
  ∀ ⦃cs a rest⦄, read cs = .ok (a, rest) → OneValue cs rest

theorem exists_skipBlanks (cs : List Char) : ∃ gap, AllBlank gap ∧ cs = gap ++ skipBlanks cs :=
  ⟨cs.takeWhile isBlank, fun c hc => List.all_eq_true.mp (List.all_takeWhile ..) c hc,
    List.takeWhile_append_dropWhile.symm⟩

theorem takes_of_skipBlanks {read : List Char → Except ReadFault (α × List Char)}
    (start : List Char → Except ReadFault (α × List Char))
    (hread : ∀ cs, read cs = start (skipBlanks cs))
    (h : ∀ ⦃cs a rest⦄, start cs = .ok (a, rest) → ∃ v, Derives .value v ∧ cs = v ++ rest) :
    Takes read := by
  intro cs a rest hok
  obtain ⟨gap, hgap, heq⟩ := exists_skipBlanks cs
  rw [hread] at hok
  obtain ⟨v, value, hv⟩ := h hok
  exact ⟨gap, v, hgap, value, hv ▸ heq⟩

/-- What was read without a fault of the text. -/
theorem ok_of_bind {ε : Type} {r : Except ε α} {f : α → Except ε β} {b : β}
    (h : r >>= f = .ok b) : ∃ a, r = .ok a ∧ f a = .ok b := by
  cases r with
  | error => cases h
  | ok a => exact ⟨a, rfl, h⟩

theorem ok_of_liftText {r : Except TextFault α} {a : α} (h : liftText r = .ok a) :
    r = .ok a := by
  cases r with
  | error => cases h
  | ok => cases h; rfl

theorem takes_readText (wanted : Wanted) : Takes (readText wanted) := by
  refine takes_of_skipBlanks (startText wanted) (fun _ => rfl) fun cs s rest h => ?_
  by_cases hquote : ∃ y, cs = '"' :: y
  · obtain ⟨y, rfl⟩ := hquote
    obtain ⟨⟨ks, rest⟩, hread, hrest⟩ := ok_of_bind h
    cases hrest
    obtain ⟨t, ls, spells, rfl, -⟩ := spells_of_readString (ok_of_liftText hread)
    exact ⟨_, .string (isText_of_spells spells), by simp⟩
  · rw [startText] at h
    · cases h
    · exact fun y heq => hquote ⟨y, heq⟩

theorem takes_readBool : Takes readBool := by
  refine takes_of_skipBlanks startBool (fun _ => rfl) fun cs b rest h => ?_
  unfold startBool at h
  split at h
  next =>
    obtain ⟨rest, hread, hrest⟩ := ok_of_bind h
    cases hrest
    exact ⟨_, .true, by rw [word_of_readWord (ok_of_liftText hread)]; rfl⟩
  next =>
    obtain ⟨rest, hread, hrest⟩ := ok_of_bind h
    cases hrest
    exact ⟨_, .false, by rw [word_of_readWord (ok_of_liftText hread)]; rfl⟩
  next => cases h

theorem number_of_portNumber {r : Except TextFault (Number × List Char)} {port : Option Port}
    (h : portNumber r = .ok (port, rest)) : ∃ n, r = .ok (n, rest) := by
  obtain ⟨⟨n, rest'⟩, hread, hport⟩ := ok_of_bind h
  refine ⟨n, ?_⟩
  cases hn : portOfNumber n with
  | error => rw [hn] at hport; cases hport
  | ok =>
    rw [hn] at hport
    cases hport
    exact ok_of_liftText hread

theorem takes_readPort : Takes readPort := by
  refine takes_of_skipBlanks startPort (fun cs => ?_) fun cs port rest h => ?_
  · rw [readPort]
    cases skipBlanks cs <;> rfl
  cases cs with
  | nil => cases h
  | cons c cs =>
    by_cases hminus : c = '-'
    · subst hminus
      rw [startPort_minus] at h
      obtain ⟨n, hread⟩ := number_of_portNumber h
      obtain ⟨whole, fraction, exponent, isWhole, isFraction, isExponent, rfl⟩ :=
        number_of_readNumber hread
      exact ⟨_, .number .minus isWhole isFraction isExponent, by simp⟩
    · by_cases hdigit : isDigit c
      · rw [startPort_digit hdigit] at h
        obtain ⟨n, hread⟩ := number_of_portNumber h
        obtain ⟨whole, fraction, exponent, isWhole, isFraction, isExponent, heq⟩ :=
          number_of_readNumber hread
        exact ⟨_, .number .none isWhole isFraction isExponent, by simp [heq]⟩
      · simp only [startPort, hminus, hdigit, decide_false, Bool.or_self, Bool.false_eq_true,
          if_false] at h
        split at h
        next hnull =>
          obtain ⟨rest, hread, hrest⟩ := ok_of_bind h
          cases hrest
          exact ⟨_, .null, by rw [hnull, word_of_readWord (ok_of_liftText hread)]; rfl⟩
        next => cases h

theorem takes_readDuration : Takes readDuration := by
  intro cs d rest h
  obtain ⟨⟨s, rest'⟩, hread, hduration⟩ := ok_of_bind h
  simp only at hduration
  split at hduration
  next =>
    cases hduration
    exact takes_readText .duration hread
  next => cases hduration

theorem takes_map {read : List Char → Except ReadFault (α × List Char)} (h : Takes read)
    (f : α → β) : Takes fun cs => (read cs).map fun p => (f p.1, p.2) := by
  intro cs b rest hok
  simp only at hok
  cases hread : read cs with
  | error => rw [hread] at hok; cases hok
  | ok p =>
    rw [hread] at hok
    cases hok
    exact h hread

/-- What a field is read from is one value. -/
theorem takes_readField (f : Field) : Takes (readField f) := by
  cases f with
  | clientId => exact takes_map (takes_readText _) Assignment.clientId
  | hostname => exact takes_map (takes_readText _) Assignment.hostname
  | username => exact takes_map (takes_readText _) Assignment.username
  | webSockets => exact takes_map takes_readBool Assignment.webSockets
  | webSocketPath => exact takes_map (takes_readText _) Assignment.webSocketPath
  | port => exact takes_map takes_readPort Assignment.port
  | keepAlive => exact takes_map takes_readDuration Assignment.keepAlive
  | connectTimeout => exact takes_map takes_readDuration Assignment.connectTimeout

end Settings

end MqttLink
