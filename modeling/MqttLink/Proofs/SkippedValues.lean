import Mathlib.Tactic.SplitIfs
import MqttLink.Proofs.Skipping

/-!
What has been skipped. Main statement: whatever the skipper passes over before it comes to an end is
a value of the grammar, with blanks before it.
-/

namespace MqttLink.Json

variable {brackets : List Bracket} {cs rest : List Char} {place : Place} {key : Bool}

/-! ## One character after the other -/

/-- Characters of one kind and what follows them. -/
theorem exists_span (p : Char → Bool) (cs : List Char) :
    ∃ ds y, cs = ds ++ y ∧ (∀ d ∈ ds, p d) ∧ ∀ c y', y = c :: y' → p c = false := by
  refine ⟨cs.takeWhile p, cs.dropWhile p, List.takeWhile_append_dropWhile.symm,
    fun d hd => List.all_eq_true.mp (List.all_takeWhile ..) d hd, fun c y hrest => ?_⟩
  have hnonempty : cs.dropWhile p ≠ [] := by
    rw [hrest]
    exact List.cons_ne_nil _ _
  have hhead := List.head_dropWhile_not p hnonempty
  simp only [hrest, List.head_cons] at hhead
  exact hhead

/-- Where nothing may end, a character is read. -/
theorem exists_next (h : skipFrom (place, brackets) cs = .ok rest)
    (hinside : (place = .closed || place.endsNumber) = false) :
    ∃ c cs' next, cs = c :: cs' ∧ advance c cs' (place, brackets) = .ok next ∧
      skipFrom next cs' = .ok rest := by
  obtain ⟨hclosed, hnumber⟩ := Bool.or_eq_false_iff.mp hinside
  cases cs with
  | nil => simp [skipFrom, hinside] at h
  | cons c cs =>
    have hcontinues : place.continues c := by
      cases place with
      | zero | whole | fraction | exponent => cases hnumber
      | _ => rfl
    rw [skipFrom_advance place hcontinues (by rw [hclosed, Bool.false_and])] at h
    cases hnext : advance c cs (place, brackets) with
    | error => rw [hnext] at h; cases h
    | ok next => exact ⟨c, cs, next, rfl, hnext, by rw [hnext] at h; exact h⟩

theorem word_of_skipFrom {w : Char} {ws : List Char}
    (h : skipFrom (.word (w :: ws), brackets) cs = .ok rest) :
    ∃ y, cs = w :: ws ++ y ∧ skipFrom (.closed, brackets) y = .ok rest := by
  induction ws generalizing w cs with
  | nil =>
    obtain ⟨c, cs, next, rfl, hadvance, hnext⟩ := exists_next h rfl
    simp only [advance] at hadvance
    split at hadvance
    next heq =>
      cases hadvance
      exact ⟨cs, by rw [heq]; rfl, hnext⟩
    next => cases hadvance
  | cons v ws ih =>
    obtain ⟨c, cs, next, rfl, hadvance, hnext⟩ := exists_next h rfl
    simp only [advance] at hadvance
    split at hadvance
    next heq =>
      cases hadvance
      obtain ⟨y, rfl, hrest⟩ := ih hnext
      exact ⟨y, by rw [heq]; rfl, hrest⟩
    next => cases hadvance

/-! ## Strings -/

theorem code_of_skipFrom (h : skipFrom (.code key 0, brackets) cs = .ok rest) :
    ∃ ds n y, Code ds n ∧ cs = ds ++ y ∧ skipFrom (.string key, brackets) y = .ok rest := by
  have hdigit {k : Nat} {cs : List Char} (h : skipFrom (.code key k, brackets) cs = .ok rest) :
      ∃ c m cs', Text.hexValue? c = some m ∧ cs = c :: cs' ∧
        skipFrom (if k < 3 then .code key (k + 1) else .string key, brackets) cs' = .ok rest := by
    obtain ⟨c, cs', next, rfl, hadvance, hnext⟩ := exists_next h rfl
    cases hvalue : Text.hexValue? c with
    | none => simp [advance, hvalue] at hadvance
    | some m =>
      refine ⟨c, m, cs', hvalue, rfl, ?_⟩
      simp only [advance, hvalue, Option.isNone_some, Bool.false_eq_true, if_false] at hadvance
      split at hadvance
      next hk =>
        cases hadvance
        rwa [if_pos hk]
      next hk =>
        cases hadvance
        rwa [if_neg hk]
  obtain ⟨a, w, cs, first, rfl, hone⟩ := hdigit h
  obtain ⟨b, x, cs, second, rfl, htwo⟩ := hdigit hone
  obtain ⟨c, y, cs, third, rfl, hthree⟩ := hdigit htwo
  obtain ⟨d, z, cs, fourth, rfl, hfour⟩ := hdigit hthree
  exact ⟨[a, b, c, d], _, cs, .intro first second third fourth, rfl, hfour⟩

/-- What stands after a backslash goes on with a string. -/
theorem escape_of_skipFrom (h : skipFrom (.escaped key, brackets) cs = .ok rest) :
    ∃ e y, (∀ t, IsText t → IsText ('\\' :: (e ++ t))) ∧ cs = e ++ y ∧
      skipFrom (.string key, brackets) y = .ok rest := by
  obtain ⟨c, cs, next, rfl, hadvance, hnext⟩ := exists_next h rfl
  simp only [advance] at hadvance
  split at hadvance
  next hmark =>
    cases hadvance
    obtain ⟨ds, n, y, digits, rfl, hrest⟩ := code_of_skipFrom hnext
    subst hmark
    refine ⟨'u' :: ds, y, fun t text => ?_, rfl, hrest⟩
    exact .code digits text
  next =>
    split at hadvance
    next hletter =>
      cases hadvance
      obtain ⟨d, letter⟩ := Option.isSome_iff_exists.mp hletter
      exact ⟨[c], cs, fun t text => .escape letter text, rfl, hnext⟩
    next => cases hadvance

/-- A string is passed over up to its closing quote. -/
theorem text_of_skipFrom (h : skipFrom (.string key, brackets) cs = .ok rest) :
    ∃ t y, IsText t ∧ cs = t ++ '"' :: y ∧
      skipFrom (if key then .colon else .closed, brackets) y = .ok rest := by
  -- an escape takes up several characters, so the induction is on how many are left
  induction hlength : cs.length using Nat.strongRecOn generalizing cs with
  | ind n ih =>
    obtain ⟨c, cs, next, rfl, hadvance, hnext⟩ := exists_next h rfl
    rw [List.length_cons] at hlength
    simp only [advance] at hadvance
    split at hadvance
    next hquote =>
      cases hadvance
      exact ⟨[], cs, .nil, by rw [hquote]; rfl, hnext⟩
    next hquote =>
      split_ifs at hadvance with hbackslash hcontrol <;> cases hadvance
      · obtain ⟨e, y, hescape, rfl, htext⟩ := escape_of_skipFrom hnext
        rw [List.length_append] at hlength
        obtain ⟨t, y, text, rfl, hrest⟩ := ih y.length (by omega) htext rfl
        exact ⟨_, y, hescape t text, by simp [hbackslash], hrest⟩
      · obtain ⟨t, y, text, rfl, hrest⟩ := ih cs.length (by omega) hnext rfl
        exact ⟨_, y, .plain hquote hbackslash hcontrol text, rfl, hrest⟩

/-! ## Numbers -/

theorem exists_digits (cs : List Char) :
    ∃ ds y, cs = ds ++ y ∧ (∀ d ∈ ds, isDigit d) ∧ NoDigit y := by
  obtain ⟨ds, y, heq, hdigits, hnext⟩ := exists_span isDigit cs
  refine ⟨ds, y, heq, hdigits, ?_⟩
  cases y with
  | nil => trivial
  | cons c y => exact hnext c y rfl

theorem digits_of_skipFrom (hplace : place = .whole ∨ place = .fraction ∨ place = .exponent)
    (h : skipFrom (place, brackets) cs = .ok rest) :
    ∃ ds y, cs = ds ++ y ∧ (∀ d ∈ ds, isDigit d) ∧ NoDigit y ∧
      skipFrom (place, brackets) y = .ok rest := by
  obtain ⟨ds, y, rfl, hdigits, hnone⟩ := exists_digits cs
  rw [skipFrom_digits hplace hdigits] at h
  exact ⟨ds, y, rfl, hdigits, hnone, h⟩

/-- Where only a digit is wanted, there is one, and more may follow it. -/
theorem someDigits_of_skipFrom (place after : Place)
    (hinside : (place = .closed || place.endsNumber) = false)
    (hafter : after = .whole ∨ after = .fraction ∨ after = .exponent)
    (hadvance : ∀ c cs, advance c cs (place, brackets) =
      if isDigit c then .ok (after, brackets) else .error .malformed)
    (h : skipFrom (place, brackets) cs = .ok rest) :
    ∃ ds y, IsDigits ds ∧ cs = ds ++ y ∧ NoDigit y ∧ skipFrom (after, brackets) y = .ok rest := by
  obtain ⟨c, cs, next, rfl, hfirst, hnext⟩ := exists_next h hinside
  rw [hadvance] at hfirst
  split at hfirst
  next hdigit =>
    cases hfirst
    obtain ⟨ds, y, rfl, hdigits, hnone, hrest⟩ := digits_of_skipFrom hafter hnext
    exact ⟨c :: ds, y, ⟨List.cons_ne_nil _ _, List.forall_mem_cons.mpr ⟨hdigit, hdigits⟩⟩, rfl,
      hnone, hrest⟩
  next => cases hfirst

/-- The digits of an exponent end a number. -/
theorem closed_of_exponent {y : List Char} (hnone : NoDigit y)
    (h : skipFrom (.exponent, brackets) y = .ok rest) :
    skipFrom (.closed, brackets) y = .ok rest := by
  rw [← h]
  refine (skipFrom_over rfl fun c cs heq => ?_).symm
  subst heq
  exact hnone

theorem sign_of_skipFrom (h : skipFrom (.mark, brackets) cs = .ok rest) :
    ∃ sign ds y, IsExponentSign sign ∧ IsDigits ds ∧ cs = sign ++ (ds ++ y) ∧
      skipFrom (.closed, brackets) y = .ok rest := by
  obtain ⟨c, cs, next, rfl, hadvance, hnext⟩ := exists_next h rfl
  simp only [advance] at hadvance
  split at hadvance
  next hsign =>
    cases hadvance
    obtain ⟨ds, y, digits, rfl, hnone, hrest⟩ :=
      someDigits_of_skipFrom .sign .exponent rfl (.inr (.inr rfl)) (fun _ _ => rfl) hnext
    rw [Bool.or_eq_true, decide_eq_true_eq, decide_eq_true_eq] at hsign
    rcases hsign with rfl | rfl
    · exact ⟨['+'], ds, y, .plus, digits, rfl, closed_of_exponent hnone hrest⟩
    · exact ⟨['-'], ds, y, .minus, digits, rfl, closed_of_exponent hnone hrest⟩
  next =>
    split at hadvance
    next hdigit =>
      cases hadvance
      obtain ⟨ds, y, rfl, hdigits, hnone, hrest⟩ := digits_of_skipFrom (.inr (.inr rfl)) hnext
      exact ⟨[], c :: ds, y, .none,
        ⟨List.cons_ne_nil _ _, List.forall_mem_cons.mpr ⟨hdigit, hdigits⟩⟩, rfl,
        closed_of_exponent hnone hrest⟩
    next => cases hadvance

/-- After digits that nothing but an exponent can go on with. -/
theorem exponent_of_skipFrom (hplace : place = .zero ∨ place = .whole ∨ place = .fraction)
    (hover : ∀ c y, cs = c :: y → c ≠ 'e' → c ≠ 'E' → place.continues c = false)
    (h : skipFrom (place, brackets) cs = .ok rest) :
    ∃ exponent y, IsExponent exponent ∧ cs = exponent ++ y ∧
      skipFrom (.closed, brackets) y = .ok rest := by
  have hnumber : place.endsNumber := by rcases hplace with rfl | rfl | rfl <;> rfl
  by_cases hmark : ∃ e y, (e = 'e' ∨ e = 'E') ∧ cs = e :: y
  · obtain ⟨e, y, mark, rfl⟩ := hmark
    rw [skipFrom_mark hplace mark] at h
    obtain ⟨sign, ds, y, isSign, digits, rfl, hrest⟩ := sign_of_skipFrom h
    exact ⟨_, y, .some mark isSign digits, by simp, hrest⟩
  · refine ⟨[], cs, .none, rfl, ?_⟩
    rw [← h]
    refine (skipFrom_over hnumber fun c y heq => hover c y heq ?_ ?_).symm
    · exact fun hc => hmark ⟨c, y, .inl hc, heq⟩
    · exact fun hc => hmark ⟨c, y, .inr hc, heq⟩

theorem fraction_of_skipFrom (hplace : place = .zero ∨ place = .whole) (hnone : NoDigit cs)
    (h : skipFrom (place, brackets) cs = .ok rest) :
    ∃ fraction exponent y, IsFraction fraction ∧ IsExponent exponent ∧
      cs = fraction ++ (exponent ++ y) ∧ skipFrom (.closed, brackets) y = .ok rest := by
  by_cases hpoint : ∃ y, cs = '.' :: y
  · obtain ⟨y, rfl⟩ := hpoint
    rw [skipFrom_point hplace] at h
    obtain ⟨ds, y, digits, rfl, hnone, hafter⟩ :=
      someDigits_of_skipFrom .point .fraction rfl (.inr (.inl rfl)) (fun _ _ => rfl) h
    obtain ⟨exponent, y, isExponent, rfl, hrest⟩ :=
      exponent_of_skipFrom (.inr (.inr rfl)) (fun c y heq hsmall hlarge => by
        subst heq
        have hc : isDigit c = false := hnone
        simp [Place.continues, hc, hsmall, hlarge]) hafter
    exact ⟨_, exponent, y, .some digits, isExponent, by simp, hrest⟩
  · obtain ⟨exponent, y, isExponent, rfl, hrest⟩ :=
      exponent_of_skipFrom (hplace.imp_right .inl) (fun c y heq hsmall hlarge => by
        subst heq
        have hc : isDigit c = false := hnone
        have hc' : c ≠ '.' := fun hc' => hpoint ⟨y, by rw [hc']⟩
        rcases hplace with rfl | rfl <;> simp [Place.continues, hc, hc', hsmall, hlarge]) h
    exact ⟨[], exponent, y, .none, isExponent, rfl, hrest⟩

/-- After a zero there is no digit. -/
theorem noDigit_of_zero (h : skipFrom (.zero, brackets) cs = .ok rest) : NoDigit cs := by
  cases cs with
  | nil => trivial
  | cons c cs =>
    by_cases hdigit : isDigit c
    · have hne : c ≠ '.' ∧ c ≠ 'e' ∧ c ≠ 'E' :=
        ⟨ne_of_isDigit hdigit (by decide), ne_of_isDigit hdigit (by decide),
          ne_of_isDigit hdigit (by decide)⟩
      rw [skipFrom_advance .zero (by simp [Place.continues, hdigit]) rfl] at h
      simp [advance, hne, Except.bind] at h
    · exact Bool.eq_false_iff.mpr hdigit

/-- A number is passed over from its first digit on. -/
theorem number_of_skipFrom {c : Char}
    (hfirst : c = '0' ∧ place = .zero ∨ c ≠ '0' ∧ isDigit c ∧ place = .whole)
    (h : skipFrom (place, brackets) cs = .ok rest) :
    ∃ whole fraction exponent y, IsWhole whole ∧ IsFraction fraction ∧ IsExponent exponent ∧
      c :: cs = whole ++ (fraction ++ (exponent ++ y)) ∧
      skipFrom (.closed, brackets) y = .ok rest := by
  rcases hfirst with ⟨rfl, rfl⟩ | ⟨hzero, hdigit, rfl⟩
  · obtain ⟨fraction, exponent, y, isFraction, isExponent, rfl, hrest⟩ :=
      fraction_of_skipFrom (.inl rfl) (noDigit_of_zero h) h
    exact ⟨['0'], fraction, exponent, y, .zero, isFraction, isExponent, rfl, hrest⟩
  · obtain ⟨ds, y, rfl, hdigits, hnone, hafter⟩ := digits_of_skipFrom (.inl rfl) h
    obtain ⟨fraction, exponent, y, isFraction, isExponent, rfl, hrest⟩ :=
      fraction_of_skipFrom (.inr rfl) hnone hafter
    exact ⟨c :: ds, fraction, exponent, y, .digits hdigit hzero hdigits, isFraction, isExponent,
      rfl, hrest⟩

theorem unsigned_of_minus (h : skipFrom (.minus, brackets) cs = .ok rest) :
    ∃ whole fraction exponent y, IsWhole whole ∧ IsFraction fraction ∧ IsExponent exponent ∧
      cs = whole ++ (fraction ++ (exponent ++ y)) ∧ skipFrom (.closed, brackets) y = .ok rest := by
  obtain ⟨c, cs, next, rfl, hadvance, hnext⟩ := exists_next h rfl
  simp only [advance] at hadvance
  split_ifs at hadvance with hzero hdigit <;> cases hadvance
  · exact number_of_skipFrom (.inl ⟨hzero, rfl⟩) hnext
  · exact number_of_skipFrom (.inr ⟨hzero, hdigit, rfl⟩) hnext

/-! ## Values -/

/-- After a value in brackets there is a closing bracket or a comma. -/
theorem closed_of_skipFrom {b : Bracket} (h : skipFrom (.closed, b :: brackets) cs = .ok rest) :
    ∃ after c y, AllBlank after ∧ cs = after ++ c :: y ∧
      (c = b.closing ∧ skipFrom (.closed, brackets) y = .ok rest ∨
        c = ',' ∧ skipFrom (b.start, b :: brackets) y = .ok rest) := by
  obtain ⟨after, y, rfl, hafter, hblank⟩ := exists_span isBlank cs
  rw [skipFrom_closed_blanks hafter] at h
  cases y with
  | nil => simp [skipFrom] at h
  | cons c y =>
    refine ⟨after, c, y, hafter, rfl, ?_⟩
    by_cases hclosing : c = b.closing
    · subst hclosing
      rw [(skipFrom_closing b brackets y).2] at h
      exact .inl ⟨rfl, h⟩
    · by_cases hcomma : c = ','
      · subst hcomma
        rw [skipFrom_comma] at h
        exact .inr ⟨rfl, h⟩
      · rw [skipFrom_advance .closed rfl rfl] at h
        simp [advance, hblank c y rfl, hclosing, hcomma, Except.bind] at h

/-- After an opening bracket there is the closing one or an item. -/
theorem opened_of_skipFrom {b : Bracket} (h : skipFrom (.opened, b :: brackets) cs = .ok rest) :
    (∃ blanks y, AllBlank blanks ∧ cs = blanks ++ b.closing :: y ∧
        skipFrom (.closed, brackets) y = .ok rest) ∨
      skipFrom (b.start, b :: brackets) cs = .ok rest := by
  obtain ⟨blanks, y, rfl, hblanks, hblank⟩ := exists_span isBlank cs
  cases y with
  | nil =>
    rw [skipFrom_opened_blanks hblanks] at h
    simp [skipFrom, Place.endsNumber] at h
  | cons c y =>
    by_cases hclosing : c = b.closing
    · subst hclosing
      rw [skipFrom_opened_blanks hblanks, (skipFrom_closing b brackets y).1] at h
      exact .inl ⟨blanks, y, hblanks, rfl, h⟩
    · rw [skipFrom_opened_first hblanks (hblank c y rfl) hclosing] at h
      exact .inr h

/-- Of what is left, a value is passed over first. -/
def ValueFirst (cs : List Char) : Prop :=
  ∀ ⦃brackets rest⦄, skipFrom (.value, brackets) cs = .ok rest →
    ∃ gap v y, AllBlank gap ∧ Derives .value v ∧ cs = gap ++ (v ++ y) ∧
      skipFrom (.closed, brackets) y = .ok rest

/-- The key of a member, up to the value. -/
theorem key_of_skipFrom (h : skipFrom (.member, brackets) cs = .ok rest) :
    ∃ before t between y, AllBlank before ∧ IsText t ∧ AllBlank between ∧
      cs = before ++ '"' :: (t ++ '"' :: (between ++ ':' :: y)) ∧
      skipFrom (.value, brackets) y = .ok rest := by
  obtain ⟨before, y, rfl, hbefore, hblank⟩ := exists_span isBlank cs
  rw [skipFrom_member_blanks hbefore] at h
  obtain ⟨c, y, next, rfl, hadvance, hnext⟩ := exists_next h rfl
  simp only [advance, beginMember, hblank c y rfl, Bool.false_eq_true, if_false] at hadvance
  split at hadvance
  next hquote =>
    cases hadvance
    obtain ⟨t, y, text, rfl, hcolon⟩ := text_of_skipFrom hnext
    obtain ⟨between, y, rfl, hbetween, hblank⟩ := exists_span isBlank y
    rw [if_pos rfl, skipFrom_colon_blanks hbetween] at hcolon
    obtain ⟨c, y, next, rfl, hadvance, hvalue⟩ := exists_next hcolon rfl
    simp only [advance, hblank c y rfl, Bool.false_eq_true, if_false] at hadvance
    split at hadvance
    next hcolon =>
      cases hadvance
      exact ⟨before, t, between, y, hbefore, text, hbetween, by rw [hquote, hcolon], hvalue⟩
    next => cases hadvance
  next => cases hadvance

theorem item_of_skipFrom {b : Bracket} (hvalue : ∀ y, y.length ≤ cs.length → ValueFirst y)
    (h : skipFrom (b.start, b :: brackets) cs = .ok rest) :
    ∃ x c y, Derives (.item b) x ∧ cs = x ++ c :: y ∧
      (c = b.closing ∧ skipFrom (.closed, brackets) y = .ok rest ∨
        c = ',' ∧ skipFrom (b.start, b :: brackets) y = .ok rest) := by
  cases b with
  | array =>
    obtain ⟨before, v, y, hbefore, value, rfl, hclosed⟩ := hvalue cs (Nat.le_refl _) h
    obtain ⟨after, c, y, hafter, rfl, hnext⟩ := closed_of_skipFrom hclosed
    exact ⟨_, c, y, .element hbefore value hafter, by simp, hnext⟩
  | object =>
    obtain ⟨before, t, between, y, hbefore, text, hbetween, rfl, hread⟩ := key_of_skipFrom h
    obtain ⟨gap, v, y, hgap, value, rfl, hclosed⟩ := hvalue y (by simp; omega) hread
    obtain ⟨after, c, y, hafter, rfl, hnext⟩ := closed_of_skipFrom hclosed
    exact ⟨_, c, y, .member hbefore text hbetween hgap value hafter, by simp, hnext⟩

/-- The items of a pair of brackets are passed over up to the closing one. -/
theorem items_of_skipFrom {b : Bracket} (hvalue : ∀ y, y.length ≤ cs.length → ValueFirst y)
    (h : skipFrom (b.start, b :: brackets) cs = .ok rest) :
    ∃ xs y, Derives (.items b) xs ∧ cs = xs ++ b.closing :: y ∧
      skipFrom (.closed, brackets) y = .ok rest := by
  induction hlength : cs.length using Nat.strongRecOn generalizing cs with
  | ind n ih =>
    obtain ⟨x, c, y, item, rfl, ⟨rfl, hclosed⟩ | ⟨rfl, hmore⟩⟩ := item_of_skipFrom hvalue h
    · exact ⟨x, y, .last item, rfl, hclosed⟩
    · have hshorter : y.length < n := by
        rw [← hlength, List.length_append, List.length_cons]
        omega
      obtain ⟨xs, y, items, rfl, hrest⟩ :=
        ih y.length hshorter (fun z hz => hvalue z (by omega)) hmore rfl
      exact ⟨_, y, .more item items, by simp, hrest⟩

/-- What an opening bracket leads to is one value with its closing bracket. -/
theorem bracket_of_skipFrom (b : Bracket) (hvalue : ∀ y, y.length ≤ cs.length → ValueFirst y)
    (h : skipFrom (.opened, b :: brackets) cs = .ok rest) :
    ∃ v y, Derives .value v ∧ b.opening :: cs = v ++ y ∧
      skipFrom (.closed, brackets) y = .ok rest := by
  rcases opened_of_skipFrom h with ⟨blanks, y, hblanks, rfl, hrest⟩ | hstart
  · exact ⟨_, y, .empty b hblanks, by simp, hrest⟩
  · obtain ⟨xs, y, items, rfl, hrest⟩ := items_of_skipFrom hvalue hstart
    exact ⟨_, y, .full items, by simp, hrest⟩

/-- Whatever the skipper meets where a value has to be, a value is passed over first. -/
theorem valueFirst (cs : List Char) : ValueFirst cs := by
  -- what stands in brackets is nested in less text than is left
  induction hlength : cs.length using Nat.strongRecOn generalizing cs with
  | ind n ih =>
    intro brackets rest h
    obtain ⟨gap, y, rfl, hgap, hblank⟩ := exists_span isBlank cs
    rw [skipFrom_value_blanks hgap] at h
    obtain ⟨c, y, next, rfl, hadvance, hnext⟩ := exists_next h rfl
    have hshorter (z : List Char) (hz : z.length ≤ y.length) : ValueFirst z := by
      rw [List.length_append, List.length_cons] at hlength
      exact ih z.length (by omega) z rfl
    suffices hvalue : ∃ v z, Derives .value v ∧ c :: y = v ++ z ∧
        skipFrom (.closed, brackets) z = .ok rest by
      obtain ⟨v, z, value, heq, hrest⟩ := hvalue
      exact ⟨gap, v, z, hgap, value, by rw [heq], hrest⟩
    simp only [advance, beginValue, hblank c y rfl, Bool.false_eq_true, if_false] at hadvance
    -- one case for each first character of a value
    split_ifs at hadvance with hnull htrue hfalse hquote hminus hzero hdigit harray hobject <;>
      cases hadvance
    · obtain ⟨z, rfl, hrest⟩ := word_of_skipFrom hnext
      exact ⟨_, z, .null, by rw [hnull]; rfl, hrest⟩
    · obtain ⟨z, rfl, hrest⟩ := word_of_skipFrom hnext
      exact ⟨_, z, .true, by rw [htrue]; rfl, hrest⟩
    · obtain ⟨z, rfl, hrest⟩ := word_of_skipFrom hnext
      exact ⟨_, z, .false, by rw [hfalse]; rfl, hrest⟩
    · obtain ⟨t, z, text, rfl, hrest⟩ := text_of_skipFrom hnext
      exact ⟨_, z, .string text, by simp [hquote], hrest⟩
    · obtain ⟨whole, fraction, exponent, z, isWhole, isFraction, isExponent, heq, hrest⟩ :=
        unsigned_of_minus hnext
      exact ⟨_, z, .number .minus isWhole isFraction isExponent, by simp [hminus, heq], hrest⟩
    · obtain ⟨whole, fraction, exponent, z, isWhole, isFraction, isExponent, heq, hrest⟩ :=
        number_of_skipFrom (.inl ⟨hzero, rfl⟩) hnext
      exact ⟨_, z, .number .none isWhole isFraction isExponent, by simp [heq], hrest⟩
    · obtain ⟨whole, fraction, exponent, z, isWhole, isFraction, isExponent, heq, hrest⟩ :=
        number_of_skipFrom (.inr ⟨hzero, hdigit, rfl⟩) hnext
      exact ⟨_, z, .number .none isWhole isFraction isExponent, by simp [heq], hrest⟩
    · rw [harray]
      exact bracket_of_skipFrom .array hshorter hnext
    · rw [hobject]
      exact bracket_of_skipFrom .object hshorter hnext

/-- All before `rest` is one value, with blanks before it. -/
def OneValue (cs rest : List Char) : Prop :=
  ∃ gap v, AllBlank gap ∧ Derives .value v ∧ cs = gap ++ (v ++ rest)

/-- What is skipped is one value. -/
theorem oneValue_of_skipValue (h : skipValue cs = .ok rest) : OneValue cs rest := by
  obtain ⟨gap, v, y, hgap, value, rfl, hrest⟩ := valueFirst cs h
  have hend : skipFrom (.closed, []) y = .ok y := by cases y <;> rfl
  rw [hend] at hrest
  cases hrest
  exact ⟨gap, v, hgap, value, rfl⟩

end MqttLink.Json
