import MqttLink.Proofs.Grammar

/-!
Skipping values. Main statement: of whatever the grammar derives, the skipper passes over just one
value, however deeply it is nested, and does not look at what follows it.
-/

namespace MqttLink.Json

/-! ## One character after the other -/

variable {brackets : List Bracket} {cs rest : List Char} {c : Char}

theorem skipFrom_advance (place : Place) (hcontinues : place.continues c)
    (hinside : (place = .closed && brackets.isEmpty) = false) :
    skipFrom (place, brackets) (c :: cs) =
      (advance c cs (place, brackets)).bind fun next => skipFrom next cs := by
  have hsettle : settle c (place, brackets) = (place, brackets) := by
    rw [settle, if_pos hcontinues]
  rw [skipFrom, hsettle]
  split
  next heq =>
    cases heq
    cases hinside
  next => cases advance c cs (place, brackets) <;> rfl

/-- The skipper goes on by one character. -/
theorem skipFrom_cons (place : Place) (next : Standing) (hcontinues : place.continues c)
    (hinside : (place = .closed && brackets.isEmpty) = false)
    (hadvance : advance c cs (place, brackets) = .ok next) :
    skipFrom (place, brackets) (c :: cs) = skipFrom next cs := by
  rw [skipFrom_advance place hcontinues hinside, hadvance]
  rfl

/-- Where blanks are passed over. -/
theorem skipFrom_blanks (place : Place) {blanks : List Char} (hblanks : AllBlank blanks)
    (hcontinues : ∀ c, place.continues c)
    (hinside : (place = .closed && brackets.isEmpty) = false)
    (hstay : ∀ c cs, isBlank c → advance c cs (place, brackets) = .ok (place, brackets))
    (cs : List Char) :
    skipFrom (place, brackets) (blanks ++ cs) = skipFrom (place, brackets) cs := by
  induction blanks with
  | nil => rfl
  | cons b bs ih =>
    rw [List.cons_append, skipFrom_cons place (place, brackets) (hcontinues b) hinside
      (hstay b _ (hblanks b (List.mem_cons_self ..)))]
    exact ih fun c hc => hblanks c (List.mem_cons_of_mem _ hc)

/-- Where a number may end, it is over when nothing goes on with it. -/
theorem skipFrom_over {place : Place} (hplace : place.endsNumber)
    (hover : ∀ c cs, rest = c :: cs → place.continues c = false) :
    skipFrom (place, brackets) rest = skipFrom (.closed, brackets) rest := by
  cases rest with
  | nil =>
    cases place with
    | zero | whole | fraction | exponent => rfl
    | _ => cases hplace
  | cons c cs =>
    have hclosed : Place.closed.continues c = true := rfl
    have hsettle : settle c (place, brackets) = settle c (.closed, brackets) := by
      simp only [settle, hover c cs rfl, hclosed, if_true, Bool.false_eq_true, if_false]
    rw [skipFrom, hsettle, ← skipFrom]

theorem skipFrom_ends {place : Place} (hplace : place.endsNumber) (h : Ends rest) :
    skipFrom (place, brackets) rest = skipFrom (.closed, brackets) rest := by
  refine skipFrom_over hplace fun c cs heq => ?_
  subst heq
  simp only [Ends, endsNumber, Bool.and_eq_true, Bool.not_eq_true', bne_iff_ne] at h
  obtain ⟨⟨⟨hdigit, hpoint⟩, hsmall⟩, hlarge⟩ := h
  cases place with
  | zero | whole | fraction | exponent =>
    simp [Place.continues, hdigit, hpoint, hsmall, hlarge]
  | _ => cases hplace

/-- Among the digits of a number, one more leads nowhere else. -/
theorem advance_digit {place : Place}
    (hplace : place = .whole ∨ place = .fraction ∨ place = .exponent) {d : Char} (h : isDigit d)
    (brackets : List Bracket) (cs : List Char) :
    place.continues d ∧ advance d cs (place, brackets) = .ok (place, brackets) := by
  rcases hplace with rfl | rfl | rfl <;> simp [Place.continues, advance, h]

theorem skipFrom_digits {place : Place}
    (hplace : place = .whole ∨ place = .fraction ∨ place = .exponent) {ds : List Char}
    (hds : ∀ d ∈ ds, isDigit d) (cs : List Char) :
    skipFrom (place, brackets) (ds ++ cs) = skipFrom (place, brackets) cs := by
  induction ds with
  | nil => rfl
  | cons d ds ih =>
    obtain ⟨hfirst, hothers⟩ := List.forall_mem_cons.mp hds
    obtain ⟨hcontinues, hadvance⟩ := advance_digit hplace hfirst brackets (ds ++ cs)
    have hinside : (place = .closed && brackets.isEmpty) = false := by
      rcases hplace with rfl | rfl | rfl <;> rfl
    rw [List.cons_append, skipFrom_cons place _ hcontinues hinside hadvance]
    exact ih hothers

/-! ## Skipping strings and numbers -/

theorem skipFrom_code {ds : List Char} {n : Nat} (h : Code ds n) (key : Bool) (cs : List Char) :
    skipFrom (.code key 0, brackets) (ds ++ cs) = skipFrom (.string key, brackets) cs := by
  cases h with
  | @intro a b c d w x y z first second third fourth =>
    have hstep {k m : Nat} {c : Char} (hc : Text.hexValue? c = some m) (hk : k < 3)
        (rest : List Char) : skipFrom (.code key k, brackets) (c :: rest) =
          skipFrom (.code key (k + 1), brackets) rest :=
      skipFrom_cons (.code key k) _ rfl rfl (by simp [advance, hc, hk])
    have hlast : skipFrom (.code key 3, brackets) (d :: cs) =
        skipFrom (.string key, brackets) cs :=
      skipFrom_cons (.code key 3) _ rfl rfl (by simp [advance, fourth])
    calc skipFrom (.code key 0, brackets) (a :: b :: c :: d :: cs)
      _ = skipFrom (.code key 1, brackets) (b :: c :: d :: cs) := hstep first (by omega) _
      _ = skipFrom (.code key 2, brackets) (c :: d :: cs) := hstep second (by omega) _
      _ = skipFrom (.code key 3, brackets) (d :: cs) := hstep third (by omega) _
      _ = skipFrom (.string key, brackets) cs := hlast

theorem skipFrom_text {t : List Char} (h : IsText t) (key : Bool) (rest : List Char) :
    skipFrom (.string key, brackets) (t ++ '"' :: rest) =
      skipFrom (if key then .colon else .closed, brackets) rest := by
  have hbackslash (cs : List Char) : skipFrom (.string key, brackets) ('\\' :: cs) =
      skipFrom (.escaped key, brackets) cs :=
    skipFrom_cons (.string key) _ rfl rfl (by simp [advance])
  induction h with
  | nil => exact skipFrom_cons (.string key) _ rfl rfl (by simp [advance])
  | @plain c cs quote backslash control _ ih =>
    have hstep : skipFrom (.string key, brackets) (c :: (cs ++ '"' :: rest)) =
        skipFrom (.string key, brackets) (cs ++ '"' :: rest) :=
      skipFrom_cons (.string key) _ rfl rfl (by simp [advance, quote, backslash, control])
    exact hstep.trans ih
  | @escape c d cs letter _ ih =>
    have hletter := ne_mark_of_unescape? letter
    have hstep : skipFrom (.escaped key, brackets) (c :: (cs ++ '"' :: rest)) =
        skipFrom (.string key, brackets) (cs ++ '"' :: rest) :=
      skipFrom_cons (.escaped key) _ rfl rfl (by simp [advance, hletter, letter])
    exact (hbackslash _).trans (hstep.trans ih)
  | @code ds cs n digits _ ih =>
    have hstep : skipFrom (.escaped key, brackets) ('u' :: (ds ++ (cs ++ '"' :: rest))) =
        skipFrom (.code key 0, brackets) (ds ++ (cs ++ '"' :: rest)) :=
      skipFrom_cons (.escaped key) _ rfl rfl (by simp [advance])
    rw [List.cons_append, List.cons_append, List.append_assoc, hbackslash, hstep,
      skipFrom_code digits, ih]

/-- From `place` on, digits lead to `after` and stay there. -/
theorem skipFrom_someDigits (place after : Place)
    (hinside : (place = .closed && brackets.isEmpty) = false)
    (hafter : after = .whole ∨ after = .fraction ∨ after = .exponent)
    (hfirst : ∀ d cs, isDigit d → place.continues d ∧
      advance d cs (place, brackets) = .ok (after, brackets)) {ds : List Char} (h : IsDigits ds)
    (cs : List Char) :
    skipFrom (place, brackets) (ds ++ cs) = skipFrom (after, brackets) cs := by
  obtain ⟨hnonempty, hdigits⟩ := h
  cases ds with
  | nil => exact absurd rfl hnonempty
  | cons d ds =>
    obtain ⟨hone, hothers⟩ := List.forall_mem_cons.mp hdigits
    obtain ⟨hcontinues, hadvance⟩ := hfirst d (ds ++ cs) hone
    rw [List.cons_append, skipFrom_cons place _ hcontinues hinside hadvance]
    exact skipFrom_digits hafter hothers cs

theorem skipFrom_mark {place : Place} (hplace : place = .zero ∨ place = .whole ∨ place = .fraction)
    {e : Char} (h : e = 'e' ∨ e = 'E') (cs : List Char) :
    skipFrom (place, brackets) (e :: cs) = skipFrom (.mark, brackets) cs := by
  rcases h with rfl | rfl <;> rcases hplace with rfl | rfl | rfl <;>
    exact skipFrom_cons _ (.mark, brackets) rfl rfl rfl

theorem skipFrom_exponent {place : Place}
    (hplace : place = .zero ∨ place = .whole ∨ place = .fraction) {exponent : List Char}
    (h : IsExponent exponent) (hends : Ends rest) :
    skipFrom (place, brackets) (exponent ++ rest) = skipFrom (.closed, brackets) rest := by
  cases h with
  | none =>
    refine skipFrom_ends ?_ hends
    rcases hplace with rfl | rfl | rfl <;> rfl
  | @some e sign ds mark isSign digits =>
    have hfirst {start : Place} (hstart : start = .mark ∨ start = .sign) (d : Char)
        (cs : List Char) (hd : isDigit d) : start.continues d ∧
          advance d cs (start, brackets) = .ok (.exponent, brackets) := by
      have hplus : d ≠ '+' := ne_of_isDigit hd (by decide)
      have hminus : d ≠ '-' := ne_of_isDigit hd (by decide)
      rcases hstart with rfl | rfl <;> simp [Place.continues, advance, hd, hplus, hminus]
    have hsign : skipFrom (.mark, brackets) (sign ++ (ds ++ rest)) =
        skipFrom (.exponent, brackets) rest := by
      cases isSign with
      | none =>
        exact skipFrom_someDigits .mark .exponent rfl (.inr (.inr rfl)) (hfirst (.inl rfl)) digits
          rest
      | plus | minus =>
        exact (skipFrom_cons .mark (.sign, brackets) rfl rfl rfl).trans
          (skipFrom_someDigits .sign .exponent rfl (.inr (.inr rfl)) (hfirst (.inr rfl)) digits
            rest)
    rw [List.cons_append, List.append_assoc, skipFrom_mark hplace mark, hsign]
    exact skipFrom_ends rfl hends

theorem skipFrom_point {place : Place} (hplace : place = .zero ∨ place = .whole) (cs : List Char) :
    skipFrom (place, brackets) ('.' :: cs) = skipFrom (.point, brackets) cs := by
  rcases hplace with rfl | rfl <;> exact skipFrom_cons _ (.point, brackets) rfl rfl rfl

theorem skipFrom_fraction {place : Place} (hplace : place = .zero ∨ place = .whole)
    {fraction exponent : List Char} (h : IsFraction fraction) (he : IsExponent exponent)
    (hends : Ends rest) : skipFrom (place, brackets) (fraction ++ (exponent ++ rest)) =
      skipFrom (.closed, brackets) rest := by
  cases h with
  | none =>
    refine skipFrom_exponent ?_ he hends
    rcases hplace with rfl | rfl
    · exact .inl rfl
    · exact .inr (.inl rfl)
  | @some ds digits =>
    have hfirst (d : Char) (cs : List Char) (hd : isDigit d) : Place.point.continues d ∧
        advance d cs (.point, brackets) = .ok (.fraction, brackets) := by
      simp [Place.continues, advance, hd]
    rw [List.cons_append, skipFrom_point hplace,
      skipFrom_someDigits .point .fraction rfl (.inr (.inl rfl)) hfirst digits]
    exact skipFrom_exponent (.inr (.inr rfl)) he hends

theorem skipFrom_number {sign whole fraction exponent : List Char} (hsign : IsSign sign)
    (hwhole : IsWhole whole) (hfraction : IsFraction fraction) (hexponent : IsExponent exponent)
    (hends : Ends rest) :
    skipFrom (.value, brackets) (sign ++ (whole ++ (fraction ++ exponent)) ++ rest) =
      skipFrom (.closed, brackets) rest := by
  have hstart {place : Place} (hplace : place = .value ∨ place = .minus) :
      skipFrom (place, brackets) (whole ++ (fraction ++ (exponent ++ rest))) =
        skipFrom (.closed, brackets) rest := by
    cases hwhole with
    | zero =>
      have hzero (cs : List Char) :
          skipFrom (place, brackets) ('0' :: cs) = skipFrom (.zero, brackets) cs := by
        rcases hplace with rfl | rfl <;> exact skipFrom_cons _ (.zero, brackets) rfl rfl rfl
      exact (hzero _).trans (skipFrom_fraction (.inl rfl) hfraction hexponent hends)
    | @digits d ds first nonzero others =>
      have hblank := isBlank_of_isDigit first
      have hne := ne_starts_of_isDigit first
      have hbegin (cs : List Char) :
          skipFrom (place, brackets) (d :: cs) = skipFrom (.whole, brackets) cs := by
        rcases hplace with rfl | rfl
        · exact skipFrom_cons .value _ rfl rfl
            (by simp [advance, beginValue, hblank, hne, nonzero, first])
        · exact skipFrom_cons .minus _ rfl rfl (by simp [advance, nonzero, first])
      rw [List.cons_append, hbegin, skipFrom_digits (.inl rfl) others]
      exact skipFrom_fraction (.inr rfl) hfraction hexponent hends
  rw [List.append_assoc, List.append_assoc, List.append_assoc]
  cases hsign with
  | none => exact hstart (.inl rfl)
  | minus => exact (skipFrom_cons .value (.minus, brackets) rfl rfl rfl).trans (hstart (.inr rfl))

/-! ## Skipping values -/

/-- The place before what stands between two commas. -/
def Bracket.start : Bracket → Place
  | .array => .value
  | .object => .member

theorem Bracket.continues_start (b : Bracket) (c : Char) : b.start.continues c := by
  cases b <;> rfl

section

variable {blanks : List Char} (h : AllBlank blanks) (brackets : List Bracket) (cs : List Char)
include h

theorem skipFrom_value_blanks :
    skipFrom (.value, brackets) (blanks ++ cs) = skipFrom (.value, brackets) cs :=
  skipFrom_blanks .value h (fun _ => rfl) rfl
    (fun c cs hc => by simp [advance, beginValue, hc]) cs

theorem skipFrom_member_blanks :
    skipFrom (.member, brackets) (blanks ++ cs) = skipFrom (.member, brackets) cs :=
  skipFrom_blanks .member h (fun _ => rfl) rfl
    (fun c cs hc => by simp [advance, beginMember, hc]) cs

theorem skipFrom_colon_blanks :
    skipFrom (.colon, brackets) (blanks ++ cs) = skipFrom (.colon, brackets) cs :=
  skipFrom_blanks .colon h (fun _ => rfl) rfl (fun c cs hc => by simp [advance, hc]) cs

theorem skipFrom_opened_blanks (b : Bracket) :
    skipFrom (.opened, b :: brackets) (blanks ++ cs) = skipFrom (.opened, b :: brackets) cs :=
  skipFrom_blanks .opened h (fun _ => rfl) rfl (fun c cs hc => by simp [advance, hc]) cs

theorem skipFrom_closed_blanks (b : Bracket) :
    skipFrom (.closed, b :: brackets) (blanks ++ cs) = skipFrom (.closed, b :: brackets) cs :=
  skipFrom_blanks .closed h (fun _ => rfl) rfl
    (fun c cs hc => by simp [advance, hc]) cs

end

theorem isBlank_closing (b : Bracket) : isBlank b.closing = false := by
  cases b <;> decide

/-- A closing bracket closes an empty pair, and one after an item as well. -/
theorem skipFrom_closing (b : Bracket) (brackets : List Bracket) (rest : List Char) :
    skipFrom (.opened, b :: brackets) (b.closing :: rest) = skipFrom (.closed, brackets) rest ∧
      skipFrom (.closed, b :: brackets) (b.closing :: rest) =
        skipFrom (.closed, brackets) rest := by
  constructor
  · exact skipFrom_cons .opened (.closed, brackets) rfl rfl (by simp [advance, isBlank_closing])
  · exact skipFrom_cons .closed (.closed, brackets) rfl rfl
      (by simp [advance, isBlank_closing])

theorem exists_first_of_item {b : Bracket} {x : List Char} (h : Derives (.item b) x) :
    ∃ blanks c cs, x = blanks ++ c :: cs ∧ AllBlank blanks ∧ isBlank c = false ∧
      c ≠ b.closing := by
  cases h with
  | @element before v after blankBefore value _ =>
    obtain ⟨c, cs, rfl, hblank, hbracket, -⟩ := exists_head value
    exact ⟨before, c, cs ++ after, rfl, blankBefore, hblank, hbracket⟩
  | @member before key between gap v after blankBefore =>
    exact ⟨before, '"', _, rfl, blankBefore, by decide, by decide⟩

theorem exists_first_of_items {b : Bracket} {xs : List Char} (h : Derives (.items b) xs) :
    ∃ blanks c cs, xs = blanks ++ c :: cs ∧ AllBlank blanks ∧ isBlank c = false ∧
      c ≠ b.closing := by
  cases h with
  | last item => exact exists_first_of_item item
  | @more _ x xs item _ =>
    obtain ⟨blanks, c, cs, rfl, hrest⟩ := exists_first_of_item item
    exact ⟨blanks, c, cs ++ ',' :: xs, by simp, hrest⟩

/-- Right after an opening bracket, what does not close it is read as after a comma. -/
theorem skipFrom_opened_first {b : Bracket} {blanks : List Char} (hblanks : AllBlank blanks)
    (hblank : isBlank c = false) (hbracket : c ≠ b.closing) (brackets : List Bracket)
    (cs : List Char) : skipFrom (.opened, b :: brackets) (blanks ++ c :: cs) =
      skipFrom (b.start, b :: brackets) (blanks ++ c :: cs) := by
  have hsame : advance c cs (.opened, b :: brackets) = advance c cs (b.start, b :: brackets) := by
    cases b <;> simp [advance, hblank, hbracket, Bracket.start]
  have hblanksStart : skipFrom (b.start, b :: brackets) (blanks ++ c :: cs) =
      skipFrom (b.start, b :: brackets) (c :: cs) := by
    cases b with
    | array => exact skipFrom_value_blanks hblanks _ _
    | object => exact skipFrom_member_blanks hblanks _ _
  rw [skipFrom_opened_blanks hblanks, hblanksStart, skipFrom_advance .opened rfl rfl, hsame,
    skipFrom_advance b.start (b.continues_start c) (Bool.and_false _)]

theorem skipFrom_opened {b : Bracket} {xs : List Char} (h : Derives (.items b) xs)
    (brackets : List Bracket) (rest : List Char) :
    skipFrom (.opened, b :: brackets) (xs ++ rest) =
      skipFrom (b.start, b :: brackets) (xs ++ rest) := by
  obtain ⟨blanks, c, cs, rfl, hblanks, hblank, hbracket⟩ := exists_first_of_items h
  rw [List.append_assoc, List.cons_append]
  exact skipFrom_opened_first hblanks hblank hbracket brackets _

/-- The skipper passes over the text just when something that ends a value follows. -/
def Skipped : Form → List Char → Prop
  | .value, v => ∀ brackets rest, Ends rest →
    skipFrom (.value, brackets) (v ++ rest) = skipFrom (.closed, brackets) rest
  | .item b, x => ∀ brackets rest, Ends rest →
    skipFrom (b.start, b :: brackets) (x ++ rest) = skipFrom (.closed, b :: brackets) rest
  | .items b, xs => ∀ brackets rest,
    skipFrom (b.start, b :: brackets) (xs ++ b.closing :: rest) =
      skipFrom (.closed, brackets) rest

theorem skipFrom_opening (b : Bracket) (brackets : List Bracket) (cs : List Char) :
    skipFrom (.value, brackets) (b.opening :: cs) = skipFrom (.opened, b :: brackets) cs := by
  cases b <;> exact skipFrom_cons .value (.opened, _ :: brackets) rfl rfl rfl

theorem skipFrom_comma (b : Bracket) (brackets : List Bracket) (cs : List Char) :
    skipFrom (.closed, b :: brackets) (',' :: cs) = skipFrom (b.start, b :: brackets) cs := by
  cases b <;> exact skipFrom_cons .closed (_, _ :: brackets) rfl rfl rfl

/-- Whatever the grammar derives is passed over as a whole. -/
theorem skipped_of_derives {form : Form} {x : List Char} (h : Derives form x) : Skipped form x := by
  induction h with
  | null | true | false => exact fun _ _ _ => rfl
  | number isSign isWhole isFraction isExponent =>
    exact fun _ _ hends => skipFrom_number isSign isWhole isFraction isExponent hends
  | @string t text =>
    intro brackets rest _
    have hquote : skipFrom (.value, brackets) ('"' :: (t ++ '"' :: rest)) =
        skipFrom (.string false, brackets) (t ++ '"' :: rest) :=
      skipFrom_cons .value (.string false, brackets) rfl rfl rfl
    rw [List.cons_append, List.append_assoc, List.singleton_append, hquote]
    exact skipFrom_text text false rest
  | @empty b inside blank =>
    intro brackets rest _
    rw [List.cons_append, List.append_assoc, List.singleton_append, skipFrom_opening,
      skipFrom_opened_blanks blank]
    exact (skipFrom_closing b brackets rest).1
  | @full b xs items ih =>
    intro brackets rest _
    rw [List.cons_append, List.append_assoc, List.singleton_append, skipFrom_opening,
      skipFrom_opened items]
    exact ih brackets rest
  | @last b x _ ih =>
    intro brackets rest
    rw [ih brackets _ (ends_cons (endsNumber_closing b) rest)]
    exact (skipFrom_closing b brackets rest).2
  | @more b x xs _ _ ih ihrest =>
    intro brackets rest
    have hcomma : Ends (',' :: (xs ++ b.closing :: rest)) := ends_cons (by decide) _
    rw [List.append_assoc, List.cons_append, ih brackets _ hcomma, skipFrom_comma]
    exact ihrest brackets rest
  | @element before v after blankBefore _ blankAfter ih =>
    intro brackets rest hends
    rw [List.append_assoc, List.append_assoc]
    calc skipFrom (.value, .array :: brackets) (before ++ (v ++ (after ++ rest)))
      _ = skipFrom (.value, .array :: brackets) (v ++ (after ++ rest)) :=
        skipFrom_value_blanks blankBefore _ _
      _ = skipFrom (.closed, .array :: brackets) (after ++ rest) :=
        ih _ _ (ends_append blankAfter hends)
      _ = skipFrom (.closed, .array :: brackets) rest := skipFrom_closed_blanks blankAfter _ _ _
  | @member before key between gap v after blankBefore text blankBetween blankGap _ blankAfter ih =>
    intro brackets rest hends
    simp only [List.append_assoc, List.cons_append]
    calc skipFrom (.member, .object :: brackets)
          (before ++ '"' :: (key ++ '"' :: (between ++ ':' :: (gap ++ (v ++ (after ++ rest))))))
      _ = skipFrom (.member, .object :: brackets)
          ('"' :: (key ++ '"' :: (between ++ ':' :: (gap ++ (v ++ (after ++ rest)))))) :=
        skipFrom_member_blanks blankBefore _ _
      _ = skipFrom (.string true, .object :: brackets)
          (key ++ '"' :: (between ++ ':' :: (gap ++ (v ++ (after ++ rest))))) :=
        skipFrom_cons .member (.string true, .object :: brackets) rfl rfl rfl
      _ = skipFrom (.colon, .object :: brackets)
          (between ++ ':' :: (gap ++ (v ++ (after ++ rest)))) := skipFrom_text text true _
      _ = skipFrom (.colon, .object :: brackets) (':' :: (gap ++ (v ++ (after ++ rest)))) :=
        skipFrom_colon_blanks blankBetween _ _
      _ = skipFrom (.value, .object :: brackets) (gap ++ (v ++ (after ++ rest))) :=
        skipFrom_cons .colon (.value, .object :: brackets) rfl rfl rfl
      _ = skipFrom (.value, .object :: brackets) (v ++ (after ++ rest)) :=
        skipFrom_value_blanks blankGap _ _
      _ = skipFrom (.closed, .object :: brackets) (after ++ rest) :=
        ih _ _ (ends_append blankAfter hends)
      _ = skipFrom (.closed, .object :: brackets) rest := skipFrom_closed_blanks blankAfter _ _ _

/-- Just one value is skipped, with the blanks before it. -/
theorem skipValue_derives {blanks v : List Char} (hblanks : AllBlank blanks)
    (h : Derives .value v) (hends : Ends rest) : skipValue (blanks ++ (v ++ rest)) = .ok rest := by
  have hskipped : ∀ brackets rest, Ends rest →
    skipFrom (.value, brackets) (v ++ rest) = skipFrom (.closed, brackets) rest :=
    skipped_of_derives h
  rw [skipValue, skipFrom_value_blanks hblanks, hskipped [] rest hends]
  cases rest <;> rfl

end MqttLink.Json
