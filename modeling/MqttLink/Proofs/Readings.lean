import MqttLink.Proofs.Skipping
import MqttLink.Settings.Reader

/-!
What a reader makes of a value. Main statement: it is the same, fault or not, whatever follows the
value, and all that follows is left.
-/

namespace MqttLink.Json

variable {α ε : Type}

/-- What was read, with `rest` left. -/
def leaving (rest : List Char) (r : Except ε (α × List Char)) : Except ε (α × List Char) :=
  r.map fun p => (p.1, rest)

@[simp]
theorem leaving_ok (rest : List Char) (p : α × List Char) :
    leaving (ε := ε) rest (.ok p) = .ok (p.1, rest) := rfl

@[simp]
theorem leaving_error (rest : List Char) (e : ε) :
    leaving (α := α) rest (.error e) = .error e := rfl

/-! ## Strings -/

/-- Between two characters, or two codes of a pair. -/
def StringState.between : StringState → Bool
  | .plain | .partnerBackslash _ => true
  | _ => false

theorem between_of_closeCode {leading : Option Nat} {n : Nat} {state : StringState}
    {decoded : Option Char} (h : closeCode leading n = .ok (state, decoded)) : state.between := by
  unfold closeCode at h
  split at h
  · split at h <;> cases h
    rfl
  · split at h
    · cases h
    · split at h <;> cases h <;> rfl

/-- What four digits lead to. -/
def afterCode (acc cs : List Char) :
    Except TextFault (StringState × Option Char) → Except TextFault (List Char × List Char)
  | .error e => .error e
  | .ok (state, some d) => readString state (d :: acc) cs
  | .ok (state, none) => readString state acc cs

theorem readString_code {ds : List Char} {n : Nat} (h : Code ds n) (leading : Option Nat)
    (acc cs : List Char) :
    readString (.code leading 0 0) acc (ds ++ cs) = afterCode acc cs (closeCode leading n) := by
  cases h with
  | intro first second third fourth =>
    simp only [List.cons_append, List.nil_append, readString, first, second, third, fourth,
      Nat.zero_mul, Nat.zero_add, Nat.reduceAdd, Nat.reduceLT, if_true, if_false]
    rfl

/-- What follows a string makes no difference to it. -/
theorem readString_text {t : List Char} (h : IsText t) {state : StringState}
    (hstate : state.between) (acc rest : List Char) :
    readString state acc (t ++ '"' :: rest) =
      leaving rest (readString state acc (t ++ ['"'])) := by
  induction h generalizing state acc with
  | nil =>
    cases state with
    | plain | partnerBackslash => rfl
    | _ => cases hstate
  | @plain c cs quote backslash control _ ih =>
    cases state with
    | plain => simpa [readString, quote, backslash, control] using ih rfl (c :: acc)
    | partnerBackslash => simp [readString, backslash]
    | _ => cases hstate
  | @escape c d cs letter _ ih =>
    have hletter := ne_mark_of_unescape? letter
    cases state with
    | plain => simpa [readString, hletter, letter] using ih rfl (d :: acc)
    | partnerBackslash => simp [readString, hletter]
    | _ => cases hstate
  | @code ds cs n digits _ ih =>
    have hafter (leading : Option Nat) :
        readString (.code leading 0 0) acc (ds ++ (cs ++ '"' :: rest)) =
          leaving rest (readString (.code leading 0 0) acc (ds ++ (cs ++ ['"']))) := by
      rw [readString_code digits, readString_code digits]
      cases hclose : closeCode leading n with
      | error => rfl
      | ok p =>
        obtain ⟨state, _ | d⟩ := p
        · exact ih (between_of_closeCode hclose) acc
        · exact ih (between_of_closeCode hclose) (d :: acc)
    cases state with
    | plain => simpa [readString] using hafter none
    | partnerBackslash leading => simpa [readString] using hafter (some leading)
    | _ => cases hstate

/-! ## Numbers -/

theorem takeWhile_digits {ds rest : List Char} (hds : ∀ d ∈ ds, isDigit d) (h : NoDigit rest) :
    (ds ++ rest).takeWhile isDigit = ds ∧ (ds ++ rest).dropWhile isDigit = rest := by
  rw [List.takeWhile_append_of_pos hds, List.dropWhile_append_of_pos hds]
  cases rest with
  | nil => simp
  | cons c cs =>
    have hc : isDigit c = false := h
    simp [hc]

theorem closeDouble_leaving (negative : Bool) (g : Gathered) (rest : List Char) :
    closeDouble negative g rest = leaving rest (closeDouble negative g []) := by
  unfold closeDouble
  cases g.toDouble? <;> rfl

theorem closeWhole_leaving (negative : Bool) (g : Gathered) (rest : List Char) :
    closeWhole negative g rest = leaving rest (closeWhole negative g []) := by
  unfold closeWhole
  split
  · exact closeDouble_leaving negative g rest
  · split <;> rfl

/-- What is left to do of an exponent after its sign. -/
def afterSign (negative : Bool) (g : Gathered) (down : Bool) (cs : List Char) :
    Except TextFault (Number × List Char) :=
  let digits := cs.takeWhile isDigit
  let rest := cs.dropWhile isDigit
  match digits with
  | [] => .error (if cs.isEmpty then .truncated else .malformed)
  | _ =>
    let n := digits.foldl (fun n c => if 2147483648 ≤ n then n else n * 10 + digitValue c) 0
    if 2147483648 ≤ n then
      if g.significand ≠ 0 && !down then .error .malformed
      else .ok (.fractional (signed negative 0), rest)
    else
      let shift := if down then -Int.ofNat n else n
      closeDouble negative { g with exponent := g.exponent + shift } rest

theorem afterSign_leaving (negative : Bool) (g : Gathered) (down : Bool) {ds rest : List Char}
    (hds : IsDigits ds) (hends : Ends rest) :
    afterSign negative g down (ds ++ rest) = leaving rest (afterSign negative g down ds) := by
  obtain ⟨htake, hdrop⟩ := takeWhile_digits hds.digits (noDigit_of_ends hends)
  obtain ⟨htake', hdrop'⟩ := takeWhile_digits hds.digits (show NoDigit [] from trivial)
  rw [List.append_nil] at htake' hdrop'
  obtain ⟨d, others, rfl⟩ := List.exists_cons_of_ne_nil hds.nonempty
  simp only [afterSign, htake, hdrop, htake', hdrop']
  split
  · split <;> rfl
  · exact closeDouble_leaving negative _ rest

/-- The sign of an exponent, and what comes after it. -/
theorem exists_afterSign (negative : Bool) (g : Gathered) {sign ds : List Char}
    (hsign : IsExponentSign sign) (hds : IsDigits ds) : ∃ down, ∀ rest,
      readExponent negative g (sign ++ (ds ++ rest)) = afterSign negative g down (ds ++ rest) := by
  cases hsign with
  | plus => exact ⟨false, fun _ => rfl⟩
  | minus => exact ⟨true, fun _ => rfl⟩
  | none =>
    refine ⟨false, fun rest => ?_⟩
    obtain ⟨hnonempty, hdigits⟩ := hds
    cases ds with
    | nil => exact absurd rfl hnonempty
    | cons d ds =>
      have hfirst := hdigits d (List.mem_cons_self ..)
      rw [List.nil_append, List.cons_append, readExponent]
      · rfl
      · exact fun _ h => ne_of_isDigit hfirst (by decide) (List.cons.inj h).1
      · exact fun _ h => ne_of_isDigit hfirst (by decide) (List.cons.inj h).1

theorem readExponent_leaving (negative : Bool) (g : Gathered) {sign ds rest : List Char}
    (hsign : IsExponentSign sign) (hds : IsDigits ds) (hends : Ends rest) :
    readExponent negative g (sign ++ (ds ++ rest)) =
      leaving rest (readExponent negative g (sign ++ ds)) := by
  obtain ⟨down, hdown⟩ := exists_afterSign negative g hsign hds
  have halone := hdown []
  rw [List.append_nil] at halone
  rw [hdown, halone]
  exact afterSign_leaving negative g down hds hends

theorem noDigit_exponent {exponent rest : List Char} (h : IsExponent exponent)
    (hrest : NoDigit rest) : NoDigit (exponent ++ rest) := by
  cases h with
  | none => exact hrest
  | some mark =>
    rcases mark with rfl | rfl
    · exact (by decide : isDigit 'e' = false)
    · exact (by decide : isDigit 'E' = false)

theorem noDigit_fraction {fraction rest : List Char} (h : IsFraction fraction)
    (hrest : NoDigit rest) : NoDigit (fraction ++ rest) := by
  cases h with
  | none => exact hrest
  | some => exact (by decide : isDigit '.' = false)

/-- What ends a number is no part of it. -/
theorem ne_of_ends {c : Char} {cs : List Char} (h : Ends (c :: cs)) :
    c ≠ '.' ∧ c ≠ 'e' ∧ c ≠ 'E' := by
  simp only [Ends, endsNumber, Bool.and_eq_true, bne_iff_ne] at h
  exact ⟨h.1.1.2, h.1.2, h.2⟩

theorem readTail_of_ends (negative : Bool) (g : Gathered) {rest : List Char} (h : Ends rest) :
    readTail negative g rest = closeDouble negative g rest := by
  cases rest with
  | nil => rfl
  | cons c cs =>
    obtain ⟨-, hsmall, hlarge⟩ := ne_of_ends h
    rw [readTail]
    · exact fun _ heq => hsmall (List.cons.inj heq).1
    · exact fun _ heq => hlarge (List.cons.inj heq).1

theorem readTail_leaving (negative : Bool) (g : Gathered) {exponent rest : List Char}
    (h : IsExponent exponent) (hends : Ends rest) :
    readTail negative g (exponent ++ rest) = leaving rest (readTail negative g exponent) := by
  cases h with
  | none =>
    rw [List.nil_append, readTail_of_ends negative g hends]
    exact closeDouble_leaving negative g rest
  | @some e sign ds mark isSign digits =>
    rw [List.cons_append, List.append_assoc]
    rcases mark with rfl | rfl <;> exact readExponent_leaving negative g isSign digits hends

theorem readFraction_leaving (negative : Bool) (g : Gathered) {ds exponent rest : List Char}
    (hds : IsDigits ds) (h : IsExponent exponent) (hends : Ends rest) :
    readFraction negative g (ds ++ (exponent ++ rest)) =
      leaving rest (readFraction negative g (ds ++ exponent)) := by
  have hnone : NoDigit exponent := by
    rw [← List.append_nil exponent]
    exact noDigit_exponent h trivial
  obtain ⟨htake, hdrop⟩ :=
    takeWhile_digits hds.digits (noDigit_exponent h (noDigit_of_ends hends))
  obtain ⟨htake', hdrop'⟩ := takeWhile_digits hds.digits hnone
  obtain ⟨d, others, rfl⟩ := List.exists_cons_of_ne_nil hds.nonempty
  simp only [readFraction, htake, hdrop, htake', hdrop']
  exact readTail_leaving negative _ h hends

/-- What is left to do of a number after the digits before its point. -/
def afterWhole (negative : Bool) (g : Gathered) (cs : List Char) :
    Except TextFault (Number × List Char) :=
  match cs with
  | '.' :: rest => readFraction negative g rest
  | 'e' :: rest | 'E' :: rest => readExponent negative g rest
  | _ => closeWhole negative g cs

theorem afterWhole_of_ends (negative : Bool) (g : Gathered) {rest : List Char} (h : Ends rest) :
    afterWhole negative g rest = closeWhole negative g rest := by
  cases rest with
  | nil => rfl
  | cons c cs =>
    obtain ⟨hpoint, hsmall, hlarge⟩ := ne_of_ends h
    rw [afterWhole]
    · exact fun _ heq => hpoint (List.cons.inj heq).1
    · exact fun _ heq => hsmall (List.cons.inj heq).1
    · exact fun _ heq => hlarge (List.cons.inj heq).1

theorem afterWhole_leaving (negative : Bool) (g : Gathered) {fraction exponent rest : List Char}
    (hf : IsFraction fraction) (he : IsExponent exponent) (hends : Ends rest) :
    afterWhole negative g (fraction ++ (exponent ++ rest)) =
      leaving rest (afterWhole negative g (fraction ++ exponent)) := by
  cases hf with
  | some digits => exact readFraction_leaving negative g digits he hends
  | none =>
    cases he with
    | none =>
      rw [List.nil_append, List.nil_append, afterWhole_of_ends negative g hends]
      exact closeWhole_leaving negative g rest
    | @some e sign ds mark isSign digits =>
      rw [List.nil_append, List.nil_append, List.cons_append, List.append_assoc]
      rcases mark with rfl | rfl <;> exact readExponent_leaving negative g isSign digits hends

/-- Digits before a point are gathered whatever follows them, if it is no digit. -/
theorem readNumber_whole (negative : Bool) {whole rest : List Char} (h : IsWhole whole)
    (hrest : NoDigit rest) : readNumber negative (whole ++ rest) =
      afterWhole negative (whole.foldl Gathered.addWhole ⟨0, 0, false⟩) rest := by
  have hdigits : ∀ d ∈ whole, isDigit d := by
    cases h with
    | zero => exact List.forall_mem_singleton.mpr (by decide)
    | digits first _ others => exact List.forall_mem_cons.mpr ⟨first, others⟩
  obtain ⟨htake, hdrop⟩ := takeWhile_digits hdigits hrest
  simp only [readNumber, htake, hdrop]
  cases h with
  | zero => rfl
  | digits first nonzero others =>
    split
    next heq => cases heq
    next heq => exact absurd (List.cons.inj heq).1 nonzero
    next => rfl

/-- What follows a number makes no difference to it. -/
theorem readNumber_leaving (negative : Bool) {whole fraction exponent rest : List Char}
    (hwhole : IsWhole whole) (hfraction : IsFraction fraction) (hexponent : IsExponent exponent)
    (hends : Ends rest) : readNumber negative (whole ++ (fraction ++ (exponent ++ rest))) =
      leaving rest (readNumber negative (whole ++ (fraction ++ exponent))) := by
  have hnone : NoDigit exponent := by
    rw [← List.append_nil exponent]
    exact noDigit_exponent hexponent trivial
  rw [readNumber_whole negative hwhole
      (noDigit_fraction hfraction (noDigit_exponent hexponent (noDigit_of_ends hends))),
    readNumber_whole negative hwhole (noDigit_fraction hfraction hnone)]
  exact afterWhole_leaving negative _ hfraction hexponent hends

/-- A number begins with its sign or a digit. -/
theorem exists_head_of_number {sign whole : List Char} (hsign : IsSign sign)
    (hwhole : IsWhole whole) (rest : List Char) :
    (sign = ['-'] ∨ ∃ d ds, sign = [] ∧ whole ++ rest = d :: ds ∧ isDigit d) := by
  cases hsign with
  | minus => exact .inl rfl
  | none =>
    cases hwhole with
    | zero => exact .inr ⟨_, _, rfl, rfl, by decide⟩
    | digits first => exact .inr ⟨_, _, rfl, rfl, first⟩

end MqttLink.Json

namespace MqttLink.Settings

open Json

variable {α β : Type} {v blanks rest : List Char}

theorem liftText_leaving (r : Except TextFault (α × List Char)) (rest : List Char) :
    liftText (leaving rest r) = leaving rest (liftText r) := by
  cases r <;> rfl

theorem map_leaving {ε : Type} (r : Except ε (α × List Char)) (f : α → β) (rest : List Char) :
    (leaving rest r).map (fun p => f p.1) = r.map fun p => f p.1 := by
  cases r <;> rfl

theorem leaving_map {ε : Type} (r : Except ε (α × List Char)) (f : α → β) (rest : List Char) :
    (leaving rest r).map (fun p => (f p.1, p.2)) =
      leaving rest (r.map fun p => (f p.1, p.2)) := by
  cases r <;> rfl

theorem leaving_bind {ε : Type} (r : Except ε (α × List Char))
    {f : α × List Char → Except ε (β × List Char)} (rest : List Char)
    (h : ∀ a cs, f (a, rest) = leaving rest (f (a, cs))) :
    leaving rest r >>= f = leaving rest (r >>= f) := by
  cases r with
  | error => rfl
  | ok p => exact h p.1 p.2

theorem skipBlanks_append (h : AllBlank blanks) (cs : List Char) :
    skipBlanks (blanks ++ cs) = skipBlanks cs :=
  List.dropWhile_append_of_pos h

theorem skipBlanks_of_derives (h : Derives .value v) (rest : List Char) :
    skipBlanks (v ++ rest) = v ++ rest := by
  obtain ⟨c, cs, rfl, hblank, -⟩ := exists_head h
  exact List.dropWhile_cons_of_neg (by simp [hblank])

/-! ## Values of the wrong type -/

theorem findValue_digit {d : Char} (h : isDigit d) (cs : List Char) :
    findValue (d :: cs) = (readNumber false (d :: cs)).map fun r => foundNumber r.1 := by
  simp [findValue, ne_starts_of_isDigit h, h]

/-- What is found is the value itself. -/
theorem findValue_append (h : Derives .value v) (hends : Ends rest) :
    findValue (v ++ rest) = findValue v := by
  cases h with
  | null | true | false => rfl
  | @empty b | @full b => cases b <;> rfl
  | @string t text =>
    have hplain : StringState.plain.between := rfl
    have hread := readString_text text hplain [] rest
    have hfind (cs : List Char) : findValue ('"' :: cs) =
        (readString .plain [] cs).map fun r => .string (String.ofList r.1) := rfl
    rw [List.cons_append, List.append_assoc, List.singleton_append, hfind, hfind, hread]
    exact map_leaving _ (fun cs => Found.string (String.ofList cs)) rest
  | @number sign whole fraction exponent isSign isWhole isFraction isExponent =>
    have hread (negative : Bool) :=
      readNumber_leaving negative isWhole isFraction isExponent hends
    have hassoc : whole ++ (fraction ++ exponent) ++ rest =
        whole ++ (fraction ++ (exponent ++ rest)) := by
      rw [List.append_assoc, List.append_assoc]
    rcases exists_head_of_number isSign isWhole (fraction ++ exponent) with
      rfl | ⟨d, ds, rfl, hds, hd⟩
    · have hfind (cs : List Char) : findValue ('-' :: cs) =
          (readNumber true cs).map fun r => foundNumber r.1 := rfl
      rw [List.cons_append, List.nil_append, List.cons_append, hfind, hfind, hassoc, hread]
      exact map_leaving _ foundNumber rest
    · have hread' := hread false
      rw [← hassoc, hds] at hread'
      rw [List.nil_append, hds, findValue_digit hd, List.cons_append, findValue_digit hd,
        ← List.cons_append, hread']
      exact map_leaving _ foundNumber rest

theorem error_mismatch (wanted : Wanted) (h : Derives .value v) (hends : Ends rest) :
    (.error (mismatch wanted (v ++ rest)) : Except ReadFault (α × List Char)) =
      leaving rest (.error (mismatch wanted v)) := by
  rw [mismatch, findValue_append h hends]
  rfl

/-! ## Values of fields -/

/-- What `read` makes of a value is the same whatever blanks stand before it and whatever follows
it, and all that follows is left. -/
def Uniform (read : List Char → Except ReadFault (α × List Char)) : Prop :=
  ∀ ⦃blanks v rest⦄, AllBlank blanks → Derives .value v → Ends rest →
    read (blanks ++ (v ++ rest)) = leaving rest (read v)

/-- A reader that passes over blanks has to be looked at where the value begins. -/
theorem uniform_of_skipBlanks {read : List Char → Except ReadFault (α × List Char)}
    (start : List Char → Except ReadFault (α × List Char))
    (hread : ∀ cs, read cs = start (skipBlanks cs))
    (h : ∀ ⦃v rest⦄, Derives .value v → Ends rest → start (v ++ rest) = leaving rest (start v)) :
    Uniform read := by
  intro blanks v rest hblanks hv hends
  have hskip := skipBlanks_of_derives hv []
  rw [List.append_nil] at hskip
  rw [hread, hread, skipBlanks_append hblanks, skipBlanks_of_derives hv, hskip]
  exact h hv hends

/-- Reads a string where it begins. -/
def startText (wanted : Wanted) : List Char → Except ReadFault (String × List Char)
  | '"' :: rest => do
    let (s, rest) ← liftText (readString .plain [] rest)
    .ok (String.ofList s, rest)
  | cs => .error (mismatch wanted cs)

theorem startText_mismatch (wanted : Wanted) {c : Char} (h : c ≠ '"') (cs : List Char) :
    startText wanted (c :: cs) = .error (mismatch wanted (c :: cs)) := by
  rw [startText]
  exact fun _ heq => h (List.cons.inj heq).1

theorem uniform_readText (wanted : Wanted) : Uniform (readText wanted) := by
  refine uniform_of_skipBlanks (startText wanted) (fun _ => rfl) fun v rest hv hends => ?_
  have hwrong := error_mismatch (α := String) wanted hv hends
  cases hv with
  | null | true | false => exact hwrong
  | @empty b | @full b => cases b <;> exact hwrong
  | @string t text =>
    have hplain : StringState.plain.between := rfl
    have hread := readString_text text hplain [] rest
    have hstart (cs : List Char) : startText wanted ('"' :: cs) =
        liftText (readString .plain [] cs) >>= fun p => .ok (String.ofList p.1, p.2) := rfl
    rw [List.cons_append, List.append_assoc, List.singleton_append, hstart, hstart, hread,
      liftText_leaving]
    exact leaving_bind _ rest fun _ _ => rfl
  | @number sign whole fraction exponent isSign isWhole =>
    rcases exists_head_of_number isSign isWhole (fraction ++ exponent) with
      rfl | ⟨d, ds, rfl, hds, hd⟩
    · exact hwrong
    · rw [List.nil_append, hds] at hwrong ⊢
      have hquote := (ne_starts_of_isDigit hd).2.2.2.1
      rw [List.cons_append, startText_mismatch wanted hquote, startText_mismatch wanted hquote]
      exact hwrong

/-- Reads a truth value where it begins. -/
def startBool : List Char → Except ReadFault (Bool × List Char)
  | 't' :: rest => do
    let rest ← liftText (readWord ['r', 'u', 'e'] rest)
    .ok (true, rest)
  | 'f' :: rest => do
    let rest ← liftText (readWord ['a', 'l', 's', 'e'] rest)
    .ok (false, rest)
  | cs => .error (mismatch .bool cs)

theorem startBool_mismatch {c : Char} (htrue : c ≠ 't') (hfalse : c ≠ 'f') (cs : List Char) :
    startBool (c :: cs) = .error (mismatch .bool (c :: cs)) := by
  rw [startBool]
  · exact fun _ heq => htrue (List.cons.inj heq).1
  · exact fun _ heq => hfalse (List.cons.inj heq).1

theorem uniform_readBool : Uniform readBool := by
  refine uniform_of_skipBlanks startBool (fun _ => rfl) fun v rest hv hends => ?_
  have hwrong := error_mismatch (α := Bool) .bool hv hends
  cases hv with
  | null | string => exact hwrong
  | true | false => rfl
  | @empty b | @full b => cases b <;> exact hwrong
  | @number sign whole fraction exponent isSign isWhole =>
    rcases exists_head_of_number isSign isWhole (fraction ++ exponent) with
      rfl | ⟨d, ds, rfl, hds, hd⟩
    · exact hwrong
    · rw [List.nil_append, hds] at hwrong ⊢
      obtain ⟨-, htrue, hfalse, -⟩ := ne_starts_of_isDigit hd
      rw [List.cons_append, startBool_mismatch htrue hfalse, startBool_mismatch htrue hfalse]
      exact hwrong

/-- Reads a port where it begins. -/
def startPort : List Char → Except ReadFault (Option Port × List Char)
  | [] => .error (.text .truncated)
  | c :: rest =>
    if c = 'n' then do
      let rest ← liftText (readWord ['u', 'l', 'l'] rest)
      .ok (none, rest)
    else if c = '-' || isDigit c then do
      let (n, rest) ← liftText (readNumber (c = '-') (if c = '-' then rest else c :: rest))
      let port ← portOfNumber n
      .ok (port, rest)
    else .error (mismatch .port (c :: rest))

/-- Reads the number of a port. -/
def portNumber (r : Except TextFault (Number × List Char)) :
    Except ReadFault (Option Port × List Char) :=
  liftText r >>= fun p => (portOfNumber p.1).map fun port => (port, p.2)

theorem portNumber_leaving (r : Except TextFault (Number × List Char)) (rest : List Char) :
    portNumber (leaving rest r) = leaving rest (portNumber r) := by
  rw [portNumber, liftText_leaving]
  refine leaving_bind _ rest fun n cs => ?_
  cases portOfNumber n <;> rfl

theorem startPort_digit {d : Char} (h : isDigit d) (cs : List Char) :
    startPort (d :: cs) = portNumber (readNumber false (d :: cs)) := by
  obtain ⟨hnull, -, -, -, hminus⟩ := ne_starts_of_isDigit h
  simp only [startPort, hnull, hminus, h, if_false, Bool.or_true, if_true, decide_false]
  refine bind_congr fun ⟨n, rest⟩ => ?_
  simp only
  cases portOfNumber n <;> rfl

theorem startPort_minus (cs : List Char) :
    startPort ('-' :: cs) = portNumber (readNumber true cs) := by
  refine bind_congr (m := Except ReadFault) fun ⟨n, rest⟩ => ?_
  simp only
  cases portOfNumber n <;> rfl

theorem uniform_readPort : Uniform readPort := by
  refine uniform_of_skipBlanks startPort (fun cs => ?_) fun v rest hv hends => ?_
  · rw [readPort]
    cases skipBlanks cs <;> rfl
  have hwrong := error_mismatch (α := Option Port) .port hv hends
  cases hv with
  | true | false | string => exact hwrong
  | null => rfl
  | @empty b | @full b => cases b <;> exact hwrong
  | @number sign whole fraction exponent isSign isWhole isFraction isExponent =>
    have hread (negative : Bool) :=
      readNumber_leaving negative isWhole isFraction isExponent hends
    have hassoc : whole ++ (fraction ++ exponent) ++ rest =
        whole ++ (fraction ++ (exponent ++ rest)) := by
      rw [List.append_assoc, List.append_assoc]
    rcases exists_head_of_number isSign isWhole (fraction ++ exponent) with
      rfl | ⟨d, ds, rfl, hds, hd⟩
    · rw [List.cons_append, List.nil_append, List.cons_append, startPort_minus, startPort_minus,
        hassoc, hread]
      exact portNumber_leaving _ rest
    · have hread' := hread false
      rw [← hassoc, hds] at hread'
      rw [List.nil_append, hds, startPort_digit hd, List.cons_append, startPort_digit hd,
        ← List.cons_append, hread']
      exact portNumber_leaving _ rest

theorem uniform_readDuration : Uniform readDuration := by
  intro blanks v rest hblanks hv hends
  rw [readDuration, uniform_readText .duration hblanks hv hends]
  refine leaving_bind _ rest fun s cs => ?_
  simp only
  cases Duration.ofText? s <;> rfl

theorem uniform_map {read : List Char → Except ReadFault (α × List Char)} (h : Uniform read)
    (f : α → β) : Uniform fun cs => (read cs).map fun p => (f p.1, p.2) := by
  intro blanks v rest hblanks hv hends
  simp only [h hblanks hv hends]
  exact leaving_map _ f rest

/-- What a field makes of a value is the same whatever follows the value. -/
theorem uniform_readField (f : Field) : Uniform (readField f) := by
  cases f with
  | clientId => exact uniform_map (uniform_readText _) Assignment.clientId
  | hostname => exact uniform_map (uniform_readText _) Assignment.hostname
  | username => exact uniform_map (uniform_readText _) Assignment.username
  | webSockets => exact uniform_map uniform_readBool Assignment.webSockets
  | webSocketPath => exact uniform_map (uniform_readText _) Assignment.webSocketPath
  | port => exact uniform_map uniform_readPort Assignment.port
  | keepAlive => exact uniform_map uniform_readDuration Assignment.keepAlive
  | connectTimeout => exact uniform_map uniform_readDuration Assignment.connectTimeout

end MqttLink.Settings
