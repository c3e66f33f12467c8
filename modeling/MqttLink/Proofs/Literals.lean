import MqttLink.Json.Number
import MqttLink.Json.Value

/-!
String literals and numbers of a JSON text. Main statements: a literal reads back as the string that
it stands for, whatever its characters, and the digits of a number as the number.
-/

namespace MqttLink

theorem Text.hexValue?_hexDigit : ∀ n < 16, hexValue? (hexDigit n) = some n := by
  decide

namespace Json

/-! ## Strings -/

/-- The four digits of a control character read back as the character. -/
theorem readString_control {c : Char} (h : c.toNat < 32) (acc rest : List Char) :
    readString (.code none 0 0) acc (['0', '0'] ++ Text.hexByte c.toNat.toUInt8 ++ rest) =
      readString .plain (c :: acc) rest := by
  have hbyte : c.toNat.toUInt8.toNat = c.toNat := by
    rw [UInt8.toNat_ofNat']
    omega
  have hhigh := Text.hexValue?_hexDigit (c.toNat / 16) (by omega)
  have hlow := Text.hexValue?_hexDigit (c.toNat % 16) (by omega)
  have hzero : Text.hexValue? '0' = some 0 := by decide
  have hvalue : c.toNat / 16 * 16 + c.toNat % 16 = c.toNat := by omega
  have hclose : closeCode none c.toNat = .ok (.plain, some c) := by
    have hlow : isTrailingSurrogate c.toNat = false ∧ isLeadingSurrogate c.toNat = false := by
      simp only [isTrailingSurrogate, isLeadingSurrogate, Bool.and_eq_false_imp,
        decide_eq_true_eq, decide_eq_false_iff_not]
      omega
    simp [closeCode, hlow, Char.ofNat_toNat]
  simp [Text.hexByte, hbyte, readString, hzero, hhigh, hlow, hvalue, hclose]

/-- What stands for a character reads back as the character. -/
theorem readString_escape (c : Char) (acc rest : List Char) :
    readString .plain acc (escape c ++ rest) = readString .plain (c :: acc) rest := by
  unfold escape
  -- the characters that a single letter stands for
  iterate 7
    split
    next h => simp [readString, unescape?, h]
  split
  next h =>
    rw [← readString_control h]
    simp [readString]
  next hquote hbackslash _ _ _ _ _ hcontrol =>
    simp [readString, hquote, hbackslash, hcontrol]

theorem readString_escaped (cs acc rest : List Char) :
    readString .plain acc (cs.flatMap escape ++ '"' :: rest) = .ok (acc.reverse ++ cs, rest) := by
  induction cs generalizing acc with
  | nil => simp [readString]
  | cons c cs ih =>
    rw [List.flatMap_cons, List.append_assoc, readString_escape, ih]
    simp

/-- A string literal reads back as its string. -/
theorem readString_literal (s : String) (rest : List Char) :
    readString .plain [] (s.toList.flatMap escape ++ '"' :: rest) = .ok (s.toList, rest) := by
  rw [readString_escaped, List.reverse_nil, List.nil_append]

/-! ## Numbers -/

theorem isDigit_of_mem_toDigits {n : Nat} {c : Char} (h : c ∈ Nat.toDigits 10 n) : isDigit c := by
  have hdigit := Nat.isDigit_of_mem_toDigits (by decide) (by decide) h
  simpa [isDigit, Char.isDigit, Char.le_def] using hdigit

theorem isBlank_of_isDigit {c : Char} (h : isDigit c) : isBlank c = false := by
  simp only [isDigit, Bool.and_eq_true, decide_eq_true_eq, Char.le_def] at h
  simp only [isBlank, Bool.or_eq_false_iff, beq_eq_false_iff_ne]
  refine ⟨⟨⟨?_, ?_⟩, ?_⟩, ?_⟩ <;> rintro rfl <;> exact absurd h (by decide)

/-- A number of several digits does not begin with a zero. -/
theorem toDigits_ne_zero_cons (n : Nat) (c : Char) (cs : List Char) :
    Nat.toDigits 10 n ≠ '0' :: c :: cs := by
  induction n using Nat.strongRecOn generalizing c cs with
  | ind n ih =>
    by_cases hn : n < 10
    · rw [Nat.toDigits_of_lt_base hn]
      simp
    · rw [Nat.toDigits_of_base_le (by decide) (by omega)]
      intro heq
      cases hd : Nat.toDigits 10 (n / 10) with
      | nil => exact Nat.toDigits_ne_nil hd
      | cons d ds =>
        rw [hd, List.cons_append] at heq
        obtain ⟨rfl, -⟩ := List.cons.inj heq
        cases ds with
        | nil =>
          have hvalue : Nat.ofDigitChars 10 (Nat.toDigits 10 (n / 10)) 0 = 0 := by rw [hd]; rfl
          rw [Nat.ofDigitChars_ten_toDigits] at hvalue
          omega
        | cons e es => exact ih (n / 10) (by omega) e es hd

theorem le_ofDigitChars (digits : List Char) (n : Nat) : n ≤ Nat.ofDigitChars 10 digits n := by
  induction digits generalizing n with
  | nil => exact Nat.le_refl n
  | cons d ds ih =>
    rw [Nat.ofDigitChars_cons]
    have := ih (10 * n + (d.toNat - '0'.toNat))
    omega

/-- Digits are gathered without loss as long as their number fits in 64 bits. -/
theorem foldl_addWhole {digits : List Char} {n : Nat} (e : Int)
    (h : Nat.ofDigitChars 10 digits n < 18446744073709551616) :
    digits.foldl Gathered.addWhole ⟨n, e, false⟩ = ⟨Nat.ofDigitChars 10 digits n, e, false⟩ := by
  induction digits generalizing n with
  | nil => rfl
  | cons d ds ih =>
    rw [Nat.ofDigitChars_cons] at h ⊢
    have hadd : Gathered.addWhole ⟨n, e, false⟩ d = ⟨10 * n + (d.toNat - '0'.toNat), e, false⟩ := by
      have hle := le_ofDigitChars ds (10 * n + (d.toNat - '0'.toNat))
      have hfits : ¬ 18446744073709551616 ≤ 10 * n + (d.toNat - '0'.toNat) := by omega
      simp only [Gathered.addWhole, digitValue, Nat.mul_comm n 10, hfits]
      rfl
    rw [List.foldl_cons, hadd, ih h]

/-- A character that neither belongs to a number nor goes on with one. -/
def endsNumber (c : Char) : Bool :=
  !isDigit c && c != '.' && c != 'e' && c != 'E'

/-- The digits of a number that fits in 64 bits read back as the number. -/
theorem readNumber_toDigits {n : Nat} (hn : n < 18446744073709551616) {c : Char}
    (hc : endsNumber c) (rest : List Char) :
    readNumber false (Nat.toDigits 10 n ++ c :: rest) = .ok (.natural n, c :: rest) := by
  have hall : ∀ d ∈ Nat.toDigits 10 n, isDigit d := fun _ => isDigit_of_mem_toDigits
  simp only [endsNumber, Bool.and_eq_true, Bool.not_eq_true', bne_iff_ne] at hc
  obtain ⟨⟨⟨hdigit, hpoint⟩, hsmall⟩, hlarge⟩ := hc
  have htake : (Nat.toDigits 10 n ++ c :: rest).takeWhile isDigit = Nat.toDigits 10 n := by
    rw [List.takeWhile_append_of_pos hall, List.takeWhile_cons_of_neg (by simp [hdigit]),
      List.append_nil]
  have hdrop : (Nat.toDigits 10 n ++ c :: rest).dropWhile isDigit = c :: rest := by
    rw [List.dropWhile_append_of_pos hall, List.dropWhile_cons_of_neg (by simp [hdigit])]
  have hvalue : Nat.ofDigitChars 10 (Nat.toDigits 10 n) 0 = n := Nat.ofDigitChars_ten_toDigits
  have hgather : (Nat.toDigits 10 n).foldl Gathered.addWhole ⟨0, 0, false⟩ = ⟨n, 0, false⟩ := by
    rw [foldl_addWhole 0 (by rwa [hvalue]), hvalue]
  simp only [readNumber, htake, hdrop, hgather]
  split
  next h => exact absurd h Nat.toDigits_ne_nil
  next h => exact absurd h (toDigits_ne_zero_cons n _ _)
  next =>
    split
    next h => exact absurd (List.cons.inj h).1 hpoint
    next h => exact absurd (List.cons.inj h).1 hsmall
    next h => exact absurd (List.cons.inj h).1 hlarge
    next => simp [closeWhole]

end Json

end MqttLink
