import MqttLink.Json.Skip
import MqttLink.Proofs.Literals

/-!
The grammar of JSON values, apart from any reader. Strings may hold half of a pair of surrogates,
numbers may be of any size, and blanks may stand around every value and every key inside brackets.
Main statement: a value begins with a character that neither a blank nor a closing bracket is.
-/

namespace MqttLink.Json

/-! ## Strings and numbers -/

def AllBlank (cs : List Char) : Prop :=
  ∀ c ∈ cs, isBlank c

theorem allBlank_nil : AllBlank [] :=
  List.forall_mem_nil _

/-- Four digits of a code, and its value. -/
inductive Code : List Char → Nat → Prop
  | intro {a b c d : Char} {w x y z : Nat} (first : Text.hexValue? a = some w)
      (second : Text.hexValue? b = some x) (third : Text.hexValue? c = some y)
      (fourth : Text.hexValue? d = some z) : Code [a, b, c, d] (((w * 16 + x) * 16 + y) * 16 + z)

theorem ne_mark_of_unescape? {c d : Char} (h : unescape? c = some d) : c ≠ 'u' := by
  rintro rfl
  cases h

/-- What may stand between two quotes. -/
inductive IsText : List Char → Prop
  | nil : IsText []
  | plain {c : Char} {cs : List Char} (quote : c ≠ '"') (backslash : c ≠ '\\')
      (control : ¬ c.toNat < 32) (rest : IsText cs) : IsText (c :: cs)
  | escape {c d : Char} {cs : List Char} (letter : unescape? c = some d) (rest : IsText cs) :
      IsText ('\\' :: c :: cs)
  | code {ds cs : List Char} {n : Nat} (digits : Code ds n) (rest : IsText cs) :
      IsText ('\\' :: 'u' :: (ds ++ cs))

theorem ne_of_isDigit {c d : Char} (hd : isDigit d) (hc : isDigit c = false) : d ≠ c := by
  rintro rfl
  exact absurd (hd.symm.trans hc) (by decide)

/-- A digit does not begin any value but a number, and is no sign. -/
theorem ne_starts_of_isDigit {d : Char} (h : isDigit d) :
    d ≠ 'n' ∧ d ≠ 't' ∧ d ≠ 'f' ∧ d ≠ '"' ∧ d ≠ '-' :=
  ⟨ne_of_isDigit h (by decide), ne_of_isDigit h (by decide), ne_of_isDigit h (by decide),
    ne_of_isDigit h (by decide), ne_of_isDigit h (by decide)⟩

/-- One digit or more. -/
structure IsDigits (ds : List Char) : Prop where
  nonempty : ds ≠ []
  digits : ∀ d ∈ ds, isDigit d

inductive IsSign : List Char → Prop
  | none : IsSign []
  | minus : IsSign ['-']

/-- Digits before a point: no zero stands in front of others. -/
inductive IsWhole : List Char → Prop
  | zero : IsWhole ['0']
  | digits {d : Char} {ds : List Char} (first : isDigit d) (nonzero : d ≠ '0')
      (others : ∀ d ∈ ds, isDigit d) : IsWhole (d :: ds)

inductive IsFraction : List Char → Prop
  | none : IsFraction []
  | some {ds : List Char} (digits : IsDigits ds) : IsFraction ('.' :: ds)

inductive IsExponentSign : List Char → Prop
  | none : IsExponentSign []
  | plus : IsExponentSign ['+']
  | minus : IsExponentSign ['-']

inductive IsExponent : List Char → Prop
  | none : IsExponent []
  | some {e : Char} {sign ds : List Char} (mark : e = 'e' ∨ e = 'E')
      (isSign : IsExponentSign sign) (digits : IsDigits ds) : IsExponent (e :: (sign ++ ds))

/-! ## Values -/

def Bracket.opening : Bracket → Char
  | .array => '['
  | .object => '\x7b'

/-- The texts that the grammar tells of: a value, what stands between two commas of a pair of
brackets, and all that stands in a pair of brackets that is not empty. -/
inductive Form
  | value
  | item (b : Bracket)
  | items (b : Bracket)

inductive Derives : Form → List Char → Prop
  | null : Derives .value ['n', 'u', 'l', 'l']
  | true : Derives .value ['t', 'r', 'u', 'e']
  | false : Derives .value ['f', 'a', 'l', 's', 'e']
  | number {sign whole fraction exponent : List Char} (isSign : IsSign sign)
      (isWhole : IsWhole whole) (isFraction : IsFraction fraction)
      (isExponent : IsExponent exponent) :
      Derives .value (sign ++ (whole ++ (fraction ++ exponent)))
  | string {t : List Char} (text : IsText t) : Derives .value ('"' :: (t ++ ['"']))
  | empty (b : Bracket) {inside : List Char} (blank : AllBlank inside) :
      Derives .value (b.opening :: (inside ++ [b.closing]))
  | full {b : Bracket} {xs : List Char} (items : Derives (.items b) xs) :
      Derives .value (b.opening :: (xs ++ [b.closing]))
  | last {b : Bracket} {x : List Char} (item : Derives (.item b) x) : Derives (.items b) x
  | more {b : Bracket} {x xs : List Char} (item : Derives (.item b) x)
      (items : Derives (.items b) xs) : Derives (.items b) (x ++ ',' :: xs)
  | element {before v after : List Char} (blankBefore : AllBlank before)
      (value : Derives .value v) (blankAfter : AllBlank after) :
      Derives (.item .array) (before ++ (v ++ after))
  | member {before key between gap v after : List Char} (blankBefore : AllBlank before)
      (text : IsText key) (blankBetween : AllBlank between) (blankGap : AllBlank gap)
      (value : Derives .value v) (blankAfter : AllBlank after) :
      Derives (.item .object)
        (before ++ '"' :: (key ++ '"' :: (between ++ ':' :: (gap ++ (v ++ after)))))

/-- What may follow a value: nothing, or a character that does not go on with a number. -/
def Ends : List Char → Prop
  | [] => True
  | c :: _ => endsNumber c

theorem ends_cons {c : Char} (h : endsNumber c) (cs : List Char) : Ends (c :: cs) := h

/-- No digit follows. -/
def NoDigit : List Char → Prop
  | [] => True
  | c :: _ => isDigit c = false

theorem noDigit_of_ends {rest : List Char} (h : Ends rest) : NoDigit rest := by
  cases rest with
  | nil => exact h
  | cons c cs =>
    simp only [Ends, endsNumber, Bool.and_eq_true, Bool.not_eq_true'] at h
    exact h.1.1.1

theorem endsNumber_of_isBlank {c : Char} (h : isBlank c) : endsNumber c := by
  simp only [isBlank, Bool.or_eq_true, beq_iff_eq] at h
  rcases h with ((rfl | rfl) | rfl) | rfl <;> decide

theorem ends_append {blanks rest : List Char} (hblanks : AllBlank blanks) (h : Ends rest) :
    Ends (blanks ++ rest) := by
  cases blanks with
  | nil => exact h
  | cons c cs => exact endsNumber_of_isBlank (hblanks c (List.mem_cons_self ..))

theorem endsNumber_closing (b : Bracket) : endsNumber b.closing := by
  cases b <;> decide

/-- A value begins with a character of its own. -/
theorem exists_head {v : List Char} (h : Derives .value v) :
    ∃ c cs, v = c :: cs ∧ isBlank c = false ∧ c ≠ ']' ∧ c ≠ '\x7d' := by
  have hdigit {d : Char} (hd : isDigit d) : isBlank d = false ∧ d ≠ ']' ∧ d ≠ '\x7d' :=
    ⟨isBlank_of_isDigit hd, ne_of_isDigit hd (by decide), ne_of_isDigit hd (by decide)⟩
  cases h with
  | null | true | false | string => exact ⟨_, _, rfl, by decide, by decide, by decide⟩
  | @empty b | @full b => exact ⟨_, _, rfl, by cases b <;> decide⟩
  | number isSign isWhole =>
    cases isSign with
    | minus => exact ⟨_, _, rfl, by decide, by decide, by decide⟩
    | none =>
      cases isWhole with
      | zero => exact ⟨_, _, rfl, by decide, by decide, by decide⟩
      | digits first => exact ⟨_, _, rfl, hdigit first⟩

end MqttLink.Json
