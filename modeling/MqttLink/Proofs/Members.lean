import MqttLink.Proofs.Readings
import MqttLink.Proofs.WrittenSettings

/-!
Objects of settings and their members. Main statement: an object is read member by member, each by
itself: those of fields give their values, and the others give nothing.
-/

namespace MqttLink

namespace Json

/-! ## Keys -/

/-- The characters that a key stands for, where every surrogate is one of a pair. -/
inductive Spells : List Char → List Char → Prop
  | nil : Spells [] []
  | plain {c : Char} {cs ks : List Char} (quote : c ≠ '"') (backslash : c ≠ '\\')
      (control : ¬ c.toNat < 32) (rest : Spells cs ks) : Spells (c :: cs) (c :: ks)
  | escape {c d : Char} {cs ks : List Char} (letter : unescape? c = some d)
      (rest : Spells cs ks) : Spells ('\\' :: c :: cs) (d :: ks)
  | code {ds cs ks : List Char} {n : Nat} (digits : Code ds n)
      (trailing : isTrailingSurrogate n = false) (leading : isLeadingSurrogate n = false)
      (rest : Spells cs ks) : Spells ('\\' :: 'u' :: (ds ++ cs)) (Char.ofNat n :: ks)
  | pair {ds es cs ks : List Char} {m n : Nat} (digits : Code ds m)
      (leading : isLeadingSurrogate m) (partner : Code es n) (trailing : isTrailingSurrogate n)
      (rest : Spells cs ks) : Spells ('\\' :: 'u' :: (ds ++ '\\' :: 'u' :: (es ++ cs)))
        (joinSurrogates m n :: ks)

theorem isText_of_spells {t ks : List Char} (h : Spells t ks) : IsText t := by
  induction h with
  | nil => exact .nil
  | plain quote backslash control _ ih => exact .plain quote backslash control ih
  | escape letter _ ih => exact .escape letter ih
  | code digits _ _ _ ih => exact .code digits ih
  | pair digits _ partner _ _ ih => exact .code digits (.code partner ih)

/-- A key without quotes, backslashes and control characters spells itself. -/
theorem spells_self {ks : List Char}
    (h : ks.all fun c => c ≠ '"' ∧ c ≠ '\\' ∧ ¬ c.toNat < 32) : Spells ks ks := by
  induction ks with
  | nil => exact .nil
  | cons c ks ih =>
    rw [List.all_cons, Bool.and_eq_true, decide_eq_true_eq] at h
    obtain ⟨⟨quote, backslash, control⟩, hrest⟩ := h
    exact .plain quote backslash control (ih hrest)

theorem isTrailingSurrogate_of_leading {n : Nat} (h : isLeadingSurrogate n) :
    isTrailingSurrogate n = false := by
  simp only [isLeadingSurrogate, Bool.and_eq_true, decide_eq_true_eq] at h
  simp only [isTrailingSurrogate, Bool.and_eq_false_imp, decide_eq_true_eq, decide_eq_false_iff_not]
  omega

/-- A key is read as what it stands for. -/
theorem readString_spells {t ks : List Char} (h : Spells t ks) (acc rest : List Char) :
    readString .plain acc (t ++ '"' :: rest) = .ok (acc.reverse ++ ks, rest) := by
  have hcode {ds : List Char} {n : Nat} (digits : Code ds n) (acc cs : List Char) :
      readString .plain acc ('\\' :: 'u' :: (ds ++ cs)) = afterCode acc cs (closeCode none n) := by
    rw [← readString_code digits]
    rfl
  induction h generalizing acc with
  | nil => simp [readString]
  | plain quote backslash control _ ih => simp [readString, quote, backslash, control, ih]
  | @escape c d cs ks letter _ ih =>
    have hletter := ne_mark_of_unescape? letter
    simp [readString, hletter, letter, ih]
  | @code ds cs ks n digits trailing leading _ ih =>
    have hclose : closeCode none n = .ok (.plain, some (Char.ofNat n)) := by
      simp [closeCode, trailing, leading]
    rw [List.cons_append, List.cons_append, List.append_assoc, hcode digits, hclose, afterCode, ih]
    simp
  | @pair ds es cs ks m n digits leading partner trailing _ ih =>
    have hfirst : closeCode none m = .ok (.partnerBackslash m, none) := by
      simp [closeCode, isTrailingSurrogate_of_leading leading, leading]
    have hsecond : closeCode (some m) n = .ok (.plain, some (joinSurrogates m n)) := by
      simp [closeCode, trailing]
    have hpartner (cs : List Char) :
        readString (.partnerBackslash m) acc ('\\' :: 'u' :: (es ++ cs)) =
          afterCode acc cs (closeCode (some m) n) := by
      rw [← readString_code partner]
      rfl
    rw [List.cons_append, List.cons_append, List.append_assoc, hcode digits, hfirst, afterCode,
      List.cons_append, List.cons_append, List.append_assoc, hpartner, hsecond, afterCode, ih]
    simp

end Json

namespace Settings

open Json

/-! ## Objects -/

/-- A member of an object: its parts, in the order in which they stand in the text. The value may
be any that the grammar derives, and the key any string, with or without escapes. -/
structure Member where
  before : List Char
  keyText : List Char
  key : String
  between : List Char
  gap : List Char
  value : List Char
  after : List Char
  blankBefore : AllBlank before
  spells : Spells keyText key.toList
  blankBetween : AllBlank between
  blankGap : AllBlank gap
  isValue : Derives .value value
  blankAfter : AllBlank after

namespace Member

/-- The text of a member after the opening quote of its key. -/
def afterQuote (m : Member) : List Char :=
  m.keyText ++ '"' :: (m.between ++ ':' :: (m.gap ++ (m.value ++ m.after)))

def chars (m : Member) : List Char :=
  m.before ++ '"' :: m.afterQuote

/-- What counts of a member: its key and its value. -/
def entry (m : Member) : String × List Char :=
  (m.key, m.value)

theorem derives_chars (m : Member) : Derives (.item .object) m.chars :=
  .member m.blankBefore (isText_of_spells m.spells) m.blankBetween m.blankGap m.isValue m.blankAfter

end Member

/-- The text of an object, with blanks before and after it; `inside` stands in it if there are no
members. -/
structure ObjectText where
  before : List Char
  inside : List Char
  members : List Member
  after : List Char
  blankBefore : AllBlank before
  blankInside : AllBlank inside
  blankAfter : AllBlank after

/-- The members after the first one. -/
def laterChars (ms : List Member) : List Char :=
  ms.flatMap fun m => ',' :: m.chars

namespace ObjectText

/-- What stands between the braces. -/
def body (o : ObjectText) : List Char :=
  match o.members with
  | [] => o.inside
  | m :: ms => m.chars ++ laterChars ms

def text (o : ObjectText) : String :=
  String.ofList (o.before ++ '\x7b' :: (o.body ++ '\x7d' :: o.after))

def entries (o : ObjectText) : List (String × List Char) :=
  o.members.map (·.entry)

/-- The members whose keys are names of fields. -/
def known (o : ObjectText) : List (String × List Char) :=
  o.entries.filter fun e => (Field.ofName? e.1).isSome

end ObjectText

theorem derives_members (m : Member) (ms : List Member) :
    Derives (.items .object) (m.chars ++ laterChars ms) := by
  induction ms generalizing m with
  | nil =>
    rw [laterChars, List.flatMap_nil, List.append_nil]
    exact .last m.derives_chars
  | cons next ms ih => exact .more m.derives_chars (ih next)

/-- An object is a value. -/
theorem derives_object (o : ObjectText) :
    Derives .value ('\x7b' :: (o.body ++ ['\x7d'])) := by
  unfold ObjectText.body
  cases o.members with
  | nil => exact .empty .object o.blankInside
  | cons m ms => exact .full (derives_members m ms)

/-! ## Reading members -/

/-- What a member adds to the assignments before it. -/
def readEntry (acc : List Assignment) (e : String × List Char) :
    Except ReadFault (List Assignment) :=
  match Field.ofName? e.1 with
  | none => .ok acc
  | some f =>
    if acc.any (·.field = f) then .error (.duplicate f)
    else (readField f e.2).map fun p => acc ++ [p.1]

/-- A member is read by itself. -/
theorem readMember_afterQuote (m : Member) (acc : List Assignment) {rest : List Char}
    (hends : Ends rest) :
    readMember acc (m.afterQuote ++ rest) =
      (readEntry acc m.entry).map fun acc => (acc, m.after ++ rest) := by
  have hrest : Ends (m.after ++ rest) := ends_append m.blankAfter hends
  have hkey : readString .plain [] (m.afterQuote ++ rest) =
      .ok (m.key.toList, m.between ++ ':' :: (m.gap ++ (m.value ++ (m.after ++ rest)))) := by
    have hread := readString_spells m.spells []
      (m.between ++ ':' :: (m.gap ++ (m.value ++ (m.after ++ rest))))
    simpa [Member.afterQuote] using hread
  have hcolon (cs : List Char) : readColon (m.between ++ ':' :: cs) = .ok cs := by
    rw [readColon, skipBlanks_append m.blankBetween, skipBlanks_cons (by decide)]
    rfl
  have hskip : skipValue (m.gap ++ (m.value ++ (m.after ++ rest))) = .ok (m.after ++ rest) :=
    skipValue_derives m.blankGap m.isValue hrest
  rw [readMember, hkey, liftText_ok, readEntry, Member.entry]
  simp only [bind, Except.bind, String.ofList_toList]
  cases Field.ofName? m.key with
  | none =>
    simp only [hcolon, hskip, liftText_ok]
    rfl
  | some f =>
    simp only
    split
    · rfl
    · have hfield := uniform_readField f m.blankGap m.isValue hrest
      simp only [hcolon, hfield]
      cases readField f m.value <;> rfl

theorem readMembers_blanks {blanks : List Char} (h : AllBlank blanks) (rounds : Nat) (first : Bool)
    (acc : List Assignment) (cs : List Char) :
    readMembers rounds first acc (blanks ++ cs) = readMembers rounds first acc cs := by
  cases rounds with
  | zero => rfl
  | succ rounds => rw [readMembers, readMembers, skipBlanks_append h]

theorem ends_laterChars (ms : List Member) (rest : List Char) :
    Ends (laterChars ms ++ '\x7d' :: rest) := by
  cases ms with
  | nil => exact ends_cons (by decide) rest
  | cons m ms => exact ends_cons (by decide) _

/-- The members after the first one are read in their order. -/
theorem readMembers_laterChars {ms : List Member} {rounds : Nat} (hrounds : ms.length < rounds)
    (acc : List Assignment) (rest : List Char) :
    readMembers rounds false acc (laterChars ms ++ '\x7d' :: rest) =
      ((ms.map (·.entry)).foldlM readEntry acc).map fun acc => (acc, rest) := by
  induction ms generalizing acc rounds with
  | nil =>
    obtain ⟨rounds, rfl⟩ := Nat.exists_eq_add_one.mpr hrounds
    exact readMembers_close rounds false acc rest
  | cons m ms ih =>
    obtain ⟨rounds, rfl⟩ := Nat.exists_eq_add_one.mpr (Nat.zero_lt_of_lt hrounds)
    have hchars : laterChars (m :: ms) ++ '\x7d' :: rest =
        ',' :: (m.before ++ '"' :: (m.afterQuote ++ (laterChars ms ++ '\x7d' :: rest))) := by
      simp [laterChars, Member.chars]
    have hstep (cs : List Char) :
        readMembers (rounds + 1) false acc (',' :: (m.before ++ '"' :: cs)) =
          readMember acc cs >>= fun p => readMembers rounds false p.1 p.2 := by
      rw [readMembers, skipBlanks_cons (by decide)]
      simp only [skipBlanks_append m.blankBefore, skipBlanks_cons (c := '"') (by decide)]
      rfl
    rw [hchars, hstep, readMember_afterQuote m acc (ends_laterChars ms rest), List.map_cons,
      List.foldlM_cons]
    cases readEntry acc m.entry with
    | error => rfl
    | ok acc' =>
      change readMembers rounds false acc' (m.after ++ (laterChars ms ++ '\x7d' :: rest)) = _
      rw [readMembers_blanks m.blankAfter]
      exact ih (Nat.lt_of_succ_lt_succ hrounds) acc'

theorem length_le_laterChars (ms : List Member) : ms.length ≤ (laterChars ms).length := by
  induction ms with
  | nil => exact Nat.zero_le _
  | cons m ms ih =>
    rw [laterChars, List.flatMap_cons, List.length_append, ← laterChars, List.length_cons,
      List.length_cons]
    omega

/-- All members are read in their order. -/
theorem readMembers_body (o : ObjectText) {rounds : Nat} (hrounds : o.body.length < rounds)
    (rest : List Char) : readMembers rounds true [] (o.body ++ '\x7d' :: rest) =
      (o.entries.foldlM readEntry []).map fun acc => (acc, rest) := by
  obtain ⟨rounds, rfl⟩ := Nat.exists_eq_add_one.mpr (Nat.zero_lt_of_lt hrounds)
  cases hmembers : o.members with
  | nil =>
    have hbody : o.body = o.inside := by rw [ObjectText.body, hmembers]
    rw [hbody, readMembers_blanks o.blankInside, ObjectText.entries, hmembers]
    exact readMembers_close rounds true [] rest
  | cons m ms =>
    have hbody : o.body = m.chars ++ laterChars ms := by rw [ObjectText.body, hmembers]
    have hlater : ms.length < rounds := by
      have hlength := length_le_laterChars ms
      rw [hbody, List.length_append, Member.chars, List.length_append, List.length_cons] at hrounds
      omega
    have hchars : o.body ++ '\x7d' :: rest =
        m.before ++ '"' :: (m.afterQuote ++ (laterChars ms ++ '\x7d' :: rest)) := by
      simp [hbody, Member.chars]
    have hstep (cs : List Char) : readMembers (rounds + 1) true [] ('"' :: cs) =
        readMember [] cs >>= fun p => readMembers rounds false p.1 p.2 := rfl
    rw [hchars, readMembers_blanks m.blankBefore, hstep,
      readMember_afterQuote m [] (ends_laterChars ms rest), ObjectText.entries, hmembers,
      List.map_cons, List.foldlM_cons]
    cases readEntry [] m.entry with
    | error => rfl
    | ok acc =>
      change readMembers rounds false acc (m.after ++ (laterChars ms ++ '\x7d' :: rest)) = _
      rw [readMembers_blanks m.blankAfter]
      exact readMembers_laterChars hlater acc rest

/-- An object is read as what its members make of the defaults, one after the other. -/
theorem ofText_text (o : ObjectText) :
    ofText o.text = (o.entries.foldlM readEntry []).map ofAssignments := by
  have hbegin (cs : List Char) : readAssignments (o.before ++ '\x7b' :: cs) =
      readMembers cs.length.succ true [] cs := by
    rw [readAssignments, skipBlanks_append o.blankBefore, skipBlanks_cons (by decide)]
    rfl
  have hafter : skipBlanks o.after = [] := by
    rw [← List.append_nil o.after, skipBlanks_append o.blankAfter]
    rfl
  rw [ofText, ObjectText.text, String.toList_ofList, hbegin, readMembers_body]
  · cases o.entries.foldlM readEntry [] with
    | error => rfl
    | ok as =>
      change (if (skipBlanks o.after).isEmpty then _ else _) = _
      rw [hafter]
      rfl
  · rw [List.length_append]
    omega

end Settings

end MqttLink
