import MqttLink.Proofs.Spans
import MqttLink.Settings.Printer
import MqttLink.Settings.Reader

/-!
Settings as text. Main statement: the JSON text that is written for settings is read without a fault
and stands for the same settings.
-/

namespace MqttLink.Settings

open Json

/-! ## Values -/

theorem skipBlanks_cons {c : Char} (h : isBlank c = false) (rest : List Char) :
    skipBlanks (c :: rest) = c :: rest := by
  rw [skipBlanks, List.dropWhile_cons_of_neg (by simp [h])]

theorem liftText_ok {α : Type} (a : α) : liftText (.ok a) = .ok a := rfl

theorem readText_literal (wanted : Wanted) (s : String) (rest : List Char) :
    readText wanted (literal s ++ rest) = .ok (s, rest) := by
  have hquote : literal s ++ rest = '"' :: (s.toList.flatMap escape ++ '"' :: rest) := by
    simp [literal]
  rw [hquote, readText, skipBlanks_cons (by decide)]
  simp only [readString_literal, liftText_ok, bind, Except.bind, String.ofList_toList]

theorem readBool_chars (b : Bool) (rest : List Char) :
    readBool ((Value.bool b).chars ++ rest) = .ok (b, rest) := by
  cases b <;> rfl

theorem readDuration_literal (d : Duration) (rest : List Char) :
    readDuration (literal d.written ++ rest) = .ok (d, rest) := by
  rw [readDuration, readText_literal]
  simp only [bind, Except.bind, Duration.ofText?_written]

theorem chars_ofNat (n : Nat) : (Value.ofNat n).chars = Nat.toDigits 10 n := by
  rw [Value.ofNat, Value.chars, ← Nat.toList_repr]
  rfl

theorem readPort_ofOption (p : Option Port) {c : Char} (hc : endsNumber c) (rest : List Char) :
    readPort ((Value.ofOption (fun p => .ofNat p.val) p).chars ++ c :: rest) =
      .ok (p, c :: rest) := by
  cases p with
  | none => rfl
  | some p =>
    have hlt := p.isLt
    have hread := readNumber_toDigits (n := p.val) (by omega) hc rest
    have hall : ∀ d ∈ Nat.toDigits 10 p.val, isDigit d := fun _ => isDigit_of_mem_toDigits
    rw [Value.ofOption, chars_ofNat]
    cases hdigits : Nat.toDigits 10 p.val with
    | nil => exact absurd hdigits Nat.toDigits_ne_nil
    | cons d ds =>
      rw [hdigits] at hall hread
      have hd := hall d (List.mem_cons_self ..)
      have hother : d ≠ 'n' ∧ d ≠ '-' := by
        constructor <;> rintro rfl <;> exact absurd hd (by decide)
      rw [List.cons_append] at hread ⊢
      rw [readPort, skipBlanks_cons (isBlank_of_isDigit hd)]
      simp only [hother, hd, hread, liftText_ok, if_false, Bool.or_true, if_true,
        decide_false]
      change (do
        let port ← portOfNumber (.natural p.val)
        Except.ok (port, c :: rest)) = _
      rw [portOfNumber, dif_pos hlt]
      rfl

/-- The value that settings give to a field. -/
def assignment (s : Settings) : Field → Assignment
  | .clientId => .clientId s.clientId
  | .hostname => .hostname s.hostname
  | .username => .username s.username
  | .webSockets => .webSockets s.webSockets
  | .webSocketPath => .webSocketPath s.webSocketPath
  | .port => .port s.port
  | .keepAlive => .keepAlive s.keepAlive
  | .connectTimeout => .connectTimeout s.connectTimeout

@[simp] theorem field_assignment (s : Settings) (f : Field) : (s.assignment f).field = f := by
  cases f <;> rfl

/-- The values of all fields make up the settings. -/
theorem ofAssignments_assignment (s : Settings) :
    ofAssignments (Field.all.map s.assignment) = s := by
  simp only [ofAssignments, Field.all, List.map_cons, List.map_nil, assignment, List.foldl_cons,
    List.foldl_nil, assign]

/-- The value of each field reads back, whatever ends it. -/
theorem readField_fieldValue (s : Settings) (f : Field) {c : Char} (hc : endsNumber c)
    (rest : List Char) :
    readField f ((s.fieldValue f).chars ++ c :: rest) = .ok (s.assignment f, c :: rest) := by
  cases f
  case webSockets =>
    rw [readField, fieldValue, readBool_chars]
    rfl
  case port =>
    rw [readField, fieldValue, readPort_ofOption s.port hc]
    rfl
  case keepAlive | connectTimeout =>
    rw [readField, fieldValue, Value.chars, readDuration_literal]
    rfl
  all_goals
    rw [readField, fieldValue, Value.chars, readText_literal]
    rfl

/-! ## Members -/

/-- A member of the object that is written, after its opening quote. -/
def member (s : Settings) (f : Field) : List Char :=
  f.name.toList.flatMap escape ++ '"' :: ':' :: (s.fieldValue f).chars

/-- The members that are written after the first one. -/
def laterMembers (s : Settings) (fs : List Field) : List Char :=
  fs.flatMap fun f => ',' :: '"' :: s.member f

theorem memberChars_cons (s : Settings) (f : Field) (fs : List Field) :
    Value.memberChars ((f :: fs).map fun f => (f.name, s.fieldValue f)) =
      '"' :: (s.member f ++ s.laterMembers fs) := by
  induction fs generalizing f with
  | nil => simp [Value.memberChars, member, laterMembers, literal]
  | cons next fs ih =>
    have hrest := ih next
    rw [List.map_cons] at hrest
    rw [List.map_cons, List.map_cons, Value.memberChars, hrest]
    · simp [member, laterMembers, literal]
    · simp

theorem length_le_laterMembers (s : Settings) (fs : List Field) :
    fs.length ≤ (s.laterMembers fs).length := by
  induction fs with
  | nil => exact Nat.zero_le _
  | cons f fs ih =>
    rw [laterMembers, List.flatMap_cons, List.length_append, ← laterMembers, List.length_cons,
      List.length_cons]
    omega

/-- The members end with a character that ends a number, too. -/
theorem laterMembers_append (s : Settings) (fs : List Field) :
    ∃ c rest, endsNumber c ∧ s.laterMembers fs ++ ['\x7d'] = c :: rest := by
  cases fs with
  | nil => exact ⟨'\x7d', [], by decide, rfl⟩
  | cons f fs => exact ⟨',', _, by decide, rfl⟩

theorem readMember_member (s : Settings) {f : Field} {acc : List Assignment}
    (hnew : f ∉ acc.map (·.field)) {c : Char} (hc : endsNumber c) (rest : List Char) :
    readMember acc (s.member f ++ c :: rest) = .ok (acc ++ [s.assignment f], c :: rest) := by
  have hsingle : acc.any (·.field = f) = false := by
    simp only [List.any_eq_false, decide_eq_true_eq]
    intro a ha hfield
    exact hnew (hfield ▸ List.mem_map_of_mem ha)
  have hcolon : ∀ tail, readColon (':' :: tail) = .ok tail := fun _ => rfl
  rw [member, List.append_assoc, List.cons_append, List.cons_append, readMember,
    readString_literal]
  simp only [liftText_ok, bind, Except.bind, String.ofList_toList]
  rw [Field.ofName?_name]
  simp only [hsingle, hcolon, readField_fieldValue s f hc]
  rfl

theorem readMembers_close (rounds : Nat) (first : Bool) (acc : List Assignment)
    (rest : List Char) : readMembers (rounds + 1) first acc ('\x7d' :: rest) = .ok (acc, rest) :=
  rfl

section

variable {acc acc' : List Assignment} {cs rest : List Char}
  (hmember : readMember acc cs = .ok (acc', rest)) (rounds : Nat)
include hmember

theorem readMembers_first :
    readMembers (rounds + 1) true acc ('"' :: cs) = readMembers rounds false acc' rest := by
  have hread : readMembers (rounds + 1) true acc ('"' :: cs) =
      readMember acc cs >>= fun p => readMembers rounds false p.1 p.2 := rfl
  rw [hread, hmember]
  rfl

theorem readMembers_later :
    readMembers (rounds + 1) false acc (',' :: '"' :: cs) = readMembers rounds false acc' rest := by
  have hread : readMembers (rounds + 1) false acc (',' :: '"' :: cs) =
      readMember acc cs >>= fun p => readMembers rounds false p.1 p.2 := rfl
  rw [hread, hmember]
  rfl

end

/-- Members of different fields are read one after the other. -/
theorem readMembers_laterMembers (s : Settings) {fs : List Field} {acc : List Assignment}
    {rounds : Nat} (hnodup : (acc.map (·.field) ++ fs).Nodup) (hrounds : fs.length < rounds) :
    readMembers rounds false acc (s.laterMembers fs ++ ['\x7d']) =
      .ok (acc ++ fs.map s.assignment, []) := by
  induction fs generalizing acc rounds with
  | nil =>
    obtain ⟨rounds, rfl⟩ := Nat.exists_eq_add_one.mpr hrounds
    rw [List.map_nil, List.append_nil]
    exact readMembers_close rounds false acc []
  | cons f fs ih =>
    obtain ⟨rounds, rfl⟩ := Nat.exists_eq_add_one.mpr (Nat.zero_lt_of_lt hrounds)
    have hnew : f ∉ acc.map (·.field) := fun hf =>
      (List.nodup_append.mp hnodup).2.2 f hf f (List.mem_cons_self ..) rfl
    obtain ⟨c, rest, hc, hrest⟩ := s.laterMembers_append fs
    have hmembers : s.laterMembers (f :: fs) ++ ['\x7d'] =
        ',' :: '"' :: (s.member f ++ c :: rest) := by
      rw [← hrest]
      simp [laterMembers]
    have hnodup' : ((acc ++ [s.assignment f]).map (·.field) ++ fs).Nodup := by
      simpa using hnodup
    rw [hmembers, readMembers_later (s.readMember_member hnew hc rest), ← hrest,
      ih hnodup' (Nat.lt_of_succ_lt_succ hrounds), List.map_cons, List.append_assoc,
      List.singleton_append]

/-- An object with members of different fields is read as what it gives to the fields. -/
theorem readAssignments_object (s : Settings) {f : Field} {fs : List Field}
    (hnodup : (f :: fs).Nodup) :
    readAssignments (Value.object ((f :: fs).map fun f => (f.name, s.fieldValue f))).chars =
      .ok ((f :: fs).map s.assignment, []) := by
  have hbegin : ∀ cs, readAssignments ('\x7b' :: cs) = readMembers cs.length.succ true [] cs :=
    fun _ => rfl
  obtain ⟨c, rest, hc, hrest⟩ := s.laterMembers_append fs
  have hlength : fs.length < (s.laterMembers fs ++ ['\x7d']).length := by
    have hle := s.length_le_laterMembers fs
    rw [List.length_append, List.length_singleton]
    omega
  have hrounds : fs.length < (s.member f ++ (s.laterMembers fs ++ ['\x7d'])).length := by
    rw [List.length_append]
    omega
  rw [Value.chars, memberChars_cons, hbegin, List.cons_append, List.length_cons,
    List.append_assoc, hrest, readMembers_first (s.readMember_member List.not_mem_nil hc rest),
    ← hrest, List.nil_append, readMembers_laterMembers s (by simpa using hnodup) (by omega)]
  rfl

/-- Settings read back from their written form. -/
theorem ofText_written (s : Settings) : ofText s.written = .ok s := by
  have hnodup : [Field.clientId, .hostname, .username, .webSockets, .webSocketPath, .port,
      .keepAlive, .connectTimeout].Nodup := by decide
  have hread := s.readAssignments_object hnodup
  have hchars : s.written.toList = s.toValue.chars := by
    rw [written, Value.text, String.toList_ofList]
  have hall : readAssignments s.toValue.chars = .ok (Field.all.map s.assignment, []) := hread
  rw [ofText, hchars, hall]
  exact congrArg Except.ok s.ofAssignments_assignment

end MqttLink.Settings
