import MqttLink.Proofs.MemberOrder
import MqttLink.Proofs.ReadValues

/-!
Objects of settings as texts. Main statement: every object that can be read is made of members, and
whatever is made of the same members of fields, in any order and among any other members, is read as
the same settings; without the member of a field, that field has its default.
-/

namespace MqttLink.Settings

open Json

variable {acc acc' : List Assignment} {cs rest : List Char}

/-! ## Members that have been read -/

theorem between_of_readColon (h : readColon cs = .ok rest) :
    ∃ between, AllBlank between ∧ cs = between ++ ':' :: rest := by
  obtain ⟨between, hbetween, heq⟩ := exists_skipBlanks cs
  unfold readColon at h
  split at h
  next hskip =>
    cases h
    exact ⟨between, hbetween, hskip ▸ heq⟩
  next => cases h
  next => cases h

/-- What is read as a member is one, with the blanks before and after it. -/
theorem exists_member {before after tail : List Char}
    (h : readMember acc cs = .ok (acc', after ++ tail)) (hbefore : AllBlank before)
    (hafter : AllBlank after) : ∃ m : Member, before ++ '"' :: cs = m.chars ++ tail := by
  obtain ⟨⟨key, afterKey⟩, hkey, hvalue⟩ := ok_of_bind h
  obtain ⟨t, ls, spells, rfl, -⟩ := spells_of_readString (ok_of_liftText hkey)
  suffices hone : ∃ y, readColon afterKey = .ok y ∧ OneValue y (after ++ tail) by
    obtain ⟨y, hcolon, gap, v, hgap, value, rfl⟩ := hone
    obtain ⟨between, hbetween, rfl⟩ := between_of_readColon hcolon
    rw [← String.toList_ofList (l := ls)] at spells
    let m : Member := ⟨before, t, String.ofList ls, between, gap, v, after, hbefore, spells,
      hbetween, hgap, value, hafter⟩
    exact ⟨m, by simp [m, Member.chars, Member.afterQuote]⟩
  simp only at hvalue
  split at hvalue
  next f _ =>
    split at hvalue
    next => cases hvalue
    next =>
      obtain ⟨y, hcolon, hfield⟩ := ok_of_bind hvalue
      obtain ⟨⟨a, rest'⟩, hread, hrest⟩ := ok_of_bind hfield
      cases hrest
      exact ⟨y, hcolon, takes_readField f hread⟩
  next =>
    obtain ⟨y, hcolon, hskip⟩ := ok_of_bind hvalue
    obtain ⟨rest', hread, hrest⟩ := ok_of_bind hskip
    cases hrest
    exact ⟨y, hcolon, oneValue_of_skipValue (ok_of_liftText hread)⟩

/-- What is read after a member is blanks, further members and the closing brace. -/
theorem exists_later {rounds : Nat} {as : List Assignment}
    (h : readMembers rounds false acc cs = .ok (as, rest)) :
    ∃ blanks ms, AllBlank blanks ∧ cs = blanks ++ (laterChars ms ++ '\x7d' :: rest) := by
  induction rounds generalizing acc cs with
  | zero => cases h
  | succ rounds ih =>
    obtain ⟨blanks, hblanks, heq⟩ := exists_skipBlanks cs
    rw [readMembers] at h
    cases hskip : skipBlanks cs with
    | nil => simp [hskip] at h
    | cons c y =>
      simp only [hskip, Bool.false_eq_true, if_false] at h
      rw [hskip] at heq
      split_ifs at h with hclose hcomma
      · cases h
        exact ⟨blanks, [], hblanks, by rw [heq, hclose]; rfl⟩
      · obtain ⟨before, hbefore, heq'⟩ := exists_skipBlanks y
        split at h
        next cs' hquote =>
          obtain ⟨⟨acc', rest'⟩, hmember, hlater⟩ := ok_of_bind h
          obtain ⟨after, ms, hafter, rfl⟩ := ih hlater
          obtain ⟨m, hm⟩ := exists_member hmember hbefore hafter
          refine ⟨blanks, m :: ms, hblanks, ?_⟩
          rw [heq, heq', hquote, hcomma, hm]
          simp [laterChars]
        next => cases h
        next => cases h

/-- What is read in braces is the body of an object. -/
theorem exists_body {rounds : Nat} {as : List Assignment} {before after : List Char}
    (h : readMembers rounds true [] cs = .ok (as, after)) (hbefore : AllBlank before)
    (hafter : AllBlank after) :
    ∃ o : ObjectText, o.text = String.ofList (before ++ '\x7b' :: cs) := by
  cases rounds with
  | zero => cases h
  | succ rounds =>
    obtain ⟨blanks, hblanks, heq⟩ := exists_skipBlanks cs
    rw [readMembers] at h
    cases hskip : skipBlanks cs with
    | nil => simp [hskip] at h
    | cons c y =>
      simp only [hskip, if_true] at h
      rw [hskip] at heq
      split_ifs at h with hclose hquote
      · cases h
        exact ⟨⟨before, blanks, [], after, hbefore, hblanks, hafter⟩, by rw [heq, hclose]; rfl⟩
      · obtain ⟨⟨acc', rest'⟩, hmember, hlater⟩ := ok_of_bind h
        obtain ⟨afterFirst, ms, hafterFirst, rfl⟩ := exists_later hlater
        obtain ⟨m, hm⟩ := exists_member hmember hblanks hafterFirst
        refine ⟨⟨before, [], m :: ms, after, hbefore, allBlank_nil, hafter⟩, ?_⟩
        rw [heq, hquote, hm, ObjectText.text, ObjectText.body, List.append_assoc]

/-- Whether a text is that of an object, as far as its first character tells. -/
def BeginsObject (text : String) : Prop :=
  (skipBlanks text.toList).head? = some '\x7b'

/-- An object that can be read is made of members. -/
theorem exists_objectText {text : String} {s : Settings} (h : ofText text = .ok s)
    (hobject : BeginsObject text) : ∃ o : ObjectText, o.text = text := by
  obtain ⟨before, hbefore, heq⟩ := exists_skipBlanks text.toList
  obtain ⟨cs, hcs⟩ := List.head?_eq_some_iff.mp hobject
  obtain ⟨⟨as, after⟩, hread, hrest⟩ := ok_of_bind h
  rw [readAssignments, hcs] at hread
  have hafter : AllBlank after := by
    obtain ⟨blanks, hblanks, heq⟩ := exists_skipBlanks after
    simp only at hrest
    split at hrest
    next hnone =>
      rw [List.isEmpty_iff.mp hnone, List.append_nil] at heq
      rw [heq]
      exact hblanks
    next => cases hrest
  obtain ⟨o, ho⟩ := exists_body hread hbefore hafter
  exact ⟨o, by rw [ho, ← hcs, ← heq, String.ofList_toList]⟩

/-! ## Other orders, other members -/

/-- Every object that can be read is made of members, and the settings have in each field the value
of the member that names it, or the default. Another object with the same members of fields is read
as the same settings, whatever the order of all members, the layout and the other members are; and
one that lacks the member of a field is read as the settings with the default of that field. -/
theorem ofText_rearranged {text : String} {s : Settings} (h : ofText text = .ok s)
    (hobject : BeginsObject text) :
    (∃ o : ObjectText, o.text = text) ∧ ∀ o : ObjectText, o.text = text →
      (∀ f, (∃ e ∈ o.known, Field.ofName? e.1 = some f ∧
          readField f e.2 = .ok (s.assignment f, [])) ∨
        (∀ e ∈ o.known, Field.ofName? e.1 ≠ some f) ∧
          s.assignment f = ({} : Settings).assignment f) ∧
      ∀ o' : ObjectText, (o'.known.Perm o.known → ofText o'.text = .ok s) ∧
        ∀ f e, Field.ofName? e.1 = some f → (e :: o'.known).Perm o.known →
          ofText o'.text = .ok (s.assign (({} : Settings).assignment f)) := by
  refine ⟨exists_objectText h hobject, fun o ho => ?_⟩
  subst ho
  exact ⟨named_or_default h, fun o' =>
    ⟨ofText_of_perm h, fun f e hname hperm => ofText_of_deleted h hname hperm⟩⟩

/-- A member that is written without blanks and escapes. -/
def Member.plain (key : String) (value : List Char)
    (hkey : key.toList.all fun c => c ≠ '"' ∧ c ≠ '\\' ∧ ¬ c.toNat < 32)
    (isValue : Derives .value value) : Member :=
  ⟨[], key.toList, key, [], [], value, [], allBlank_nil, spells_self hkey, allBlank_nil,
    allBlank_nil, isValue, allBlank_nil⟩

def ObjectText.plain (ms : List Member) : ObjectText :=
  ⟨[], [], ms, [], allBlank_nil, allBlank_nil, allBlank_nil⟩

theorem derives_seven : Derives .value ['7'] := by
  have hwhole : IsWhole ['7'] := .digits (by decide) (by decide) (List.forall_mem_nil _)
  exact .number .none hwhole .none .none

theorem derives_nested : Derives .value "[\x7b\"y\":null\x7d]".toList := by
  have hobject : Derives .value "\x7b\"y\":null\x7d".toList :=
    derives_object (.plain [.plain "y" "null".toList (by decide) .null])
  have hitem : Derives (.item .array) ([] ++ ("\x7b\"y\":null\x7d".toList ++ [])) :=
    .element allBlank_nil hobject allBlank_nil
  exact .full (.last hitem)

/-- The member of a port behind one that names no field, the other way round, and taken out. -/
theorem ofText_rearranged_port :
    ofText "\x7b\"x\":[\x7b\"y\":null\x7d],\"port\":7\x7d" = .ok { port := some ⟨7, by decide⟩ } ∧
      BeginsObject "\x7b\"x\":[\x7b\"y\":null\x7d],\"port\":7\x7d" ∧
      ofText "\x7b\"port\":7,\"x\":[\x7b\"y\":null\x7d]\x7d" = .ok { port := some ⟨7, by decide⟩ } ∧
      ofText "\x7b\"x\":[\x7b\"y\":null\x7d]\x7d" = .ok {} := by
  let port := Member.plain "port" ['7'] (by decide) derives_seven
  let other := Member.plain "x" "[\x7b\"y\":null\x7d]".toList (by decide) derives_nested
  have hread : ofText "\x7b\"x\":[\x7b\"y\":null\x7d],\"port\":7\x7d" =
      .ok { port := some ⟨7, by decide⟩ } := by rfl
  have hobject : BeginsObject "\x7b\"x\":[\x7b\"y\":null\x7d],\"port\":7\x7d" := by rfl
  have hrearranged := ((ofText_rearranged hread hobject).2 (.plain [other, port]) rfl).2
  exact ⟨hread, hobject, (hrearranged (.plain [port, other])).1 (.refl _),
    (hrearranged (.plain [other])).2 .port port.entry rfl (.refl _)⟩

end MqttLink.Settings
