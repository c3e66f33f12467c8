import Mathlib.Data.List.Perm.Basic
import Mathlib.Data.List.Nodup
import MqttLink.Proofs.Members

/-!
What the members of an object come to. Main statement: an object can be read just if every field it
names is named once and with a value of its own, and then each field has its value, wherever its
member stands; members that name no field do not count.
-/

namespace MqttLink.Settings

open Json

/-! ## Settings by their fields -/

theorem assignment_assign (s : Settings) (a : Assignment) (f : Field) :
    (s.assign a).assignment f = if a.field = f then a else s.assignment f := by
  cases a <;> cases f <;> rfl

/-- Settings that agree in every field are the same. -/
theorem eq_of_assignment {s s' : Settings} (h : ∀ f, s.assignment f = s'.assignment f) :
    s = s' := by
  rw [← s.ofAssignments_assignment, ← s'.ofAssignments_assignment, funext h]

theorem assignment_foldl_of_not_mem {f : Field} {as : List Assignment} (s : Settings)
    (h : f ∉ as.map (·.field)) : (as.foldl assign s).assignment f = s.assignment f := by
  induction as generalizing s with
  | nil => rfl
  | cons a as ih =>
    obtain ⟨hfirst, hlater⟩ := not_or.mp (mt List.mem_cons.mpr h)
    rw [List.foldl_cons, ih (s.assign a) hlater, assignment_assign, if_neg (Ne.symm hfirst)]

theorem assignment_foldl_of_mem {a : Assignment} {as : List Assignment} (s : Settings)
    (hnodup : (as.map (·.field)).Nodup) (h : a ∈ as) :
    (as.foldl assign s).assignment a.field = a := by
  induction as generalizing s with
  | nil => exact absurd h List.not_mem_nil
  | cons b as ih =>
    obtain ⟨hnew, hnodup⟩ := List.nodup_cons.mp hnodup
    rw [List.foldl_cons]
    rcases List.mem_cons.mp h with rfl | hlater
    · rw [assignment_foldl_of_not_mem _ hnew, assignment_assign, if_pos rfl]
    · exact ih _ hnodup hlater

/-- The order of assignments to different fields does not matter. -/
theorem ofAssignments_perm {as bs : List Assignment} (h : as.Perm bs)
    (hnodup : (as.map (·.field)).Nodup) : ofAssignments as = ofAssignments bs := by
  have hfields := h.map (·.field)
  refine eq_of_assignment fun f => ?_
  by_cases hf : f ∈ as.map (·.field)
  · obtain ⟨a, ha, rfl⟩ := List.mem_map.mp hf
    rw [ofAssignments, ofAssignments, assignment_foldl_of_mem _ hnodup ha,
      assignment_foldl_of_mem _ (hfields.nodup hnodup) (h.mem_iff.mp ha)]
  · rw [ofAssignments, ofAssignments, assignment_foldl_of_not_mem _ hf,
      assignment_foldl_of_not_mem _ (mt hfields.mem_iff.mpr hf)]

/-- Without its assignment a field has its default. -/
theorem ofAssignments_of_cons {a : Assignment} {as : List Assignment}
    (hnodup : ((a :: as).map (·.field)).Nodup) : ofAssignments as =
      (ofAssignments (a :: as)).assign (({} : Settings).assignment a.field) := by
  obtain ⟨hnew, hnodup⟩ := List.nodup_cons.mp hnodup
  refine eq_of_assignment fun f => ?_
  rw [assignment_assign, field_assignment]
  split
  next hf =>
    subst hf
    exact assignment_foldl_of_not_mem _ hnew
  next hf =>
    rw [ofAssignments, ofAssignments, List.foldl_cons]
    by_cases hmem : f ∈ as.map (·.field)
    · obtain ⟨b, hb, rfl⟩ := List.mem_map.mp hmem
      rw [assignment_foldl_of_mem _ hnodup hb, assignment_foldl_of_mem _ hnodup hb]
    · rw [assignment_foldl_of_not_mem _ hmem, assignment_foldl_of_not_mem _ hmem,
        assignment_assign, if_neg hf]

/-! ## Accepted members -/

theorem field_of_readField {f : Field} {cs rest : List Char} {a : Assignment}
    (h : readField f cs = .ok (a, rest)) : a.field = f := by
  have hmap {α : Type} {r : Except ReadFault (α × List Char)} {g : α → Assignment}
      (h : r.map (fun p => (g p.1, p.2)) = .ok (a, rest)) : ∃ v, a = g v := by
    cases r with
    | error => cases h
    | ok p =>
      cases h
      exact ⟨p.1, rfl⟩
  cases f <;> (obtain ⟨v, rfl⟩ := hmap h; rfl)

/-- What a member gives to a field. -/
def given? (e : String × List Char) : Option Assignment :=
  (Field.ofName? e.1).bind fun f => (readField f e.2).toOption.map (·.1)

/-- Every member gives a value, and no two give one to the same field. -/
structure Accepted (es : List (String × List Char)) : Prop where
  given : ∀ e ∈ es, (given? e).isSome
  distinct : ((es.filterMap given?).map (·.field)).Nodup

theorem field_of_given? {e : String × List Char} {a : Assignment} (h : given? e = some a) :
    Field.ofName? e.1 = some a.field := by
  obtain ⟨f, hname, hread⟩ := Option.bind_eq_some_iff.mp h
  cases hvalue : readField f e.2 with
  | error => rw [hvalue] at hread; cases hread
  | ok p =>
    rw [hvalue] at hread
    cases hread
    rw [hname, field_of_readField hvalue]

/-- The members that name no field add nothing. -/
theorem foldlM_known (es : List (String × List Char)) (acc : List Assignment) :
    es.foldlM readEntry acc =
      (es.filter fun e => (Field.ofName? e.1).isSome).foldlM readEntry acc := by
  induction es generalizing acc with
  | nil => rfl
  | cons e es ih =>
    rw [List.foldlM_cons]
    cases hname : Field.ofName? e.1 with
    | none =>
      have hskip : readEntry acc e = .ok acc := by rw [readEntry, hname]
      rw [List.filter_cons_of_neg (by simp [hname]), hskip]
      exact ih acc
    | some f =>
      rw [List.filter_cons_of_pos (by simp [hname]), List.foldlM_cons]
      exact bind_congr ih

/-- A member that names a field adds its value, if it has one and the field is new. -/
theorem readEntry_iff {e : String × List Char} {f : Field} (hname : Field.ofName? e.1 = some f)
    (acc acc' : List Assignment) : readEntry acc e = .ok acc' ↔
      ∃ a, given? e = some a ∧ a.field ∉ acc.map (·.field) ∧ acc' = acc ++ [a] := by
  have hany : acc.any (·.field = f) ↔ f ∈ acc.map (·.field) := by simp
  rw [readEntry, hname]
  simp only
  cases hvalue : readField f e.2 with
  | error =>
    have hnone : given? e = none := by rw [given?, hname, Option.bind_some, hvalue]; rfl
    simp only [hnone, reduceCtorEq, false_and, exists_false, iff_false]
    split <;> (intro h; cases h)
  | ok p =>
    have hsome : given? e = some p.1 := by rw [given?, hname, Option.bind_some, hvalue]; rfl
    have hfield : p.1.field = f := field_of_readField hvalue
    simp only [hsome, Option.some.injEq, exists_eq_left', hfield, ← hany]
    split
    next hdup => simp [hdup]
    next hnew =>
      rw [Bool.not_eq_true] at hnew
      simp only [hnew, Except.map, Except.ok.injEq, Bool.false_eq_true, not_false_eq_true, true_and]
      exact eq_comm

theorem foldlM_readEntry_iff {es : List (String × List Char)}
    (hknown : ∀ e ∈ es, (Field.ofName? e.1).isSome) (acc : List Assignment)
    (hacc : (acc.map (·.field)).Nodup) (as : List Assignment) :
    es.foldlM readEntry acc = .ok as ↔ (∀ e ∈ es, (given? e).isSome) ∧
      ((acc ++ es.filterMap given?).map (·.field)).Nodup ∧ as = acc ++ es.filterMap given? := by
  induction es generalizing acc with
  | nil =>
    simp only [List.foldlM_nil, pure, Except.pure, Except.ok.injEq, List.not_mem_nil,
      List.filterMap_nil, List.append_nil, hacc, true_and, false_imp_iff, implies_true]
    exact eq_comm
  | cons e es ih =>
    obtain ⟨hfirst, hlater⟩ := List.forall_mem_cons.mp hknown
    obtain ⟨f, hname⟩ := Option.isSome_iff_exists.mp hfirst
    have hbind : (e :: es).foldlM readEntry acc = .ok as ↔
        ∃ acc', readEntry acc e = .ok acc' ∧ es.foldlM readEntry acc' = .ok as := by
      rw [List.foldlM_cons]
      cases readEntry acc e <;> simp [bind, Except.bind]
    rw [hbind]
    constructor
    · rintro ⟨acc', hread, hrest⟩
      obtain ⟨a, hgiven, hnew, rfl⟩ := (readEntry_iff hname acc acc').mp hread
      have hacc' : ((acc ++ [a]).map (·.field)).Nodup := by
        rw [List.map_append, List.map_singleton, ← List.concat_eq_append]
        exact hacc.concat hnew
      obtain ⟨hothers, hnodup, rfl⟩ := (ih hlater _ hacc').mp hrest
      rw [List.append_assoc, List.singleton_append] at hnodup ⊢
      rw [List.filterMap_cons_some hgiven]
      exact ⟨List.forall_mem_cons.mpr ⟨by rw [hgiven]; rfl, hothers⟩, hnodup, rfl⟩
    · rintro ⟨hgiven, hnodup, has⟩
      obtain ⟨hsome, hothers⟩ := List.forall_mem_cons.mp hgiven
      obtain ⟨a, ha⟩ := Option.isSome_iff_exists.mp hsome
      have happend : acc ++ (e :: es).filterMap given? = acc ++ [a] ++ es.filterMap given? := by
        rw [List.filterMap_cons_some ha, List.append_cons]
      rw [happend] at hnodup has
      have hacc' : ((acc ++ [a]).map (·.field)).Nodup := by
        rw [List.map_append] at hnodup
        exact hnodup.of_append_left
      have hnew : a.field ∉ acc.map (·.field) := by
        rw [List.map_append, List.map_singleton] at hacc'
        exact fun hmem => (List.nodup_append.mp hacc').2.2 _ hmem _ (List.mem_singleton_self _) rfl
      exact ⟨acc ++ [a], (readEntry_iff hname acc _).mpr ⟨a, ha, hnew, rfl⟩,
        (ih hlater _ hacc').mpr ⟨hothers, hnodup, has⟩⟩

/-- An object is read just if its members are accepted, and stands for what they give. -/
theorem ofText_text_iff (o : ObjectText) (s : Settings) : ofText o.text = .ok s ↔
    Accepted o.known ∧ ofAssignments (o.known.filterMap given?) = s := by
  have hknown : ∀ e ∈ o.known, (Field.ofName? e.1).isSome := fun e he =>
    (List.mem_filter.mp he).2
  have hread (as : List Assignment) : o.entries.foldlM readEntry [] = .ok as ↔
      Accepted o.known ∧ as = o.known.filterMap given? := by
    rw [foldlM_known]
    have hiff := foldlM_readEntry_iff hknown [] List.nodup_nil as
    rw [List.nil_append, ← and_assoc] at hiff
    refine hiff.trans ?_
    exact and_congr_left' ⟨fun h => ⟨h.1, h.2⟩, fun h => ⟨h.given, h.distinct⟩⟩
  rw [ofText_text]
  constructor
  · intro h
    cases hfold : o.entries.foldlM readEntry [] with
    | error => rw [hfold] at h; cases h
    | ok as =>
      rw [hfold] at h
      cases h
      obtain ⟨haccepted, rfl⟩ := (hread as).mp hfold
      exact ⟨haccepted, rfl⟩
  · rintro ⟨haccepted, rfl⟩
    rw [(hread _).mpr ⟨haccepted, rfl⟩]
    rfl

theorem derives_of_mem_known {o : ObjectText} {e : String × List Char} (h : e ∈ o.known) :
    Derives .value e.2 := by
  obtain ⟨m, -, rfl⟩ := List.mem_map.mp (List.mem_filter.mp h).1
  exact m.isValue

/-- Nothing of its value is left over when a member has been read. -/
theorem readField_of_given? {e : String × List Char} {a : Assignment} (h : given? e = some a)
    (hvalue : Derives .value e.2) : readField a.field e.2 = .ok (a, []) := by
  have hname := field_of_given? h
  have halone := uniform_readField a.field allBlank_nil hvalue (show Ends [] from trivial)
  rw [List.nil_append, List.append_nil] at halone
  rw [given?, hname, Option.bind_some] at h
  cases hread : readField a.field e.2 with
  | error => rw [hread] at h; cases h
  | ok p =>
    rw [hread] at h halone
    cases h
    exact halone

/-- Each field has the value of the member that names it, and its default if there is none. -/
theorem named_or_default {o : ObjectText} {s : Settings} (h : ofText o.text = .ok s) (f : Field) :
    (∃ e ∈ o.known, Field.ofName? e.1 = some f ∧ readField f e.2 = .ok (s.assignment f, [])) ∨
      (∀ e ∈ o.known, Field.ofName? e.1 ≠ some f) ∧
        s.assignment f = ({} : Settings).assignment f := by
  obtain ⟨haccepted, rfl⟩ := (ofText_text_iff o s).mp h
  by_cases hf : f ∈ (o.known.filterMap given?).map (·.field)
  · obtain ⟨a, ha, rfl⟩ := List.mem_map.mp hf
    obtain ⟨e, he, hgiven⟩ := List.mem_filterMap.mp ha
    rw [ofAssignments, assignment_foldl_of_mem _ haccepted.distinct ha]
    exact .inl ⟨e, he, field_of_given? hgiven, readField_of_given? hgiven (derives_of_mem_known he)⟩
  · refine .inr ⟨fun e he hname => ?_, assignment_foldl_of_not_mem _ hf⟩
    obtain ⟨a, ha⟩ := Option.isSome_iff_exists.mp (haccepted.given e he)
    have hfield : f = a.field := Option.some.inj (hname.symm.trans (field_of_given? ha))
    exact hf (hfield ▸ List.mem_map_of_mem (List.mem_filterMap.mpr ⟨e, he, ha⟩))

/-! ## Other orders, other members -/

theorem accepted_perm {es es' : List (String × List Char)} (h : es.Perm es')
    (haccepted : Accepted es) : Accepted es' where
  given e he := haccepted.given e (h.mem_iff.mpr he)
  distinct := (((h.filterMap given?).map (·.field)).nodup) haccepted.distinct

/-- Members may stand in any order, among any others that name no field. -/
theorem ofText_of_perm {o o' : ObjectText} {s : Settings} (h : ofText o.text = .ok s)
    (hperm : o'.known.Perm o.known) : ofText o'.text = .ok s := by
  obtain ⟨haccepted, rfl⟩ := (ofText_text_iff o s).mp h
  refine (ofText_text_iff o' _).mpr ⟨accepted_perm hperm.symm haccepted, ?_⟩
  exact (ofAssignments_perm (hperm.symm.filterMap given?) haccepted.distinct).symm

/-- Without the member of a field the field has its default. -/
theorem ofText_of_deleted {o o' : ObjectText} {s : Settings} (h : ofText o.text = .ok s)
    {f : Field} {e : String × List Char} (hname : Field.ofName? e.1 = some f)
    (hperm : (e :: o'.known).Perm o.known) :
    ofText o'.text = .ok (s.assign (({} : Settings).assignment f)) := by
  obtain ⟨haccepted, rfl⟩ := (ofText_text_iff o s).mp h
  obtain ⟨hgiven, hdistinct⟩ := accepted_perm hperm.symm haccepted
  obtain ⟨hsome, hothers⟩ := List.forall_mem_cons.mp hgiven
  obtain ⟨a, ha⟩ := Option.isSome_iff_exists.mp hsome
  have hfield : f = a.field := Option.some.inj (hname.symm.trans (field_of_given? ha))
  have hall := hperm.filterMap given?
  rw [List.filterMap_cons_some ha] at hdistinct hall
  rw [← ofAssignments_perm hall hdistinct, hfield, ← ofAssignments_of_cons hdistinct]
  exact (ofText_text_iff o' _).mpr ⟨⟨hothers, (List.nodup_cons.mp hdistinct).2⟩, rfl⟩

end MqttLink.Settings
