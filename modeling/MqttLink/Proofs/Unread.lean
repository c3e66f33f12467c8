import MqttLink.Proofs.Unison

/-!
The journal is written and never read. Main statement: whatever was written down before, a step
gives the same answer, leaves the same session but for the journal, and writes down the same; so it
also comes to its end in the same cases.
-/

namespace MqttLink.Session

open Play

variable {α : Type} {s t : Session}

/-- The session with older entries behind those of its journal. -/
def withPast (s : Session) (past : List Occurrence) : Session :=
  { s with journal := s.journal ++ past }

/-- Older entries make no difference to `x`. -/
def Blind (x : Play α) : Prop :=
  ∀ s past, x (s.withPast past) = (x s).map fun (a, t) => (a, t.withPast past)

theorem eq_of_unwritten (h : t.unwritten = s.unwritten) (hjournal : t.journal = s.journal) :
    t = s := by
  calc t = { t.unwritten with journal := t.journal } := rfl
    _ = { s.unwritten with journal := s.journal } := by rw [h, hjournal]

/-- A session is in unison with itself when it remembers more. -/
theorem unison_withPast (past : List Occurrence) : Unison fun s t => t = s.withPast past where
  same _ _ h := by rw [h]; rfl
  noted _ _ h _ _ := by rw [h]; rfl
  changed s t s' t' h hsame hs ht _ :=
    eq_of_unwritten hsame (by rw [ht, h, withPast, withPast, hs])
  handlerSet _ _ h _ _ := by rw [h]; rfl
  handlersCleared _ _ h := by rw [h]; rfl

/-- So it is when it remembers less. -/
theorem unison_of_withPast (past : List Occurrence) : Unison fun s t => s = t.withPast past where
  same _ _ h := by rw [h]; rfl
  noted _ _ h _ _ := by rw [h]; rfl
  changed s t s' t' h hsame hs ht _ :=
    eq_of_unwritten hsame.symm (by rw [hs, h, withPast, withPast, ht])
  handlerSet _ _ h _ _ := by rw [h]; rfl
  handlersCleared _ _ h := by rw [h]; rfl

/-- What does the same in all sessions that are in unison does not read the journal. -/
theorem blind_of_accords {x : Play α} (h : ∀ T, Unison T → Accords T x x) : Blind x := by
  intro s past
  cases hx : x s with
  | some p =>
    obtain ⟨t', ht, rfl⟩ := h _ (unison_withPast past) rfl hx
    exact ht
  | none =>
    cases hx' : x (s.withPast past) with
    | none => rfl
    | some p =>
      -- without the older entries it would come to its end too
      obtain ⟨t, ht, -⟩ := h _ (unison_of_withPast past) rfl hx'
      rw [hx] at ht
      cases ht

theorem blind_performTo (depth : Nat) (step : Step) : Blind (performTo depth step) :=
  blind_of_accords fun _ hT => hT.accords_performTo depth step

end MqttLink.Session
