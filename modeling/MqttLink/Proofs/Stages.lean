import MqttLink.Proofs.Calls

/-!
Runs step by step: what every step of a run answers, and which callbacks are called in it.
-/

namespace MqttLink.Session

open Play

/-- One step of a run: what it answered, and the session before and after it. -/
structure Stage where
  step : Step
  answer : Answer
  before : Session
  after : Session

/-- The callbacks that were called in a stage, in order. -/
def Stage.calls (d : Stage) : List Invocation :=
  (d.after.calls.take (d.after.calls.length - d.before.calls.length)).reverse

/-- Runs steps in order and keeps every stage. -/
def performEach (depth : Nat) : List Step → Session → Option (List Stage × Session)
  | [], s => some ([], s)
  | step :: rest, s => do
    let (answer, t) ← performTo depth step s
    let (later, u) ← performEach depth rest t
    return (⟨step, answer, s, t⟩ :: later, u)

variable {depth : Nat} {step : Step} {rest steps more : List Step} {answer : Answer}
  {ds es : List Stage} {s t u : Session}

theorem Stage.calls_of_append {d : Stage} {news : List Invocation}
    (h : d.after.calls = news ++ d.before.calls) : d.calls = news.reverse := by
  rw [Stage.calls, h, List.length_append, Nat.add_sub_cancel, List.take_left]

theorem performEach_cons_eq_some_iff :
    performEach depth (step :: rest) s = some (ds, u) ↔
      ∃ answer t later, performTo depth step s = some (answer, t) ∧
        performEach depth rest t = some (later, u) ∧ ds = ⟨step, answer, s, t⟩ :: later := by
  rw [performEach, Option.bind_eq_bind, Option.bind_eq_some_iff]
  constructor
  · rintro ⟨⟨answer, t⟩, ht, h⟩
    obtain ⟨⟨later, v⟩, hv, h⟩ := Option.bind_eq_some_iff.mp h
    cases h
    exact ⟨answer, t, later, ht, hv, rfl⟩
  · rintro ⟨answer, t, later, ht, hu, rfl⟩
    exact ⟨(answer, t), ht, Option.bind_eq_some_iff.mpr ⟨(later, u), hu, rfl⟩⟩

theorem performEach_cons (h : performTo depth step s = some (answer, t))
    (hrest : performEach depth rest t = some (ds, u)) :
    performEach depth (step :: rest) s = some (⟨step, answer, s, t⟩ :: ds, u) :=
  performEach_cons_eq_some_iff.mpr ⟨answer, t, ds, h, hrest, rfl⟩

theorem performEach_append (h : performEach depth steps s = some (ds, t))
    (hmore : performEach depth more t = some (es, u)) :
    performEach depth (steps ++ more) s = some (ds ++ es, u) := by
  induction steps generalizing s ds with
  | nil =>
    cases h
    exact hmore
  | cons step rest ih =>
    obtain ⟨answer, v, later, hv, hlater, rfl⟩ := performEach_cons_eq_some_iff.mp h
    exact performEach_cons hv (ih hlater)

/-! ## What a call comes to -/

/-- What is left of the outcome of a callback or handler: a recoverable fault is swallowed. -/
def contained : Outcome → Except Fatal Unit
  | .ok _ => .ok ()
  | .error (.recoverable _) => .ok ()
  | .error (.fatal f) => .error f

theorem contain_eq_contained (source : Source) (outcome : Outcome) (s : Session) :
    ∃ t, contain source outcome s = some (contained outcome, t) ∧ Aside s t := by
  match outcome with
  | .ok () => exact ⟨s, rfl, Aside.refl s⟩
  | .error (.recoverable _) => exact ⟨_, rfl, aside_noted s rfl⟩
  | .error (.fatal _) => exact ⟨s, rfl, Aside.refl s⟩

end MqttLink.Session
