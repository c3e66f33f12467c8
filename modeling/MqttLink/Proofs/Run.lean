import MqttLink.Proofs.Operations

/-!
Runs: steps one after the other, with all that their callbacks and handlers do in between. Main
statements: a relation or a property that one step keeps, given that the steps nested in it keep it,
is kept by whole runs; so it is with the events of a client, whose handlers run steps.
-/

namespace MqttLink

/-- The callback or handler that a step hands over. -/
def Step.carried? : Step → Option Callback
  | track _ callback | trackAll _ callback => callback
  | subscribe _ _ callback | unsubscribe _ callback | publish _ _ _ callback => callback
  | setHandler _ handler => some handler
  | _ => none

/-- `P` holds of a step, and in turn of every step that the callback or handler runs which it hands
over. -/
inductive Step.All (P : Step → Prop) : Step → Prop
  | intro (step : Step) (own : P step)
      (nested : ∀ c, step.carried? = some c → ∀ n ∈ c.steps, Step.All P n) : Step.All P step

/-- The step hands over no callback or handler that runs steps. -/
def Step.bare (step : Step) : Bool :=
  step.carried?.all (·.steps.isEmpty)

theorem Step.all_of_bare {P : Step → Prop} {step : Step} (h : step.bare) (hP : P step) :
    step.All P := by
  refine .intro step hP fun c hc n hn => ?_
  rw [Step.bare, hc, Option.all_some, List.isEmpty_iff] at h
  rw [h] at hn
  cases hn

/-- `P` holds of all that a callback or handler runs. -/
def Reaction.Confined (P : Step → Prop) (c : Callback) : Prop :=
  ∀ n ∈ c.steps, n.All P

theorem Step.All.own {P : Step → Prop} {step : Step} (h : step.All P) : P step := by
  cases h with
  | intro _ own _ => exact own

theorem Step.All.confined {P : Step → Prop} {step : Step} (h : step.All P) {c : Callback}
    (hc : step.carried? = some c) : c.Confined P := by
  cases h with
  | intro _ _ nested => exact nested c hc

theorem Step.All.mono {P Q : Step → Prop} (h : ∀ step, P step → Q step) {step : Step}
    (hs : step.All P) : step.All Q := by
  induction hs with
  | intro step own _ ih => exact .intro step (h step own) ih

namespace Session

open Play

/-- Runs steps in order. -/
def performAll (depth : Nat) : List Step → Play Unit
  | [] => pure ()
  | step :: rest => do
    let _ ← performTo depth step
    performAll depth rest

/-- A new link on a new client, with an order for the batches that are abandoned. -/
def opened (settings : Settings) (order : VisitOrder Callback) : Session :=
  { attached settings with order := order }

/-- `I` is not lost from `s` to `t`. -/
def Keeping (I : Session → Prop) (s t : Session) : Prop := I s → I t

instance (I : Session → Prop) : IsPreorder Session (Keeping I) where
  refl _ h := h
  trans _ _ _ h k hs := k (h hs)

/-! ## Steps and runs -/

section

variable {R : Session → Session → Prop} {P : Step → Prop}

theorem within_performTo (h : ∀ run : Runner, (∀ step, step.All P → Within R (run step)) →
      ∀ step, step.All P → Within R (perform run step))
    (depth : Nat) {step : Step} (hs : step.All P) : Within R (performTo depth step) := by
  induction depth generalizing step with
  | zero =>
    intro s a t hst
    cases hst
  | succ depth ih => exact h _ (fun n hn => ih hn) step hs

theorem within_performAll [IsPreorder Session R] {depth : Nat} {steps : List Step}
    (h : ∀ step ∈ steps, Within R (performTo depth step)) :
    Within R (performAll depth steps) := by
  induction steps with
  | nil => exact within_pure _
  | cons step rest ih =>
    exact within_bind (h step (List.mem_cons_self ..)) fun _ =>
      ih fun n hn => h n (List.mem_cons_of_mem _ hn)

end

theorem performAll_append {depth : Nat} {steps later : List Step} {s u : Session} :
    performAll depth (steps ++ later) s = some ((), u) ↔
      ∃ t, performAll depth steps s = some ((), t) ∧ performAll depth later t = some ((), u) := by
  induction steps generalizing s with
  | nil =>
    constructor
    · exact fun h => ⟨s, rfl, h⟩
    · rintro ⟨t, ht, hu⟩
      cases ht
      exact hu
  | cons step rest ih =>
    rw [List.cons_append, performAll, performAll, bind_eq_some_iff]
    constructor
    · rintro ⟨a, t, ht, hu⟩
      obtain ⟨v, hv, hu⟩ := ih.mp hu
      exact ⟨v, bind_eq_some_iff.mpr ⟨a, t, ht, hv⟩, hu⟩
    · rintro ⟨v, hv, hu⟩
      obtain ⟨a, t, ht, hv⟩ := bind_eq_some_iff.mp hv
      exact ⟨a, t, ht, ih.mpr ⟨v, hv, hu⟩⟩

/-! ## Events that handlers hear of -/

section

variable {R : Session → Session → Prop} [IsPreorder Session R] {run : Runner}
  (hR : ∀ ⦃s t⦄, Aside s t → R s t) (hsignal : ∀ x, Within R (signal run x))
include hR hsignal

theorem within_routeConnectAnswer (code : Int) : Within R (routeConnectAnswer run code) := by
  refine within_bind within_get fun s => ?_
  split
  · refine within_holding hR ?_
    split
    · exact within_bind ((aside_note rfl).mono hR) fun _ => hsignal _
    · exact within_bind ((aside_note rfl).mono hR) fun _ => hsignal _
  · exact within_pure _

theorem within_routeClose (code : Int) : Within R (routeClose run code) := by
  refine within_bind within_get fun s => ?_
  split
  · refine within_holding hR ?_
    split
    · exact within_bind ((aside_note rfl).mono hR) fun _ => hsignal _
    · refine within_bind ((aside_note rfl).mono hR) fun _ =>
        within_bind (aside_hangUp.mono hR) fun r => ?_
      match r with
      | .error _ => exact within_pure _
      | .ok _ => exact hsignal _
  · exact within_bind ((aside_note rfl).mono hR) fun _ =>
      within_bind (aside_stopLoop.mono hR) fun _ => within_pure _

theorem within_routeMessage (m : Message) : Within R (routeMessage run m) := by
  refine within_bind ((aside_note rfl).mono hR) fun _ => within_bind within_get fun s => ?_
  split
  · exact within_holding hR (hsignal _)
  · exact within_pure _

/-- An event that acknowledges nothing. -/
theorem within_deliver_notice {event : BrokerEvent} (h : event.acknowledged? = none) :
    Within R (deliver run event) := by
  cases event with
  | connectAnswered code =>
    refine within_bind within_get fun s => ?_
    split
    · exact within_routeConnectAnswer hR hsignal code
    · exact within_pure _
  | closed code =>
    refine within_bind within_get fun s => ?_
    split
    · exact within_routeClose hR hsignal code
    · exact within_pure _
  | message m =>
    refine within_bind within_get fun s => ?_
    split
    · exact within_routeMessage hR hsignal m
    · exact within_pure _
  | subscribed _ _ | unsubscribed _ | published _ => cases h

end

/-- What a property needs so that calling a handler keeps it: it has nothing to do with what goes on
beside the operations, and handlers run only steps that satisfy `P`. -/
structure Framed (P : Step → Prop) (I : Session → Prop) : Prop where
  aside : ∀ ⦃s t⦄, Aside s t → Keeping I s t
  handlers : ∀ ⦃s⦄, I s → ∀ slot c, s.handlers slot = some c → c.Confined P

section

variable {P : Step → Prop} {I : Session → Prop} {run : Runner} (hI : Framed P I)
  (hrun : ∀ step, step.All P → Within (Keeping I) (run step))
include hI hrun

theorem keeping_react {c : Callback} (hc : c.Confined P) :
    Within (Keeping I) (react run c) :=
  within_react (calm_of_aside hI.aside) fun n hn => hrun n (hc n hn)

theorem keeping_signal (x : Signal) : Within (Keeping I) (signal run x) :=
  fun _ _ _ h hs => of_signal (calm_of_aside hI.aside) h
    (fun c hc n hn => hrun n (hI.handlers hs _ c hc n hn)) hs

end

end Session

end MqttLink
