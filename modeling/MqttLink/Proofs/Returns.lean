import MqttLink.Proofs.Aside

/-!
Plays that come back from every state. Main statement: every step that is no business of any
operation does.
-/

namespace MqttLink

namespace Play

variable {α β : Type}

/-- `x` comes back wherever it starts. -/
def Returns (x : Play α) : Prop :=
  ∀ s, ∃ a t, x s = some (a, t)

theorem returns_pure (a : α) : Returns (pure a) :=
  fun s => ⟨a, s, rfl⟩

theorem returns_get : Returns (get : Play Session) :=
  fun s => ⟨s, s, rfl⟩

theorem returns_modify (f : Session → Session) : Returns (modify f : Play Unit) :=
  fun s => ⟨(), f s, rfl⟩

theorem returns_note (o : Occurrence) : Returns (note o) :=
  returns_modify _

theorem returns_changeClient (f : Client → Client) : Returns (changeClient f) :=
  returns_modify _

theorem returns_onClient (f : Client → α × Client) : Returns (onClient f) :=
  fun _ => ⟨_, _, rfl⟩

theorem returns_bind {x : Play α} {f : α → Play β} (hx : Returns x) (hf : ∀ a, Returns (f a)) :
    Returns (x >>= f) := by
  intro s
  obtain ⟨a, t, ht⟩ := hx s
  obtain ⟨b, u, hu⟩ := hf a t
  exact ⟨b, u, (bind_of_eq_some ht f).trans hu⟩

theorem returns_map {x : Play α} (f : α → β) (hx : Returns x) : Returns (do return f (← x)) :=
  returns_bind hx fun _ => returns_pure _

theorem returns_stopLoop : Returns stopLoop := by
  refine returns_bind (returns_onClient _) fun r => ?_
  match r with
  | .ok _ => exact returns_bind (returns_note _) fun _ => returns_pure _
  | .error _ => exact returns_pure _

theorem returns_holding {x : Play α} (hx : Returns x) : Returns (holding x) :=
  returns_bind (returns_modify _) fun _ => returns_bind hx fun _ =>
    returns_bind (returns_modify _) fun _ => returns_pure _

theorem returns_spanning (operation : Operation) (arguments : List Argument) {x : Play α}
    (hx : Returns x) : Returns (spanning operation arguments x) :=
  returns_bind returns_get fun _ => returns_bind (returns_note _) fun _ =>
    returns_bind hx fun _ => returns_bind (returns_note _) fun _ => returns_pure _

end Play

namespace Session

open Play

theorem returns_checkCode (operation : Operation) (code : Int) :
    Returns (checkCode operation code) := by
  unfold checkCode
  split
  · exact returns_pure _
  · exact returns_bind (returns_note _) fun _ => returns_pure _

theorem returns_tryStopLoop : Returns tryStopLoop := by
  refine returns_bind returns_stopLoop fun r => ?_
  cases r with
  | error _ => exact returns_note _
  | ok _ => exact returns_pure _

theorem returns_stopAfterFailure : Returns stopAfterFailure := by
  refine returns_bind (returns_onClient _) fun r => ?_
  cases r with
  | error _ => exact returns_bind (returns_note _) fun _ => returns_tryStopLoop
  | ok _ => exact returns_tryStopLoop

theorem returns_connect (password : Option String) : Returns (connect password) := by
  refine returns_bind returns_get fun s => returns_bind (returns_note _) fun _ =>
    returns_bind (returns_changeClient _) fun _ =>
    returns_bind (returns_onClient _) fun r => ?_
  match r with
  | none =>
    exact returns_bind (returns_note _) fun _ =>
      returns_bind returns_stopAfterFailure fun _ => returns_pure _
  | some (.error _) =>
    exact returns_bind (returns_note _) fun _ =>
      returns_bind returns_stopAfterFailure fun _ => returns_pure _
  | some (.ok code) =>
    refine returns_bind (returns_checkCode .connect code) fun r => ?_
    match r with
    | .error _ => exact returns_pure _
    | .ok _ =>
      refine returns_bind (returns_onClient _) fun r => ?_
      match r with
      | .error _ => exact returns_pure _
      | .ok _ => exact returns_bind (returns_note _) fun _ => returns_pure _

theorem returns_disconnect (run : Runner) : Returns (disconnect run false) := by
  refine returns_bind (returns_note _) fun _ =>
    returns_bind (returns_onClient _) fun disconnected =>
    returns_bind returns_stopLoop fun stopped => ?_
  match disconnected, stopped with
  | .error _, _ => exact returns_pure _
  | .ok _, .error _ => exact returns_pure _
  | .ok code, .ok _ =>
    refine returns_bind (returns_checkCode .disconnect code) fun r => ?_
    match r with
    | .error _ => exact returns_pure _
    | .ok _ => exact returns_pure _

theorem returns_withLink {x : Play Answer} (hx : Returns x) : Returns (withLink x) := by
  refine returns_bind returns_get fun s => ?_
  split
  · exact returns_holding hx
  · exact returns_pure _

theorem returns_answeringReply {x : Play Reply} (hx : Returns x) : Returns (answeringReply x) := by
  refine returns_bind hx fun r => ?_
  cases r <;> exact returns_pure _

theorem returns_perform (run : Runner) {step : Step} (h : step.besides) :
    Returns (perform run step) := by
  cases step with
  | inspect _ | describe | showRequest => exact returns_withLink (returns_map _ returns_get)
  | connect password =>
    exact returns_withLink (returns_map _ (returns_spanning _ _ (returns_connect password)))
  | disconnect clear =>
    cases clear with
    | false =>
      exact returns_withLink (returns_map _ (returns_spanning _ _ (returns_disconnect run)))
    | true => cases h
  | scriptReply _ _ | completeEarly _ | delayConnect _ | forgetCalls | clientSetCredentials _ _ =>
    exact returns_bind (returns_changeClient _) fun _ => returns_pure _
  | countCalls _ => exact returns_map _ returns_get
  | takeEarlyResults =>
    exact returns_bind returns_get fun _ => returns_bind (returns_changeClient _) fun _ =>
      returns_pure _
  | clientConnect settings =>
    refine returns_bind (returns_onClient _) fun reply => ?_
    match reply with
    | none => exact returns_pure _
    | some _ => exact returns_answeringReply (returns_pure _)
  | clientDisconnect => exact returns_answeringReply (returns_onClient _)
  | clientStartLoop => exact returns_map _ (returns_onClient _)
  | clientStopLoop => exact returns_map _ returns_stopLoop
  | _ => cases h

/-- Runs the steps that are no business of any operation to their ends. -/
def Serving (run : Runner) : Prop :=
  ∀ step, step.besides → ∀ s, ∃ a t, run step s = some (a, t) ∧ Aside s t

theorem serving_performTo (depth : Nat) : Serving (performTo (depth + 1)) := by
  intro step hstep s
  obtain ⟨a, t, ht⟩ := returns_perform (performTo depth) hstep s
  exact ⟨a, t, ht, aside_perform _ hstep ht⟩

end Session

end MqttLink
