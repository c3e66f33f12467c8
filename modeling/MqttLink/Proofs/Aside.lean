import MqttLink.Proofs.Play
import MqttLink.Session.Perform

/-!
What goes on beside the operations: connecting, disconnecting, hanging up, and the scripting of the
client. Main statement: none of it touches the ledger, the pool, the handlers, or the entries of the
journal that tell of operations.
-/

namespace MqttLink

/-- Steps that are no business of any operation. -/
def Step.besides : Step → Bool
  | .inspect _ | .describe | .connect _ | .disconnect false | .showRequest => true
  | .scriptReply _ _ | .completeEarly _ | .delayConnect _ => true
  | .forgetCalls | .countCalls _ | .takeEarlyResults => true
  | .clientSetCredentials _ _ | .clientConnect _ | .clientDisconnect => true
  | .clientStartLoop | .clientStopLoop => true
  | _ => false

namespace Session

/-- The link and its client are set up in `t` as in `s`. -/
structure Alike (s t : Session) : Prop where
  handlers : t.handlers = s.handlers
  owned : t.owned = s.owned
  order : t.order = s.order
  sink : t.client.sink = s.client.sink
  queuedIds : t.client.queuedIds = s.client.queuedIds
  issueHook : t.client.issueHook = s.client.issueHook

/-- From `s` to `t` nothing happened to any operation. -/
structure Aside (s t : Session) : Prop extends Alike s t where
  ledger : t.ledger = s.ledger
  pool : t.client.pool = s.client.pool
  journal : ∃ news : List Occurrence, t.journal = news ++ s.journal ∧ ∀ o ∈ news, o.quiet

theorem Alike.refl (s : Session) : Alike s s := ⟨rfl, rfl, rfl, rfl, rfl, rfl⟩

theorem Alike.trans {s t u : Session} (h : Alike s t) (k : Alike t u) : Alike s u where
  handlers := k.handlers.trans h.handlers
  owned := k.owned.trans h.owned
  order := k.order.trans h.order
  sink := k.sink.trans h.sink
  queuedIds := k.queuedIds.trans h.queuedIds
  issueHook := k.issueHook.trans h.issueHook

theorem Aside.refl (s : Session) : Aside s s :=
  ⟨Alike.refl s, rfl, rfl, [], rfl, by simp⟩

theorem Aside.trans {s t u : Session} (h : Aside s t) (k : Aside t u) : Aside s u := by
  obtain ⟨news, hn, hq⟩ := h.journal
  obtain ⟨later, hl, hr⟩ := k.journal
  refine ⟨h.toAlike.trans k.toAlike, k.ledger.trans h.ledger, k.pool.trans h.pool,
    later ++ news, by rw [hl, hn, List.append_assoc], fun o ho => ?_⟩
  rcases List.mem_append.mp ho with ho | ho
  · exact hr o ho
  · exact hq o ho

instance : IsPreorder Session Aside where
  refl := Aside.refl
  trans _ _ _ := Aside.trans

theorem aside_noted (s : Session) {o : Occurrence} (h : o.quiet) : Aside s (s.noted o) :=
  ⟨⟨rfl, rfl, rfl, rfl, rfl, rfl⟩, rfl, rfl, [o], rfl, by simpa using h⟩

end Session

namespace Client

/-- From `c` to `d` no identifier was taken or given back, and nothing was installed. -/
structure Steady (c d : Client) : Prop where
  sink : d.sink = c.sink
  queuedIds : d.queuedIds = c.queuedIds
  issueHook : d.issueHook = c.issueHook
  pool : d.pool = c.pool

theorem Steady.refl (c : Client) : Steady c c := ⟨rfl, rfl, rfl, rfl⟩

theorem Steady.trans {c d e : Client} (h : Steady c d) (k : Steady d e) : Steady c e :=
  ⟨k.sink.trans h.sink, k.queuedIds.trans h.queuedIds, k.issueHook.trans h.issueHook,
    k.pool.trans h.pool⟩

theorem steady_add (c : Client) (call : Call) : Steady c (c.add call) := ⟨rfl, rfl, rfl, rfl⟩

theorem steady_queueReply (c : Client) (m : Method) (r : Reply) : Steady c (c.queueReply m r) :=
  ⟨rfl, rfl, rfl, rfl⟩

theorem steady_takeReply (c : Client) (m : Method) : Steady c (c.takeReply m).2 := by
  unfold takeReply
  split
  · exact Steady.refl c
  · exact ⟨rfl, rfl, rfl, rfl⟩

theorem steady_setCredentials (c : Client) (username : String) (password : Option String) :
    Steady c (c.setCredentials username password) :=
  steady_add c _

theorem steady_connect (c : Client) (request : ConnectRequest) (limit : Option Duration) :
    Steady c (c.connect request limit).2 := by
  simp only [connect]
  split
  · exact steady_add c _
  · exact (steady_add c _).trans (steady_takeReply _ _)

theorem steady_called {c d : Client} {call : Call} {m : Method} {r : Reply}
    (h : (c.add call).takeReply m = (r, d)) : Steady c d := by
  have hd := (steady_add c call).trans (steady_takeReply _ m)
  rwa [h] at hd

theorem steady_disconnect (c : Client) : Steady c c.disconnect.2 :=
  steady_called rfl

theorem steady_startLoop (c : Client) : Steady c c.startLoop.2 := by
  unfold startLoop
  split
  next hr =>
    have h := steady_called hr
    exact ⟨h.sink, h.queuedIds, h.issueHook, h.pool⟩
  next hr => exact steady_called hr

theorem steady_stopLoop (c : Client) : Steady c c.stopLoop.2 := by
  unfold stopLoop
  split
  next hr =>
    have h := steady_called hr
    exact ⟨h.sink, h.queuedIds, h.issueHook, h.pool⟩
  next hr => exact steady_called hr

end Client

namespace Session

open Play

variable {α : Type}

theorem aside_client (s : Session) {c : Client} (h : s.client.Steady c) :
    Aside s { s with client := c } :=
  ⟨⟨rfl, rfl, rfl, h.sink, h.queuedIds, h.issueHook⟩, rfl, h.pool, [], rfl, by simp⟩

theorem aside_note {o : Occurrence} (h : o.quiet) : Within Aside (note o) :=
  within_note fun s => aside_noted s h

theorem aside_changeClient {f : Client → Client} (h : ∀ c : Client, c.Steady (f c)) :
    Within Aside (changeClient f) :=
  within_changeClient fun s => aside_client s (h s.client)

theorem aside_onClient {f : Client → α × Client} (h : ∀ c : Client, c.Steady (f c).2) :
    Within Aside (onClient f) :=
  within_onClient fun s => aside_client s (h s.client)

theorem aside_holders (s : Session) (n : Nat) : Aside s { s with holders := n } :=
  ⟨⟨rfl, rfl, rfl, rfl, rfl, rfl⟩, rfl, rfl, [], rfl, by simp⟩

theorem aside_stopLoop : Within Aside Play.stopLoop := by
  refine within_bind (aside_onClient Client.steady_stopLoop) fun r => ?_
  match r with
  | .ok _ => exact within_bind (aside_note rfl) fun _ => within_pure _
  | .error _ => exact within_pure _

theorem aside_hangUp : Within Aside hangUp := by
  refine within_bind (aside_onClient Client.steady_disconnect) fun r => ?_
  match r with
  | .ok _ => exact within_bind aside_stopLoop fun _ => within_pure _
  | .error _ => exact within_pure _

theorem aside_checkCode (operation : Operation) (code : Int) :
    Within Aside (checkCode operation code) := by
  unfold checkCode
  split
  · exact within_pure _
  · exact within_bind (aside_note rfl) fun _ => within_pure _

/-- Stops the loop and goes on if that fails. -/
def tryStopLoop : Play Unit := do
  match ← Play.stopLoop with
  | .error f => note (.cleanupStopFailed f)
  | .ok _ => pure ()

theorem aside_tryStopLoop : Within Aside tryStopLoop := by
  refine within_bind aside_stopLoop fun r => ?_
  cases r with
  | error _ => exact aside_note rfl
  | ok _ => exact within_pure _

theorem aside_stopAfterFailure : Within Aside stopAfterFailure := by
  refine within_bind (aside_onClient Client.steady_disconnect) fun r => ?_
  cases r with
  | error _ => exact within_bind (aside_note rfl) fun _ => aside_tryStopLoop
  | ok _ => exact aside_tryStopLoop

theorem aside_connect (password : Option String) : Within Aside (connect password) := by
  refine within_bind within_get fun s => within_bind (aside_note rfl) fun _ =>
    within_bind (aside_changeClient fun c => c.steady_setCredentials _ _) fun _ =>
    within_bind (aside_onClient fun c => c.steady_connect _ _) fun r => ?_
  match r with
  | none =>
    exact within_bind (aside_note rfl) fun _ =>
      within_bind aside_stopAfterFailure fun _ => within_pure _
  | some (.error _) =>
    exact within_bind (aside_note rfl) fun _ =>
      within_bind aside_stopAfterFailure fun _ => within_pure _
  | some (.ok code) =>
    refine within_bind (aside_checkCode .connect code) fun r => ?_
    match r with
    | .error _ => exact within_pure _
    | .ok _ =>
      refine within_bind (aside_onClient Client.steady_startLoop) fun r => ?_
      match r with
      | .error _ => exact within_pure _
      | .ok _ => exact within_bind (aside_note rfl) fun _ => within_pure _

section Beside

variable {R : Session → Session → Prop} [IsPreorder Session R]
  (hR : ∀ ⦃s t⦄, Aside s t → R s t)

theorem within_answering {x : Play (Except Fault Unit)} (hx : Within R x) :
    Within R (answering x) :=
  within_bind hx fun _ => within_pure _

theorem within_answeringFatal {x : Play (Except Fatal Unit)} (hx : Within R x) :
    Within R (answeringFatal x) :=
  within_bind hx fun _ => within_pure _

theorem within_answeringId {x : Play (Except Fault PacketId)} (hx : Within R x) :
    Within R (answeringId x) := by
  refine within_bind hx fun r => ?_
  cases r <;> exact within_pure _

theorem within_answeringIssued {x : Play (Except ClientFault (Int × PacketId))}
    (hx : Within R x) : Within R (answeringIssued x) := by
  refine within_bind hx fun r => ?_
  match r with
  | .ok (_, _) => exact within_pure _
  | .error _ => exact within_pure _

theorem within_answeringReply {x : Play Reply} (hx : Within R x) :
    Within R (answeringReply x) := by
  refine within_bind hx fun r => ?_
  cases r <;> exact within_pure _

theorem within_withQos {level : Nat} {x : Qos → Play Answer} (hx : ∀ qos, Within R (x qos)) :
    Within R (withQos level x) := by
  unfold withQos
  split
  · exact hx _
  · exact within_pure _

include hR

theorem within_holding {x : Play α} (hx : Within R x) : Within R (holding x) := by
  refine within_bind (within_modify fun s => hR (aside_holders s _)) fun _ =>
    within_bind hx fun _ =>
    within_bind (within_modify fun s => hR (aside_holders s _)) fun _ => within_pure _

theorem within_withLink {x : Play Answer} (hx : Within R x) : Within R (withLink x) := by
  refine within_bind within_get fun s => ?_
  split
  · exact within_holding hR hx
  · exact within_pure _

theorem within_sweeping {x : Play α} (hx : Within R x) : Within R (sweeping x) := by
  refine within_bind ((aside_note rfl).mono hR) fun _ => within_bind hx fun _ =>
    within_bind ((aside_note rfl).mono hR) fun _ => within_pure _

theorem within_spanning (operation : Operation) (arguments : List Argument) {x : Play α}
    (hx : Within R x) : Within R (spanning operation arguments x) := by
  refine within_bind within_get fun _ => within_bind ((aside_note rfl).mono hR) fun _ =>
    within_bind hx fun _ =>
    within_bind ((aside_note rfl).mono hR) fun _ => within_pure _

variable {run : Runner}

theorem within_answeringRequest {r : Request} {callback : Option Callback}
    (h : Within R (request run r callback)) : Within R (answeringRequest run r callback) :=
  within_answeringId (within_spanning hR _ _ h)

theorem within_disconnect {clear : Bool} (h : clear → Within R (abandon run)) :
    Within R (disconnect run clear) := by
  refine within_bind ((aside_note rfl).mono hR) fun _ =>
    within_bind ((aside_onClient Client.steady_disconnect).mono hR) fun disconnected =>
    within_bind (aside_stopLoop.mono hR) fun stopped => ?_
  match disconnected, stopped with
  | .error _, _ => exact within_pure _
  | .ok _, .error _ => exact within_pure _
  | .ok code, .ok _ =>
    refine within_bind ((aside_checkCode .disconnect code).mono hR) fun r => ?_
    match r with
    | .error _ => exact within_pure _
    | .ok _ =>
      cases clear with
      | false => exact within_pure _
      | true => exact within_bind (h rfl) fun _ => within_pure _

end Beside

/-! ## Callbacks and handlers -/

theorem calm_of_aside {R : Session → Session → Prop} (hR : ∀ ⦃s t⦄, Aside s t → R s t)
    (s : Session) (o : Occurrence) (h : o.calm) : R s (s.noted o) :=
  hR (aside_noted s (Occurrence.quiet_of_calm h))

section Callbacks

variable {R : Session → Session → Prop} [IsPreorder Session R] {run : Runner}
  (hn : ∀ (s : Session) (o : Occurrence), o.calm → R s (s.noted o))
include hn

theorem within_contain (source : Source) (outcome : Outcome) :
    Within R (contain source outcome) := by
  match outcome with
  | .ok () => exact within_pure _
  | .error (.recoverable _) =>
    exact within_bind (within_note fun s => hn s _ rfl) fun _ => within_pure _
  | .error (.fatal _) => exact within_pure _

theorem within_runSteps (stopsOnFault : Bool) {steps : List Step}
    (h : ∀ step ∈ steps, Within R (run step)) : Within R (runSteps run stopsOnFault steps) := by
  induction steps with
  | nil => exact within_pure _
  | cons step rest ih =>
    have hrest := ih fun n hn => h n (List.mem_cons_of_mem _ hn)
    refine within_bind (h step (List.mem_cons_self ..)) fun answer =>
      within_bind (within_note fun s => hn s _ rfl) fun _ => ?_
    split
    · split
      · exact within_pure _
      · exact hrest
    · exact hrest

theorem within_react {c : Callback} (h : ∀ step ∈ c.steps, Within R (run step)) :
    Within R (react run c) := by
  refine within_bind (within_runSteps hn c.stopsOnFault h) fun r => ?_
  cases r <;> exact within_pure _

/-- What comes of a call once it is written down. -/
theorem within_called {c : Callback} (h : ∀ step ∈ c.steps, Within R (run step)) :
    Within R (do contain .callback (← react run c)) :=
  within_bind (within_react hn h) fun _ => within_contain hn _ _

theorem within_invoke {id : PacketId} {resolution : Resolution} {c : Callback}
    (hi : ∀ s : Session, R s (s.noted (.invoked id c resolution s.view)))
    (h : ∀ step ∈ c.steps, Within R (run step)) : Within R (invoke run id resolution c) := by
  intro s a t hst
  exact IsTrans.trans _ _ _ (hi s) (within_called hn h hst)

theorem within_cancelEach {batch : List (Ledger.Entry Callback)} (first : Except Fatal Unit)
    (h : ∀ id c, (id, some c) ∈ batch → Within R (invoke run id .cancelled c)) :
    Within R (cancelEach run first batch) := by
  induction batch generalizing first with
  | nil => exact within_pure _
  | cons e rest ih =>
    have hrest := fun id c hm => h id c (List.mem_cons_of_mem _ hm)
    match e with
    | (_, none) => exact ih first hrest
    | (id, some c) =>
      refine within_bind (h id c (List.mem_cons_self ..)) fun r => ?_
      match first, r with
      | .error _, .error _ =>
        exact within_bind (within_note fun s => hn s _ rfl) fun _ => ih _ hrest
      | .ok _, _ => exact ih _ hrest
      | .error _, .ok _ => exact ih _ hrest

/-- Calling the handler of a signal, if there is one. -/
theorem of_signal {x : Signal} {s t : Session} {r : Except Fault Unit}
    (h : signal run x s = some (r, t))
    (hc : ∀ c, s.handlers x.slot = some c → ∀ step ∈ c.steps, Within R (run step)) : R s t := by
  obtain ⟨_, _, hget, h⟩ := bind_eq_some_iff.mp h
  cases hget
  cases hx : s.handlers x.slot with
  | none =>
    rw [hx] at h
    cases h
    exact refl s
  | some handler =>
    rw [hx] at h
    exact within_bind (within_note fun s => hn s _ rfl) (fun _ =>
      within_bind (within_react hn (hc handler hx)) fun _ =>
      within_bind (within_contain hn _ _) fun _ => within_pure _) h

/-- Calling the issue hook, if there is one. -/
theorem of_callHook {m : Method} {id : PacketId} {s t : Session} {r : Unit}
    (h : callHook run m id s = some (r, t))
    (hc : ∀ hook, s.client.issueHook = some hook → ∀ step ∈ hook.script id, Within R (run step)) :
    R s t := by
  obtain ⟨_, _, hget, h⟩ := bind_eq_some_iff.mp h
  cases hget
  cases hx : s.client.issueHook with
  | none =>
    rw [hx] at h
    cases h
    exact refl s
  | some hook =>
    rw [hx] at h
    exact within_bind (within_bind within_get fun _ => within_pure _) (fun _ =>
      within_bind (within_note fun s => hn s _ rfl) fun _ =>
      within_bind (within_runSteps hn _ (hc hook hx)) fun _ => within_pure _) h

end Callbacks

theorem aside_contain (source : Source) (outcome : Outcome) :
    Within Aside (contain source outcome) :=
  within_contain (calm_of_aside fun _ _ h => h) source outcome

/-! ## Steps beside the operations -/

theorem aside_withLink {x : Play Answer} (hx : Within Aside x) : Within Aside (withLink x) :=
  within_withLink (fun _ _ h => h) hx

theorem aside_spanning (operation : Operation) (arguments : List Argument) {x : Play α}
    (hx : Within Aside x) : Within Aside (spanning operation arguments x) :=
  within_spanning (fun _ _ h => h) operation arguments hx

theorem aside_perform (run : Runner) {step : Step} (h : step.besides) :
    Within Aside (perform run step) := by
  cases step with
  | inspect id => exact aside_withLink (within_bind within_get fun _ => within_pure _)
  | describe => exact aside_withLink (within_bind within_get fun _ => within_pure _)
  | connect password =>
    exact aside_withLink (within_answering (aside_spanning _ _ (aside_connect password)))
  | disconnect clear =>
    cases clear with
    | false =>
      exact aside_withLink (within_answering
        (aside_spanning _ _ (within_disconnect (fun _ _ h => h) nofun)))
    | true => cases h
  | showRequest => exact aside_withLink (within_bind within_get fun _ => within_pure _)
  | scriptReply m r =>
    exact within_bind (aside_changeClient fun c => c.steady_queueReply m r) fun _ => within_pure _
  | completeEarly _ | delayConnect _ | forgetCalls =>
    exact within_bind (aside_changeClient fun _ => ⟨rfl, rfl, rfl, rfl⟩) fun _ => within_pure _
  | countCalls _ => exact within_bind within_get fun _ => within_pure _
  | takeEarlyResults =>
    exact within_bind within_get fun _ =>
      within_bind (aside_changeClient fun _ => ⟨rfl, rfl, rfl, rfl⟩) fun _ => within_pure _
  | clientSetCredentials username password =>
    exact within_bind (aside_changeClient fun c => c.steady_setCredentials _ _) fun _ =>
      within_pure _
  | clientConnect settings =>
    refine within_bind (aside_onClient fun c => c.steady_connect _ _) fun reply => ?_
    match reply with
    | none => exact within_pure _
    | some reply => exact within_answeringReply (within_pure _)
  | clientDisconnect => exact within_answeringReply (aside_onClient Client.steady_disconnect)
  | clientStartLoop =>
    exact within_bind (aside_onClient Client.steady_startLoop) fun _ => within_pure _
  | clientStopLoop => exact within_bind aside_stopLoop fun _ => within_pure _
  | _ => cases h

end Session

end MqttLink
