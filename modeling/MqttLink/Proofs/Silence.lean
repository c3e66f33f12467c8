import MqttLink.Proofs.Outcomes
import MqttLink.Proofs.Upkeep

/-!
After a link has let go of its client. It lets go by shutting down, after which it no longer
listens, or when its owner drops it. Main statement: whatever events the client has from then on, no
callback and no handler is called; a link that does not listen leaves everything but the identifiers
as it is, and in place of one that was dropped the network loop is stopped each time the connection
ends.
-/

namespace MqttLink

/-- The step that makes a client have an event. -/
def BrokerEvent.step : BrokerEvent → Step
  | connectAnswered code => .answerConnect code
  | closed code => .close code
  | subscribed id granted => .acknowledgeSubscribe id granted.level
  | unsubscribed id => .acknowledgeUnsubscribe id
  | published id => .acknowledgePublish id
  | message m => .receive m.topic m.payload m.qos.level m.retain m.id

namespace Session

open Play

variable {s t u : Session} {depth : Nat} {run : Runner}

theorem withQos_level (qos : Qos) (x : Qos → Play Answer) : withQos qos.level x = x qos := by
  cases qos <;> rfl

theorem perform_event (run : Runner) (event : BrokerEvent) :
    perform run event.step = answering (deliver run event) := by
  cases event with
  | subscribed id granted => exact withQos_level granted _
  | message m => exact withQos_level m.qos _
  | _ => rfl

theorem performTo_event {event : BrokerEvent} {r : Except Fault Unit}
    (h : deliver (performTo depth) event s = some (r, t)) :
    performTo (depth + 1) event.step s = some (.ofResult r, t) := by
  rw [performTo, perform_event, answering, bind_of_eq_some h]
  rfl

theorem told_noted (s : Session) {o : Occurrence} (h : o.isCall = false) :
    (s.noted o).told = s.told :=
  List.filter_cons_of_neg (by simp [h])

/-! ## A link that does not listen -/

/-- From `s` to `t` identifiers were freed, and nothing else happened. -/
structure OnlyFreed (ids : List PacketId) (s t : Session) : Prop where
  same : t = { s with
    client := { s.client with pool := t.client.pool }
    journal := t.journal }
  told : t.told = s.told
  onLoan : ∀ id, t.client.pool.onLoan id ↔ s.client.pool.onLoan id ∧ id ∉ ids

theorem onlyFreed_noticing (s : Session) (event : BrokerEvent) :
    OnlyFreed event.acknowledged?.toList s (s.noticing event) := by
  unfold noticing
  cases event.acknowledged? with
  | none => exact ⟨rfl, rfl, fun id => by simp⟩
  | some k =>
    refine ⟨rfl, told_noted s rfl, fun id => ?_⟩
    rw [onLoan_freeing, Option.toList_some, List.mem_singleton]
    exact and_comm

theorem OnlyFreed.trans {ids later : List PacketId} (h : OnlyFreed ids s t)
    (k : OnlyFreed later t u) : OnlyFreed (ids ++ later) s u where
  same := by
    rw [k.same, h.same]
  told := k.told.trans h.told
  onLoan id := by
    rw [k.onLoan, h.onLoan, List.mem_append, not_or, and_assoc]

/-- Whatever events the client has, none fails, and none does more than free the identifier that it
acknowledges. -/
def Deaf (s : Session) : Prop :=
  ∀ depth (events : List BrokerEvent), ∃ ds t,
    performEach (depth + 1) (events.map (·.step)) s = some (ds, t) ∧
    (∀ d ∈ ds, d.answer = .done) ∧ OnlyFreed (events.filterMap (·.acknowledged?)) s t

theorem deaf_of_sink (hs : s.client.sink = false) : s.Deaf := by
  intro depth events
  induction events generalizing s with
  | nil => exact ⟨[], s, rfl, List.forall_mem_nil _, rfl, rfl, fun id => by simp⟩
  | cons event events ih =>
    have hfreed := s.onlyFreed_noticing event
    have hsink : (s.noticing event).client.sink = false := by
      rw [hfreed.same]
      exact hs
    have hstep : performTo (depth + 1) event.step s = some (.done, s.noticing event) := by
      refine performTo_event (r := .ok ()) ?_
      rw [deliver_apply, if_neg (by simp [hs])]
    obtain ⟨ds, t, ht, hdone, hrest⟩ := ih hsink
    refine ⟨_, t, performEach_cons hstep ht, List.forall_mem_cons.mpr ⟨rfl, hdone⟩, ?_⟩
    have hids : (event :: events).filterMap (·.acknowledged?) =
        event.acknowledged?.toList ++ events.filterMap (·.acknowledged?) := by
      cases h : event.acknowledged? <;> simp [h]
    rw [hids]
    exact hfreed.trans hrest

/-! ## A link that was dropped -/

/-- What comes of an event when the link that listened is gone. -/
structure Unheard (event : BrokerEvent) (d : Stage) : Prop where
  told : d.after.told = d.before.told
  ledger : d.after.ledger = d.before.ledger
  closed : ∀ code, event = .closed code →
    d.answer = .ofResult (d.before.client.stopLoop.1.mapError .client) ∧
      d.after.client.record = .stopLoop :: d.before.client.record
  other : (∀ code, event ≠ .closed code) →
    d.answer = .done ∧ d.after.client.record = d.before.client.record

/-- Whatever events the client has, nobody hears of them: the end of a connection stops the network
loop, and no other event leads to a call of the client. -/
def Orphaned (s : Session) : Prop :=
  ∀ depth (events : List BrokerEvent), ∃ ds t,
    performEach (depth + 1) (events.map (·.step)) s = some (ds, t) ∧ t.told = s.told ∧
    List.Forall₂ Unheard events ds

/-- Nobody holds the link, but it still listens. -/
structure Adrift (s : Session) : Prop where
  owned : s.owned = false
  holders : s.holders = 0
  sink : s.client.sink

theorem not_alive_of_adrift (hs : s.Adrift) : ¬ s.alive := by
  simp [alive, hs.owned, hs.holders]

theorem adrift_noticing (hs : s.Adrift) (event : BrokerEvent) : (s.noticing event).Adrift := by
  rw [(s.onlyFreed_noticing event).same]
  exact ⟨hs.owned, hs.holders, hs.sink⟩

/-- The end of a connection when nobody holds the link. -/
theorem routeClose_of_adrift (run : Runner) (hs : s.Adrift) (code : Int) :
    ∃ t, routeClose run code s = some (s.client.stopLoop.1.mapError .client, t) ∧
      t.client = s.client.stopLoop.2 ∧ t.ledger = s.ledger ∧ t.told = s.told ∧
      t.owned = s.owned ∧ t.holders = s.holders := by
  have hclose : routeClose run code s =
      (do return Except.mapError Fault.client (← Play.stopLoop))
        (s.noted (.closedUnheard code)) := by
    rw [routeClose, bind_of_eq_some get_apply, if_neg (not_alive_of_adrift hs)]
    rfl
  have htold : (s.noted (.closedUnheard code)).told = s.told := told_noted s rfl
  match hr : s.client.stopLoop with
  | (.ok (), c) =>
    have hstop := stopLoop_of_ok (s := s.noted (.closedUnheard code)) hr
    rw [hclose, bind_of_eq_some hstop]
    exact ⟨_, rfl, rfl, rfl, (told_noted _ rfl).trans htold, rfl, rfl⟩
  | (.error f, c) =>
    have hstop := stopLoop_of_error (s := s.noted (.closedUnheard code)) hr
    rw [hclose, bind_of_eq_some hstop]
    exact ⟨_, rfl, rfl, rfl, htold, rfl, rfl⟩

/-- Any other event when nobody holds the link. -/
theorem route_of_adrift (run : Runner) (hs : s.Adrift) {event : BrokerEvent}
    (h : ∀ code, event ≠ .closed code) :
    ∃ t, route run event s = some (.ok (), t) ∧ Aside s t ∧ t.client = s.client ∧
      t.told = s.told ∧ t.holders = s.holders := by
  have hgone := not_alive_of_adrift hs
  have hack (o : Occurrence) (id : PacketId) :
      (do note o; acknowledge run id) s = some (.ok (), s.noted o) := by
    rw [bind_of_eq_some (note_apply _), acknowledge, bind_of_eq_some get_apply]
    exact congrFun (if_neg hgone) _
  cases event with
  | connectAnswered code =>
    refine ⟨s, ?_, Aside.refl s, rfl, rfl, rfl⟩
    rw [route, routeConnectAnswer, bind_of_eq_some get_apply, if_neg hgone]
    rfl
  | closed code => exact absurd rfl (h code)
  | subscribed id granted =>
    exact ⟨_, hack _ id, aside_noted s rfl, rfl, told_noted s rfl, rfl⟩
  | unsubscribed id => exact ⟨_, hack _ id, aside_noted s rfl, rfl, told_noted s rfl, rfl⟩
  | published id => exact ⟨_, hack _ id, aside_noted s rfl, rfl, told_noted s rfl, rfl⟩
  | message m =>
    refine ⟨s.noted (.received m.topic m.payload.size), ?_, aside_noted s rfl, rfl,
      told_noted s rfl, rfl⟩
    rw [route, routeMessage, bind_of_eq_some (note_apply _), bind_of_eq_some get_apply]
    exact congrFun (if_neg hgone) _

theorem unheard_event (hs : s.Adrift) (depth : Nat) (event : BrokerEvent) :
    ∃ a t, performTo (depth + 1) event.step s = some (a, t) ∧ t.Adrift ∧
      Unheard event ⟨event.step, a, s, t⟩ := by
  by_cases hclosed : ∃ code, event = .closed code
  · obtain ⟨code, rfl⟩ := hclosed
    obtain ⟨t, ht, hclient, hledger, htold, howned, hholders⟩ :=
      routeClose_of_adrift (performTo depth) hs code
    have hdeliver : deliver (performTo depth) (.closed code) s =
        some (s.client.stopLoop.1.mapError .client, t) := by
      rw [deliver_apply, if_pos hs.sink]
      exact ht
    refine ⟨_, t, performTo_event hdeliver, ⟨?_, ?_, ?_⟩, htold, hledger, ?_, ?_⟩
    · rw [howned]
      exact hs.owned
    · rw [hholders]
      exact hs.holders
    · rw [hclient, (Client.steady_stopLoop s.client).sink]
      exact hs.sink
    · rintro k -
      exact ⟨rfl, by rw [hclient]; exact Client.record_stopLoop s.client⟩
    · exact fun h => absurd rfl (h code)
  · have hother : ∀ code, event ≠ .closed code := fun code h => hclosed ⟨code, h⟩
    have hfreed := s.onlyFreed_noticing event
    have hadrift := adrift_noticing hs event
    obtain ⟨t, ht, haside, hclient, htold, hholders⟩ :=
      route_of_adrift (performTo depth) hadrift hother
    have hdeliver : deliver (performTo depth) event s = some (.ok (), t) := by
      rw [deliver_apply, if_pos hs.sink, ht]
    refine ⟨_, t, performTo_event hdeliver, ⟨?_, ?_, ?_⟩, htold.trans hfreed.told, ?_, ?_, ?_⟩
    · rw [haside.owned]
      exact hadrift.owned
    · rw [hholders]
      exact hadrift.holders
    · rw [hclient]
      exact hadrift.sink
    · rw [haside.ledger, hfreed.same]
    · exact fun code h => absurd h (hother code)
    · refine fun _ => ⟨rfl, ?_⟩
      rw [hclient, hfreed.same]

theorem orphaned_of_adrift (hs : s.Adrift) : s.Orphaned := by
  intro depth events
  induction events generalizing s with
  | nil => exact ⟨[], s, rfl, rfl, .nil⟩
  | cons event events ih =>
    obtain ⟨a, u, hstep, hu, hunheard⟩ := unheard_event hs depth event
    obtain ⟨ds, t, ht, htold, hrest⟩ := ih hu
    exact ⟨_, t, performEach_cons hstep ht, htold.trans hunheard.told, .cons hunheard hrest⟩

/-! ## Letting go -/

/-- From `s` to `t` nobody took hold of the link, and it did not begin to listen. -/
structure LettingGo (s t : Session) : Prop where
  owned : t.owned → s.owned
  sink : t.client.sink → s.client.sink
  holders : t.holders = s.holders

instance : IsPreorder Session LettingGo where
  refl _ := ⟨id, id, rfl⟩
  trans _ _ _ h k :=
    ⟨fun hu => h.owned (k.owned hu), fun hu => h.sink (k.sink hu), k.holders.trans h.holders⟩

theorem upkeep_lettingGo : Upkeep (fun _ => True) LettingGo where
  carried _ _ _ _ _ _ := trivial
  scripted _ _ _ _ _ := trivial
  noted _ _ _ := ⟨id, id, rfl⟩
  same _ _ _ hh ho hs _ _ _ := ⟨ho, hs, hh⟩
  held s t h := ⟨h.owned, h.sink, by rw [h.holders]; rfl⟩
  started s _ := ⟨id, by rw [(Client.steady_startLoop s.client).sink]; exact id, rfl⟩
  connected s c _ _ h := ⟨(aside_starting h).owned ▸ id, (aside_starting h).sink ▸ id, rfl⟩
  stopped s c h := ⟨(aside_stopping h).owned ▸ id, (aside_stopping h).sink ▸ id, rfl⟩
  queued _ _ _ := ⟨id, id, rfl⟩
  freed _ _ := ⟨id, id, rfl⟩
  given s m id c code h := by
    obtain ⟨ids, pool, rfl⟩ := Client.exists_of_takeId h
    refine ⟨fun ho => ho, fun hsink => ?_, rfl⟩
    rw [giving, noted_client] at hsink
    simp only at hsink
    split at hsink <;> exact hsink

theorem stored_true (s : Session) : s.Stored fun _ => True :=
  ⟨fun _ _ _ _ _ => trivial, fun _ _ _ _ _ => trivial, fun _ _ _ _ _ => trivial⟩

theorem lettingGo_performTo {step : Step} {a : Answer} (h : performTo depth step s = some (a, t)) :
    LettingGo s t :=
  (upkeep_lettingGo.frame.within_performTo depth trivial h (stored_true s)).2

theorem lettingGo_performAll {steps : List Step} (h : performAll depth steps s = some ((), t)) :
    LettingGo s t :=
  (upkeep_lettingGo.frame.within_performAll depth (fun _ _ => trivial) h (stored_true s)).2

theorem returns_shutDown : Returns shutDown := by
  rw [shutDown_eq]
  refine returns_bind returns_get fun _ => returns_bind (returns_note _) fun _ =>
    returns_bind (returns_changeClient _) fun _ =>
    returns_bind (returns_onClient _) fun disconnected =>
    returns_bind returns_stopLoop fun stopped => ?_
  match disconnected, stopped with
  | .error _, _ => exact returns_pure _
  | .ok _, .error _ => exact returns_pure _
  | .ok code, .ok _ =>
    rw [afterShutDown]
    split
    · exact returns_bind (returns_note _) fun _ => returns_pure _
    · exact returns_pure _

/-- However a shutdown ends, the link has stopped listening. -/
theorem sink_shutDown {r : Except Fault Unit} (h : shutDown s = some (r, t)) :
    t.client.sink = false := by
  have hframe := upkeep_lettingGo.frame
  rw [shutDown_eq, bind_of_eq_some get_apply, bind_of_eq_some (note_apply _),
    bind_of_eq_some (changeClient_apply _)] at h
  have hrest : Within (Guarded (fun _ => True) LettingGo) (do
      let disconnected ← onClient Client.disconnect
      let stopped ← Play.stopLoop
      afterShutDown disconnected stopped) :=
    within_bind (hframe.within_onClient Client.steady_disconnect Client.looping_disconnect)
      fun _ => within_bind hframe.within_stopLoop fun _ => hframe.within_afterShutDown _ _
  have hsink := (hrest h (stored_true _)).2.sink
  cases ht : t.client.sink with
  | false => rfl
  | true => cases hsink ht

theorem sink_performTo_shutDown {a : Answer} (hs : s.owned)
    (h : performTo depth .shutDown s = some (a, t)) : t.client.sink = false := by
  cases depth with
  | zero => cases h
  | succ depth =>
    have h : withLink (answering shutDown) s = some (a, t) := h
    rw [withLink_of_owned hs] at h
    obtain ⟨u, hu, rfl⟩ := exists_of_holding h
    obtain ⟨r, v, hv, hu⟩ := bind_eq_some_iff.mp hu
    cases hu
    have hsink : u.client.sink = false := sink_shutDown hv
    exact hsink

theorem owned_performTo_dropLink {a : Answer} (h : performTo depth .dropLink s = some (a, t)) :
    t.owned = false := by
  cases depth with
  | zero => cases h
  | succ depth =>
    cases h
    rfl

/-! ## Main statement -/

/-- Consider any state that a new link on a new client can reach. If the link does not listen, it
never will again, and whatever events the client has, they all end well and do nothing but free
identifiers. If the link is not held any more but listens, then whatever events the client has, no
callback and no handler is called; the end of a connection makes one call of the client, which stops
the network loop, and comes to what that call comes to, and no other event makes a call or fails. A
shutdown always comes to its end; after it, and whatever steps follow, the link does not listen.
After its owner has dropped it, and whatever steps follow, the link is not held; if it had stopped
listening before it was dropped, by a shutdown say, it stays deaf. -/
theorem silent_after_detachment {steps : List Step} {settings : Settings}
    {order : VisitOrder Callback} {depth : Nat} {s : Session}
    (h : performAll depth steps (opened settings order) = some ((), s)) :
    (s.client.sink = false → s.Deaf) ∧
    (s.owned = false → s.client.sink → s.Orphaned) ∧
    (∀ deep, s.owned → ∃ a t, performTo (deep + 1) .shutDown s = some (a, t)) ∧
    (∀ deep a t last more u, s.owned → performTo deep .shutDown s = some (a, t) →
      performAll last more t = some ((), u) → u.Deaf) ∧
    (∀ deep a t last more u, performTo deep .dropLink s = some (a, t) →
      performAll last more t = some ((), u) → if u.client.sink then u.Orphaned else u.Deaf) := by
  have hheld : s.holders = 0 := (lettingGo_performAll h).holders
  refine ⟨deaf_of_sink, fun howned hsink => orphaned_of_adrift ⟨howned, hheld, hsink⟩,
    fun deep howned => ?_, fun deep a t last more u howned ht hu => ?_,
    fun deep a t last more u ht hu => ?_⟩
  · exact returns_withLink (returns_map _ returns_shutDown) s
  · have hdeaf := sink_performTo_shutDown howned ht
    refine deaf_of_sink (Bool.eq_false_iff.mpr fun hsink => ?_)
    rw [(lettingGo_performAll hu).sink hsink] at hdeaf
    cases hdeaf
  · have hdropped := owned_performTo_dropLink ht
    have howned : u.owned = false := Bool.eq_false_iff.mpr fun howned => by
      rw [(lettingGo_performAll hu).owned howned] at hdropped
      cases hdropped
    have hholders : u.holders = 0 :=
      ((lettingGo_performAll hu).holders.trans (lettingGo_performTo ht).holders).trans hheld
    split
    next hsink => exact orphaned_of_adrift ⟨howned, hholders, hsink⟩
    next hsink => exact deaf_of_sink (Bool.eq_false_iff.mpr hsink)

/-- A link is dropped while an operation waits and a handler is set. -/
theorem silent_after_detachment_dropped :
    ∃ s, performAll 1 [.setHandler .disconnected ⟨"handler", [], .ok (), true⟩, .track 1 none,
        .dropLink] (opened {} (.ascending _)) = some ((), s) ∧ s.Orphaned := by
  obtain ⟨s, hrun, howned, hsink⟩ : ∃ s,
      performAll 1 [.setHandler .disconnected ⟨"handler", [], .ok (), true⟩, .track 1 none,
        .dropLink] (opened {} (.ascending _)) = some ((), s) ∧
      s.owned = false ∧ s.client.sink := ⟨_, rfl, rfl, rfl⟩
  exact ⟨s, hrun, (silent_after_detachment hrun).2.1 howned hsink⟩

end Session

end MqttLink
