import MqttLink.Proofs.Accounting
import MqttLink.Proofs.Silence

/-!
Events and the handlers of a link. An event about the connection or a message is told to one
handler: the one last set in its slot since all were cleared. Main statement: so it is for every
event in every run, however deep it is nested and whatever handlers do to each other; and what the
link does besides leaves the tables and the pool as they are.
-/

namespace MqttLink

/-- The handler last set in a slot since all handlers were cleared. The journal holds the newest
entry first. -/
def lastHandler (slot : Slot) : List Occurrence → Option Callback
  | [] => none
  | .handlerSet k c :: older => if k = slot then some c else lastHandler slot older
  | .handlersCleared :: _ => none
  | _ :: older => lastHandler slot older

theorem lastHandler_cons {o : Occurrence} (ho : o.setsHandlers = false) (slot : Slot)
    (older : List Occurrence) : lastHandler slot (o :: older) = lastHandler slot older := by
  cases o with
  | handlerSet _ _ | handlersCleared => cases ho
  | _ => rfl

/-- Entries that tell of the call of a handler. -/
def Occurrence.callsHandler : Occurrence → Bool
  | handled _ _ => true
  | _ => false

namespace Client

variable {c d : Client}

theorem steady_of_disconnect {r : Reply} (h : c.disconnect = (r, d)) : c.Steady d :=
  steady_called h

theorem steady_of_stopLoop {r : Except ClientFault Unit} (h : c.stopLoop = (r, d)) :
    c.Steady d := by
  have hd := c.steady_stopLoop
  rwa [h] at hd

theorem record_of_stopLoop {r : Except ClientFault Unit} (h : c.stopLoop = (r, d)) :
    d.record = .stopLoop :: c.record := by
  have hd := c.record_stopLoop
  rwa [h] at hd

end Client

namespace Session

open Play

variable {α : Type} {run : Runner} {s t u v : Session} {e : BrokerEvent} {x : Signal}
  {c : Callback} {r : Except Fault Unit} {depth : Nat}

/-! ## The handlers of a session -/

/-- The handlers are those that the journal tells of. -/
def Heedful (s : Session) : Prop :=
  ∀ slot, s.handlers slot = lastHandler slot s.journal

theorem heedful_opened (settings : Settings) (order : VisitOrder Callback) :
    (opened settings order).Heedful :=
  fun _ => rfl

theorem heedful_noted (hs : s.Heedful) {o : Occurrence} (ho : o.setsHandlers = false) :
    (s.noted o).Heedful :=
  fun slot => (hs slot).trans (lastHandler_cons ho slot s.journal).symm

theorem heedful_setHandler (hs : s.Heedful) (slot : Slot) (c : Callback) :
    ((s.noted (.handlerSet slot c)).setHandler slot c).Heedful := by
  intro k
  by_cases hk : k = slot
  · simp [setHandler, lastHandler, hk]
  · have hsame : (s.noted (.handlerSet slot c)).handlers k = lastHandler k s.journal := hs k
    simp [setHandler, lastHandler, hk, Ne.symm hk, hsame]

/-- The same session, whose handlers are those that the journal tells of. -/
def SameHeedful (s t : Session) : Prop :=
  s = t ∧ s.Heedful

theorem unison_sameHeedful : Unison SameHeedful where
  same _ _ h := h.1 ▸ rfl
  noted _ _ h _ ho := ⟨h.1 ▸ rfl, heedful_noted h.2 ho⟩
  changed s t s' t' h hsame hs ht hhandlers := by
    refine ⟨(eq_of_unwritten hsame (by rw [ht, hs, h.1])).symm, fun slot => ?_⟩
    rw [hhandlers, hs]
    exact h.2 slot
  handlerSet _ _ h slot c := ⟨h.1 ▸ rfl, heedful_setHandler h.2 slot c⟩
  handlersCleared _ _ h := ⟨h.1 ▸ rfl, fun _ => rfl⟩

/-! ## What the link does by itself -/

/-- What the link does about an event at `s` before it calls a handler: it goes on to `v`, and is
about to call a handler or has failed. A connection that was lost is ended from this side too before
anyone is told; both calls of the client have to succeed. -/
inductive Leads (s : Session) : BrokerEvent → Except Fault Signal → Session → Prop
  | connected : Leads s (.connectAnswered 0) (.ok .connected) (s.noted .connected)
  | refused {code : Int} (hcode : code ≠ 0) : Leads s (.connectAnswered code)
      (.ok (.connectionFailure (.connectionRefused code))) (s.noted (.refused code))
  | closed : Leads s (.closed 0) (.ok (.disconnected none)) (s.noted .closed)
  | lost {code n : Int} {c d : Client} (hcode : code ≠ 0)
      (disconnected : s.client.disconnect = (.ok n, c)) (stopped : c.stopLoop = (.ok (), d)) :
      Leads s (.closed code) (.ok (.disconnected (some (.connectionLost code))))
        ((s.noted (.lost code)).stopping d)
  | notDisconnected {code : Int} {f : ClientFault} {c : Client} (hcode : code ≠ 0)
      (failed : s.client.disconnect = (.error f, c)) :
      Leads s (.closed code) (.error (.client f)) { s.noted (.lost code) with client := c }
  | notStopped {code n : Int} {f : ClientFault} {c d : Client} (hcode : code ≠ 0)
      (disconnected : s.client.disconnect = (.ok n, c)) (failed : c.stopLoop = (.error f, d)) :
      Leads s (.closed code) (.error (.client f)) { s.noted (.lost code) with client := d }
  | message (m : Message) : Leads s (.message m) (.ok (.message m))
      (s.noted (.received m.topic m.payload.size))

/-- The calls with which the link ends a connection that was lost, the newest first. It does not try
to stop the network loop when it fails to disconnect. -/
def hangingUp (client : Client) : BrokerEvent → List Call
  | .closed code =>
    if code = 0 then []
    else match client.disconnect.1 with
      | .ok _ => [.stopLoop, .disconnect]
      | .error _ => [.disconnect]
  | _ => []

/-- The session when a handler is called while the link is held. -/
def calling (s : Session) (x : Signal) (c : Callback) : Session :=
  ({ s with holders := s.holders + 1 } : Session).noted (.handled x c.label)

theorem calling_view (s : Session) (x : Signal) (c : Callback) :
    (s.calling x c).view = s.view := rfl

/-- What comes of an event at `s`. If there is a handler in the slot, it is called once, and what it
comes back with decides over the result. -/
inductive Course (run : Runner) (s : Session) (e : BrokerEvent) :
    Except Fault Unit → Session → Prop
  | failed {f : Fault} {v : Session} (leads : Leads s e (.error f) v) : Course run s e (.error f) v
  | unheard {x : Signal} {v : Session} (leads : Leads s e (.ok x) v)
      (nobody : lastHandler x.slot s.journal = none) : Course run s e (.ok ()) v
  | heard {x : Signal} {v u w : Session} {c : Callback} {outcome : Outcome}
      {q : Except Fatal Unit} (leads : Leads s e (.ok x) v)
      (last : lastHandler x.slot s.journal = some c)
      (reacted : react run c (v.calling x c) = some (outcome, u))
      (contained : contain (.handler x.slot) outcome u = some (q, w)) :
      Course run s e (q.mapError .fatal) { w with holders := w.holders - 1 }

section

variable {n : Int} {f : ClientFault} {d d' : Client} {o : Except Fault Signal}

theorem hangUp_of_ok (hd : s.client.disconnect = (.ok n, d)) (hstop : d.stopLoop = (.ok (), d')) :
    hangUp s = some (.ok (), s.stopping d') := by
  have hstopped := stopLoop_of_ok (s := { s with client := d }) hstop
  rw [hangUp, bind_of_eq_some (onClient_apply _), hd]
  exact bind_of_eq_some hstopped _

theorem hangUp_of_notDisconnected (hd : s.client.disconnect = (.error f, d)) :
    hangUp s = some (.error (.client f), { s with client := d }) := by
  rw [hangUp, bind_of_eq_some (onClient_apply _), hd]
  rfl

theorem hangUp_of_notStopped (hd : s.client.disconnect = (.ok n, d))
    (hstop : d.stopLoop = (.error f, d')) :
    hangUp s = some (.error (.client f), { s with client := d' }) := by
  have hstopped := stopLoop_of_error (s := { s with client := d }) hstop
  rw [hangUp, bind_of_eq_some (onClient_apply _), hd]
  exact bind_of_eq_some hstopped _

theorem exists_leads (s : Session) (he : e.acknowledged? = none) : ∃ o v, Leads s e o v := by
  cases e with
  | connectAnswered code =>
    rcases eq_or_ne code 0 with rfl | hcode
    · exact ⟨_, _, .connected⟩
    · exact ⟨_, _, .refused hcode⟩
  | closed code =>
    rcases eq_or_ne code 0 with rfl | hcode
    · exact ⟨_, _, .closed⟩
    match hd : s.client.disconnect with
    | (.error f, d) => exact ⟨_, _, .notDisconnected hcode hd⟩
    | (.ok n, d) =>
      match hstop : d.stopLoop with
      | (.ok (), d') => exact ⟨_, _, .lost hcode hd hstop⟩
      | (.error f, d') => exact ⟨_, _, .notStopped hcode hd hstop⟩
  | message m => exact ⟨_, _, .message m⟩
  | subscribed _ _ | unsubscribed _ | published _ => cases he

theorem handlers_of_leads (h : Leads s e o v) : v.handlers = s.handlers := by
  cases h <;> rfl

theorem view_of_leads (h : Leads s e o v) : v.view = s.view := by
  have hpool {d : Client} (hd : s.client.Steady d) : (⟨s.ledger, d.pool⟩ : View) = s.view := by
    rw [hd.pool]
    rfl
  cases h with
  | connected | refused _ | closed | message _ => rfl
  | notDisconnected _ failed => exact hpool (Client.steady_of_disconnect failed)
  | lost _ disconnected stopped | notStopped _ disconnected stopped =>
    exact hpool ((Client.steady_of_disconnect disconnected).trans
      (Client.steady_of_stopLoop stopped))

theorem record_of_leads (h : Leads s e o v) :
    v.client.record = hangingUp s.client e ++ s.client.record := by
  cases h with
  | connected | refused _ | closed | message _ => rfl
  | notDisconnected hcode failed =>
    rw [hangingUp, if_neg hcode, failed]
    exact Client.record_of_called failed
  | lost hcode disconnected stopped | notStopped hcode disconnected stopped =>
    have hdisconnect := Client.record_of_called disconnected
    rw [hangingUp, if_neg hcode, disconnected, List.cons_append, List.singleton_append,
      ← hdisconnect]
    exact Client.record_of_stopLoop stopped

theorem holding_congr {x y : Play α}
    (h : x { s with holders := s.holders + 1 } = y { v with holders := v.holders + 1 }) :
    holding x s = holding y v := by
  rw [holding, bind_of_eq_some (modify_apply _), bind_apply, h]
  rfl

/-- Goes on when it is clear what is to be told, if anything. -/
def follow (run : Runner) : Except Fault Signal → Play (Except Fault Unit)
  | .ok x => signal run x
  | .error f => return .error f

/-- What is told when a connection was lost hangs on whether it could be ended from this side. -/
theorem routeClose_of_hangUp (run : Runner) (halive : s.alive) {code : Int} (hcode : code ≠ 0)
    (ended : Except Fault Unit)
    (h : hangUp (({ s with holders := s.holders + 1 } : Session).noted (.lost code)) =
      some (ended, { v with holders := v.holders + 1 })) :
    routeClose run code s = holding
      (follow run (ended.map fun _ => .disconnected (some (.connectionLost code)))) v := by
  rw [routeClose, bind_of_eq_some get_apply, if_pos halive, if_neg hcode]
  refine holding_congr ?_
  rw [bind_of_eq_some (note_apply _), bind_of_eq_some h]
  cases ended <;> rfl

/-- The link is held while a handler is called. -/
theorem deliver_of_leads (run : Runner) (hsink : s.client.sink) (halive : s.alive)
    (h : Leads s e o v) : deliver run e s = holding (follow run o) v := by
  rw [deliver_apply, if_pos hsink]
  cases h with
  | connected =>
    show routeConnectAnswer run 0 s = _
    rw [routeConnectAnswer, bind_of_eq_some get_apply, if_pos halive, if_pos rfl]
    exact holding_congr rfl
  | @refused code hcode =>
    show routeConnectAnswer run code s = _
    rw [routeConnectAnswer, bind_of_eq_some get_apply, if_pos halive, if_neg hcode]
    exact holding_congr rfl
  | closed =>
    show routeClose run 0 s = _
    rw [routeClose, bind_of_eq_some get_apply, if_pos halive, if_pos rfl]
    exact holding_congr rfl
  | lost hcode disconnected stopped =>
    refine routeClose_of_hangUp run halive hcode (.ok ()) ?_
    exact hangUp_of_ok disconnected stopped
  | @notDisconnected _ f _ hcode failed =>
    refine routeClose_of_hangUp run halive hcode (.error (.client f)) ?_
    exact hangUp_of_notDisconnected failed
  | @notStopped _ _ f _ _ hcode disconnected failed =>
    refine routeClose_of_hangUp run halive hcode (.error (.client f)) ?_
    exact hangUp_of_notStopped disconnected failed
  | message m =>
    show routeMessage run m s = _
    rw [routeMessage, bind_of_eq_some (note_apply _), bind_of_eq_some get_apply]
    exact congrFun (if_pos halive) _

theorem signal_of_eq_none (run : Runner) (h : s.handlers x.slot = none) :
    signal run x s = some (.ok (), s) := by
  rw [signal, bind_of_eq_some get_apply, h]
  rfl

theorem signal_of_eq_some (run : Runner) (h : s.handlers x.slot = some c) :
    signal run x s = (do
      let q ← contain (.handler x.slot) (← react run c)
      return Except.mapError Fault.fatal q) (s.noted (.handled x c.label)) := by
  rw [signal, bind_of_eq_some get_apply, h]
  rfl

end

/-! ## The course of an event -/

/-- An event takes its course, and no other, if the link listens and is alive. -/
theorem deliver_iff_course (run : Runner) (hs : s.Heedful) (hsink : s.client.sink)
    (halive : s.alive) (he : e.acknowledged? = none) :
    deliver run e s = some (r, t) ↔ Course run s e r t := by
  have hlast {o : Except Fault Signal} {v : Session} (hv : Leads s e o v) (slot : Slot) :
      ({ v with holders := v.holders + 1 } : Session).handlers slot =
        lastHandler slot s.journal :=
    (congrFun (handlers_of_leads hv) slot).trans (hs slot)
  constructor
  · intro h
    obtain ⟨o, v, hv⟩ := exists_leads s he
    rw [deliver_of_leads run hsink halive hv] at h
    obtain ⟨w, hw, rfl⟩ := exists_of_holding h
    cases o with
    | error f =>
      cases hw
      exact .failed hv
    | ok x =>
      rw [follow] at hw
      cases hc : lastHandler x.slot s.journal with
      | none =>
        rw [signal_of_eq_none run ((hlast hv x.slot).trans hc)] at hw
        cases hw
        exact .unheard hv hc
      | some c =>
        rw [signal_of_eq_some run ((hlast hv x.slot).trans hc)] at hw
        obtain ⟨outcome, u, hu, hw⟩ := bind_eq_some_iff.mp hw
        obtain ⟨q, z, hz, hw⟩ := bind_eq_some_iff.mp hw
        cases hw
        exact .heard hv hc hu hz
  · intro h
    cases h with
    | failed hv => exact deliver_of_leads run hsink halive hv
    | unheard hv hc =>
      rw [deliver_of_leads run hsink halive hv]
      exact holding_of_eq_some (signal_of_eq_none run ((hlast hv _).trans hc))
    | heard hv hc hu hz =>
      rw [deliver_of_leads run hsink halive hv]
      refine holding_of_eq_some ?_
      rw [follow, signal_of_eq_some run ((hlast hv _).trans hc)]
      exact bind_eq_some_iff.mpr ⟨_, _, hu, bind_eq_some_iff.mpr ⟨_, _, hz, rfl⟩⟩

/-- The tables and the pool are as they were at `s`, or as the handler left them that found them so.
-/
def Spared (run : Runner) (s : Session) (e : BrokerEvent) (t : Session) : Prop :=
  t.view = s.view ∨
    ∃ x v c outcome u, Leads s e (.ok x) v ∧ lastHandler x.slot s.journal = some c ∧
      react run c (v.calling x c) = some (outcome, u) ∧
      (v.calling x c).view = s.view ∧ t.view = u.view

theorem spared_of_course (h : Course run s e r t) : Spared run s e t := by
  cases h with
  | failed hv | unheard hv _ => exact .inl (view_of_leads hv)
  | heard hv hc hu hz =>
    have haside := aside_contain _ _ hz
    exact .inr ⟨_, _, _, _, _, hv, hc, hu, (calling_view _ _ _).trans (view_of_leads hv),
      congrArg₂ View.mk haside.ledger haside.pool⟩

/-! ## Calls of handlers -/

/-- How many calls of handlers the journal tells of. -/
def handlings (s : Session) : Nat :=
  s.journal.countP (·.callsHandler)

/-- From `s` to `t` no handler was called. -/
def SameHandlings (s t : Session) : Prop := t.handlings = s.handlings

instance : IsPreorder Session SameHandlings where
  refl _ := rfl
  trans _ _ _ h k := Eq.trans k h

theorem sameHandlings_noted (s : Session) {o : Occurrence} (ho : o.callsHandler = false) :
    SameHandlings s (s.noted o) :=
  List.countP_cons_of_neg (by simp [ho])

theorem sameHandlings_note {o : Occurrence} (ho : o.callsHandler = false) :
    Within SameHandlings (note o) :=
  within_note fun s => sameHandlings_noted s ho

theorem sameHandlings_contain (source : Source) (outcome : Outcome) :
    Within SameHandlings (contain source outcome) := by
  match outcome with
  | .ok () => exact within_pure _
  | .error (.recoverable _) =>
    exact within_bind (sameHandlings_note rfl) fun _ => within_pure _
  | .error (.fatal _) => exact within_pure _

theorem sameHandlings_of_leads {o : Except Fault Signal} (h : Leads s e o v) :
    SameHandlings s v := by
  cases h with
  | lost _ _ _ =>
    exact IsTrans.trans _ _ _ (sameHandlings_noted s rfl)
      (sameHandlings_noted { s.noted _ with client := _ } rfl)
  | _ => exact sameHandlings_noted s rfl

section

variable (hrun : Silent run)
include hrun

theorem sameHandlings_runSteps (stopsOnFault : Bool) (steps : List Step) :
    Within SameHandlings (runSteps run stopsOnFault steps) := by
  induction steps with
  | nil => exact within_pure _
  | cons step rest ih =>
    have hstep : Within SameHandlings (run step) := fun s a t h => by
      rw [SameHandlings, handlings, handlings, hrun h]
    refine within_bind hstep fun answer => within_bind (sameHandlings_note rfl) fun _ => ?_
    split
    · split
      · exact within_pure _
      · exact ih
    · exact ih

theorem sameHandlings_react (c : Callback) : Within SameHandlings (react run c) := by
  refine within_bind (sameHandlings_runSteps hrun _ _) fun fault => ?_
  cases fault <;> exact within_pure _

theorem sameHandlings_settle (id : PacketId) : Within SameHandlings (settle run id) := by
  have honLedger : Within SameHandlings (onLedger (·.settle id)) := fun s a t h => by
    cases h
    rfl
  refine within_bind honLedger fun settled => ?_
  match settled with
  | none => exact within_bind (sameHandlings_note rfl) fun _ => within_pure _
  | some none => exact within_bind (sameHandlings_note rfl) fun _ => within_pure _
  | some (some c) =>
    exact within_bind (sameHandlings_note rfl) fun _ => within_bind within_get fun _ =>
      within_bind (sameHandlings_note rfl) fun _ =>
      within_bind (sameHandlings_react hrun c) fun _ => sameHandlings_contain _ _

theorem sameHandlings_acknowledge (id : PacketId) :
    Within SameHandlings (acknowledge run id) := by
  refine within_bind within_get fun s => ?_
  split
  · refine within_bind ?_ fun _ => within_pure _
    exact within_bind (within_modify fun _ => rfl) fun _ =>
      within_bind (sameHandlings_settle hrun id) fun _ =>
      within_bind (within_modify fun _ => rfl) fun _ => within_pure _
  · exact within_pure _

/-- An acknowledgement calls no handler. -/
theorem sameHandlings_deliver (he : e.acknowledged? ≠ none) :
    Within SameHandlings (deliver run e) := by
  have hroute : Within SameHandlings (route run e) := by
    cases e with
    | subscribed _ _ | unsubscribed _ | published _ =>
      exact within_bind (sameHandlings_note rfl) fun _ => sameHandlings_acknowledge hrun _
    | _ => exact absurd rfl he
  intro s r t h
  rw [deliver_apply] at h
  have hnoticing : SameHandlings s (s.noticing e) := by
    unfold noticing
    split
    · exact sameHandlings_noted s rfl
    · exact refl s
  split at h
  · exact IsTrans.trans _ _ _ hnoticing (hroute h)
  · cases h
    exact hnoticing

/-- Any other event calls at most one. -/
theorem handlings_signal_le (h : signal run x s = some (r, t)) :
    t.handlings ≤ s.handlings + 1 := by
  cases hc : s.handlers x.slot with
  | none =>
    rw [signal_of_eq_none run hc] at h
    cases h
    exact Nat.le_succ _
  | some c =>
    rw [signal_of_eq_some run hc] at h
    have hcall : Within SameHandlings (do
        let q ← contain (.handler x.slot) (← react run c)
        return Except.mapError Fault.fatal q) :=
      within_bind (sameHandlings_react hrun c) fun _ =>
        within_bind (sameHandlings_contain _ _) fun _ => within_pure _
    exact Nat.le_of_eq ((hcall h).trans (List.countP_cons_of_pos rfl))

theorem handlings_deliver_le (hsink : s.client.sink) (halive : s.alive)
    (he : e.acknowledged? = none) (h : deliver run e s = some (r, t)) :
    t.handlings ≤ s.handlings + 1 := by
  obtain ⟨o, v, hv⟩ := exists_leads s he
  have hsame : v.handlings = s.handlings := sameHandlings_of_leads hv
  rw [deliver_of_leads run hsink halive hv] at h
  obtain ⟨w, hw, rfl⟩ := exists_of_holding h
  cases o with
  | error f =>
    cases hw
    exact Nat.le_succ_of_le (Nat.le_of_eq hsame)
  | ok x =>
    have hle : w.handlings ≤ v.handlings + 1 :=
      handlings_signal_le (s := { v with holders := v.holders + 1 }) hrun hw
    rwa [hsame] at hle

end

/-! ## Runs under watch -/

/-- What comes of an event: what the link does before it calls a handler, and the call itself; that
only the handler touches the tables and the pool; and, when what is nested is struck from the
journal, how many handlers were called. -/
structure Heeded (run : Runner) (s : Session) (e : BrokerEvent) (r : Except Fault Unit)
    (t : Session) : Prop where
  course : e.acknowledged? = none → Course run s e r t
  before : ∀ o v, Leads s e o v →
    v.view = s.view ∧ v.client.record = hangingUp s.client e ++ s.client.record
  tables : e.acknowledged? = none → Spared run s e t
  calls : ∃ w, deliver (silently run) e s = some (r, w) ∧ w.unwritten = t.unwritten ∧
    w.journal.Sublist t.journal ∧
    w.handlings ≤ s.handlings + if e.acknowledged? = none then 1 else 0

/-- What is nested in an event can be struck from the journal. -/
theorem exists_deliver_silently (h : deliver (performTo depth) e s = some (r, t)) :
    ∃ w, deliver (silently (performTo depth)) e s = some (r, w) ∧ w.unwritten = t.unwritten ∧
      w.journal.Sublist t.journal := by
  have hstruck := unison_thinner.accords_deliver
    (accords_silently_of_blind (blind_performTo depth)) e
  obtain ⟨w, hw, hthin⟩ := hstruck ⟨rfl, List.Sublist.refl _⟩ h
  exact ⟨w, hw, hthin.same, hthin.journal⟩

theorem heeded_of_deliver (hs : s.Heedful) (hsink : s.client.sink) (halive : s.alive)
    (h : deliver (performTo depth) e s = some (r, t)) : Heeded (performTo depth) s e r t where
  course he := (deliver_iff_course _ hs hsink halive he).mp h
  before _ _ hv := ⟨view_of_leads hv, record_of_leads hv⟩
  tables he := spared_of_course ((deliver_iff_course _ hs hsink halive he).mp h)
  calls := by
    obtain ⟨w, hw, hsame, hthin⟩ := exists_deliver_silently h
    refine ⟨w, hw, hsame, hthin, ?_⟩
    split
    next he => exact handlings_deliver_le (silent_silently _) hsink halive he hw
    next he => exact Nat.le_of_eq (sameHandlings_deliver (silent_silently _) he hw)

/-- If the step is an event, and the link listens and is alive, the event is heeded. -/
def Heeds (depth : Nat) (step : Step) (a : Answer) (s t : Session) : Prop :=
  ∀ e : BrokerEvent, e.step = step → s.client.sink → s.alive →
    ∃ r, a = .ofResult r ∧ Heeded (performTo depth) s e r t

open Classical in
/-- Runs a step, and so every step that is nested in it, but gives up at an event that is not
heeded. -/
noncomputable def performHeeding : (depth : Nat) → Step → Play Answer
  | 0, _ => fun _ => none
  | depth + 1, step => fun s =>
    (perform (performHeeding depth) step s).filter fun (a, t) => Heeds depth step a s t

/-- Runs steps in order, all of them under watch. -/
noncomputable def performAllHeeding (depth : Nat) : List Step → Play Unit
  | [] => pure ()
  | step :: rest => do
    let _ ← performHeeding depth step
    performAllHeeding depth rest

theorem heeds_performTo (hs : s.Heedful) {step : Step} {a : Answer}
    (h : performTo (depth + 1) step s = some (a, t)) : Heeds depth step a s t := by
  rintro e rfl hsink halive
  rw [performTo, perform_event] at h
  obtain ⟨r, u, hr, h⟩ := bind_eq_some_iff.mp h
  cases h
  exact ⟨r, rfl, heeded_of_deliver hs hsink halive hr⟩

/-- Nobody who watches has to give up. -/
theorem accords_performHeeding (depth : Nat) (step : Step) :
    Accords SameHeedful (performTo depth step) (performHeeding depth step) := by
  induction depth generalizing step with
  | zero => exact accords_none _
  | succ depth ih =>
    rintro s _ a s' ⟨rfl, hs⟩ h
    obtain ⟨_, hy, rfl, hs'⟩ := unison_sameHeedful.accords_perform ih step ⟨rfl, hs⟩ h
    have hheeds := heeds_performTo hs h
    refine ⟨s', ?_, rfl, hs'⟩
    simp only [performHeeding, hy, Option.filter_some, hheeds, decide_true, if_true]

theorem accords_performAllHeeding (depth : Nat) (steps : List Step) :
    Accords SameHeedful (performAll depth steps) (performAllHeeding depth steps) := by
  induction steps with
  | nil => exact accords_pure _
  | cons step rest ih => exact accords_bind (accords_performHeeding depth step) fun _ => ih

/-! ## Main statement -/

/-- In every run of a new link on a new client, every event that reaches the link, however deep it
is nested in callbacks, handlers and hooks, is heeded: if it is no acknowledgement it calls the
handler last set in its slot since all were cleared, if there is one, and no other. After every run
the handlers are those that the journal tells of, and the next event takes its course, and no other.
An acknowledgement never calls a handler, not even one that comes from inside a request. -/
theorem events_heeded {steps : List Step} {settings : Settings} {order : VisitOrder Callback}
    {depth : Nat} {s : Session}
    (h : performAll depth steps (opened settings order) = some ((), s)) :
    performAllHeeding depth steps (opened settings order) = some ((), s) ∧
    (∀ slot, s.handlers slot = lastHandler slot s.journal) ∧
    (∀ deep e r t, s.client.sink → s.alive →
      (deliver (performTo deep) e s = some (r, t) → Heeded (performTo deep) s e r t) ∧
      (e.acknowledged? = none → Course (performTo deep) s e r t →
        deliver (performTo deep) e s = some (r, t))) ∧
    ∀ deep e u r t, e.acknowledged? ≠ none → deliver (performTo deep) e u = some (r, t) →
      ∃ w, deliver (silently (performTo deep)) e u = some (r, w) ∧ w.unwritten = t.unwritten ∧
        w.journal.Sublist t.journal ∧ w.handlings = u.handlings := by
  obtain ⟨_, hwatched, rfl, hs⟩ :=
    accords_performAllHeeding depth steps ⟨rfl, heedful_opened settings order⟩ h
  refine ⟨hwatched, hs, fun deep e r t hsink halive =>
    ⟨heeded_of_deliver hs hsink halive,
      fun he => (deliver_iff_course _ hs hsink halive he).mpr⟩, fun deep e u r t he hu => ?_⟩
  obtain ⟨w, hw, hsame, hthin⟩ := exists_deliver_silently hu
  exact ⟨w, hw, hsame, hthin, sameHandlings_deliver (silent_silently _) he hw⟩

/-- The handler for lost connections clears the handlers and loses the connection once more. -/
theorem events_heeded_cleared :
    ∃ s, performAll 3 [.setHandler .disconnected ⟨"lost", [.clearHandlers, .close 7], .ok (),
          true⟩, .close 4] (opened {} (.ascending _)) = some ((), s) ∧
      performAllHeeding 3 [.setHandler .disconnected ⟨"lost", [.clearHandlers, .close 7], .ok (),
          true⟩, .close 4] (opened {} (.ascending _)) = some ((), s) ∧
      s.handlers .disconnected = none ∧ s.handlings = 1 := by
  obtain ⟨s, hrun, hnone, hone⟩ : ∃ s,
      performAll 3 [.setHandler .disconnected ⟨"lost", [.clearHandlers, .close 7], .ok (), true⟩,
        .close 4] (opened {} (.ascending _)) = some ((), s) ∧
      s.handlers .disconnected = none ∧ s.handlings = 1 := ⟨_, rfl, rfl, rfl⟩
  exact ⟨s, hrun, (events_heeded hrun).1, hnone, hone⟩

end Session

end MqttLink
