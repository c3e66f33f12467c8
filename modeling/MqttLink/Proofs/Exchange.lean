import MqttLink.Proofs.Calls
import MqttLink.Proofs.Lending

/-!
Requests and acknowledgements. The client gives the same identifier to many requests in turn. Main
statement: as long as only outstanding requests are acknowledged, in whatever order, each
acknowledgement calls the callback of its own request, and when none is outstanding nothing is left
behind.
-/

namespace MqttLink

/-- Steps that script the client. -/
def Step.scripts : Step → Bool
  | scriptReply _ _ | completeEarly _ => true
  | _ => false

/-- The identifier that a step acknowledges. -/
def Step.acknowledges? : Step → Option PacketId
  | acknowledgeSubscribe id level => (Qos.ofLevel? level).map fun _ => id
  | acknowledgeUnsubscribe id | acknowledgePublish id => some id
  | _ => none

namespace Session

open Play

variable {α : Type} {outstanding rest : List (Ledger.Entry Callback)} {calls : List Invocation}
  {s t u : Session} {id : PacketId} {callback : Option Callback}

/-- What waits, what is on loan and what has been called, when the requests in `outstanding` are
still to be acknowledged and no acknowledgement is ahead of its request. -/
structure Tally (outstanding : List (Ledger.Entry Callback)) (calls : List Invocation)
    (s : Session) : Prop extends Linked s where
  pending : ∀ id callback, s.ledger.pending[id]? = some callback ↔ (id, callback) ∈ outstanding
  early : ∀ id, id ∉ s.ledger.early
  onLoan : ∀ id, s.client.pool.onLoan id ↔ ∃ callback, (id, callback) ∈ outstanding
  distinct : (outstanding.map (·.1)).Nodup
  inert : ∀ e ∈ outstanding, ∀ c, e.2 = some c → c.Inert
  calls : s.calls = calls

theorem tally_opened (settings : Settings) (order : VisitOrder Callback) :
    Tally [] [] (opened settings order) where
  toLinked := linked_opened settings order
  pending id callback := by simp [opened, attached]
  early id := by simp [opened, attached]
  onLoan id := by
    constructor
    · exact fun h => absurd h (PacketId.Pool.not_onLoan_fresh id)
    · rintro ⟨_, h⟩
      cases h
  distinct := List.nodup_nil
  inert := nofun
  calls := rfl

/-- What changes neither tables nor loans, and calls nobody. -/
theorem tally_of_same (hs : Tally outstanding calls s) (h : Alike s t)
    (hp : t.client.pool.Canonical) (ho : ∀ k, t.client.pool.onLoan k ↔ s.client.pool.onLoan k)
    (hl : t.ledger = s.ledger) (hc : t.calls = s.calls) : Tally outstanding calls t where
  toLinked := linked_of_alike hs.toLinked h hp
  pending := by rw [hl]; exact hs.pending
  early := by rw [hl]; exact hs.early
  onLoan id := (ho id).trans (hs.onLoan id)
  distinct := hs.distinct
  inert := hs.inert
  calls := hc.trans hs.calls

theorem tally_of_aside (h : Aside s t) (hs : Tally outstanding calls s) :
    Tally outstanding calls t :=
  tally_of_same hs h.toAlike (by rw [h.pool]; exact hs.canonical) (fun k => by rw [h.pool])
    h.ledger (worked_of_aside h).calls

theorem tally_of_perm (h : outstanding.Perm rest) (hs : Tally outstanding calls s) :
    Tally rest calls s where
  toLinked := hs.toLinked
  pending id callback := (hs.pending id callback).trans h.mem_iff
  early := hs.early
  onLoan id := (hs.onLoan id).trans (exists_congr fun _ => h.mem_iff)
  distinct := (h.map _).nodup_iff.mp hs.distinct
  inert e he := hs.inert e (h.mem_iff.mpr he)
  calls := hs.calls

theorem pending_onLoan_of_tally (hs : Tally outstanding calls s) :
    ∀ id ∈ s.ledger.pending, s.client.pool.onLoan id := by
  intro id hid
  obtain ⟨callback, hcallback⟩ := Option.isSome_iff_exists.mp
    (Std.ExtTreeMap.mem_iff_isSome_getElem?.mp hid)
  exact (hs.onLoan id).mpr ⟨callback, (hs.pending id callback).mp hcallback⟩

theorem inert_of_tally (hs : Tally outstanding calls s) : s.ledger.All Reaction.Inert :=
  fun id c h => hs.inert _ ((hs.pending id _).mp h) c rfl

/-! ## Requests -/

/-- From `s` to `t` a request with this callback was made: the client turned it down, or accepted
it, so that it is outstanding now or has been completed. -/
inductive Advances (outstanding : List (Ledger.Entry Callback)) (calls : List Invocation)
    (callback : Option Callback) (s t : Session) : Prop
  | refused (accepted : t.accepted = s.accepted) (tally : Tally outstanding calls t)
  | accepted (id : PacketId) (late : s.client.completesEarly = false)
      (accepted : t.accepted = id :: s.accepted)
      (tally : Tally ((id, callback) :: outstanding) calls t)
  | completed (id : PacketId) (early : s.client.completesEarly)
      (accepted : t.accepted = id :: s.accepted)
      (tally : Tally outstanding (callOf id .completed callback ++ calls) t)

/-- Whatever else the step does before the request and after it, the request comes out the same. -/
theorem advances_of_aside {s' t' : Session} (h : Advances outstanding calls callback s t)
    (hclient : s'.client = s.client) (haccepted : s'.accepted = s.accepted) (ht : Aside t t') :
    Advances outstanding calls callback s' t' := by
  have hafter : t'.accepted = t.accepted := (worked_of_aside ht).accepted
  cases h with
  | refused accepted tally =>
    exact .refused (hafter.trans (accepted.trans haccepted.symm)) (tally_of_aside ht tally)
  | accepted id late accepted tally =>
    refine .accepted id (by rw [hclient, late]) ?_ (tally_of_aside ht tally)
    rw [hafter, accepted, haccepted]
  | completed id early accepted tally =>
    refine .completed id (by rw [hclient, early]) ?_ (tally_of_aside ht tally)
    rw [hafter, accepted, haccepted]

theorem advances_of_refused (hs : Tally outstanding calls s) (h : Refused s t) :
    Advances outstanding calls callback s t := by
  obtain ⟨news, hj, hn⟩ := h.journal
  have hnone : news.filterMap (·.accepted?) = [] ∧ news.filterMap (·.invocation?) = [] := by
    constructor
    · refine List.filterMap_eq_nil_iff.mpr fun o ho => ?_
      exact Occurrence.accepted?_of_neutral (neutral_of_refused (hn o ho))
    · refine List.filterMap_eq_nil_iff.mpr fun o ho => ?_
      rcases hn o ho with hq | ⟨m, id, code, -, rfl⟩
      · exact Occurrence.invocation?_of_quiet hq
      · rfl
  refine .refused ?_ (tally_of_same hs h.toAlike h.canonical h.onLoan h.ledger ?_)
  · rw [accepted, accepted, hj, List.filterMap_append, hnone.1, List.nil_append]
  · rw [Session.calls, Session.calls, hj, List.filterMap_append, hnone.2, List.nil_append]

/-- A request that has been accepted waits under an identifier that was free. -/
theorem tally_of_tracked (hs : Tally outstanding calls s)
    (hc : ∀ c, callback = some c → c.Inert) (free : ¬ s.client.pool.onLoan id) (alike : Alike s t)
    (canonical : t.client.pool.Canonical)
    (onLoan : ∀ k, t.client.pool.onLoan k ↔ k = id ∨ s.client.pool.onLoan k)
    (ledger : t.ledger = (s.ledger.track id callback).2) (hcalls : t.calls = s.calls) :
    Tally ((id, callback) :: outstanding) calls t := by
  have hfree (c : Option Callback) : (id, c) ∉ outstanding := fun hm =>
    free ((hs.onLoan id).mpr ⟨c, hm⟩)
  exact {
    toLinked := linked_of_alike hs.toLinked alike canonical
    pending := by
      intro k c
      rw [ledger, Ledger.getElem?_track, List.mem_cons, Prod.mk.injEq]
      split
      next hk =>
        obtain ⟨rfl, -⟩ := hk
        simp [hfree, eq_comm]
      next hk =>
        rw [hs.pending]
        have hne : k ≠ id := fun e => hk ⟨e, hs.early id⟩
        simp [hne]
    early := by
      intro k
      rw [ledger, Ledger.mem_early_track]
      exact fun hm => hs.early k hm.2
    onLoan := by
      intro k
      rw [onLoan, hs.onLoan]
      simp only [List.mem_cons, Prod.mk.injEq, exists_or, exists_and_left, exists_eq, and_true]
    distinct := by
      rw [List.map_cons, List.nodup_cons]
      refine ⟨fun hm => ?_, hs.distinct⟩
      obtain ⟨⟨k, c⟩, hkc, rfl⟩ := List.mem_map.mp hm
      exact hfree c hkc
    inert := List.forall_mem_cons.mpr ⟨hc, hs.inert⟩
    calls := hcalls.trans hs.calls }

/-- A request whose acknowledgement came first leaves nothing in the tables. -/
theorem tally_of_completed {news : List Invocation} (hs : Tally outstanding calls s)
    (free : ¬ s.client.pool.onLoan id) (alike : Alike s t) (canonical : t.client.pool.Canonical)
    (onLoan : ∀ k, t.client.pool.onLoan k ↔ s.client.pool.onLoan k)
    (ledger : t.ledger = ((s.ledger.settle id).2.track id callback).2)
    (hcalls : t.calls = news ++ calls) : Tally outstanding (news ++ calls) t := by
  have hpending : id ∉ s.ledger.pending := fun hm => free (pending_onLoan_of_tally hs id hm)
  have hearly : id ∈ (s.ledger.settle id).2.early :=
    (Ledger.mem_early_settle _ _ _).mpr (.inr ⟨rfl, hpending⟩)
  exact {
    toLinked := linked_of_alike hs.toLinked alike canonical
    pending := by
      intro k c
      rw [ledger, Ledger.getElem?_track, if_neg (fun hk => hk.2 hearly), Ledger.getElem?_settle,
        ← hs.pending]
      split
      next hk => rw [hk, Std.ExtTreeMap.getElem?_eq_none hpending]
      next => exact Iff.rfl
    early := by
      intro k
      rw [ledger, Ledger.mem_early_track, Ledger.mem_early_settle]
      rintro ⟨hne, hm | ⟨heq, -⟩⟩
      · exact hs.early k hm
      · exact hne heq
    onLoan := fun k => (onLoan k).trans (hs.onLoan k)
    distinct := hs.distinct
    inert := hs.inert
    calls := hcalls }

/-- A request that has been acknowledged is no longer outstanding. -/
theorem tally_of_settled {news : List Invocation} (hs : Tally ((id, callback) :: rest) calls s)
    (alike : Alike s t) (canonical : t.client.pool.Canonical)
    (onLoan : ∀ k, t.client.pool.onLoan k ↔ k ≠ id ∧ s.client.pool.onLoan k)
    (ledger : t.ledger = (s.ledger.settle id).2)
    (hcalls : t.calls = news ++ calls) : Tally rest (news ++ calls) t := by
  obtain ⟨hid, hdistinct⟩ := List.nodup_cons.mp hs.distinct
  have hgone (c : Option Callback) : (id, c) ∉ rest := fun hm =>
    hid (List.mem_map.mpr ⟨_, hm, rfl⟩)
  have hpending : id ∈ s.ledger.pending := by
    have hwaits := (hs.pending id callback).mpr (List.mem_cons_self ..)
    exact Std.ExtTreeMap.mem_iff_isSome_getElem?.mpr (by rw [hwaits]; rfl)
  exact {
    toLinked := linked_of_alike hs.toLinked alike canonical
    pending := by
      intro k c
      rw [ledger, Ledger.getElem?_settle]
      split
      next hk => simp [hk, hgone]
      next hk =>
        rw [hs.pending]
        simp [hk]
    early := by
      intro k
      rw [ledger, Ledger.mem_early_settle]
      rintro (hm | ⟨-, hnone⟩)
      · exact hs.early k hm
      · exact hnone hpending
    onLoan := by
      intro k
      rw [onLoan, hs.onLoan]
      constructor
      · rintro ⟨hne, c, hm⟩
        exact ⟨c, (List.mem_cons.mp hm).resolve_left fun e => hne (congrArg Prod.fst e)⟩
      · rintro ⟨c, hm⟩
        refine ⟨?_, c, List.mem_cons_of_mem _ hm⟩
        rintro rfl
        exact hgone c hm
    distinct := hdistinct
    inert := fun e he => hs.inert e (List.mem_cons_of_mem _ he)
    calls := hcalls }

section

variable {run : Runner} (hrun : Serving run)
include hrun

theorem advances_of_accepted {r : Request} (hs : Tally outstanding calls s)
    (hc : ∀ c, callback = some c → c.Inert) (h : Accepted r id s u) :
    ∃ res t, trackAccepted run id callback u = some (res, t) ∧
      Advances outstanding calls callback s t := by
  obtain ⟨res, t, ht, hworked⟩ := worked_trackAccepted (s := u) hrun id hc
  refine ⟨res, t, ht, ?_⟩
  cases h with
  | late late free alike canonical onLoan ledger journal =>
    rw [ledger, if_neg (hs.early id)] at hworked
    have haccepted : u.accepted = id :: s.accepted := by
      rw [accepted, accepted, journal]
      rfl
    have hcalls : u.calls = s.calls := by
      rw [Session.calls, Session.calls, journal]
      rfl
    exact .accepted id late (hworked.accepted.trans haccepted)
      (tally_of_tracked hs hc free (alike.trans hworked.toAlike)
        (by rw [hworked.pool]; exact canonical) (by rw [hworked.pool]; exact onLoan)
        hworked.ledger (hworked.calls.trans hcalls))
  | early early free alike canonical onLoan ledger journal =>
    obtain ⟨o, ho, journal⟩ := journal
    have hmem : id ∈ u.ledger.early := by
      rw [ledger, Ledger.mem_early_settle]
      exact .inr ⟨rfl, fun hm => free (pending_onLoan_of_tally hs id hm)⟩
    rw [if_pos hmem] at hworked
    have haccepted : u.accepted = id :: s.accepted := by
      rw [accepted, accepted, journal, List.filterMap_cons_none rfl,
        List.filterMap_cons_none (Occurrence.accepted?_of_quiet ho)]
      rfl
    have hcalls : u.calls = s.calls := by
      rw [Session.calls, Session.calls, journal, List.filterMap_cons_none rfl,
        List.filterMap_cons_none (Occurrence.invocation?_of_quiet ho)]
      rfl
    refine .completed id early (hworked.accepted.trans haccepted)
      (tally_of_completed hs free (alike.trans hworked.toAlike)
        (by rw [hworked.pool]; exact canonical) (by rw [hworked.pool]; exact onLoan)
        (by rw [hworked.ledger, ledger]) ?_)
    rw [hworked.calls, hcalls, hs.calls]

/-- The play comes back from a request with this callback. -/
def Requests (callback : Option Callback) (x : Play α) : Prop :=
  ∀ outstanding calls s, Tally outstanding calls s →
    ∃ a t, x s = some (a, t) ∧ Advances outstanding calls callback s t

theorem requests_request (r : Request) (hc : ∀ c, callback = some c → c.Inert) :
    Requests callback (request run r callback) := by
  intro outstanding calls s hs
  rcases request_apply run r callback hs.toLinked (pending_onLoan_of_tally hs) with
    ⟨f, t, ht, hrefused⟩ | ⟨id, u, haccepted, hu⟩
  · exact ⟨_, t, ht, advances_of_refused hs hrefused⟩
  · obtain ⟨res, t, ht, hadvances⟩ := advances_of_accepted hrun hs hc haccepted
    exact ⟨res, t, hu.trans ht, hadvances⟩

/-- The acknowledgement of an outstanding request calls the callback of that request. -/
theorem tally_deliver {event : BrokerEvent} (he : event.acknowledged? = some id)
    (hs : Tally ((id, callback) :: rest) calls s) :
    ∃ a t, deliver run event s = some (a, t) ∧
      Tally rest (callOf id .completed callback ++ calls) t := by
  obtain ⟨o, ho, hdeliver⟩ := deliver_acknowledgement run he hs.sink
  have howned : ((s.freeing id).noted o).owned := hs.owned
  have hpending : s.ledger.pending[id]? = some callback :=
    (hs.pending id callback).mpr (List.mem_cons_self ..)
  have hinert : s.ledger.All Reaction.Inert := inert_of_tally hs
  obtain ⟨a, t, ht, hworked⟩ := worked_map (Except.mapError Fault.fatal) (worked_holding
    (worked_settle (s := { (s.freeing id).noted o with holders := s.holders + 1 }) hrun id
      hinert))
  refine ⟨a, t, ?_, ?_⟩
  · rw [hdeliver, acknowledge_of_owned run howned]
    exact ht
  · have hcalls : ((s.freeing id).noted o).calls = s.calls := by
      rw [Session.calls, noted_journal,
        List.filterMap_cons_none (Occurrence.invocation?_of_quiet ho)]
      rfl
    have hpool : t.client.pool = s.client.pool.reclaim id := hworked.pool
    have halike : Alike s t :=
      (alike_freeing s id).trans ((alike_noted _ o).trans hworked.toAlike)
    refine tally_of_settled hs halike ?_ ?_ hworked.ledger ?_
    · rw [hpool]
      exact PacketId.Pool.canonical_reclaim hs.canonical id
    · rw [hpool]
      exact PacketId.Pool.onLoan_reclaim s.client.pool id
    · have hmet : s.ledger.pending[id]?.elim [] (callOf id .completed) =
          callOf id .completed callback := by
        rw [hpending]
        rfl
      rw [hworked.calls, hcalls, hs.calls]
      exact congrArg (· ++ calls) hmet

end

/-! ## Steps -/

theorem requests_answeringRequest {run : Runner} {r : Request}
    (hr : Requests callback (request run r callback)) :
    Requests callback (answeringRequest run r callback) := by
  intro outstanding calls s hs
  have haside := aside_entering s r.operation r.arguments
  obtain ⟨res, t, ht, hadvances⟩ := hr outstanding calls _ (tally_of_aside haside hs)
  exact ⟨_, _, answeringRequest_of_eq_some ht,
    advances_of_aside hadvances rfl (worked_of_aside haside).accepted.symm (aside_noted t rfl)⟩

theorem requests_withQos {level : Nat} {x : Qos → Play Answer}
    (hx : ∀ qos, Requests callback (x qos)) : Requests callback (withQos level x) := by
  unfold withQos
  split
  · exact hx _
  · exact fun outstanding calls s hs => ⟨_, s, rfl, .refused rfl hs⟩

theorem requests_withLink {x : Play Answer} (hx : Requests callback x) :
    Requests callback (withLink x) := by
  intro outstanding calls s hs
  obtain ⟨a, t, ht, hadvances⟩ := hx outstanding calls _ (tally_of_aside (aside_holders s _) hs)
  rw [withLink_of_owned hs.owned]
  exact ⟨a, _, holding_of_eq_some ht, advances_of_aside hadvances rfl rfl (aside_holders t _)⟩

theorem requests_performTo (depth : Nat) {step : Step} (hstep : requested? step = some callback)
    (hc : ∀ c, callback = some c → c.Inert) : Requests callback (performTo (depth + 2) step) := by
  have hrequest (r : Request) :
      Requests callback (answeringRequest (performTo (depth + 1)) r callback) :=
    requests_answeringRequest (requests_request (serving_performTo depth) r hc)
  cases step with
  | subscribe _ _ _ =>
    cases hstep
    exact requests_withLink (requests_withQos fun _ => hrequest _)
  | unsubscribe _ _ =>
    cases hstep
    exact requests_withLink (hrequest _)
  | publish _ _ _ _ =>
    cases hstep
    exact requests_withQos fun _ => requests_withLink (hrequest _)
  | _ => cases hstep

theorem advances_performTo {depth : Nat} {step : Step} {answer : Answer}
    (hstep : requested? step = some callback) (hc : ∀ c, callback = some c → c.Inert)
    (hs : Tally outstanding calls s) (ht : performTo (depth + 2) step s = some (answer, t)) :
    Advances outstanding calls callback s t := by
  obtain ⟨_, u, hu, hadvances⟩ := requests_performTo depth hstep hc _ _ _ hs
  rw [ht] at hu
  cases hu
  exact hadvances

/-- A step that acknowledges is the delivery of an event. -/
theorem perform_acknowledges (run : Runner) {step : Step} (hstep : step.acknowledges? = some id) :
    ∃ event : BrokerEvent, event.acknowledged? = some id ∧
      perform run step = answering (deliver run event) := by
  cases step with
  | acknowledgeSubscribe k level =>
    obtain ⟨qos, hq, rfl⟩ := Option.map_eq_some_iff.mp hstep
    exact ⟨.subscribed k qos, rfl, by rw [perform, withQos, hq]⟩
  | acknowledgeUnsubscribe k => exact ⟨.unsubscribed k, hstep, rfl⟩
  | acknowledgePublish k => exact ⟨.published k, hstep, rfl⟩
  | _ => cases hstep

theorem tally_performTo_acknowledge (depth : Nat) (step : Step)
    (hstep : step.acknowledges? = some id) (hs : Tally ((id, callback) :: rest) calls s) :
    ∃ a t, performTo (depth + 2) step s = some (a, t) ∧
      Tally rest (callOf id .completed callback ++ calls) t := by
  obtain ⟨event, he, hperform⟩ := perform_acknowledges (performTo (depth + 1)) hstep
  obtain ⟨a, t, ht, htally⟩ := tally_deliver (serving_performTo depth) he hs
  rw [performTo, hperform]
  exact ⟨_, t, bind_of_eq_some ht _, htally⟩

theorem tally_performTo_script (depth : Nat) {step : Step} (hstep : step.scripts)
    (hs : Tally outstanding calls s) :
    ∃ a t, performTo (depth + 2) step s = some (a, t) ∧ Tally outstanding calls t := by
  have hbesides : step.besides := by
    cases step with
    | scriptReply _ _ | completeEarly _ => rfl
    | _ => cases hstep
  obtain ⟨a, t, ht, haside⟩ := serving_performTo (depth + 1) step hbesides s
  exact ⟨a, t, ht, tally_of_aside haside hs⟩

/-! ## Runs -/

/-- Runs of requests and acknowledgements. `outstanding` are the requests that were accepted and are
still to be acknowledged, with their callbacks, and `calls` are the calls that these callbacks are
due, the latest first: one for each request, when it is acknowledged, or when it comes back if the
client completed it early. -/
inductive Exchange (depth : Nat) : List (Ledger.Entry Callback) → List Invocation → Session → Prop
  | opened (settings : Settings) (order : VisitOrder Callback) :
      Exchange depth [] [] (opened settings order)
  | scripted {outstanding calls s step answer t} (h : Exchange depth outstanding calls s)
      (hstep : Step.scripts step) (ht : performTo (depth + 2) step s = some (answer, t)) :
      Exchange depth outstanding calls t
  | refused {outstanding calls s step callback answer t} (h : Exchange depth outstanding calls s)
      (hstep : requested? step = some callback) (hc : ∀ c, callback = some c → c.Inert)
      (ht : performTo (depth + 2) step s = some (answer, t)) (hid : t.accepted = s.accepted) :
      Exchange depth outstanding calls t
  | accepted {outstanding calls s step callback answer t id}
      (h : Exchange depth outstanding calls s) (hstep : requested? step = some callback)
      (hc : ∀ c, callback = some c → c.Inert)
      (ht : performTo (depth + 2) step s = some (answer, t)) (hid : t.accepted = id :: s.accepted)
      (late : s.client.completesEarly = false) :
      Exchange depth ((id, callback) :: outstanding) calls t
  | completed {outstanding calls s step callback answer t id}
      (h : Exchange depth outstanding calls s) (hstep : requested? step = some callback)
      (hc : ∀ c, callback = some c → c.Inert)
      (ht : performTo (depth + 2) step s = some (answer, t)) (hid : t.accepted = id :: s.accepted)
      (early : s.client.completesEarly = true) :
      Exchange depth outstanding (callOf id .completed callback ++ calls) t
  | acknowledged (before after : List (Ledger.Entry Callback)) {calls s step id callback answer t}
      (h : Exchange depth (before ++ (id, callback) :: after) calls s)
      (hstep : Step.acknowledges? step = some id)
      (ht : performTo (depth + 2) step s = some (answer, t)) :
      Exchange depth (before ++ after) (callOf id .completed callback ++ calls) t

/-- A step that goes on with an exchange: it scripts the client, makes a request, or acknowledges
one that is outstanding. -/
inductive Continues (outstanding : List (Ledger.Entry Callback)) (step : Step) : Prop
  | script (hstep : step.scripts)
  | request (callback : Option Callback) (hstep : requested? step = some callback)
      (hc : ∀ c, callback = some c → c.Inert)
  | acknowledge (id : PacketId) (callback : Option Callback)
      (hstep : step.acknowledges? = some id) (hm : (id, callback) ∈ outstanding)

variable {depth : Nat}

theorem tally_of_exchange (h : Exchange depth outstanding calls s) : Tally outstanding calls s := by
  induction h with
  | opened settings order => exact tally_opened settings order
  | scripted _ hstep ht ih =>
    obtain ⟨_, t, hu, htally⟩ := tally_performTo_script depth hstep ih
    rw [ht] at hu
    cases hu
    exact htally
  | refused _ hstep hc ht hid ih =>
    cases advances_performTo hstep hc ih ht with
    | refused _ tally => exact tally
    | accepted id _ accepted _ =>
      exact absurd (accepted.symm.trans hid) (List.cons_ne_self _ _)
    | completed id _ accepted _ =>
      exact absurd (accepted.symm.trans hid) (List.cons_ne_self _ _)
  | accepted _ hstep hc ht hid late ih =>
    cases advances_performTo hstep hc ih ht with
    | refused accepted _ => exact absurd (hid.symm.trans accepted) (List.cons_ne_self _ _)
    | accepted id _ accepted tally =>
      obtain ⟨rfl, -⟩ := List.cons.inj (accepted.symm.trans hid)
      exact tally
    | completed _ early _ _ =>
      rw [late] at early
      cases early
  | completed _ hstep hc ht hid early ih =>
    cases advances_performTo hstep hc ih ht with
    | refused accepted _ => exact absurd (hid.symm.trans accepted) (List.cons_ne_self _ _)
    | accepted _ late _ _ =>
      rw [early] at late
      cases late
    | completed id _ accepted tally =>
      obtain ⟨rfl, -⟩ := List.cons.inj (accepted.symm.trans hid)
      exact tally
  | acknowledged before after _ hstep ht ih =>
    obtain ⟨_, t, hu, htally⟩ :=
      tally_performTo_acknowledge depth _ hstep (tally_of_perm List.perm_middle ih)
    rw [ht] at hu
    cases hu
    exact htally

theorem exchange_of_continues {step : Step} (h : Exchange depth outstanding calls s)
    (hstep : Continues outstanding step) :
    ∃ answer t rest news, performTo (depth + 2) step s = some (answer, t) ∧
      Exchange depth rest (news ++ calls) t := by
  have hs := tally_of_exchange h
  cases hstep with
  | script hstep =>
    obtain ⟨answer, t, ht, -⟩ := tally_performTo_script depth hstep hs
    exact ⟨answer, t, outstanding, [], ht, .scripted h hstep ht⟩
  | request callback hstep hc =>
    obtain ⟨answer, t, ht, hadvances⟩ := requests_performTo depth hstep hc _ _ _ hs
    cases hadvances with
    | refused accepted _ => exact ⟨answer, t, outstanding, [], ht, .refused h hstep hc ht accepted⟩
    | accepted id late accepted _ =>
      exact ⟨answer, t, _, [], ht, .accepted h hstep hc ht accepted late⟩
    | completed id early accepted _ =>
      exact ⟨answer, t, _, _, ht, .completed h hstep hc ht accepted early⟩
  | acknowledge id callback hstep hm =>
    obtain ⟨before, after, rfl⟩ := List.append_of_mem hm
    obtain ⟨answer, t, ht, -⟩ :=
      tally_performTo_acknowledge depth _ hstep (tally_of_perm List.perm_middle hs)
    exact ⟨answer, t, _, _, ht, .acknowledged before after h hstep ht⟩

/-- In every exchange each callback has been called when its own request was done, and at no other
time; no two outstanding requests share an identifier, and when none is outstanding nothing waits,
is remembered or is on loan. An exchange can always go on. -/
theorem calls_of_exchange (h : Exchange depth outstanding calls s) :
    s.calls = calls ∧ (outstanding.map (·.1)).Nodup ∧
    (outstanding = [] → s.ledger.pending = ∅ ∧ s.ledger.early = ∅ ∧
      ∀ id, ¬ s.client.pool.onLoan id) ∧
    ∀ step, Continues outstanding step → ∃ answer t rest news,
      performTo (depth + 2) step s = some (answer, t) ∧ Exchange depth rest (news ++ calls) t := by
  have hs := tally_of_exchange h
  refine ⟨hs.calls, hs.distinct, ?_, fun step hstep => exchange_of_continues h hstep⟩
  rintro rfl
  refine ⟨Std.ExtTreeMap.ext_getElem? fun id => ?_, Std.ExtTreeSet.ext_mem fun id => ?_,
    fun id hid => ?_⟩
  · rw [Std.ExtTreeMap.getElem?_empty]
    refine Option.eq_none_iff_forall_ne_some.mpr fun callback hc => ?_
    exact absurd ((hs.pending id callback).mp hc) (List.not_mem_nil)
  · constructor
    · exact fun hm => absurd hm (hs.early id)
    · exact fun hm => absurd hm Std.ExtTreeSet.not_mem_empty
  · obtain ⟨_, hm⟩ := (hs.onLoan id).mp hid
    cases hm

/-- A request that is accepted and then acknowledged. -/
theorem calls_of_exchange_unsubscribe :
    ∃ id a t b u, performTo 2 (.unsubscribe "t" (some ⟨"done", [], .ok (), true⟩))
        (opened {} (.ascending _)) = some (a, t) ∧
      performTo 2 (.acknowledgeUnsubscribe id) t = some (b, u) ∧
      u.calls = [⟨id, ⟨"done", [], .ok (), true⟩, .completed⟩] ∧ u.ledger.pending = ∅ := by
  have hc : ∀ c, some (⟨"done", [], .ok (), true⟩ : Callback) = some c → c.Inert := by
    rintro _ ⟨⟩
    exact List.forall_mem_nil _
  obtain ⟨id, a, t, ht, hid, -⟩ :=
    unsubscribe_opened 0 {} (.ascending _) (show Topic.checkFilter "t" = .ok () from rfl) _ hc
  have hwaits := Exchange.accepted (.opened {} (.ascending _)) rfl hc ht hid rfl
  obtain ⟨b, u, hu, -⟩ := tally_performTo_acknowledge 0
    (.acknowledgeUnsubscribe id) rfl (tally_of_exchange hwaits)
  obtain ⟨hcalls, -, hempty, -⟩ :=
    calls_of_exchange (.acknowledged [] [] hwaits rfl hu)
  exact ⟨id, a, t, b, u, ht, hu, hcalls, (hempty rfl).1⟩

end Session

end MqttLink
