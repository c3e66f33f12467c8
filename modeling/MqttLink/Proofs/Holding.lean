import Mathlib
import MqttLink.Proofs.Issue
import MqttLink.Proofs.Loans
import MqttLink.Proofs.Own

/-!
Identifiers in flight. As long as nobody scripts identifiers, the client keeps on loan what its
requests hold: an identifier is held from the time when a request is accepted under it until the
client hears that the request is done, be it from inside the request or later. Main statements:
whatever steps a session takes, what is on loan is what is held, and a request is given the least
identifier that is not held, or none when all are.
-/

namespace MqttLink

/-- Steps that neither script identifiers nor set an issue hook. -/
def Step.hookless : Step → Bool
  | scriptIds _ | setIssueHook _ => false
  | _ => true

/-- Steps that script no identifiers, nor have it done by an issue hook. -/
def Step.Unscripted : Step → Prop
  | scriptIds _ => False
  | setIssueHook hook => ∀ id, ∀ n ∈ hook.script id, n.All (·.hookless)
  | _ => True

theorem Step.unscripted_of_hookless {step : Step} (h : step.hookless) : step.Unscripted := by
  cases step with
  | scriptIds _ | setIssueHook _ => cases h
  | _ => trivial

/-- Entries that neither give an identifier away nor take one back. -/
def Occurrence.lendless : Occurrence → Bool
  | issued _ _ _ | acknowledged _ => false
  | _ => true

theorem Occurrence.lendless_of_quiet {o : Occurrence} (h : o.quiet) : o.lendless := by
  cases o with
  | issued _ _ _ | acknowledged _ => cases h
  | _ => rfl

namespace Session

open Play
open PacketId.Pool (Lends lendable mem_lendable lends_fresh lends_of_lend lends_reclaim
  lend_eq_none_iff_of_lends)

/-! ## What a journal tells of identifiers -/

/-- A request was accepted under the identifier, and nothing has acknowledged it since. -/
def Held (journal : List Occurrence) (id : PacketId) : Prop :=
  ∃ m later older, journal = later ++ .issued m id 0 :: older ∧ .acknowledged id ∉ later

/-- The identifiers that are held. -/
def heldIds : List Occurrence → Finset PacketId
  | [] => ∅
  | .issued _ id code :: older => if code = 0 then insert id (heldIds older) else heldIds older
  | .acknowledged id :: older => (heldIds older).erase id
  | _ :: older => heldIds older

/-- Every identifier that was given away was the least that was not held. -/
def Chosen : List Occurrence → Prop
  | [] => True
  | .issued _ id _ :: older => IsLeast {k | k ∈ lendable ∧ k ∉ heldIds older} id ∧ Chosen older
  | _ :: older => Chosen older

section

variable {news later older journal : List Occurrence} {m : Method} {id : PacketId} {code : Int}

theorem heldIds_cons {o : Occurrence} (h : o.lendless) (older : List Occurrence) :
    heldIds (o :: older) = heldIds older := by
  cases o with
  | issued _ _ _ | acknowledged _ => cases h
  | _ => rfl

theorem chosen_cons {o : Occurrence} (h : o.lendless) : Chosen (o :: older) ↔ Chosen older := by
  cases o with
  | issued _ _ _ | acknowledged _ => cases h
  | _ => exact Iff.rfl

theorem heldIds_append (h : ∀ o ∈ news, o.lendless) (older : List Occurrence) :
    heldIds (news ++ older) = heldIds older := by
  induction news with
  | nil => rfl
  | cons o news ih =>
    obtain ⟨ho, hnews⟩ := List.forall_mem_cons.mp h
    rw [List.cons_append, heldIds_cons ho, ih hnews]

theorem chosen_append (h : ∀ o ∈ news, o.lendless) : Chosen (news ++ older) ↔ Chosen older := by
  induction news with
  | nil => exact Iff.rfl
  | cons o news ih =>
    obtain ⟨ho, hnews⟩ := List.forall_mem_cons.mp h
    rw [List.cons_append, chosen_cons ho, ih hnews]

theorem held_cons {o : Occurrence} :
    Held (o :: older) id ↔ (∃ m, o = .issued m id 0) ∨ o ≠ .acknowledged id ∧ Held older id := by
  constructor
  · rintro ⟨m, later, oldest, heq, hnone⟩
    cases later with
    | nil =>
      cases heq
      exact .inl ⟨m, rfl⟩
    | cons first later =>
      cases heq
      rw [List.mem_cons, not_or] at hnone
      exact .inr ⟨Ne.symm hnone.1, m, later, oldest, rfl, hnone.2⟩
  · rintro (⟨m, rfl⟩ | ⟨hne, m, later, oldest, rfl, hnone⟩)
    · exact ⟨m, [], older, rfl, List.not_mem_nil⟩
    · exact ⟨m, o :: later, oldest, rfl, by
        rw [List.mem_cons, not_or]
        exact ⟨Ne.symm hne, hnone⟩⟩

theorem mem_heldIds : id ∈ heldIds journal ↔ Held journal id := by
  induction journal with
  | nil => simp [heldIds, Held]
  | cons o older ih =>
    rw [held_cons, ← ih]
    cases o with
    | issued m k code => by_cases hcode : code = 0 <;> simp [heldIds, hcode, eq_comm]
    | acknowledged k => simp [heldIds, eq_comm]
    | _ => simp [heldIds]

theorem setOf_lendable (journal : List Occurrence) :
    {k | k ∈ lendable ∧ k ∉ heldIds journal} = {k | k.val ≠ 0 ∧ ¬ Held journal k} := by
  ext k
  rw [Set.mem_ofPred_eq, Set.mem_ofPred_eq, mem_lendable, mem_heldIds]

theorem isLeast_of_chosen (h : Chosen (later ++ .issued m id code :: older)) :
    IsLeast {k | k.val ≠ 0 ∧ ¬ Held older k} id := by
  induction later with
  | nil =>
    rw [← setOf_lendable]
    exact h.1
  | cons o later ih =>
    cases o with
    | issued _ _ _ => exact ih h.2
    | _ => exact ih h

end

/-! ## What a session keeps -/

/-- Nobody scripts identifiers, and those on loan are those that are held. -/
structure Holding (s : Session) : Prop where
  queuedIds : s.client.queuedIds = []
  hook : ∀ hook, s.client.issueHook = some hook → Step.Unscripted (.setIssueHook hook)
  waiting : s.ledger.All (·.Confined Step.Unscripted)
  handlers : ∀ slot c, s.handlers slot = some c → c.Confined Step.Unscripted
  lends : s.client.pool.Lends (heldIds s.journal)
  chosen : Chosen s.journal

theorem holding_detached (settings : Settings) : (detached settings).Holding :=
  ⟨rfl, nofun, Ledger.all_empty, nofun, lends_fresh, trivial⟩

theorem holding_opened (settings : Settings) (order : VisitOrder Callback) :
    (opened settings order).Holding :=
  ⟨rfl, nofun, Ledger.all_empty, nofun, lends_fresh, trivial⟩

variable {s t : Session} {id : PacketId}

/-- What touches neither identifiers nor callbacks, and writes no entries that tell of them. -/
theorem holding_of_news (news : List Occurrence) (hs : s.Holding)
    (hq : t.client.queuedIds = s.client.queuedIds) (hh : t.client.issueHook = s.client.issueHook)
    (hp : t.client.pool = s.client.pool) (hw : t.ledger.All (·.Confined Step.Unscripted))
    (hhandlers : t.handlers = s.handlers) (hj : t.journal = news ++ s.journal)
    (hn : ∀ o ∈ news, o.lendless) : t.Holding where
  queuedIds := hq.trans hs.queuedIds
  hook := by rw [hh]; exact hs.hook
  waiting := hw
  handlers := by rw [hhandlers]; exact hs.handlers
  lends := by rw [hp, hj, heldIds_append hn]; exact hs.lends
  chosen := by rw [hj, chosen_append hn]; exact hs.chosen

theorem holding_of_aside ⦃s t : Session⦄ (h : Aside s t) : Keeping Holding s t := by
  intro hs
  obtain ⟨news, hj, hq⟩ := h.journal
  exact holding_of_news news hs h.queuedIds h.issueHook h.pool (by rw [h.ledger]; exact hs.waiting)
    h.handlers hj fun o ho => Occurrence.lendless_of_quiet (hq o ho)

theorem holding_noted (hs : s.Holding) {o : Occurrence} (h : o.lendless) : (s.noted o).Holding :=
  holding_of_news [o] hs rfl rfl rfl hs.waiting rfl rfl (List.forall_mem_singleton.mpr h)

theorem framed_holding : Framed Step.Unscripted Holding :=
  ⟨holding_of_aside, fun _ hs => hs.handlers⟩

theorem holding_withLedger (hs : s.Holding) {l : Ledger Callback}
    (hl : l.All (·.Confined Step.Unscripted)) : (s.withLedger l).Holding :=
  holding_of_news [] hs rfl rfl rfl hl rfl rfl (List.forall_mem_nil _)

theorem holding_setHandler (slot : Slot) {handler : Callback}
    (hc : handler.Confined Step.Unscripted) (hs : s.Holding) :
    (s.setHandler slot handler).Holding where
  queuedIds := hs.queuedIds
  hook := hs.hook
  waiting := hs.waiting
  handlers := by
    intro k c hk
    simp only [setHandler] at hk
    split at hk
    · cases hk
      exact hc
    · exact hs.handlers k c hk
  lends := hs.lends
  chosen := hs.chosen

theorem holding_clearHandlers (hs : s.Holding) : s.clearHandlers.Holding :=
  ⟨hs.queuedIds, hs.hook, hs.waiting, nofun, hs.lends, hs.chosen⟩

theorem holding_setIssueHook {hook : IssueHook Step} (h : Step.Unscripted (.setIssueHook hook))
    (hs : s.Holding) :
    ({ s with client := { s.client with issueHook := some hook } } : Session).Holding where
  queuedIds := hs.queuedIds
  hook := by
    intro other hother
    cases hother
    exact h
  waiting := hs.waiting
  handlers := hs.handlers
  lends := hs.lends
  chosen := hs.chosen

/-! ## Identifiers change hands -/

/-- An acknowledgement takes its identifier out of what is held and off loan. -/
theorem holding_freeing (hs : s.Holding) (id : PacketId) : (s.freeing id).Holding where
  queuedIds := hs.queuedIds
  hook := hs.hook
  waiting := hs.waiting
  handlers := hs.handlers
  lends := lends_reclaim hs.lends id
  chosen := hs.chosen

section

variable {q : PacketId.Pool} {m : Method} {code : Int} (hs : s.Holding)
  (hl : s.client.pool.lend = some (id, q))
include hs hl

theorem holding_giving_accepted : (s.giving m id 0 { s.client with pool := q }).Holding where
  queuedIds := hs.queuedIds
  hook := hs.hook
  waiting := hs.waiting
  handlers := hs.handlers
  lends := (lends_of_lend hs.lends hl).2
  chosen := ⟨(lends_of_lend hs.lends hl).1, hs.chosen⟩

/-- A request that is turned down gives its identifier back at once. -/
theorem holding_giving_rejected (hcode : code ≠ 0) :
    (s.giving m id code (({ s.client with pool := q } : Client).reclaim id)).Holding where
  queuedIds := hs.queuedIds
  hook := hs.hook
  waiting := hs.waiting
  handlers := hs.handlers
  lends := by
    obtain ⟨hleast, hlends⟩ := lends_of_lend hs.lends hl
    have hback := lends_reclaim hlends id
    rw [Finset.erase_insert hleast.1.2] at hback
    have hsame : heldIds (.issued m id code :: s.journal) = heldIds s.journal := if_neg hcode
    rw [giving, noted_journal, hsame]
    exact hback
  chosen := ⟨(lends_of_lend hs.lends hl).1, hs.chosen⟩

end

theorem holding_giving {c : Client} (h : s.client.takeId = some (id, c)) (m : Method) (code : Int)
    (hs : s.Holding) : (s.giving m id code (if code = 0 then c else c.reclaim id)).Holding := by
  rw [takeId_of_queuedIds hs.queuedIds] at h
  obtain ⟨⟨k, q⟩, hl, heq⟩ := Option.map_eq_some_iff.mp h
  cases heq
  by_cases hcode : code = 0
  · subst hcode
    exact holding_giving_accepted hs hl
  · rw [if_neg hcode]
    exact holding_giving_rejected hs hl hcode

/-! ## Calling callbacks and working on the ledger -/

section

variable {run : Runner}
  (hrun : ∀ step, step.All Step.Unscripted → Within (Keeping Holding) (run step))
include hrun

theorem holding_invoke {resolution : Resolution} {c : Callback}
    (hc : c.Confined Step.Unscripted) : Within (Keeping Holding) (invoke run id resolution c) :=
  within_invoke (calm_of_aside holding_of_aside) (fun _ hs => holding_noted hs rfl) fun n hn =>
    hrun n (hc n hn)

theorem holding_invoke? {resolution : Resolution} {callback : Option Callback}
    (hc : ∀ c, callback = some c → c.Confined Step.Unscripted) :
    Within (Keeping Holding) (invoke? run id resolution callback) := by
  cases callback with
  | none => exact within_pure _
  | some c => exact holding_invoke hrun (hc c rfl)

theorem holding_track {callback : Option Callback}
    (hc : ∀ c, callback = some c → c.Confined Step.Unscripted) :
    Within (Keeping Holding) (track run id callback) := by
  intro s r t h hs
  have htracking : (s.tracking id callback).Holding :=
    holding_withLedger (holding_noted hs rfl) (Ledger.all_track hs.waiting id hc)
  by_cases he : id ∈ s.ledger.early
  · rw [track_of_mem_early run he] at h
    exact holding_invoke? hrun hc h (holding_noted htracking rfl)
  · rw [track_of_not_mem_early run he] at h
    cases hp : s.ledger.pending[id]? with
    | none =>
      rw [hp] at h
      cases h
      exact holding_noted htracking rfl
    | some d =>
      rw [hp] at h
      cases h
      exact holding_noted (holding_noted htracking rfl) rfl

theorem holding_settle : Within (Keeping Holding) (settle run id) := by
  intro s r t h hs
  have hsettling : (s.settling id).Holding :=
    holding_withLedger hs (Ledger.all_settle hs.waiting id)
  cases hp : s.ledger.pending[id]? with
  | none =>
    rw [settle_of_not_pending run hp] at h
    cases h
    exact holding_noted hsettling rfl
  | some callback =>
    rw [settle_of_pending run hp] at h
    exact holding_invoke? hrun (fun c hc => hs.waiting id c (by rw [hp, hc])) h
      (holding_noted hsettling rfl)

theorem holding_abandon : Within (Keeping Holding) (abandon run) := by
  intro s r t h hs
  rw [abandon_apply] at h
  have habandoning : s.abandoning.Holding :=
    holding_of_news [_] hs rfl rfl rfl Ledger.all_empty rfl rfl (List.forall_mem_singleton.mpr rfl)
  exact within_cancelEach (calm_of_aside holding_of_aside) _
    (fun k c hm => holding_invoke hrun (hs.waiting k c (mem_batch.mp hm))) h habandoning

theorem holding_callHook (m : Method) (id : PacketId) :
    Within (Keeping Holding) (callHook run m id) :=
  fun _ _ _ h hs => of_callHook (calm_of_aside holding_of_aside) h
    (fun hook hhook n hn => hrun n ((hs.hook hook hhook id n hn).mono fun _ =>
      Step.unscripted_of_hookless)) hs

end

/-- Whatever a session does, what is on loan stays what is held, if nobody scripts identifiers. -/
theorem frame_holding : Frame (·.All Step.Unscripted) (Keeping Holding) where
  carried _ _ h hc := h.confined hc
  noted _ _ h hs := holding_noted hs (Occurrence.lendless_of_quiet (Occurrence.quiet_of_calm h))
  held _ _ h hs :=
    holding_of_aside (aside_holders _ _) (h (holding_of_aside (aside_holders _ _) hs))
  handled _ slot _ h := holding_setHandler slot (h.confined rfl)
  cleared _ := holding_clearHandlers
  dropped _ hs := holding_of_news [] hs rfl rfl rfl hs.waiting rfl rfl (List.forall_mem_nil _)
  client _ _ h _ := holding_of_aside (aside_client _ h)
  started _ _ := holding_of_aside (aside_client _ (Client.steady_startLoop _))
  connected _ _ _ _ h := holding_of_aside (aside_starting h)
  stopped _ _ h := holding_of_aside (aside_stopping h)
  detached _ hs :=
    holding_of_news [] hs rfl rfl rfl hs.waiting rfl rfl (List.forall_mem_nil _)
  queued _ _ h := nomatch h.own
  hooked _ _ h := holding_setIssueHook h.own
  freed _ id hs := holding_freeing hs id
  given _ m _ _ code h := holding_giving h m code
  track hrun _ _ hc := holding_track hrun hc
  settle hrun _ := holding_settle hrun
  abandon hrun := holding_abandon hrun
  signal hrun x := keeping_signal framed_holding hrun x
  callHook hrun m id := holding_callHook hrun m id

theorem holding_performAll {depth : Nat} {steps : List Step}
    (hsteps : ∀ step ∈ steps, step.All Step.Unscripted) :
    Within (Keeping Holding) (performAll depth steps) :=
  frame_holding.within_performAll depth hsteps

/-! ## Runs of a client -/

/-- What the client answers to a request at `s`: what was scripted to fail fails, and a request that
gets as far as to be given an identifier is given the least that is not held. It is written down
under this identifier, and acknowledged at once just when it is accepted and completed early. -/
inductive Replied (r : Request) (s t : Session) : Except ClientFault (Int × PacketId) → Prop
  | failed (f : ClientFault) (reply : (s.client.takeReply r.method).1 = .error f) :
      Replied r s t (.error f)
  | exhausted (code : Int) (reply : (s.client.takeReply r.method).1 = .ok code)
      (all : ∀ k : PacketId, k.val ≠ 0 → Held s.journal k) : Replied r s t (.error noFreeId)
  | given (code : Int) (id : PacketId) (reply : (s.client.takeReply r.method).1 = .ok code)
      (least : IsLeast {k | k.val ≠ 0 ∧ ¬ Held s.journal k} id)
      (journal : ∃ later, t.journal =
        later ++ (granted r.method s.client.completesEarly (.issued code id) ++ s.journal)) :
      Replied r s t (.ok (code, id))

theorem held_of_lend_eq_none (hs : s.Holding) (h : s.client.pool.lend = none) {k : PacketId}
    (hk : k.val ≠ 0) : Held s.journal k := by
  rw [← mem_heldIds, (lend_eq_none_iff_of_lends hs.lends).mp h]
  exact mem_lendable.mpr hk

theorem isLeast_of_lend (hs : s.Holding) {q : PacketId.Pool}
    (h : s.client.pool.lend = some (id, q)) :
    IsLeast {k | k.val ≠ 0 ∧ ¬ Held s.journal k} id := by
  rw [← setOf_lendable]
  exact (lends_of_lend hs.lends h).1

section

variable {run : Runner} (hrun : ∀ step, Within Grows (run step))
include hrun

/-- The client has taken an identifier back before anyone hears of the acknowledgement. -/
theorem grows_deliver {event : BrokerEvent} {result : Except Fault Unit}
    (he : event.acknowledged? = some id) (h : deliver run event s = some (result, t)) :
    Grows (s.freeing id) t := by
  by_cases hsink : s.client.sink
  · obtain ⟨o, -, hdeliver⟩ := deliver_acknowledgement run he hsink
    rw [hdeliver] at h
    have hheard : Grows (s.freeing id) ((s.freeing id).noted o) := ⟨[o], rfl⟩
    have hrest := law_grows.frame.within_acknowledge (fun n _ => hrun n) id h
    exact IsTrans.trans _ _ _ hheard hrest
  · rw [deliver_apply, if_neg hsink, noticing, he] at h
    cases h
    exact ⟨[], rfl⟩

/-- An identifier that was given away is what the request is answered with. -/
theorem grows_conclude {r : Request} {code : Int} {res : Except ClientFault (Int × PacketId)}
    (h : conclude run r id code s = some (res, t)) : res = .ok (code, id) ∧
      ∃ later, t.journal = later ++
        ((if code = 0 ∧ s.client.completesEarly then [.acknowledged id] else []) ++
          s.journal) := by
  obtain ⟨hres, u, hbefore, hcalled⟩ := exists_of_conclude run h
  have hhook : Grows u t := law_grows.frame.callHook (fun n _ => hrun n) _ _ hcalled
  refine ⟨hres, ?_⟩
  cases hbefore with
  | rejected hcode =>
    rw [if_neg fun hboth => hcode hboth.1]
    exact hhook
  | early hcode hearly acknowledged =>
    obtain ⟨_, v, hv, hu⟩ := bind_eq_some_iff.mp acknowledged
    cases hu
    have hfreed := grows_deliver hrun (acknowledged?_acknowledgement r id) hv
    rw [if_pos ⟨hcode, hearly⟩]
    exact IsTrans.trans _ _ _ hfreed hhook
  | late hcode hlate =>
    rw [if_neg fun hboth => hlate hboth.2]
    exact hhook

end

theorem replied_issue {r : Request} {depth : Nat} {res : Except ClientFault (Int × PacketId)}
    (hs : s.Holding) (h : issue (performTo depth) r s = some (res, t)) : Replied r s t res := by
  obtain ⟨reply, c, hc⟩ : ∃ reply c, (s.client.add r.call).takeReply r.method = (reply, c) :=
    ⟨_, _, rfl⟩
  have hreply : (s.client.takeReply r.method).1 = reply := by
    rw [← takeReply_add, hc]
  have hsteady : s.client.Steady c := Client.steady_called hc
  cases reply with
  | error f =>
    rw [issue_of_error _ hc] at h
    cases h
    exact .failed f hreply
  | ok code =>
    rw [issue_of_ok _ hc (hsteady.queuedIds.trans hs.queuedIds), hsteady.pool] at h
    cases hl : s.client.pool.lend with
    | none =>
      rw [hl] at h
      cases h
      exact .exhausted code hreply fun k hk => held_of_lend_eq_none hs hl hk
    | some lent =>
      obtain ⟨id, q⟩ := lent
      rw [hl] at h
      obtain ⟨rfl, later, hlater⟩ := grows_conclude (law_grows.within_performTo depth) h
      have hearly : c.completesEarly = s.client.completesEarly := completesEarly_called hc
      refine .given code id hreply (isLeast_of_lend hs hl) ⟨later, ?_⟩
      rw [hlater, granted, noted_journal, noted_client, hearly, List.append_assoc]
      rfl

/-! ### Requests come back -/

section

variable {run : Runner} (hrun : Serving run)
include hrun

theorem exists_acknowledge (id : PacketId) (hw : s.ledger.All Reaction.Inert) :
    ∃ r t, acknowledge run id s = some (r, t) ∧ t.client.issueHook = s.client.issueHook := by
  rw [acknowledge, bind_of_eq_some get_apply]
  split
  · obtain ⟨r, t, ht, hworked⟩ := worked_holding
      (worked_settle (s := { s with holders := s.holders + 1 }) hrun id hw)
    rw [bind_of_eq_some ht]
    exact ⟨_, t, rfl, hworked.issueHook⟩
  · exact ⟨_, s, rfl, rfl⟩

theorem exists_acknowledgeEarly (r : Request) (id : PacketId)
    (hw : s.ledger.All Reaction.Inert) :
    ∃ t, acknowledgeEarly run r id s = some ((), t) ∧
      t.client.issueHook = s.client.issueHook := by
  have hevent := acknowledged?_acknowledgement r id
  obtain ⟨result, t, ht, hhook⟩ : ∃ result t,
      deliver run (r.acknowledgement id) s = some (result, t) ∧
        t.client.issueHook = s.client.issueHook := by
    by_cases hsink : s.client.sink
    · obtain ⟨o, -, hdeliver⟩ := deliver_acknowledgement run hevent hsink
      rw [hdeliver]
      exact exists_acknowledge (s := (s.freeing id).noted o) hrun id hw
    · refine ⟨.ok (), s.freeing id, ?_, rfl⟩
      rw [deliver_apply, if_neg hsink, noticing, hevent]
  exact ⟨_, bind_of_eq_some ht _, hhook⟩

theorem exists_conclude (r : Request) (id : PacketId) (code : Int)
    (hw : s.ledger.All Reaction.Inert) (hh : s.client.issueHook = none) :
    ∃ res t, conclude run r id code s = some (res, t) := by
  have hhook {u : Session} (hu : u.client.issueHook = none) : ∃ res t, (do
      callHook run r.method id
      return (Except.ok (code, id) : Except ClientFault (Int × PacketId))) u = some (res, t) :=
    ⟨_, u, bind_of_eq_some (callHook_of_eq_none run hu _ _) _⟩
  by_cases hcode : code = 0
  · rw [conclude, if_neg (by simp [hcode]), bind_of_eq_some get_apply]
    split
    · obtain ⟨t, ht, hkept⟩ := exists_acknowledgeEarly hrun r id hw
      rw [bind_of_eq_some ht]
      exact hhook (hkept.trans hh)
    · exact hhook hh
  · rw [conclude, if_pos hcode, bind_of_eq_some (changeClient_apply _)]
    exact hhook (u := { s with client := s.client.reclaim id }) hh

/-- Without an issue hook, and with callbacks that leave the operations alone, a request comes back
from the client. -/
theorem exists_issue (r : Request) (hs : s.Holding) (hw : s.ledger.All Reaction.Inert)
    (hh : s.client.issueHook = none) : ∃ res t, issue run r s = some (res, t) := by
  obtain ⟨reply, c, hc⟩ : ∃ reply c, (s.client.add r.call).takeReply r.method = (reply, c) :=
    ⟨_, _, rfl⟩
  have hsteady : s.client.Steady c := Client.steady_called hc
  cases reply with
  | error f => exact ⟨_, _, issue_of_error run hc⟩
  | ok code =>
    rw [issue_of_ok run hc (hsteady.queuedIds.trans hs.queuedIds)]
    cases c.pool.lend with
    | none => exact ⟨_, _, rfl⟩
    | some lent => exact exists_conclude hrun r lent.1 code hw (hsteady.issueHook.trans hh)

end

/-! ### What a run shows -/

/-- In every run of a fresh client, with or without a link, whose identifiers nobody scripts: those
and only those identifiers are on loan that are held. Every request was given the least identifier
that was not held, so that two requests under one identifier have an acknowledgement between them.
What is held is told by what was written down, and that is just what was done: apart from what is
nested in it, an event that acknowledges an identifier says so, a request says what it was given,
and no other step says anything of identifiers. The next request is answered in the same way, and
is told that there is no free identifier only when all are held; it comes back for certain when it
has no hook and no callback to follow. -/
theorem onLoan_iff_held {steps : List Step} (hsteps : ∀ step ∈ steps, step.All Step.Unscripted)
    {settings : Settings} {order : VisitOrder Callback} {first : Session}
    (hfirst : first = detached settings ∨ first = opened settings order) {depth : Nat} {s : Session}
    (h : performAll depth steps first = some ((), s)) :
    (∀ id, s.client.pool.onLoan id ↔ Held s.journal id) ∧
    (∀ later m id code older, s.journal = later ++ .issued m id code :: older →
      IsLeast {k | k.val ≠ 0 ∧ ¬ Held older k} id) ∧
    (∀ latest m' id between m older,
      s.journal = latest ++ .issued m' id 0 :: (between ++ .issued m id 0 :: older) →
      .acknowledged id ∈ between) ∧
    (∀ step deep u a v, performTo (deep + 1) step u = some (a, v) →
      ∃ own, Own deep step u a v own ∧ Tells u a (own.filter (·.decisive)) step) ∧
    (∀ r deep res t, issue (performTo deep) r s = some (res, t) → Replied r s t res) ∧
    (s.client.issueHook = none → s.ledger.All Reaction.Inert → ∀ r deep,
      ∃ res t, issue (performTo (deep + 1)) r s = some (res, t)) := by
  have hs : s.Holding := by
    rcases hfirst with rfl | rfl
    · exact holding_performAll hsteps h (holding_detached settings)
    · exact holding_performAll hsteps h (holding_opened settings order)
  have hleast (later : List Occurrence) (m : Method) (id : PacketId) (code : Int)
      (older : List Occurrence) (hj : s.journal = later ++ .issued m id code :: older) :
      IsLeast {k | k.val ≠ 0 ∧ ¬ Held older k} id :=
    isLeast_of_chosen (hj ▸ hs.chosen)
  refine ⟨fun id => (hs.lends.onLoan id).trans mem_heldIds, hleast, ?_,
    fun _ _ _ _ _ hv => exists_tells hv, fun r deep res t => replied_issue hs,
    fun hh hw r deep => exists_issue (serving_performTo deep) r hs hw hh⟩
  intro latest m' id between m older hj
  by_contra hnone
  exact (hleast latest m' id 0 _ hj).1.2 ⟨m, between, older, rfl, hnone⟩

/-- Requests of which the first is rejected and the third is completed early, with an
acknowledgement that arrives twice. -/
def askings : List Step :=
  [.scriptReply .unsubscribe (.ok 5), .clientUnsubscribe "a", .clientUnsubscribe "b",
    .completeEarly true, .clientUnsubscribe "c", .completeEarly false, .clientUnsubscribe "d",
    .acknowledgeUnsubscribe 1, .acknowledgeUnsubscribe 1, .clientUnsubscribe "e",
    .clientUnsubscribe "f", .acknowledgeUnsubscribe 2]

/-- The last two requests hold their identifiers, the first of them one that another held before. -/
theorem onLoan_iff_held_askings :
    ∃ s, performAll 1 askings (detached {}) = some ((), s) ∧
      ∀ id, s.client.pool.onLoan id ↔ id = 3 ∨ id = 1 := by
  have hheld : (performAll 1 askings (detached {})).map (heldIds ·.2.journal) = some {3, 1} := by
    cbv
  obtain ⟨⟨_, s⟩, hrun, hids⟩ := Option.map_eq_some_iff.mp hheld
  have hplain : ∀ step ∈ askings, step.bare ∧ step.hookless := by decide
  have hsteps : ∀ step ∈ askings, step.All Step.Unscripted := fun step hstep =>
    Step.all_of_bare (hplain step hstep).1 (Step.unscripted_of_hookless (hplain step hstep).2)
  have hfirst : detached {} = detached {} ∨ detached {} = opened {} (.ascending _) := .inl rfl
  refine ⟨s, hrun, fun id => ?_⟩
  rw [(onLoan_iff_held hsteps hfirst hrun).1 id, ← mem_heldIds, hids, Finset.mem_insert,
    Finset.mem_singleton]

end Session

end MqttLink
