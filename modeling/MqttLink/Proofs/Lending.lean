import Mathlib
import MqttLink.Proofs.Conservation
import MqttLink.Proofs.Issue

/-!
Identifiers on loan. As long as the client chooses the identifiers and every operation is a request,
an operation that waits holds its identifier: nobody else is given it, however requests,
acknowledgements and callbacks follow each other. Main statements: every run keeps it so, and hence
no operation loses its place to another.
-/

namespace MqttLink

/-- Steps that leave the identifiers to the client and the operations to the requests. -/
def Step.onLink : Step → Bool
  | subscribe _ _ _ | unsubscribe _ _ | publish _ _ _ _ | disconnect true => true
  | setHandler _ _ | clearHandlers => true
  | answerConnect _ | close _ | receive _ _ _ _ _ => true
  | acknowledgeSubscribe _ _ | acknowledgeUnsubscribe _ | acknowledgePublish _ => true
  | step => step.besides

namespace Occurrence

/-- The identifier under which an operation was handed to the ledger. -/
def tracked? : Occurrence → Option PacketId
  | tracked id _ => some id
  | _ => none

/-- Entries that hand nothing over and displace nothing. -/
def neutral : Occurrence → Bool
  | tracked _ _ | displaced _ _ => false
  | issued _ _ code => code ≠ 0
  | _ => true

theorem neutral_of_quiet {o : Occurrence} (h : o.quiet) : o.neutral := by
  cases o <;> first | rfl | cases h

theorem accepted?_of_neutral {o : Occurrence} (h : o.neutral) : o.accepted? = none := by
  cases o with
  | issued _ _ code => exact if_neg (by simpa [neutral] using h)
  | _ => rfl

theorem tracked?_of_neutral {o : Occurrence} (h : o.neutral) : o.tracked? = none := by
  cases o with
  | tracked _ _ => cases h
  | _ => rfl

theorem not_displaced_of_neutral {o : Occurrence} (h : o.neutral) (id : PacketId)
    (c : Option Callback) : o ≠ displaced id c := by
  rintro rfl
  cases h

end Occurrence

namespace Session

open Play

variable {s t : Session} {id : PacketId}

/-- Nothing has been displaced, and no callback or handler leaves the bounds that steps have. -/
structure Orderly (s : Session) : Prop extends Linked s where
  waiting : s.ledger.All (·.Confined (·.onLink))
  handlers : ∀ slot c, s.handlers slot = some c → c.Confined (·.onLink)
  undisplaced : ∀ id c, .displaced id c ∉ s.journal

/-- The identifiers under which operations were handed to the ledger, the latest first. -/
def tracked (s : Session) : List PacketId :=
  s.journal.filterMap (·.tracked?)

/-- Every operation that waits holds its identifier, and every request that was accepted has been
tracked, in the order in which they were accepted. -/
structure Lending (s : Session) : Prop extends Orderly s where
  onLoan : ∀ id ∈ s.ledger.pending, s.client.pool.onLoan id
  accounted : s.accepted = s.tracked

theorem lending_opened (settings : Settings) (order : VisitOrder Callback) :
    (opened settings order).Lending where
  toLinked := linked_opened settings order
  waiting := Ledger.all_empty
  handlers := nofun
  undisplaced := nofun
  onLoan id h := by simp [opened, attached] at h
  accounted := rfl

/-! ## Steps on a link -/

/-- A property is kept by every step on a link if it is kept by requests, acknowledgements and
abandonments and does not depend on what handlers are set. -/
theorem keeping_perform {I : Session → Prop} {run : Runner} (hI : Framed (·.onLink) I)
    (hset : ∀ slot (handler : Callback), handler.Confined (·.onLink) →
      ∀ s, I s → I (s.setHandler slot handler))
    (hclear : ∀ s, I s → I s.clearHandlers)
    (habandon : Within (Keeping I) (abandon run))
    (hrequest : ∀ r callback, (∀ c, callback = some c → c.Confined (·.onLink)) →
      Within (Keeping I) (request run r callback))
    (hacknowledge : ∀ event id, event.acknowledged? = some id →
      Within (Keeping I) (deliver run event))
    (hrun : ∀ step, step.All (·.onLink) → Within (Keeping I) (run step))
    {step : Step} (hstep : step.All (·.onLink)) : Within (Keeping I) (perform run step) := by
  have hlink {x : Play Answer} (hx : Within (Keeping I) x) : Within (Keeping I) (withLink x) :=
    within_withLink hI.aside hx
  have hask (r : Request) {callback : Option Callback}
      (hc : ∀ c, callback = some c → c.Confined (·.onLink)) :
      Within (Keeping I) (answeringRequest run r callback) :=
    within_answeringRequest hI.aside (hrequest r callback hc)
  have hdeliver (event : BrokerEvent) : Within (Keeping I) (deliver run event) := by
    cases he : event.acknowledged? with
    | some id => exact hacknowledge event id he
    | none => exact within_deliver_notice hI.aside (keeping_signal hI hrun) he
  have hown := hstep.own
  cases step with
  | subscribe filter level callback =>
    exact hlink (within_withQos fun _ => hask _ fun c hc => hstep.confined hc)
  | unsubscribe filter callback => exact hlink (hask _ fun c hc => hstep.confined hc)
  | publish topic payload level callback =>
    exact within_withQos fun _ => hlink (hask _ fun c hc => hstep.confined hc)
  | disconnect clear =>
    cases clear with
    | true =>
      exact within_sweeping hI.aside (hlink (within_answering
        (within_spanning hI.aside _ _ (within_disconnect hI.aside fun _ => habandon))))
    | false => exact (aside_perform run rfl).mono hI.aside
  | setHandler slot handler =>
    exact hlink (within_bind ((aside_note rfl).mono hI.aside) fun _ =>
      within_bind (within_modify (hset slot handler (hstep.confined rfl))) fun _ => within_pure _)
  | clearHandlers =>
    exact hlink (within_bind ((aside_note rfl).mono hI.aside) fun _ =>
      within_bind (within_modify hclear) fun _ => within_pure _)
  | answerConnect _ | close _ | acknowledgeUnsubscribe _ | acknowledgePublish _ =>
    exact within_answering (hdeliver _)
  | acknowledgeSubscribe _ _ | receive _ _ _ _ _ =>
    exact within_withQos fun _ => within_answering (hdeliver _)
  | inspect _ | describe | connect _ | showRequest | scriptReply _ _ | completeEarly _
  | delayConnect _ | forgetCalls | countCalls _ | takeEarlyResults | clientSetCredentials _ _
  | clientConnect _ | clientDisconnect | clientStartLoop | clientStopLoop =>
    exact (aside_perform run rfl).mono hI.aside
  | _ => cases hown

/-! ## Neutral entries -/

theorem undisplaced_append {news older : List Occurrence} (hn : ∀ o ∈ news, o.neutral)
    (h : ∀ id c, .displaced id c ∉ older) (id : PacketId) (c : Option Callback) :
    .displaced id c ∉ news ++ older := by
  intro hm
  rcases List.mem_append.mp hm with hm | hm
  · exact Occurrence.not_displaced_of_neutral (hn _ hm) id c rfl
  · exact h id c hm

theorem accepted_append {news : List Occurrence} (hn : ∀ o ∈ news, o.neutral)
    (older : List Occurrence) :
    (news ++ older).filterMap (·.accepted?) = older.filterMap (·.accepted?) := by
  rw [List.filterMap_append, List.filterMap_eq_nil_iff.mpr fun o ho =>
    Occurrence.accepted?_of_neutral (hn o ho), List.nil_append]

theorem tracked_append {news : List Occurrence} (hn : ∀ o ∈ news, o.neutral)
    (older : List Occurrence) :
    (news ++ older).filterMap (·.tracked?) = older.filterMap (·.tracked?) := by
  rw [List.filterMap_append, List.filterMap_eq_nil_iff.mpr fun o ho =>
    Occurrence.tracked?_of_neutral (hn o ho), List.nil_append]

/-- What changes neither the link nor the tables, and writes neutral entries. -/
theorem orderly_of_alike (news : List Occurrence) (hs : s.Orderly) (h : Alike s t)
    (hp : t.client.pool.Canonical) (hw : t.ledger.All (·.Confined (·.onLink)))
    (hj : t.journal = news ++ s.journal) (hn : ∀ o ∈ news, o.neutral) : t.Orderly where
  toLinked := linked_of_alike hs.toLinked h hp
  waiting := hw
  handlers := by rw [h.handlers]; exact hs.handlers
  undisplaced := by rw [hj]; exact undisplaced_append hn hs.undisplaced

theorem accounted_of_neutral (news : List Occurrence) (hs : s.Lending)
    (hj : t.journal = news ++ s.journal) (hn : ∀ o ∈ news, o.neutral) :
    t.accepted = t.tracked := by
  rw [accepted, tracked, hj, accepted_append hn, tracked_append hn]
  exact hs.accounted

theorem lending_of_aside ⦃s t : Session⦄ (h : Aside s t) : Keeping Lending s t := by
  intro hs
  obtain ⟨news, hj, hq⟩ := h.journal
  have hn := fun o ho => Occurrence.neutral_of_quiet (hq o ho)
  exact {
    toOrderly := orderly_of_alike news hs.toOrderly h.toAlike (by rw [h.pool]; exact hs.canonical)
      (by rw [h.ledger]; exact hs.waiting) hj hn
    onLoan := by rw [h.ledger, h.pool]; exact hs.onLoan
    accounted := accounted_of_neutral news hs hj hn }

theorem lending_noted (hs : s.Lending) {o : Occurrence} (h : o.neutral) : (s.noted o).Lending where
  toOrderly := orderly_of_alike [o] hs.toOrderly (alike_noted s o) hs.canonical hs.waiting
    rfl (by simpa using h)
  onLoan := hs.onLoan
  accounted := accounted_of_neutral [o] hs rfl (by simpa using h)

theorem framed_lending : Framed (·.onLink) Lending :=
  ⟨lending_of_aside, fun _ hs => hs.handlers⟩

/-! ## Calls -/

theorem lending_setHandler (slot : Slot) {handler : Callback}
    (hc : handler.Confined (·.onLink)) (hs : s.Lending) : (s.setHandler slot handler).Lending where
  toLinked := ⟨hs.owned, hs.sink, hs.queuedIds, hs.issueHook, hs.canonical⟩
  waiting := hs.waiting
  handlers := by
    intro k c hk
    simp only [setHandler] at hk
    split at hk
    · cases hk
      exact hc
    · exact hs.handlers k c hk
  undisplaced := hs.undisplaced
  onLoan := hs.onLoan
  accounted := hs.accounted

theorem lending_clearHandlers (hs : s.Lending) : s.clearHandlers.Lending where
  toLinked := ⟨hs.owned, hs.sink, hs.queuedIds, hs.issueHook, hs.canonical⟩
  waiting := hs.waiting
  handlers := nofun
  undisplaced := hs.undisplaced
  onLoan := hs.onLoan
  accounted := hs.accounted

theorem neutral_of_heard {o : Occurrence} (h : o.quiet) (id : PacketId) :
    ∀ o' ∈ [o, .acknowledged id], o'.neutral :=
  List.forall_mem_cons.mpr ⟨Occurrence.neutral_of_quiet h, List.forall_mem_singleton.mpr rfl⟩

theorem neutral_of_refused {o : Occurrence}
    (h : o.quiet ∨ ∃ m id code, code ≠ 0 ∧ o = .issued m id code) : o.neutral := by
  rcases h with h | ⟨m, id, code, hcode, rfl⟩
  · exact Occurrence.neutral_of_quiet h
  · simpa [Occurrence.neutral] using hcode

theorem lending_of_refused (h : Refused s t) (hs : s.Lending) : t.Lending := by
  obtain ⟨news, hj, hn⟩ := h.journal
  have hneutral := fun o ho => neutral_of_refused (hn o ho)
  exact {
    toOrderly := orderly_of_alike news hs.toOrderly h.toAlike h.canonical
      (by rw [h.ledger]; exact hs.waiting) hj hneutral
    onLoan := fun k hk => (h.onLoan k).mpr (hs.onLoan k (by rwa [h.ledger] at hk))
    accounted := accounted_of_neutral news hs hj hneutral }

/-! ### The ledger has just been changed -/

theorem lending_abandoning (hs : s.Lending) : s.abandoning.Lending where
  toOrderly := orderly_of_alike [_] hs.toOrderly ⟨rfl, rfl, rfl, rfl, rfl, rfl⟩
    hs.canonical Ledger.all_empty rfl (by simp; rfl)
  onLoan := by simp [abandoning]
  accounted := accounted_of_neutral [_] hs rfl (by simp; rfl)

/-- An acknowledgement may have taken the identifier back already, but no other. -/
theorem lending_settling (hs : s.Orderly)
    (hp : ∀ k ∈ s.ledger.pending, k ≠ id → s.client.pool.onLoan k)
    (haccounted : s.accepted = s.tracked) : (s.settling id).Lending where
  toOrderly := orderly_of_alike [] hs (alike_withLedger s _) hs.canonical
    (Ledger.all_settle hs.waiting id) rfl (by simp)
  onLoan := by
    intro k hk
    obtain ⟨hne, hk⟩ := Ledger.mem_pending_settle.mp hk
    exact hp k hk hne
  accounted := haccounted

/-- A request that was accepted finds its identifier on loan, or its acknowledgement waiting. -/
theorem lending_tracking {callback : Option Callback}
    (hc : ∀ c, callback = some c → c.Confined (·.onLink)) (hs : s.Orderly)
    (hp : ∀ k ∈ s.ledger.pending, s.client.pool.onLoan k)
    (hid : id ∈ s.ledger.early ∨ s.client.pool.onLoan id)
    (haccounted : s.accepted = id :: s.tracked) : (s.tracking id callback).Lending where
  toLinked := linked_of_alike hs.toLinked ((alike_noted s _).trans (alike_withLedger _ _))
    hs.canonical
  waiting := Ledger.all_track hs.waiting id hc
  handlers := hs.handlers
  undisplaced := by
    intro k c hm
    rcases List.mem_cons.mp hm with hm | hm
    · cases hm
    · exact hs.undisplaced k c hm
  onLoan := by
    intro k hk
    rcases Ledger.mem_pending_track.mp hk with ⟨rfl, he⟩ | hk
    · exact hid.resolve_left he
    · exact hp k hk
  accounted := haccounted

/-- The client has accepted a request that is not tracked yet. -/
theorem orderly_of_accepted (news : List Occurrence) {m : Method} (hs : s.Lending) (h : Alike s t)
    (hp : t.client.pool.Canonical) (hw : t.ledger.All (·.Confined (·.onLink)))
    (hj : t.journal = news ++ .issued m id 0 :: s.journal) (hn : ∀ o ∈ news, o.neutral) :
    t.Orderly ∧ t.accepted = id :: t.tracked := by
  refine ⟨⟨linked_of_alike hs.toLinked h hp, hw, ?_, ?_⟩, ?_⟩
  · rw [h.handlers]
    exact hs.handlers
  · rw [hj]
    refine undisplaced_append hn fun k c hm => ?_
    rcases List.mem_cons.mp hm with hm | hm
    · cases hm
    · exact hs.undisplaced k c hm
  · rw [accepted, tracked, hj, accepted_append hn, tracked_append hn]
    exact congrArg (id :: ·) hs.accounted

theorem pending_eq_none_of_accepted {r : Request} (hs : s.Lending) (h : Accepted r id s t) :
    s.ledger.pending[id]? = none ∧ t.ledger.pending[id]? = none := by
  have hnone (free : ¬ s.client.pool.onLoan id) : s.ledger.pending[id]? = none :=
    Std.ExtTreeMap.getElem?_eq_none fun hm => free (hs.onLoan id hm)
  cases h with
  | late _ free _ _ _ ledger _ =>
    rw [ledger]
    exact ⟨hnone free, hnone free⟩
  | early _ free _ _ _ ledger _ =>
    rw [ledger, Ledger.getElem?_settle, if_pos rfl]
    exact ⟨hnone free, rfl⟩

theorem lending_tracking_of_accepted {r : Request} {callback : Option Callback}
    (hc : ∀ c, callback = some c → c.Confined (·.onLink)) (hs : s.Lending)
    (h : Accepted r id s t) : (t.tracking id callback).Lending := by
  cases h with
  | late _ _ alike canonical onLoan ledger journal =>
    obtain ⟨horderly, haccounted⟩ := orderly_of_accepted [] hs alike canonical
      (by rw [ledger]; exact hs.waiting) journal (by simp)
    refine lending_tracking hc horderly (fun k hk => ?_) (.inr ((onLoan id).mpr (.inl rfl)))
      haccounted
    rw [ledger] at hk
    exact (onLoan k).mpr (.inr (hs.onLoan k hk))
  | early _ free alike canonical onLoan ledger journal =>
    obtain ⟨o, ho, journal⟩ := journal
    have hneutral : ∀ o' ∈ [.deferred id, o, .acknowledged id], o'.neutral :=
      List.forall_mem_cons.mpr ⟨rfl, neutral_of_heard ho id⟩
    obtain ⟨horderly, haccounted⟩ := orderly_of_accepted [.deferred id, o, .acknowledged id]
      hs alike canonical (by rw [ledger]; exact Ledger.all_settle hs.waiting id) journal hneutral
    have hmem : id ∈ t.ledger.early := by
      rw [ledger, Ledger.mem_early_settle]
      exact .inr ⟨rfl, fun hm => free (hs.onLoan id hm)⟩
    refine lending_tracking hc horderly (fun k hk => (onLoan k).mpr (hs.onLoan k ?_)) (.inl hmem)
      haccounted
    rw [ledger] at hk
    exact (Ledger.mem_pending_settle.mp hk).2

/-- The client has taken the identifier back, and the ledger the acknowledgement. -/
theorem lending_settling_of_heard {o : Occurrence} (ho : o.quiet) (hs : s.Lending) (holders : Nat) :
    (({ (s.freeing id).noted o with holders := holders } : Session).settling id).Lending :=
  lending_settling
    (orderly_of_alike [o, .acknowledged id] hs.toOrderly ⟨rfl, rfl, rfl, rfl, rfl, rfl⟩
      (linked_freeing hs.toLinked id).canonical hs.waiting rfl (neutral_of_heard ho id))
    (fun k hk hne => (onLoan_freeing s id k).mpr ⟨hne, hs.onLoan k hk⟩)
    (accounted_of_neutral [o, .acknowledged id] hs rfl (neutral_of_heard ho id))

section

variable {run : Runner} (hrun : ∀ step, step.All (·.onLink) → Within (Keeping Lending) (run step))
include hrun

theorem lending_invoke {resolution : Resolution} {c : Callback} (hc : c.Confined (·.onLink)) :
    Within (Keeping Lending) (invoke run id resolution c) :=
  within_invoke (calm_of_aside lending_of_aside) (fun _ hs => lending_noted hs rfl) fun n hn =>
    hrun n (hc n hn)

theorem lending_invoke? {resolution : Resolution} {callback : Option Callback}
    (hc : ∀ c, callback = some c → c.Confined (·.onLink)) :
    Within (Keeping Lending) (invoke? run id resolution callback) := by
  cases callback with
  | none => exact within_pure _
  | some c => exact lending_invoke hrun (hc c rfl)

theorem lending_abandon : Within (Keeping Lending) (abandon run) := by
  intro s r t h hs
  rw [abandon_apply] at h
  refine within_cancelEach (calm_of_aside lending_of_aside) _ (fun id c hm => ?_) h
    (lending_abandoning hs)
  exact lending_invoke hrun (hs.waiting id c (mem_batch.mp hm))

theorem lending_settle {r : Except Fatal Unit} (h : settle run id s = some (r, t))
    (hw : s.ledger.All (·.Confined (·.onLink))) (hs : (s.settling id).Lending) : t.Lending := by
  cases hpending : s.ledger.pending[id]? with
  | none =>
    rw [settle_of_not_pending run hpending] at h
    cases h
    exact lending_noted hs rfl
  | some callback =>
    rw [settle_of_pending run hpending] at h
    exact lending_invoke? hrun (fun c hc => hw id c (by rw [hpending, hc])) h
      (lending_noted hs rfl)

theorem lending_track {callback : Option Callback} {r : Except Fatal Unit}
    (h : track run id callback s = some (r, t))
    (hc : ∀ c, callback = some c → c.Confined (·.onLink)) (hnone : s.ledger.pending[id]? = none)
    (hs : (s.tracking id callback).Lending) : t.Lending := by
  by_cases he : id ∈ s.ledger.early
  · rw [track_of_mem_early run he] at h
    exact lending_invoke? hrun hc h (lending_noted hs rfl)
  · rw [track_of_not_mem_early run he, hnone] at h
    cases h
    exact lending_noted hs rfl

/-! ## Requests and events -/

theorem lending_trackAccepted {r : Request} {callback : Option Callback}
    (hc : ∀ c, callback = some c → c.Confined (·.onLink)) (hs : s.Lending)
    (haccepted : Accepted r id s t) {answer : Except Fault PacketId} {u : Session}
    (h : trackAccepted run id callback t = some (answer, u)) : u.Lending := by
  obtain ⟨_, htrack⟩ := track_of_trackAccepted h
  exact lending_track hrun htrack hc (pending_eq_none_of_accepted hs haccepted).2
    (lending_tracking_of_accepted hc hs haccepted)

theorem lending_request (r : Request) {callback : Option Callback}
    (hc : ∀ c, callback = some c → c.Confined (·.onLink)) :
    Within (Keeping Lending) (request run r callback) := by
  intro s answer u h hs
  rcases request_apply run r callback hs.toLinked hs.onLoan with
    ⟨f, t, ht, hrefused⟩ | ⟨id, t, haccepted, ht⟩
  · rw [ht] at h
    cases h
    exact lending_of_refused hrefused hs
  · rw [ht] at h
    exact lending_trackAccepted hrun hc hs haccepted h

/-- An acknowledgement, of whatever identifier. -/
theorem lending_deliver_acknowledgement {event : BrokerEvent}
    (he : event.acknowledged? = some id) : Within (Keeping Lending) (deliver run event) := by
  intro s answer u h hs
  obtain ⟨o, ho, hdeliver⟩ := deliver_acknowledgement run he hs.sink
  have howned : ((s.freeing id).noted o).owned := hs.owned
  rw [hdeliver, acknowledge_of_owned run howned] at h
  obtain ⟨r, t, ht, h⟩ := bind_eq_some_iff.mp h
  cases h
  obtain ⟨w, hsettle, ht⟩ := exists_of_holding ht
  rw [ht]
  exact lending_of_aside (aside_holders w _)
    (lending_settle hrun hsettle hs.waiting (lending_settling_of_heard ho hs _))

/-! ## Steps -/

theorem lending_perform {step : Step} (hstep : step.All (·.onLink)) :
    Within (Keeping Lending) (perform run step) :=
  keeping_perform framed_lending (fun slot _ hc _ => lending_setHandler slot hc)
    (fun _ => lending_clearHandlers) (lending_abandon hrun) (fun r _ => lending_request hrun r)
    (fun _ _ => lending_deliver_acknowledgement hrun) hrun hstep

end

theorem lending_performAll {depth : Nat} {steps : List Step}
    (hsteps : ∀ step ∈ steps, step.All (·.onLink)) :
    Within (Keeping Lending) (performAll depth steps) :=
  within_performAll fun step hm =>
    within_performTo (fun _ hrun _ => lending_perform hrun) depth (hsteps step hm)

/-! ## What becomes of a request -/

/-- The callback of a step that is a request. -/
def requested? : Step → Option (Option Callback)
  | .subscribe _ _ callback | .unsubscribe _ callback | .publish _ _ _ callback => some callback
  | _ => none

/-- What a request with a callback adds to the journal: it was turned down, or accepted under an
identifier under which that very callback was handed to the ledger next. -/
inductive Answered (callback : Option Callback) (older newer : List Occurrence) : Prop
  | turnedDown (news : List Occurrence) (journal : newer = news ++ older)
      (neutral : ∀ o ∈ news, o.neutral)
  | accepted (m : Method) (id : PacketId) (later between before : List Occurrence)
      (journal : newer =
        later ++ .tracked id callback :: (between ++ .issued m id 0 :: (before ++ older)))
      (neutral : ∀ o ∈ between ++ before, o.neutral)

/-- Neutral entries before and after an answer leave it what it is. -/
theorem Answered.surround {callback : Option Callback} {older newer : List Occurrence}
    {first last : Occurrence} (h : Answered callback (first :: older) newer)
    (hfirst : first.neutral) (hlast : last.neutral) : Answered callback older (last :: newer) := by
  cases h with
  | turnedDown news journal neutral =>
    refine .turnedDown (last :: (news ++ [first])) (by simp [journal]) fun o ho => ?_
    rcases List.mem_cons.mp ho with rfl | ho
    · exact hlast
    rcases List.mem_append.mp ho with ho | ho
    · exact neutral o ho
    · rwa [List.mem_singleton.mp ho]
  | accepted m id later between before journal neutral =>
    refine .accepted m id (last :: later) between (before ++ [first]) (by simp [journal])
      fun o ho => ?_
    rw [← List.append_assoc] at ho
    rcases List.mem_append.mp ho with ho | ho
    · exact neutral o ho
    · rwa [List.mem_singleton.mp ho]

/-- From `s` to `t` a request with this callback was answered. -/
def Answers (callback : Option Callback) (s t : Session) : Prop :=
  s.Lending → Answered callback s.journal t.journal

section

variable {callback : Option Callback}

theorem answers_refl (s : Session) : Answers callback s s :=
  fun _ => .turnedDown [] rfl (by simp)

theorem answers_request {run : Runner} (hrun : ∀ step, Within Grows (run step)) (r : Request) :
    Within (Answers callback) (request run r callback) := by
  intro s res t h hs
  rcases request_apply run r callback hs.toLinked hs.onLoan with
    ⟨f, u, hu, hrefused⟩ | ⟨id, u, haccepted, hu⟩
  · rw [hu] at h
    cases h
    obtain ⟨news, hj, hn⟩ := hrefused.journal
    exact .turnedDown news hj fun o ho => neutral_of_refused (hn o ho)
  · rw [hu] at h
    obtain ⟨between, hbetween, hneutral⟩ : ∃ between : List Occurrence,
        u.journal = between ++ .issued r.method id 0 :: s.journal ∧ ∀ o ∈ between, o.neutral := by
      cases haccepted with
      | late _ _ _ _ _ _ journal => exact ⟨[], journal, by simp⟩
      | early _ _ _ _ _ _ journal =>
        obtain ⟨o, ho, journal⟩ := journal
        exact ⟨[.deferred id, o, .acknowledged id], journal,
          List.forall_mem_cons.mpr ⟨rfl, neutral_of_heard ho id⟩⟩
    obtain ⟨_, htrack⟩ := track_of_trackAccepted h
    obtain ⟨later, hlater⟩ := grows_of_track hrun htrack
    refine .accepted r.method id later between [] ?_ (by simpa using hneutral)
    rw [hlater, noted_journal, hbetween, List.nil_append]

theorem answers_answeringRequest {run : Runner} (hrun : ∀ step, Within Grows (run step))
    (r : Request) : Within (Answers callback) (answeringRequest run r callback) := by
  intro s a t h hs
  obtain ⟨res, u, hu, -, rfl⟩ := exists_of_answeringRequest h
  exact (answers_request hrun r hu (lending_of_aside (aside_entering s _ _) hs)).surround rfl rfl

theorem answers_withQos {level : Nat} {x : Qos → Play Answer}
    (hx : ∀ qos, Within (Answers callback) (x qos)) :
    Within (Answers callback) (withQos level x) := by
  unfold withQos
  split
  · exact hx _
  · intro s a t h
    cases h
    exact answers_refl s

theorem answers_withLink {x : Play Answer} (hx : Within (Answers callback) x) :
    Within (Answers callback) (withLink x) := by
  intro s a t h hs
  rw [withLink_of_owned hs.owned] at h
  obtain ⟨u, hu, ht⟩ := exists_of_holding h
  have hanswers := hx hu
  rw [ht]
  exact hanswers (lending_of_aside (aside_holders s _) hs)

/-- Whatever its callback does, a request is answered in one of two ways. -/
theorem answers_performTo (depth : Nat) {step : Step} (hstep : requested? step = some callback) :
    Within (Answers callback) (performTo depth step) := by
  have hrequest (depth : Nat) (r : Request) :
      Within (Answers callback) (answeringRequest (performTo depth) r callback) :=
    answers_answeringRequest (law_grows.within_performTo depth) r
  cases depth with
  | zero =>
    intro s a t h
    cases h
  | succ depth =>
    cases step with
    | subscribe _ _ _ =>
      cases hstep
      exact answers_withLink (answers_withQos fun _ => hrequest depth _)
    | unsubscribe _ _ =>
      cases hstep
      exact answers_withLink (hrequest depth _)
    | publish _ _ _ _ =>
      cases hstep
      exact answers_withQos fun _ => answers_withLink (hrequest depth _)
    | _ => cases hstep

end

/-! ## Runs of a link -/

/-- In every run of a link whose client chooses the identifiers, all that waits is on loan. So no
operation loses its place, every accepted request has been tracked with its callback, and each
callback that was handed over either waits or has been called once. -/
theorem pending_onLoan {steps : List Step} (hsteps : ∀ step ∈ steps, step.All (·.onLink))
    {settings : Settings} {order : VisitOrder Callback} {depth : Nat} {s : Session}
    (h : performAll depth steps (opened settings order) = some ((), s)) :
    (∀ id ∈ s.ledger.pending, s.client.pool.onLoan id) ∧
    (∀ id callback, .displaced id callback ∉ s.journal) ∧
    s.accepted = s.tracked ∧
    (∀ step callback, requested? step = some callback → ∀ deep answer t,
      performTo deep step s = some (answer, t) → Answered callback s.journal t.journal) ∧
    ∀ id p, s.trackings id p = s.invocations id p + s.waiting id p ∧
      (s.trackings id p = 1 →
        s.waiting id p = 1 ∧ s.invocations id p = 0 ∨
        s.waiting id p = 0 ∧ s.invocations id p = 1) := by
  have hs : s.Lending := lending_performAll hsteps h (lending_opened settings order)
  refine ⟨hs.onLoan, hs.undisplaced, hs.accounted, fun step callback hstep deep answer t ht =>
    answers_performTo deep hstep ht hs, fun id p => ?_⟩
  have hdisplaced : s.displacements id p = 0 := by
    refine List.countP_eq_zero.mpr fun o ho => ?_
    cases o with
    | displaced k c => exact absurd ho (hs.undisplaced k c)
    | _ => simp [Occurrence.displaces]
  have hsum := trackings_eq id p h
  have hwaiting : s.waiting id p ≤ 1 := by
    unfold waiting
    split <;> omega
  refine ⟨by omega, fun hone => by omega⟩

/-- Requests of which the first is rejected, the second completed early, and the fourth completed by
an acknowledgement that has arrived twice. -/
def requestings : List Step :=
  let called (label : String) : Option Callback := some ⟨label, [], .ok (), true⟩
  [.scriptReply .unsubscribe (.ok 5), .unsubscribe "a" (called "first"), .completeEarly true,
    .unsubscribe "b" (called "second"), .completeEarly false, .unsubscribe "c" (called "third"),
    .acknowledgeUnsubscribe 1, .acknowledgeUnsubscribe 1, .unsubscribe "d" (called "fourth"),
    .unsubscribe "e" (called "fifth")]

/-- The last request waits, and the callbacks of the three accepted before it have been called. -/
theorem pending_onLoan_requestings :
    ∃ s, performAll 2 requestings (opened {} (.ascending _)) = some ((), s) ∧
      2 ∈ s.ledger.pending ∧ s.client.pool.onLoan 2 ∧ s.invocations 1 (fun _ => true) = 3 := by
  have hends : (performAll 2 requestings (opened {} (.ascending _))).map (fun p =>
      (p.2.ledger.pending.contains 2, p.2.trackings 1 fun _ => true, p.2.waiting 1 fun _ => true)) =
      some (true, 3, 0) := by
    cbv
  obtain ⟨⟨_, s⟩, hrun, hshown⟩ := Option.map_eq_some_iff.mp hends
  simp only [Prod.mk.injEq] at hshown
  obtain ⟨hpending, htracked, hwaiting⟩ := hshown
  have hplain : ∀ step ∈ requestings, step.bare ∧ step.onLink := by decide
  have hsteps : ∀ step ∈ requestings, step.All (·.onLink) := fun step hstep =>
    Step.all_of_bare (hplain step hstep).1 (hplain step hstep).2
  obtain ⟨honLoan, -, -, -, hcalls⟩ := pending_onLoan hsteps hrun
  have hsum := (hcalls 1 fun _ => true).1
  exact ⟨s, hrun, hpending, honLoan 2 hpending, by omega⟩

end Session

end MqttLink
