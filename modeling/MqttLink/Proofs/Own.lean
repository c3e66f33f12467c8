import MqttLink.Proofs.Law
import MqttLink.Proofs.Unread
import MqttLink.Proofs.Upkeep

/-!
What a step writes down itself. While it goes on, callbacks, handlers and hooks may run further
steps, whose entries stand in the journal among its own. Main statements: with those struck out it
does the same; and what is left then about operations handed over, and about identifiers given away
and taken back, is just what such a step is there for.
-/

namespace MqttLink

/-- Entries about operations handed over, or about identifiers given away or taken back. -/
def Occurrence.decisive : Occurrence → Bool
  | tracked _ _ | issued _ _ _ | acknowledged _ => true
  | _ => false

theorem Occurrence.not_decisive_of_quiet {o : Occurrence} (h : o.quiet) : ¬ o.decisive := by
  cases o with
  | tracked _ _ | issued _ _ _ | acknowledged _ => cases h
  | _ => nofun

namespace Session

open Play

variable {α β : Type} {s t u : Session} {run : Runner} {step : Step} {a : Answer} {id : PacketId}
  {depth : Nat}

/-! ## Striking what is nested -/

/-- Runs a step and strikes from the journal what is written down meanwhile. -/
def silently (run : Runner) : Runner := fun step s =>
  (run step s).map fun (a, t) => (a, { t with journal := s.journal })

theorem silently_of_eq_some (h : run step s = some (a, t)) :
    silently run step s = some (a, { t with journal := s.journal }) := by
  rw [silently, h]
  rfl

/-- A runner whose steps write nothing down. -/
def Silent (run : Runner) : Prop :=
  ∀ ⦃step s a t⦄, run step s = some (a, t) → t.journal = s.journal

theorem silent_silently (run : Runner) : Silent (silently run) := by
  intro step s a t h
  obtain ⟨_, _, ht⟩ := Option.map_eq_some_iff.mp h
  cases ht
  rfl

/-- Two sessions that differ in their journals alone, which stand in relation `J`. -/
structure Rewritten (J : List Occurrence → List Occurrence → Prop) (s t : Session) : Prop where
  same : t.unwritten = s.unwritten
  journal : J s.journal t.journal

theorem unison_rewritten {J : List Occurrence → List Occurrence → Prop}
    (hJ : ∀ o a b, J a b → J (o :: a) (o :: b)) : Unison (Rewritten J) where
  same _ _ h := h.same
  noted _ _ h o _ := ⟨h.same, hJ o _ _ h.journal⟩
  changed _ _ _ _ h hsame hs ht _ := ⟨hsame, by rw [hs, ht]; exact h.journal⟩
  handlerSet _ _ h slot c := ⟨congrArg (·.setHandler slot c) h.same, hJ _ _ _ h.journal⟩
  handlersCleared _ _ h := ⟨congrArg clearHandlers h.same, hJ _ _ _ h.journal⟩

/-- What does not read the journal does the same whatever stands in it, and writes the same. -/
theorem exists_of_blind {x : Play α} {a : α} (hx : Blind x) (h : x s = some (a, t))
    (hsame : u.unwritten = s.unwritten) :
    ∃ v news, x u = some (a, v) ∧ v.unwritten = t.unwritten ∧
      t.journal = news ++ s.journal ∧ v.journal = news ++ u.journal := by
  have hany (w : Session) :
      x w = (x w.unwritten).map fun p => (p.1, p.2.withPast w.journal) :=
    hx w.unwritten w.journal
  rw [hany s, Option.map_eq_some_iff] at h
  obtain ⟨⟨b, w⟩, hw, hwt⟩ := h
  cases hwt
  refine ⟨w.withPast u.journal, w.journal, ?_, rfl, rfl, rfl⟩
  rw [hany u, hsame, hw]
  rfl

/-- The second session differs in its journal alone, where less is written down. -/
abbrev Thinner : Session → Session → Prop := Rewritten fun a b => b.Sublist a

theorem unison_thinner : Unison Thinner :=
  unison_rewritten fun o _ _ hab => hab.cons_cons o

/-- With what is nested struck out, the journal is thinner. -/
theorem accords_silently_of_blind (hrun : ∀ step, Blind (run step)) (step : Step) :
    Accords Thinner (run step) (silently run step) := by
  intro s u a t h hs
  obtain ⟨v, news, hv, hsame, hnews, -⟩ := exists_of_blind (hrun step) hs h.same
  refine ⟨_, silently_of_eq_some hv, hsame, ?_⟩
  rw [hnews]
  exact h.journal.trans (List.sublist_append_right _ _)

/-- A step has taken `s` to `t` with answer `a`, and of what was written down meanwhile `own` is its
own: the same step writes just this if what is nested in it is struck out, with the same answer and
the same end but for the journal. -/
structure Own (depth : Nat) (step : Step) (s : Session) (a : Answer) (t : Session)
    (own : List Occurrence) : Prop where
  struck : ∃ w, perform (silently (performTo depth)) step s = some (a, w) ∧
    w.unwritten = t.unwritten ∧ w.journal = own ++ s.journal
  among : ∃ news, t.journal = news ++ s.journal ∧ own.Sublist news

theorem exists_own (h : performTo (depth + 1) step s = some (a, t)) :
    ∃ own, Own depth step s a t own := by
  obtain ⟨w, hw, hthin⟩ := unison_thinner.accords_perform
    (accords_silently_of_blind (blind_performTo depth)) step
    (show Thinner s s from ⟨rfl, List.Sublist.refl _⟩) h
  obtain ⟨news, hnews⟩ := law_grows.within_performTo (depth + 1) step h
  have hnested (step : Step) : Within Grows (silently (performTo depth) step) := fun _ _ _ hs =>
    ⟨[], silent_silently _ hs⟩
  obtain ⟨own, hown⟩ := law_grows.frame.within_perform (fun n _ => hnested n) trivial hw
  refine ⟨own, ⟨w, hw, hthin.same, hown⟩, news, hnews, ?_⟩
  have hsub := hthin.journal
  rwa [hown, hnews, List.append_sublist_append_right] at hsub

/-! ## What is written about operations and identifiers -/

/-- From `s` to `t` the entries `news` were written about operations and identifiers, the latest
first, and no others of their kind. -/
def Adds (news : List Occurrence) (s t : Session) : Prop :=
  t.journal.filter (·.decisive) = news ++ s.journal.filter (·.decisive)

theorem Adds.trans {news later : List Occurrence} (h : Adds news s t) (k : Adds later t u) :
    Adds (later ++ news) s u := by
  rw [Adds, k, h, List.append_assoc]

instance : IsPreorder Session (Adds []) where
  refl _ := rfl
  trans _ _ _ h k := Adds.trans h k

theorem adds_of_aside ⦃s t : Session⦄ (h : Aside s t) : Adds [] s t := by
  obtain ⟨news, hj, hq⟩ := h.journal
  have hnone : news.filter (·.decisive) = [] :=
    List.filter_eq_nil_iff.mpr fun o ho => Occurrence.not_decisive_of_quiet (hq o ho)
  rw [Adds, hj, List.filter_append, hnone]

theorem adds_shutDown : Within (Adds []) shutDown := by
  have haside {α : Type} {x : Play α} (hx : Within Aside x) : Within (Adds []) x :=
    hx.mono adds_of_aside
  rw [shutDown_eq]
  refine within_bind within_get fun _ => within_bind (haside (aside_note rfl)) fun _ =>
    within_bind (within_changeClient fun _ => rfl) fun _ =>
    within_bind (haside (aside_onClient Client.steady_disconnect)) fun disconnected =>
    within_bind (haside aside_stopLoop) fun stopped => ?_
  match disconnected, stopped with
  | .error _, _ => exact within_pure _
  | .ok _, .error _ => exact within_pure _
  | .ok code, .ok _ =>
    rw [afterShutDown]
    split
    · exact within_bind (haside (aside_note rfl)) fun _ => within_pure _
    · exact within_pure _

/-- What the client writes about a request that it answers so: that it has given an identifier away,
and, if it completes accepted requests early, that it has heard of this one. -/
def granted (m : Method) (early : Bool) : Answer → List Occurrence
  | .issued code id =>
    (if code = 0 ∧ early then [.acknowledged id] else []) ++ [.issued m id code]
  | _ => []

/-- What is written about such a request when it is made on a link, with a callback: one that is
accepted is handed over. -/
def handed (m : Method) (early : Bool) (callback : Option Callback) : Answer → List Occurrence
  | .issued code id =>
    (if code = 0 then [.tracked id callback] else []) ++ granted m early (.issued code id)
  | _ => []

/-- `news` is what is written about a request that a link answers with `a`: the link names the
identifier that the client has given away. -/
def Asked (m : Method) (callback : Option Callback) (early : Bool) (a : Answer)
    (news : List Occurrence) : Prop :=
  ∃ b, news = handed m early callback b ∧ ∀ id, a = .id id → b = .issued 0 id

theorem asked_gone (m : Method) (callback : Option Callback) (early : Bool) :
    Asked m callback early .gone [] :=
  ⟨.gone, rfl, fun _ h => by cases h⟩

theorem asked_fault (m : Method) (callback : Option Callback) (early : Bool) (f : Fault) :
    Asked m callback early (.fault f) [] :=
  ⟨.gone, rfl, fun _ h => by cases h⟩

/-- What the client writes about several requests, one after the other, up to the first that fails,
when the answer to the one before them was `last` and the answer to all is `a`. Meanwhile the client
may be told to complete requests early, or no longer to. -/
inductive GrantedEach (m : Method) : (early : Bool) → (times : Nat) → (last a : Answer) →
    List Occurrence → Prop
  | done (early : Bool) (last : Answer) : GrantedEach m early 0 last last []
  | failed (early : Bool) (times : Nat) (last : Answer) (f : Fault) :
      GrantedEach m early times last (.fault f) []
  | next (early early' : Bool) (times : Nat) (last b : Answer) {a : Answer}
      {later : List Occurrence} (given : ∀ f, b ≠ .fault f)
      (rest : GrantedEach m early' times b a later) :
      GrantedEach m early (times + 1) last a (later ++ granted m early b)

/-- `news` is what a step writes itself about operations and identifiers when it is taken at `s` and
answered with `a`. -/
def Tells (s : Session) (a : Answer) (news : List Occurrence) : Step → Prop
  | .track id callback => news = if s.owned then [.tracked id callback] else []
  | .trackAll ids callback =>
    ∃ n, news = ((ids.take n).map (.tracked · callback)).reverse ∧ (a = .done → n = ids.length)
  | .subscribe _ _ callback => Asked .subscribe callback s.client.completesEarly a news
  | .unsubscribe _ callback => Asked .unsubscribe callback s.client.completesEarly a news
  | .publish _ _ _ callback => Asked .publish callback s.client.completesEarly a news
  | .clientSubscribe _ _ => news = granted .subscribe s.client.completesEarly a
  | .clientUnsubscribe _ => news = granted .unsubscribe s.client.completesEarly a
  | .clientPublish _ _ _ times => GrantedEach .publish s.client.completesEarly times .nothing a news
  | .acknowledgeSubscribe id level =>
    news = (Qos.ofLevel? level).toList.map fun _ => .acknowledged id
  | .acknowledgeUnsubscribe id | .acknowledgePublish id => news = [.acknowledged id]
  | _ => news = []

/-- What `x` writes about operations and identifiers is as `Q` says, which may depend on the answer,
and on whether the client completes requests early. -/
def Telling (Q : Bool → Answer → List Occurrence → Prop) (x : Play Answer) : Prop :=
  ∀ ⦃s a t⦄, x s = some (a, t) → ∃ news, Q s.client.completesEarly a news ∧ Adds news s t

section

variable {Q : Bool → Answer → List Occurrence → Prop}

theorem telling_withLink (hQ : ∀ early, Q early .gone []) {x : Play Answer} (hx : Telling Q x) :
    Telling Q (withLink x) := by
  intro s a t h
  by_cases hs : s.owned
  · rw [withLink_of_owned hs] at h
    obtain ⟨u, hu, rfl⟩ := exists_of_holding h
    have hheld := hx hu
    exact hheld
  · rw [withLink, bind_of_eq_some get_apply, if_neg hs] at h
    cases h
    exact ⟨[], hQ _, rfl⟩

theorem telling_withQos {level : Nat} (hQ : ∀ early, Q early (.fault (.invalidQos level)) [])
    {x : Qos → Play Answer} (hx : ∀ qos, Telling Q (x qos)) : Telling Q (withQos level x) := by
  unfold withQos
  split
  · exact hx _
  · intro s a t h
    cases h
    exact ⟨[], hQ _, rfl⟩

end

section

variable (hrun : Silent run)
include hrun

theorem adds_nested (step : Step) : Within (Adds []) (run step) := by
  intro s a t h
  rw [Adds, hrun h, List.nil_append]

theorem adds_invoke (id : PacketId) (resolution : Resolution) (c : Callback) :
    Within (Adds []) (invoke run id resolution c) :=
  within_invoke (calm_of_aside adds_of_aside) (fun _ => rfl) fun n _ => adds_nested hrun n

theorem adds_invoke? (id : PacketId) (resolution : Resolution) (callback : Option Callback) :
    Within (Adds []) (invoke? run id resolution callback) := by
  cases callback with
  | none => exact within_pure _
  | some c => exact adds_invoke hrun id resolution c

/-- An operation is entered in the journal before anything comes of it. -/
theorem adds_track (id : PacketId) (callback : Option Callback) :
    Within (Adds [.tracked id callback]) (track run id callback) := by
  intro s r t h
  by_cases he : id ∈ s.ledger.early
  · rw [track_of_mem_early run he] at h
    have hentered : Adds [.tracked id callback] s
        ((s.tracking id callback).noted (.foundAcknowledged id)) := rfl
    exact hentered.trans (adds_invoke? hrun _ _ _ h)
  · rw [track_of_not_mem_early run he] at h
    cases hd : s.ledger.pending[id]? with
    | none | some d =>
      rw [hd] at h
      cases h
      rfl

theorem adds_settle (id : PacketId) : Within (Adds []) (settle run id) := by
  intro s r t h
  cases hp : s.ledger.pending[id]? with
  | none =>
    rw [settle_of_not_pending run hp] at h
    cases h
    rfl
  | some callback =>
    rw [settle_of_pending run hp] at h
    have hsettled : Adds [] s ((s.settling id).noted (.settled id)) := rfl
    exact hsettled.trans (adds_invoke? hrun _ _ _ h)

theorem adds_abandon : Within (Adds []) (abandon run) := by
  intro s r t h
  rw [abandon_apply] at h
  have habandoning : Adds [] s s.abandoning := rfl
  exact habandoning.trans (within_cancelEach (calm_of_aside adds_of_aside) _
    (fun id c _ => adds_invoke hrun id .cancelled c) h)

theorem adds_trackAll (callback : Option Callback) (ids : List PacketId)
    {r : Except Fatal Unit} (h : trackAll run callback ids s = some (r, t)) :
    ∃ n, Adds ((ids.take n).map (.tracked · callback)).reverse s t ∧
      (r = .ok () → n = ids.length) := by
  induction ids generalizing s with
  | nil =>
    cases h
    exact ⟨0, rfl, fun _ => rfl⟩
  | cons id rest ih =>
    obtain ⟨q, u, hu, h⟩ := bind_eq_some_iff.mp h
    have hentered := adds_track hrun id callback hu
    cases q with
    | error f =>
      cases h
      exact ⟨1, hentered, fun hr => by cases hr⟩
    | ok _ =>
      obtain ⟨n, hn, hall⟩ := ih h
      refine ⟨n + 1, ?_, fun hr => congrArg (· + 1) (hall hr)⟩
      rw [List.take_succ_cons, List.map_cons, List.reverse_cons]
      exact hentered.trans hn

theorem adds_settleAll (ids : List PacketId) : Within (Adds []) (settleAll run ids) := by
  induction ids with
  | nil => exact within_pure _
  | cons id rest ih =>
    refine within_bind (adds_settle hrun id) fun r => ?_
    cases r with
    | ok _ => exact ih
    | error _ => exact within_pure _

theorem adds_signal (x : Signal) : Within (Adds []) (signal run x) :=
  fun _ _ _ h => of_signal (calm_of_aside adds_of_aside) h fun _ _ n _ => adds_nested hrun n

theorem adds_callHook (m : Method) (id : PacketId) : Within (Adds []) (callHook run m id) :=
  fun _ _ _ h => of_callHook (calm_of_aside adds_of_aside) h fun _ _ n _ => adds_nested hrun n

theorem adds_acknowledge (id : PacketId) : Within (Adds []) (acknowledge run id) := by
  refine within_bind within_get fun s => ?_
  split
  · exact within_bind (within_holding adds_of_aside (adds_settle hrun id)) fun _ => within_pure _
  · exact within_pure _

/-- An acknowledgement is written down before the link hears of it, and no other event is. -/
theorem adds_deliver (event : BrokerEvent) :
    Within (Adds (event.acknowledged?.toList.map .acknowledged)) (deliver run event) := by
  intro s r t h
  cases he : event.acknowledged? with
  | none => exact within_deliver_notice adds_of_aside (adds_signal hrun) he h
  | some id =>
    have hfreed : Adds [.acknowledged id] s (s.freeing id) := rfl
    by_cases hsink : s.client.sink
    · obtain ⟨o, ho, hdeliver⟩ := deliver_acknowledgement run he hsink
      rw [hdeliver] at h
      have hheard : Adds [] (s.freeing id) ((s.freeing id).noted o) :=
        adds_of_aside (aside_noted _ ho)
      exact (hfreed.trans hheard).trans (adds_acknowledge hrun id h)
    · rw [deliver_apply, if_neg hsink, noticing, he] at h
      cases h
      exact hfreed

theorem adds_conclude {r : Request} {code : Int} {res : Except ClientFault (Int × PacketId)}
    (h : conclude run r id code s = some (res, t)) :
    res = .ok (code, id) ∧
      Adds (if code = 0 ∧ s.client.completesEarly then [.acknowledged id] else []) s t := by
  obtain ⟨hres, u, hbefore, hcalled⟩ := exists_of_conclude run h
  have hhook := adds_callHook hrun _ _ hcalled
  refine ⟨hres, ?_⟩
  cases hbefore with
  | rejected hcode =>
    rw [if_neg fun hboth => hcode hboth.1]
    exact hhook
  | early hcode hearly acknowledged =>
    obtain ⟨_, v, hv, hu⟩ := bind_eq_some_iff.mp acknowledged
    cases hu
    have hdelivered := adds_deliver hrun _ hv
    rw [acknowledged?_acknowledgement] at hdelivered
    rw [if_pos ⟨hcode, hearly⟩]
    exact hdelivered.trans hhook
  | late hcode hlate =>
    rw [if_neg fun hboth => hlate hboth.2]
    exact hhook

/-- The answer of a client to a request. -/
def issuedAnswer : Except ClientFault (Int × PacketId) → Answer
  | .ok (code, id) => .issued code id
  | .error f => .fault (.client f)

theorem adds_issue {r : Request} {res : Except ClientFault (Int × PacketId)}
    (h : issue run r s = some (res, t)) :
    Adds (granted r.method s.client.completesEarly (issuedAnswer res)) s t := by
  obtain ⟨reply, c, hc⟩ : ∃ reply c, (s.client.add r.call).takeReply r.method = (reply, c) :=
    ⟨_, _, rfl⟩
  have hearly : c.completesEarly = s.client.completesEarly := completesEarly_called hc
  cases reply with
  | error f =>
    rw [issue_of_error run hc] at h
    cases h
    rfl
  | ok code =>
    rw [issue_of_reply run hc] at h
    cases htake : c.takeId with
    | none =>
      rw [htake] at h
      cases h
      rfl
    | some chosen =>
      obtain ⟨id, d⟩ := chosen
      rw [htake] at h
      obtain ⟨ids, pool, rfl⟩ := Client.exists_of_takeId htake
      obtain ⟨rfl, hadds⟩ := adds_conclude hrun h
      have hissued : Adds [.issued r.method id code] s
          (({ s with client := { c with queuedIds := ids, pool := pool } } : Session).noted
            (.issued r.method id code)) := rfl
      have hboth := hissued.trans hadds
      rwa [noted_client, hearly] at hboth

/-- An accepted request is handed over when the client is done with it. -/
theorem adds_request {r : Request} {callback : Option Callback} {res : Except Fault PacketId}
    (h : request run r callback s = some (res, t)) :
    ∃ b, Adds (handed r.method s.client.completesEarly callback b) s t ∧
      ∀ id, res = .ok id → b = .issued 0 id := by
  cases hcheck : r.check with
  | error f =>
    rw [request_of_check run callback hcheck] at h
    cases h
    exact ⟨.gone, rfl, fun _ hid => by cases hid⟩
  | ok _ =>
    rw [request, hcheck] at h
    obtain ⟨given, u, hu, h⟩ := bind_eq_some_iff.mp h
    have hissued := adds_issue hrun hu
    refine ⟨issuedAnswer given, ?_⟩
    cases given with
    | error _ =>
      cases h
      exact ⟨hissued, fun _ hid => by cases hid⟩
    | ok given =>
      obtain ⟨code, id⟩ := given
      obtain ⟨checked, v, hv, h⟩ := bind_eq_some_iff.mp h
      by_cases hcode : code = 0
      · subst hcode
        cases hv
        obtain ⟨q, w, hw, h⟩ := bind_eq_some_iff.mp h
        have htracked := hissued.trans (adds_track hrun id callback hw)
        cases q with
        | error f =>
          cases h
          exact ⟨htracked, fun _ hid => by cases hid⟩
        | ok _ =>
          cases h
          refine ⟨htracked, fun k hk => ?_⟩
          cases hk
          rfl
      · rw [checkCode_of_ne_zero _ hcode] at hv
        cases hv
        cases h
        rw [issuedAnswer, handed, if_neg hcode]
        exact ⟨hissued, fun _ hid => by cases hid⟩

theorem adds_answeringIssued {r : Request}
    (h : answeringIssued (issue run r) s = some (a, t)) :
    Adds (granted r.method s.client.completesEarly a) s t := by
  obtain ⟨res, u, hu, h⟩ := bind_eq_some_iff.mp h
  have hissued := adds_issue hrun hu
  cases res <;> cases h <;> exact hissued

theorem adds_issueMany {r : Request} {times : Nat} {last : Answer}
    (h : issueMany run r times last s = some (a, t)) :
    ∃ news, GrantedEach r.method s.client.completesEarly times last a news ∧ Adds news s t := by
  induction times generalizing s last with
  | zero =>
    cases h
    exact ⟨[], .done _ _, rfl⟩
  | succ times ih =>
    obtain ⟨answer, u, hu, h⟩ := bind_eq_some_iff.mp h
    have hissued := adds_answeringIssued hrun hu
    split at h
    next f =>
      cases h
      exact ⟨[], .failed _ _ last f, hissued⟩
    next hgiven =>
      obtain ⟨later, hlater, hadds⟩ := ih h
      exact ⟨_, .next _ _ times last _ hgiven hlater, hissued.trans hadds⟩

/-! ## Steps -/

theorem telling_answeringRequest (r : Request) (callback : Option Callback) :
    Telling (Asked r.method callback) (answeringRequest run r callback) := by
  intro s a t h
  obtain ⟨res, u, hu, rfl, rfl⟩ := exists_of_answeringRequest h
  obtain ⟨b, hadds, hnamed⟩ := adds_request hrun hu
  refine ⟨_, ⟨b, rfl, fun id hid => hnamed id ?_⟩, hadds⟩
  cases res with
  | ok _ =>
    cases hid
    rfl
  | error _ => cases hid

theorem telling_answeringIssued (r : Request) :
    Telling (fun early a news => news = granted r.method early a)
      (answeringIssued (issue run r)) :=
  fun _ _ _ h => ⟨_, rfl, adds_answeringIssued hrun h⟩

/-- Every step writes about operations and identifiers what it is there for, and nothing else. -/
theorem tells_perform (h : perform run step s = some (a, t)) :
    ∃ news, Tells s a news step ∧ Adds news s t := by
  have hnone (hx : Within (Adds []) (perform run step)) : ∃ news, news = [] ∧ Adds news s t :=
    ⟨[], rfl, hx h⟩
  have hlink {x : Play Answer} (hx : Within (Adds []) x) : Within (Adds []) (withLink x) :=
    within_withLink adds_of_aside hx
  cases step with
  | track id callback =>
    by_cases hs : s.owned
    · rw [perform, withLink_of_owned hs] at h
      obtain ⟨u, hu, rfl⟩ := exists_of_holding h
      obtain ⟨r, v, hv, hu⟩ := bind_eq_some_iff.mp hu
      cases hu
      have hheld := adds_track hrun id callback hv
      exact ⟨_, (if_pos hs).symm, hheld⟩
    · rw [perform, withLink, bind_of_eq_some get_apply, if_neg hs] at h
      cases h
      exact ⟨_, (if_neg hs).symm, rfl⟩
  | trackAll ids callback =>
    have htelling : Telling
        (fun _ a news => ∃ n, news = ((ids.take n).map (.tracked · callback)).reverse ∧
          (a = .done → n = ids.length))
        (perform run (.trackAll ids callback)) := by
      refine telling_withLink (fun _ => ⟨0, rfl, fun h => by cases h⟩) fun s a t h => ?_
      obtain ⟨r, u, hu, h⟩ := bind_eq_some_iff.mp h
      cases h
      obtain ⟨n, hn, hall⟩ := adds_trackAll hrun callback ids hu
      refine ⟨_, ⟨n, rfl, fun hdone => hall ?_⟩, hn⟩
      cases r with
      | ok _ => rfl
      | error _ => cases hdone
    exact htelling h
  | subscribe filter level callback =>
    exact telling_withLink (asked_gone .subscribe callback)
      (telling_withQos (asked_fault .subscribe callback · _) fun qos =>
        telling_answeringRequest hrun (.subscribe filter qos) callback) h
  | unsubscribe filter callback =>
    exact telling_withLink (asked_gone .unsubscribe callback)
      (telling_answeringRequest hrun (.unsubscribe filter) callback) h
  | publish topic payload level callback =>
    exact telling_withQos (asked_fault .publish callback · _) (fun qos =>
      telling_withLink (asked_gone .publish callback)
        (telling_answeringRequest hrun (.publish topic payload qos) callback)) h
  | clientSubscribe filter level =>
    have htelling : Telling (fun early a news => news = granted .subscribe early a)
        (perform run (.clientSubscribe filter level)) :=
      telling_withQos (fun _ => rfl) fun qos => telling_answeringIssued hrun (.subscribe filter qos)
    exact htelling h
  | clientUnsubscribe filter => exact telling_answeringIssued hrun (.unsubscribe filter) h
  | clientPublish topic payload level times =>
    have htelling : Telling (GrantedEach .publish · times .nothing)
        (perform run (.clientPublish topic payload level times)) :=
      telling_withQos (fun early => .failed early times _ _) fun qos s a t h =>
        adds_issueMany (r := .publish topic payload qos) hrun h
    exact htelling h
  | acknowledgeSubscribe id level =>
    rw [perform, withQos] at h
    cases hq : Qos.ofLevel? level with
    | none =>
      rw [hq] at h
      cases h
      exact ⟨[], by rw [Tells, hq]; rfl, rfl⟩
    | some qos =>
      rw [hq] at h
      obtain ⟨r, hr, -⟩ := exists_of_answering h
      exact ⟨[.acknowledged id], by rw [Tells, hq]; rfl,
        adds_deliver hrun (.subscribed id qos) hr⟩
  | acknowledgeUnsubscribe id | acknowledgePublish id =>
    obtain ⟨r, hr, -⟩ := exists_of_answering h
    have hdelivered := adds_deliver hrun _ hr
    exact ⟨[.acknowledged id], rfl, hdelivered⟩
  | settle id => exact hnone (hlink (within_answeringFatal (adds_settle hrun id)))
  | settleAll ids => exact hnone (hlink (within_answeringFatal (adds_settleAll hrun ids)))
  | abandon =>
    exact hnone (within_sweeping adds_of_aside (hlink (within_answeringFatal (adds_abandon hrun))))
  | disconnect clear =>
    have hdisconnect (clear : Bool) : Within (Adds [])
        (spanning .disconnect [.clear clear] (disconnect run clear)) :=
      within_spanning adds_of_aside _ _ (within_disconnect adds_of_aside fun _ => adds_abandon hrun)
    cases clear with
    | true =>
      exact hnone (within_sweeping adds_of_aside (hlink (within_answering (hdisconnect true))))
    | false => exact hnone (hlink (within_answering (hdisconnect false)))
  | shutDown => exact hnone (hlink (within_answering adds_shutDown))
  | setHandler slot handler =>
    exact hnone (hlink (within_bind ((aside_note rfl).mono adds_of_aside) fun _ =>
      within_bind (within_modify fun _ => rfl) fun _ => within_pure _))
  | clearHandlers =>
    exact hnone (hlink (within_bind ((aside_note rfl).mono adds_of_aside) fun _ =>
      within_bind (within_modify fun _ => rfl) fun _ => within_pure _))
  | dropLink => exact hnone (within_bind (within_modify fun _ => rfl) fun _ => within_pure _)
  | scriptIds _ | setIssueHook _ | clientDetach =>
    exact hnone (within_bind (within_changeClient fun _ => rfl) fun _ => within_pure _)
  | answerConnect code => exact hnone (within_answering (adds_deliver hrun (.connectAnswered code)))
  | close code => exact hnone (within_answering (adds_deliver hrun (.closed code)))
  | receive topic payload level retain id =>
    exact hnone (within_withQos fun qos =>
      within_answering (adds_deliver hrun (.message ⟨topic, payload, qos, retain, id⟩)))
  | inspect _ | describe | connect _ | showRequest | scriptReply _ _ | completeEarly _
  | delayConnect _ | forgetCalls | countCalls _ | takeEarlyResults | clientSetCredentials _ _
  | clientConnect _ | clientDisconnect | clientStartLoop | clientStopLoop =>
    exact hnone ((aside_perform run rfl).mono adds_of_aside)

omit hrun in
/-- What is a step's own among the entries that it leaves. -/
theorem exists_tells (h : performTo (depth + 1) step s = some (a, t)) :
    ∃ own, Own depth step s a t own ∧ Tells s a (own.filter (·.decisive)) step := by
  obtain ⟨own, hown⟩ := exists_own h
  obtain ⟨w, hw, -, hj⟩ := hown.struck
  obtain ⟨news, htells, hadds⟩ := tells_perform (silent_silently _) hw
  have hnews : own.filter (·.decisive) = news := by
    rw [Adds, hj, List.filter_append] at hadds
    exact List.append_cancel_right hadds
  exact ⟨own, hown, by rwa [hnews]⟩

end

end Session

end MqttLink
