import MqttLink.Proofs.LikeRuns
import MqttLink.Report.Steps

/-!
Passwords and the bytes of messages stay where they are handed. Main statement: sessions that differ
in nothing else come to the same answers, show the same events and spans in the log, with the same
fields, and leave the same state behind, but for the calls that hand a password or a message to the
client and for what the message handler is told.
-/

namespace MqttLink

/-! ## Likeness the other way round -/

section

variable {L : Licence}

/-- What may differ may differ the other way round. -/
structure Licence.Mutual (L : Licence) : Prop where
  password : ∀ {p p' : Option String}, L.password p p' → L.password p' p
  payload : ∀ {p p' : Payload}, L.payload p p' → L.payload p' p

theorem Licence.SameOutcome.symm {o o' : Outcome} (h : L.SameOutcome o o') :
    L.SameOutcome o' o :=
  ⟨fun hL => (h.full hL).symm, fun hL => (h.exact hL).symm⟩

theorem Licence.Careful.of_length_eq {stopsOnFault : Bool} {steps steps' : List Step}
    (h : L.Careful stopsOnFault steps) (hlength : steps'.length = steps.length) :
    L.Careful stopsOnFault steps' :=
  fun hstops => (h hstops).imp_right fun hle => hlength ▸ hle

/-- The induction is on how one step is like the other, with callbacks and lists of steps. -/
theorem Step.like_symm (hL : L.Mutual) {x y : Step} (h : x.Like L y) : y.Like L x :=
  @Step.Like.rec L (fun x y _ => y.Like L x)
    (fun c c' _ => Option.Rel (Reaction.Like L) c' c)
    (fun c c' _ => Reaction.Like L c' c)
    (fun xs ys _ => List.Forall₂ (Step.Like L) ys xs)
    (fun step plain => .plain step plain)
    (fun id _ _ _ ih => .track id ih)
    (fun exact ids _ _ _ ih => .trackAll exact ids ih)
    (fun exact ids => .settleAll exact ids)
    (fun password => .connect (hL.password password))
    (fun filter level _ _ _ ih => .subscribe filter level ih)
    (fun filter _ _ _ ih => .unsubscribe filter ih)
    (fun topic _ _ payload level _ _ _ ih => .publish topic (hL.payload payload) level ih)
    (fun slot _ _ _ ih => .setHandler slot ih)
    (fun stopsOnFault _ _ same careful ih =>
      .setIssueHook stopsOnFault ih fun id => (careful id).of_length_eq (same id).length_eq.symm)
    (fun topic _ _ payload level retain id => .receive topic (hL.payload payload) level retain id)
    (fun username _ _ password => .clientSetCredentials username (hL.password password))
    (fun topic _ _ payload level times => .clientPublish topic (hL.payload payload) level times)
    (fun _ ih => .some ih)
    .none
    (fun label stopsOnFault _ _ _ _ same careful outcomes ih =>
      .intro label stopsOnFault ih (careful.of_length_eq same.length_eq.symm) outcomes.symm)
    .nil
    (fun _ _ ih ihs => .cons ih ihs)
    x y h

theorem VisitOrder.Same.symm {order order' : VisitOrder Callback} (h : order.Same order') :
    order'.Same order :=
  fun sweep b b' hkeys => (h sweep b' b hkeys.symm).symm

theorem Licence.compared_of_full (hL : L.full) (journal : List Occurrence) :
    L.compared journal = journal :=
  List.filter_eq_self.mpr fun _ _ => by simp [compares, hL]

end

/-! ## Secrets -/

/-- A password may be any other, and so may the bytes of a message, as long as there are as many.
Nothing else may differ. -/
def Licence.secrets : Licence where
  exact := true
  full := true
  password p p' := p'.isSome = p.isSome
  payload p p' := p'.size = p.size
  exact_of_full _ := rfl
  size_eq h := h

theorem mutual_secrets : Licence.secrets.Mutual :=
  ⟨Eq.symm, Eq.symm⟩

/-- Nothing that the log shows tells a secret. -/
theorem diagnostic?_of_like {o o' : Occurrence} (h : o.Like .secrets o') :
    Report.diagnostic? o' = Report.diagnostic? o := by
  cases h <;> rfl

theorem forall₂_newEntries {R : Occurrence → Occurrence → Prop} {js ks : List Occurrence}
    (h : List.Forall₂ R js ks) (before : Nat) :
    List.Forall₂ R (Report.newEntries before js) (Report.newEntries before ks) := by
  rw [Report.newEntries, Report.newEntries, h.length_eq]
  exact List.rel_reverse (List.forall₂_take _ h)

theorem diagnostics_of_like {js ks : List Occurrence}
    (h : List.Forall₂ (Occurrence.Like .secrets) js ks) :
    ks.filterMap Report.diagnostic? = js.filterMap Report.diagnostic? := by
  induction h with
  | nil => rfl
  | cons ho _ ih => rw [List.filterMap_cons, List.filterMap_cons, diagnostic?_of_like ho, ih]

namespace Session

/-- What a stage shows in the log: its events and spans, with their fields, in order. -/
def Stage.log (d : Stage) : List Report.Diagnostic :=
  (Report.newEntries d.before.journal.length d.after.journal).filterMap Report.diagnostic?

/-- What sessions have in common that differ in secrets: all but the calls in the client's record
that hand over a password or a message, and what the journal says a message handler was told. Where
scripts are kept that will run further steps, they are like each other in the same sense. -/
structure SameButSecrets (s t : Session) : Prop where
  client : t.client =
    { s.client with record := t.client.record, issueHook := t.client.issueHook }
  record : List.Forall₂ (Call.Like .secrets) s.client.record t.client.record
  issueHook : Option.Rel (IssueHook.Like .secrets) s.client.issueHook t.client.issueHook
  settings : t.settings = s.settings
  pending : ∀ id : PacketId, Option.Rel (Option.Rel (Reaction.Like .secrets))
    s.ledger.pending[id]? t.ledger.pending[id]?
  early : t.ledger.early = s.ledger.early
  handlers : ∀ slot, Option.Rel (Reaction.Like .secrets) (s.handlers slot) (t.handlers slot)
  owned : t.owned = s.owned
  journal : List.Forall₂ (Occurrence.Like .secrets) s.journal t.journal

structure Stage.SameButSecrets (d e : Stage) : Prop where
  answer : e.answer = d.answer
  log : e.log = d.log
  after : d.after.SameButSecrets e.after

variable {s t : Session}

theorem journal_of_like (h : s.Like .secrets t) :
    List.Forall₂ (Occurrence.Like .secrets) s.journal t.journal := by
  have hjournal := h.journal
  rwa [Licence.compared_of_full rfl, Licence.compared_of_full rfl] at hjournal

theorem client_of_like (h : s.Like .secrets t) : t.client =
    { s.client with record := t.client.record, issueHook := t.client.issueHook } := by
  obtain ⟨hsink, -, hshown, hpool, hids, hreplies, hearly, hresults, -, hdelay, hloop⟩ := h.client
  simp only [← hsink, ← hshown, ← hpool, ← hids, ← hreplies, ← hearly, ← hresults rfl, ← hdelay,
    ← hloop]

theorem sameButSecrets_of_like (h : s.Like .secrets t) : s.SameButSecrets t where
  client := client_of_like h
  record := h.client.record
  issueHook := h.client.issueHook
  settings := h.settings
  pending := h.ledger.pending
  early := h.ledger.early
  handlers := h.handlers
  owned := h.owned
  journal := journal_of_like h

theorem Stage.sameButSecrets_of_like {d e : Stage} (h : d.Like .secrets e) :
    d.SameButSecrets e where
  answer := (h.answer rfl).symm
  log := by
    rw [log, (journal_of_like h.before).length_eq.symm]
    exact diagnostics_of_like (forall₂_newEntries (journal_of_like h.after) _)
  after := Session.sameButSecrets_of_like h.after

/-! ## Main statement -/

/-- Take two runs of the same steps on a new link, from top to bottom of what callbacks, handlers
and hooks run, but with other passwords and with other messages of the same sizes, that go through
abandoned batches in the same order. Both come to their ends or neither does. If they do, then every
step answers the same in both, shows the same events and spans in the log, and leaves the same
tables, free identifiers, replies and loop, and the same calls and entries up to the secrets
themselves. -/
theorem performEach_secrets {xs ys : List Step}
    (hsteps : List.Forall₂ (Step.Like .secrets) xs ys) {order order' : VisitOrder Callback}
    (horder : order.Same order') (settings : Settings) (depth : Nat) :
    Option.Rel (fun p q => List.Forall₂ Stage.SameButSecrets p.1 q.1)
      (performEach depth xs (opened settings order))
      (performEach depth ys (opened settings order')) := by
  cases hx : performEach depth xs (opened settings order) with
  | some p =>
    obtain ⟨es, t', hy, hstages⟩ := like_performEach hsteps (like_opened horder settings) hx
    rw [hy]
    exact .some (hstages.imp fun _ _ => Stage.sameButSecrets_of_like)
  | none =>
    cases hy : performEach depth ys (opened settings order') with
    | none => exact .none
    | some q =>
      -- the other run is like the first one too, and would bring it to its end
      have hback : List.Forall₂ (Step.Like .secrets) ys xs :=
        hsteps.flip.imp fun _ _ => Step.like_symm mutual_secrets
      obtain ⟨ds, s', hx', -⟩ := like_performEach hback (like_opened horder.symm settings) hy
      rw [hx] at hx'
      cases hx'

/-- Connects with a password and sends a message, and passes on the one it receives. -/
def passOn (password : String) (body : Payload) : List Step :=
  [.scriptIds [1, 2], .setHandler .message ⟨"r", [.publish "u" body 0 none], .ok (), true⟩,
    .connect (some password), .publish "t" body 2 none, .receive "t" body 1 false none]

theorem passOn_like (password password' : String) {body body' : Payload}
    (hsize : body'.size = body.size) :
    List.Forall₂ (Step.Like .secrets) (passOn password body) (passOn password' body') := by
  have hsend (topic : String) (level : Nat) : Step.Like .secrets
      (.publish topic body level none) (.publish topic body' level none) :=
    .publish topic hsize level .none
  have hhandler : Reaction.Like .secrets ⟨"r", [.publish "u" body 0 none], .ok (), true⟩
      ⟨"r", [.publish "u" body' 0 none], .ok (), true⟩ :=
    .intro "r" true (.cons (hsend "u" 0) .nil) (fun _ => .inl rfl) (Licence.sameOutcome_refl _)
  refine .cons (.plain _ rfl) (.cons (.setHandler .message hhandler) (.cons (.connect rfl) ?_))
  exact .cons (hsend "t" 2) (.cons (.receive "t" hsize 1 false none) .nil)

/-- Other passwords, and other messages of one byte. -/
theorem performEach_secrets_passedOn :
    ∃ p q, performEach 3 (passOn "a" (.zeros 1)) (opened {} (.ascending _)) = some p ∧
      performEach 3 (passOn "b" (.bytes ⟨#[1]⟩)) (opened {} (.ascending _)) = some q ∧
      List.Forall₂ Stage.SameButSecrets p.1 q.1 := by
  have hsize : (Payload.bytes ⟨#[1]⟩).size = (Payload.zeros 1).size := rfl
  have horder : (VisitOrder.ascending Callback).Same (.ascending Callback) := fun _ _ _ h => h
  have hruns := performEach_secrets (passOn_like "a" "b" hsize) horder {} 3
  have hends : (performEach 3 (passOn "a" (.zeros 1)) (opened {} (.ascending _))).isSome := by
    decide +kernel
  obtain ⟨p, hp⟩ := Option.isSome_iff_exists.mp hends
  rw [hp] at hruns ⊢
  cases hq : performEach 3 (passOn "b" (.bytes ⟨#[1]⟩)) (opened {} (.ascending _)) with
  | none =>
    rw [hq] at hruns
    cases hruns
  | some q =>
    rw [hq] at hruns
    cases hruns with
    | some hsame => exact ⟨p, q, rfl, rfl, hsame⟩

end Session

end MqttLink
