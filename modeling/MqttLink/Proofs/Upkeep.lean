import MqttLink.Proofs.Frame

/-!
Bounds on what a session stores. Callbacks, handlers and issue hooks are stored until they are
called, so that what one step may do depends on what earlier steps handed over. Main statement: if
all that is handed over stays within some bounds, a relation that holds across what a session does
by itself holds across whole runs.
-/

namespace MqttLink

/-- `P` holds of a step, and in turn of every step that is run by the callback, the handler or the
issue hook which it hands over. -/
inductive Step.Throughout (P : Step → Prop) : Step → Prop
  | intro (step : Step) (own : P step)
      (carried : ∀ c, step.carried? = some c → ∀ n ∈ c.steps, Step.Throughout P n)
      (scripted : ∀ hook, step = .setIssueHook hook → ∀ id, ∀ n ∈ hook.script id,
        Step.Throughout P n) : Step.Throughout P step

theorem Step.Throughout.own {P : Step → Prop} {step : Step} (h : step.Throughout P) : P step := by
  cases h with
  | intro _ own _ _ => exact own

theorem Step.Throughout.carried {P : Step → Prop} {step : Step} (h : step.Throughout P)
    {c : Callback} (hc : step.carried? = some c) : ∀ n ∈ c.steps, n.Throughout P := by
  cases h with
  | intro _ _ carried _ => exact carried c hc

theorem Step.Throughout.scripted {P : Step → Prop} {hook : IssueHook Step}
    (h : Step.Throughout P (.setIssueHook hook)) (id : PacketId) :
    ∀ n ∈ hook.script id, n.Throughout P := by
  cases h with
  | intro _ _ _ scripted => exact scripted hook rfl id

/-- Entries that tell neither of identifiers nor of the network loop. -/
def Occurrence.plain : Occurrence → Bool
  | issued _ _ _ | acknowledged _ | connectDone | loopStopped => false
  | _ => true

theorem Occurrence.plain_of_calm {o : Occurrence} (h : o.calm) : o.plain := by
  cases o with
  | issued _ _ _ | acknowledged _ | connectDone | loopStopped => cases h
  | _ => rfl

/-- The next identifier comes from the queue or from the pool. -/
theorem Client.exists_of_takeId {c d : Client} {id : PacketId} (h : c.takeId = some (id, d)) :
    ∃ ids pool, d = { c with queuedIds := ids, pool := pool } := by
  unfold takeId at h
  split at h
  · cases h
    exact ⟨_, _, rfl⟩
  · obtain ⟨_, -, heq⟩ := Option.map_eq_some_iff.mp h
    cases heq
    exact ⟨_, _, rfl⟩

namespace Session

open Play

variable {A : Step → Prop} {Q : Session → Session → Prop} {s t : Session} {id : PacketId}

/-- All that is stored runs only steps that satisfy `A`. -/
structure Stored (A : Step → Prop) (s : Session) : Prop where
  waiting : s.ledger.All fun c => ∀ n ∈ c.steps, A n
  handlers : ∀ slot c, s.handlers slot = some c → ∀ n ∈ c.steps, A n
  hook : ∀ hook, s.client.issueHook = some hook → ∀ id, ∀ n ∈ hook.script id, A n

theorem stored_opened (settings : Settings) (order : VisitOrder Callback) :
    (opened settings order).Stored A :=
  ⟨Ledger.all_empty, nofun, nofun⟩

theorem stored_of_aside (h : Aside s t) (hs : s.Stored A) : t.Stored A where
  waiting := by rw [h.ledger]; exact hs.waiting
  handlers := by rw [h.handlers]; exact hs.handlers
  hook := by rw [h.issueHook]; exact hs.hook

theorem stored_withLedger (hs : s.Stored A) {l : Ledger Callback}
    (hl : l.All fun c => ∀ n ∈ c.steps, A n) : (s.withLedger l).Stored A :=
  { hs with waiting := hl }

theorem stored_setHandler (hs : s.Stored A) (slot : Slot) {c : Callback}
    (hc : ∀ n ∈ c.steps, A n) : (s.setHandler slot c).Stored A where
  waiting := hs.waiting
  handlers k d hk := by
    simp only [setHandler] at hk
    split at hk
    · cases hk
      exact hc
    · exact hs.handlers k d hk
  hook := hs.hook

/-- What is stored stays within the bounds, and if it did before then `Q` holds. -/
def Guarded (A : Step → Prop) (Q : Session → Session → Prop) (s t : Session) : Prop :=
  s.Stored A → t.Stored A ∧ Q s t

instance [IsPreorder Session Q] : IsPreorder Session (Guarded A Q) where
  refl s hs := ⟨hs, refl s⟩
  trans _ _ _ h k hs := by
    obtain ⟨ht, hst⟩ := h hs
    obtain ⟨hu, htu⟩ := k ht
    exact ⟨hu, IsTrans.trans _ _ _ hst htu⟩

/-- A relation across what a session does by itself, where steps that satisfy `A` hand over only
steps that do so too. It is about the identifiers, the network loop, who holds the link, whether the
link listens, and the entries that tell of these. -/
structure Upkeep (A : Step → Prop) (Q : Session → Session → Prop) : Prop where
  carried : ∀ ⦃step c⦄, A step → step.carried? = some c → ∀ n ∈ c.steps, A n
  scripted : ∀ ⦃hook⦄, A (.setIssueHook hook) → ∀ id, ∀ n ∈ hook.script id, A n
  noted : ∀ s o, o.plain → Q s (s.noted o)
  same : ∀ s t, t.journal = s.journal → t.holders = s.holders → (t.owned → s.owned) →
    (t.client.sink → s.client.sink) → t.client.pool = s.client.pool →
    t.client.queuedIds = s.client.queuedIds → t.client.looping = s.client.looping → Q s t
  held : ∀ ⦃s t⦄, Q { s with holders := s.holders + 1 } t → Q s { t with holders := t.holders - 1 }
  started : ∀ s, A .clientStartLoop → Q s { s with client := s.client.startLoop.2 }
  connected : ∀ s c password, A (.connect password) → s.client.startLoop = (.ok (), c) →
    Q s (s.starting c)
  stopped : ∀ s c, s.client.stopLoop = (.ok (), c) → Q s (s.stopping c)
  queued : ∀ s ids, A (.scriptIds ids) →
    Q s { s with client := { s.client with queuedIds := s.client.queuedIds ++ ids } }
  freed : ∀ s id, Q s (s.freeing id)
  given : ∀ s m id c code, s.client.takeId = some (id, c) →
    Q s (s.giving m id code (if code = 0 then c else c.reclaim id))

namespace Upkeep

variable [IsPreorder Session Q] (hQ : Upkeep A Q)
include hQ

omit [IsPreorder Session Q] in
theorem guarded_noted (s : Session) {o : Occurrence} (h : o.plain) :
    Guarded A Q s (s.noted o) :=
  fun hs => ⟨{ hs with }, hQ.noted s o h⟩

omit [IsPreorder Session Q] in
theorem guarded_calm (s : Session) (o : Occurrence) (h : o.calm) : Guarded A Q s (s.noted o) :=
  hQ.guarded_noted s (Occurrence.plain_of_calm h)

omit [IsPreorder Session Q] in
theorem guarded_withLedger (s : Session) {l : Ledger Callback}
    (hl : s.Stored A → l.All fun c => ∀ n ∈ c.steps, A n) : Guarded A Q s (s.withLedger l) :=
  fun hs => ⟨stored_withLedger hs (hl hs), hQ.same _ _ rfl rfl id id rfl rfl rfl⟩

section

variable {run : Runner} (hrun : ∀ n, A n → Within (Guarded A Q) (run n))
include hrun

theorem guarded_invoke {resolution : Resolution} {c : Callback} (hc : ∀ n ∈ c.steps, A n) :
    Within (Guarded A Q) (invoke run id resolution c) :=
  within_invoke hQ.guarded_calm (fun s => hQ.guarded_noted s rfl) fun n hn => hrun n (hc n hn)

theorem guarded_invoke? {resolution : Resolution} {callback : Option Callback}
    (hc : ∀ c, callback = some c → ∀ n ∈ c.steps, A n) :
    Within (Guarded A Q) (invoke? run id resolution callback) := by
  cases callback with
  | none => exact within_pure _
  | some c => exact hQ.guarded_invoke hrun (hc c rfl)

theorem guarded_track {callback : Option Callback}
    (hc : ∀ c, callback = some c → ∀ n ∈ c.steps, A n) :
    Within (Guarded A Q) (track run id callback) := by
  intro s r t h
  have htracking : Guarded A Q s (s.tracking id callback) :=
    IsTrans.trans _ _ _ (hQ.guarded_noted s rfl) (hQ.guarded_withLedger (s.noted _) fun hs =>
      Ledger.all_track hs.waiting id hc)
  refine IsTrans.trans _ _ _ htracking ?_
  by_cases he : id ∈ s.ledger.early
  · rw [track_of_mem_early run he] at h
    exact IsTrans.trans _ _ _ (hQ.guarded_noted _ rfl) (hQ.guarded_invoke? hrun hc h)
  · rw [track_of_not_mem_early run he] at h
    cases hp : s.ledger.pending[id]? with
    | none =>
      rw [hp] at h
      cases h
      exact hQ.guarded_noted _ rfl
    | some d =>
      rw [hp] at h
      cases h
      exact IsTrans.trans _ _ _ (hQ.guarded_noted _ rfl) (hQ.guarded_noted _ rfl)

theorem guarded_settle : Within (Guarded A Q) (settle run id) := by
  intro s r t h hs
  have hsettling : Guarded A Q s (s.settling id) :=
    hQ.guarded_withLedger s fun hs => Ledger.all_settle hs.waiting id
  refine IsTrans.trans _ _ _ hsettling ?_ hs
  cases hp : s.ledger.pending[id]? with
  | none =>
    rw [settle_of_not_pending run hp] at h
    cases h
    exact hQ.guarded_noted _ rfl
  | some callback =>
    rw [settle_of_pending run hp] at h
    exact IsTrans.trans _ _ _ (hQ.guarded_noted _ rfl)
      (hQ.guarded_invoke? hrun (fun c hc => hs.waiting id c (by rw [hp, hc])) h)

theorem guarded_abandon : Within (Guarded A Q) (abandon run) := by
  intro s r t h hs
  rw [abandon_apply] at h
  have habandoning : Guarded A Q s s.abandoning := fun hs =>
    ⟨{ hs with waiting := Ledger.all_empty },
      IsTrans.trans _ _ _ (hQ.noted s _ rfl) (hQ.same _ _ rfl rfl id id rfl rfl rfl)⟩
  exact IsTrans.trans _ _ _ habandoning (within_cancelEach hQ.guarded_calm _
    (fun k c hm => hQ.guarded_invoke hrun (hs.waiting k c (mem_batch.mp hm))) h) hs

end

/-- What is stored stays within the bounds, whatever a session does. -/
theorem frame : Frame A (Guarded A Q) where
  carried := hQ.carried
  noted := hQ.guarded_calm
  held s t h hs := by
    obtain ⟨ht, hst⟩ := h { hs with }
    exact ⟨{ ht with }, hQ.held hst⟩
  handled s slot c h hs :=
    ⟨stored_setHandler hs slot (hQ.carried h rfl), hQ.same _ _ rfl rfl id id rfl rfl rfl⟩
  cleared s hs := ⟨{ hs with handlers := nofun }, hQ.same _ _ rfl rfl id id rfl rfl rfl⟩
  dropped s hs := ⟨{ hs with }, hQ.same _ _ rfl rfl nofun id rfl rfl rfl⟩
  client s c h hl hs :=
    ⟨stored_of_aside (aside_client s h) hs,
      hQ.same _ _ rfl rfl id (by rw [h.sink]; exact id) h.pool h.queuedIds hl⟩
  started s h hs :=
    ⟨stored_of_aside (aside_client s (Client.steady_startLoop _)) hs, hQ.started s h⟩
  connected s c password hA h hs :=
    ⟨stored_of_aside (aside_starting h) hs, hQ.connected s c password hA h⟩
  stopped s c h hs := ⟨stored_of_aside (aside_stopping h) hs, hQ.stopped s c h⟩
  detached s hs := ⟨{ hs with }, hQ.same _ _ rfl rfl id nofun rfl rfl rfl⟩
  queued s ids h hs := ⟨{ hs with }, hQ.queued s ids h⟩
  hooked s hook h hs :=
    ⟨{ hs with hook := fun other hother => by cases hother; exact hQ.scripted h },
      hQ.same _ _ rfl rfl id id rfl rfl rfl⟩
  freed s id hs := ⟨{ hs with }, hQ.freed s id⟩
  given s m id c code h hs := by
    refine ⟨{ hs with hook := fun hook hhook => hs.hook hook ?_ }, hQ.given s m id c code h⟩
    obtain ⟨ids, pool, rfl⟩ := Client.exists_of_takeId h
    rw [← hhook, giving, noted_client]
    simp only
    split <;> rfl
  track hrun id callback hc := hQ.guarded_track hrun hc
  settle hrun id := hQ.guarded_settle hrun
  abandon hrun := hQ.guarded_abandon hrun
  signal hrun x s r t h hs :=
    of_signal hQ.guarded_calm h (fun c hc n hn => hrun n (hs.handlers _ c hc n hn)) hs
  callHook hrun m id s r t h hs :=
    of_callHook hQ.guarded_calm h (fun hook hc n hn => hrun n (hs.hook hook hc id n hn)) hs

end Upkeep

end Session

end MqttLink
