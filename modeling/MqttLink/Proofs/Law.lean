import MqttLink.Proofs.Frame

/-!
Laws of the ledger. Whatever a session does, its ledger is only worked on by tracking, settling and
abandoning. Main statement: a relation that holds across these three and across everything that
leaves the ledger idle holds across every run, however deep its steps are nested.
-/

namespace MqttLink

/-- Entries of work on the ledger. -/
def Occurrence.onLedger : Occurrence → Bool
  | tracked _ _ | displaced _ _ | foundAcknowledged _ | settled _ => true
  | abandoned _ | invoked _ _ _ _ => true
  | _ => false

theorem Occurrence.not_onLedger_of_quiet {o : Occurrence} (h : o.quiet) : o.onLedger = false := by
  cases o with
  | tracked _ _ | displaced _ _ | foundAcknowledged _ | settled _ => cases h
  | abandoned _ | invoked _ _ _ _ => cases h
  | _ => rfl

namespace Session

open Play

/-- From `s` to `t` the ledger was not worked on. -/
structure Idle (s t : Session) : Prop where
  ledger : t.ledger = s.ledger
  journal : ∃ news : List Occurrence, t.journal = news ++ s.journal ∧ ∀ o ∈ news, ¬ o.onLedger

theorem idle_of_aside {s t : Session} (h : Aside s t) : Idle s t := by
  obtain ⟨news, hn, hq⟩ := h.journal
  refine ⟨h.ledger, news, hn, fun o ho => ?_⟩
  simp [Occurrence.not_onLedger_of_quiet (hq o ho)]

theorem idle_of_eq {s t : Session} (hl : t.ledger = s.ledger) (hj : t.journal = s.journal) :
    Idle s t :=
  ⟨hl, [], hj, by simp⟩

/-- A relation across work on the ledger, given that it holds across the steps of callbacks. -/
structure Law (R : Session → Session → Prop) : Prop where
  idle : ∀ ⦃s t⦄, Idle s t → R s t
  track : ∀ {run : Runner}, (∀ step, Within R (run step)) →
    ∀ id callback, Within R (Session.track run id callback)
  settle : ∀ {run : Runner}, (∀ step, Within R (run step)) → ∀ id, Within R (Session.settle run id)
  abandon : ∀ {run : Runner}, (∀ step, Within R (run step)) → Within R (Session.abandon run)

namespace Law

variable {R : Session → Session → Prop} [IsPreorder Session R] (law : Law R)
include law

omit [IsPreorder Session R] in
theorem aside ⦃s t : Session⦄ (h : Aside s t) : R s t :=
  law.idle (idle_of_aside h)

omit [IsPreorder Session R] in
theorem same {s t : Session} (hl : t.ledger = s.ledger) (hj : t.journal = s.journal) : R s t :=
  law.idle (idle_of_eq hl hj)

omit [IsPreorder Session R] in
/-- Entries that are not about the ledger go with any change of the client. -/
theorem noted (s : Session) (c : Client) {o : Occurrence} (h : o.onLedger = false) :
    R s (({ s with client := c } : Session).noted o) :=
  law.idle ⟨rfl, [o], rfl, by simp [h]⟩

/-- What is not work on the ledger is idle, whatever it does otherwise. -/
theorem frame : Frame (fun _ => True) R where
  carried _ _ _ _ _ _ := trivial
  noted := calm_of_aside law.aside
  held s t h := by
    have hbegun : R s { s with holders := s.holders + 1 } := law.same rfl rfl
    have hended : R t { t with holders := t.holders - 1 } := law.same rfl rfl
    exact IsTrans.trans _ _ _ hbegun (IsTrans.trans _ _ _ h hended)
  handled _ _ _ _ := law.same rfl rfl
  cleared _ := law.same rfl rfl
  dropped _ := law.same rfl rfl
  client _ _ _ _ := law.same rfl rfl
  started _ _ := law.same rfl rfl
  connected s c _ _ _ := law.noted s c rfl
  stopped s c _ := law.noted s c rfl
  detached _ := law.same rfl rfl
  queued _ _ _ := law.same rfl rfl
  hooked _ _ _ := law.same rfl rfl
  freed s id := law.noted s (s.client.reclaim id) rfl
  given s _ _ _ _ _ := law.noted s _ rfl
  track hrun id callback _ := law.track (fun n => hrun n trivial) id callback
  settle hrun := law.settle fun n => hrun n trivial
  abandon hrun := law.abandon fun n => hrun n trivial
  signal hrun _ _ _ _ h :=
    of_signal (calm_of_aside law.aside) h fun _ _ n _ => hrun n trivial
  callHook hrun _ _ _ _ _ h :=
    of_callHook (calm_of_aside law.aside) h fun _ _ n _ => hrun n trivial

theorem within_performTo (depth : Nat) (step : Step) : Within R (performTo depth step) :=
  law.frame.within_performTo depth trivial

theorem within_performAll {depth : Nat} {steps : List Step} : Within R (performAll depth steps) :=
  law.frame.within_performAll depth fun _ _ => trivial

end Law

/-! ## The journal grows -/

/-- From `s` to `t` nothing was struck from the journal. -/
def Grows (s t : Session) : Prop :=
  ∃ news, t.journal = news ++ s.journal

instance : IsPreorder Session Grows where
  refl _ := ⟨[], rfl⟩
  trans := by
    rintro s t u ⟨news, hn⟩ ⟨later, hl⟩
    exact ⟨later ++ news, by rw [hl, hn, List.append_assoc]⟩

theorem grows_note (o : Occurrence) : Within Grows (note o) :=
  within_note fun _ => ⟨[o], rfl⟩

theorem grows_onLedger {α : Type} (f : Ledger Callback → α × Ledger Callback) :
    Within Grows (onLedger f) := by
  intro s a t h
  cases h
  exact ⟨[], rfl⟩

theorem grows_of_aside ⦃s t : Session⦄ (h : Aside s t) : Grows s t := by
  obtain ⟨news, hn, -⟩ := h.journal
  exact ⟨news, hn⟩

section

variable {run : Runner} (hrun : ∀ step, Within Grows (run step))
include hrun

theorem grows_invoke (id : PacketId) (resolution : Resolution) (c : Callback) :
    Within Grows (invoke run id resolution c) :=
  within_invoke (calm_of_aside grows_of_aside) (fun _ => ⟨[_], rfl⟩) fun n _ => hrun n

theorem grows_invoke? (id : PacketId) (resolution : Resolution) (callback : Option Callback) :
    Within Grows (invoke? run id resolution callback) := by
  cases callback with
  | none => exact within_pure _
  | some c => exact grows_invoke hrun id resolution c

/-- Tracking begins with an entry of its own. -/
theorem grows_of_track {s t : Session} {id : PacketId} {callback : Option Callback}
    {r : Except Fatal Unit} (h : track run id callback s = some (r, t)) :
    Grows (s.noted (.tracked id callback)) t := by
  by_cases he : id ∈ s.ledger.early
  · rw [track_of_mem_early run he] at h
    have hnoted : Grows (s.noted (.tracked id callback))
        ((s.tracking id callback).noted (.foundAcknowledged id)) := ⟨[_], rfl⟩
    exact IsTrans.trans _ _ _ hnoted (grows_invoke? hrun _ _ _ h)
  · rw [track_of_not_mem_early run he] at h
    cases hp : s.ledger.pending[id]? with
    | none =>
      rw [hp] at h
      cases h
      exact ⟨[_], rfl⟩
    | some d =>
      rw [hp] at h
      cases h
      exact ⟨[_, _], rfl⟩

theorem grows_track (id : PacketId) (callback : Option Callback) :
    Within Grows (track run id callback) := by
  intro s r t h
  have hnoted : Grows s (s.noted (.tracked id callback)) := ⟨[_], rfl⟩
  exact IsTrans.trans _ _ _ hnoted (grows_of_track hrun h)

theorem grows_settle (id : PacketId) : Within Grows (settle run id) := by
  refine within_bind (grows_onLedger _) fun settled => ?_
  match settled with
  | some _ => exact within_bind (grows_note _) fun _ => grows_invoke? hrun _ _ _
  | none => exact within_bind (grows_note _) fun _ => within_pure _

theorem grows_abandon : Within Grows (abandon run) := by
  intro s r t h
  rw [abandon_apply] at h
  have hbatch : Grows s.abandoning t :=
    within_cancelEach (calm_of_aside grows_of_aside) _ (fun _ _ _ => grows_invoke hrun _ _ _) h
  have habandoning : Grows s s.abandoning := ⟨[_], rfl⟩
  exact IsTrans.trans _ _ _ habandoning hbatch

end

/-- Whatever a session does, it strikes nothing from the journal. -/
theorem law_grows : Law Grows where
  idle _ _ h := ⟨h.journal.choose, h.journal.choose_spec.1⟩
  track hrun := grows_track hrun
  settle hrun := grows_settle hrun
  abandon hrun := grows_abandon hrun

end Session

end MqttLink
