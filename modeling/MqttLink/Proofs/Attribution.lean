import MqttLink.Proofs.Law

/-!
Who calls a callback. The entry before a call tells its reason: an acknowledgement that has just met
its operation, in which case the callback hears that the operation is completed, or anything else,
in which case it was taken from an abandoned batch and hears that the operation is cancelled. Main
statement: the journal of every run is of this form.
-/

namespace MqttLink

/-- The entry of an acknowledgement that meets the operation it acknowledges. -/
def Occurrence.meets (id : PacketId) (o : Occurrence) : Prop :=
  o = .settled id ∨ o = .foundAcknowledged id

/-- What has to stand right before an entry of a journal that keeps the newest first. -/
def Occurrence.Follows (older : List Occurrence) : Occurrence → Prop
  | invoked id _ .completed _ => ∃ o rest, older = o :: rest ∧ o.meets id
  | invoked _ _ .cancelled _ => ∀ o rest, older = o :: rest → ∀ k, ¬ o.meets k
  | displaced id _ => ∃ callback rest, older = .tracked id callback :: rest
  | _ => True

/-- Every call and every displacement in the journal stands right after its reason. -/
def Attributed : List Occurrence → Prop
  | [] => True
  | o :: older => o.Follows older ∧ Attributed older

namespace Session

open Play

variable {s t : Session}

theorem attributed_append {news older : List Occurrence} (hn : ∀ o ∈ news, ¬ o.onLedger)
    (h : Attributed older) : Attributed (news ++ older) := by
  induction news with
  | nil => exact h
  | cons o news ih =>
    refine ⟨?_, ih fun o' ho' => hn o' (List.mem_cons_of_mem _ ho')⟩
    have ho := hn o (List.mem_cons_self ..)
    unfold Occurrence.Follows
    split
    · exact absurd rfl ho
    · exact absurd rfl ho
    · exact absurd rfl ho
    · trivial

/-- The journal does not lose its form. -/
def KeepsAttribution : Session → Session → Prop :=
  Keeping fun s => Attributed s.journal

instance : IsPreorder Session KeepsAttribution :=
  inferInstanceAs (IsPreorder Session (Keeping fun s => Attributed s.journal))

theorem attributed_of_idle ⦃s t : Session⦄ (h : Idle s t) : KeepsAttribution s t := by
  intro hs
  obtain ⟨news, hn, hq⟩ := h.journal
  rw [hn]
  exact attributed_append hq hs

theorem attributed_of_aside ⦃s t : Session⦄ (h : Aside s t) : KeepsAttribution s t :=
  attributed_of_idle (idle_of_aside h)

/-- No acknowledgement has just met its operation. -/
def Unmet (s : Session) : Prop :=
  ∀ o rest, s.journal = o :: rest → ∀ k, ¬ o.meets k

theorem unmet_noted (s : Session) {o : Occurrence} (h : ∀ k, ¬ o.meets k) :
    (s.noted o).Unmet := by
  intro o' rest ho k
  obtain ⟨rfl, -⟩ := List.cons.inj ho
  exact h k

theorem unmet_of_aside (h : Aside s t) (hs : s.Unmet) : t.Unmet := by
  obtain ⟨news, hn, hq⟩ := h.journal
  intro o rest ho k hk
  cases news with
  | nil =>
    rw [hn] at ho
    exact hs o rest ho k hk
  | cons o' news =>
    rw [hn] at ho
    obtain ⟨rfl, -⟩ := List.cons.inj ho
    have := hq o' (List.mem_cons_self ..)
    rcases hk with rfl | rfl <;> cases this

section

variable {run : Runner}
  (hrun : ∀ step, Within KeepsAttribution (run step))

/-- When a callback comes back, the last entry is none of a meeting. -/
theorem unmet_runSteps {stopsOnFault : Bool} {steps : List Step} {r : Option Fault}
    (h : runSteps run stopsOnFault steps s = some (r, t)) (hs : s.Unmet) : t.Unmet := by
  induction steps generalizing s with
  | nil =>
    cases h
    exact hs
  | cons step rest ih =>
    obtain ⟨answer, u, -, h⟩ := bind_eq_some_iff.mp h
    obtain ⟨_, v, hv, h⟩ := bind_eq_some_iff.mp h
    cases hv
    have hv : (u.noted (.acted step.name answer)).Unmet := unmet_noted u (by
      simp [Occurrence.meets])
    cases hf : answer.fault? with
    | none =>
      rw [hf] at h
      exact ih h hv
    | some f =>
      rw [hf] at h
      cases stopsOnFault with
      | true =>
        cases h
        exact hv
      | false => exact ih h hv

include hrun

theorem attributed_invoke {id : PacketId} {resolution : Resolution} {c : Callback}
    {r : Except Fatal Unit} (h : invoke run id resolution c s = some (r, t))
    (hs : Attributed s.journal)
    (hf : (Occurrence.invoked id c resolution s.view).Follows s.journal) :
    Attributed t.journal ∧ t.Unmet := by
  rw [invoke_apply] at h
  obtain ⟨outcome, v, hv, h⟩ := bind_eq_some_iff.mp h
  obtain ⟨fault, u, hu, hv⟩ := bind_eq_some_iff.mp hv
  have hkeep : Attributed u.journal :=
    within_runSteps (calm_of_aside attributed_of_aside) c.stopsOnFault (fun n _ => hrun n) hu
      ⟨hf, hs⟩
  have hunmet : u.Unmet := unmet_runSteps hu (unmet_noted s (by simp [Occurrence.meets]))
  have hvu : v = u := by
    cases fault <;> cases hv <;> rfl
  have haside := aside_contain _ _ h
  rw [hvu] at haside
  exact ⟨attributed_of_aside haside hkeep, unmet_of_aside haside hunmet⟩

theorem attributed_invoke? {id : PacketId} {callback : Option Callback} {o : Occurrence}
    {r : Except Fatal Unit} (h : invoke? run id .completed callback (s.noted o) = some (r, t))
    (ho : o.meets id) (hs : Attributed (s.noted o).journal) : Attributed t.journal := by
  cases callback with
  | none =>
    cases h
    exact hs
  | some c => exact (attributed_invoke hrun h hs ⟨o, _, rfl, ho⟩).1

theorem attributed_track (id : PacketId) (callback : Option Callback) :
    Within KeepsAttribution (track run id callback) := by
  intro s r t h hs
  have htrack : Attributed (s.tracking id callback).journal := ⟨trivial, hs⟩
  by_cases he : id ∈ s.ledger.early
  · rw [track_of_mem_early run he] at h
    exact attributed_invoke? hrun h (.inr rfl) ⟨trivial, htrack⟩
  · rw [track_of_not_mem_early run he] at h
    cases hp : s.ledger.pending[id]? with
    | none =>
      rw [hp] at h
      cases h
      exact ⟨trivial, htrack⟩
    | some d =>
      rw [hp] at h
      cases h
      exact ⟨trivial, ⟨callback, _, rfl⟩, htrack⟩

theorem attributed_settle (id : PacketId) :
    Within KeepsAttribution (settle run id) := by
  intro s r t h hs
  cases hp : s.ledger.pending[id]? with
  | none =>
    rw [settle_of_not_pending run hp] at h
    cases h
    exact ⟨trivial, hs⟩
  | some callback =>
    rw [settle_of_pending run hp] at h
    exact attributed_invoke? hrun h (.inl rfl) ⟨trivial, hs⟩

theorem attributed_cancelEach {batch : List (Ledger.Entry Callback)} {first r : Except Fatal Unit}
    (h : cancelEach run first batch s = some (r, t)) (hs : Attributed s.journal)
    (hu : s.Unmet) : Attributed t.journal := by
  induction batch generalizing s first with
  | nil =>
    cases h
    exact hs
  | cons e rest ih =>
    obtain ⟨id, callback⟩ := e
    cases callback with
    | none => exact ih h hs hu
    | some c =>
      obtain ⟨q, v, kept, w, hinvoke, haside, -, hrest⟩ := exists_invoke_of_cancelEach h
      obtain ⟨hv, hvu⟩ := attributed_invoke hrun hinvoke hs hu
      exact ih hrest (attributed_of_aside haside hv) (unmet_of_aside haside hvu)

end

/-- Whatever a session does, each call stands right after its reason in the journal. -/
theorem law_attributed : Law KeepsAttribution where
  idle := attributed_of_idle
  track hrun := attributed_track hrun
  settle hrun := attributed_settle hrun
  abandon hrun s _ _ h hs := attributed_cancelEach hrun h ⟨trivial, hs⟩
    (unmet_noted _ (by simp [Occurrence.meets]))

end Session

end MqttLink
