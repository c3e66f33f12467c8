import MqttLink.Proofs.Weight

/-!
Work on the ledger comes to an end. Callbacks may work on the ledger again when they are called,
with further callbacks, but the number of callbacks that wait or are still to be handed over goes
down with each call. Main statement: every run of such steps comes to its end, if it may be nested
as deeply as there are callbacks.
-/

namespace MqttLink

/-- Steps that do no more than work on the ledger. -/
def Step.onLedger : Step → Bool
  | track _ _ | settle _ | abandon => true
  | _ => false

/-- Steps that work on the ledger or ask it. -/
def Step.aboutLedger : Step → Bool
  | track _ _ | settle _ | abandon | trackAll _ _ | settleAll _ | inspect _ | describe => true
  | _ => false

theorem Step.aboutLedger_of_onLedger (step : Step) (h : step.onLedger) : step.aboutLedger := by
  cases step <;> first | rfl | cases h

namespace Session

open Play

variable {α β : Type} {s : Session}

/-- The link is there, and no callback that waits does more than work on the ledger or ask it. -/
structure Ready (s : Session) : Prop where
  owned : s.owned
  waiting : s.ledger.All (·.Confined (·.aboutLedger))

/-- `x` comes to an end, with at most `n` callbacks left to call. -/
def Ends (x : Play α) (s : Session) (n : Nat) : Prop :=
  ∃ a t, x s = some (a, t) ∧ t.Ready ∧ t.ledger.weight ≤ n

theorem ready_of_aside {t : Session} (h : Aside s t) (hs : s.Ready) : t.Ready :=
  ⟨by rw [h.owned]; exact hs.owned, by rw [h.ledger]; exact hs.waiting⟩

theorem ends_pure (hs : s.Ready) (a : α) : Ends (pure a) s s.ledger.weight :=
  ⟨a, s, rfl, hs, Nat.le_refl _⟩

theorem ends_bind {x : Play α} {f : α → Play β} {m n : Nat} (hx : Ends x s m)
    (hf : ∀ a t, t.Ready → t.ledger.weight ≤ m → Ends (f a) t n) : Ends (x >>= f) s n := by
  obtain ⟨a, t, hxs, ht, hm⟩ := hx
  obtain ⟨b, u, hft, hu, hn⟩ := hf a t ht hm
  exact ⟨b, u, by rw [bind_of_eq_some hxs, hft], hu, hn⟩

theorem Ends.mono {x : Play α} {m n : Nat} (hx : Ends x s m) (h : m ≤ n) : Ends x s n := by
  obtain ⟨a, t, hxs, ht, hm⟩ := hx
  exact ⟨a, t, hxs, ht, Nat.le_trans hm h⟩

/-- What follows a play that ends with `m` callbacks left and hands on what it found. -/
theorem ends_map {x : Play α} {f : α → β} {m : Nat} (hx : Ends x s m) :
    Ends (do return f (← x)) s m :=
  ends_bind hx fun a _ ht hm => (ends_pure ht (f a)).mono hm

theorem ends_after_note {o : Occurrence} {f : Unit → Play β} {n : Nat}
    (h : Ends (f ()) (s.noted o) n) : Ends (note o >>= f) s n := h

/-! ## Callbacks -/

/-- Runs every step about the ledger to its end, as long as fewer than `depth` callbacks are left to
call. -/
def Obliging (depth : Nat) (run : Runner) : Prop :=
  ∀ ⦃step : Step⦄ ⦃s⦄, step.All (·.aboutLedger) → s.Ready → s.ledger.weight + step.weight < depth →
    Ends (run step) s (s.ledger.weight + step.weight)

section

variable {depth : Nat} {run : Runner} (hrun : Obliging depth run)
include hrun

theorem ends_runSteps (stopsOnFault : Bool) {steps : List Step}
    (hsteps : ∀ n ∈ steps, n.All (·.aboutLedger)) (hs : s.Ready)
    (hw : s.ledger.weight + stepsWeight steps < depth) :
    Ends (runSteps run stopsOnFault steps) s (s.ledger.weight + stepsWeight steps) := by
  induction steps generalizing s with
  | nil => exact (ends_pure hs none).mono (Nat.le_add_right _ _)
  | cons step rest ih =>
    have hrest := fun n hn => hsteps n (List.mem_cons_of_mem _ hn)
    rw [stepsWeight_cons] at hw ⊢
    refine ends_bind (hrun (hsteps step (List.mem_cons_self ..)) hs (by omega))
      fun answer t ht hm => ends_after_note ?_
    have ht' : (t.noted (.acted step.name answer)).Ready :=
      ready_of_aside (aside_noted t rfl) ht
    have hi : Ends (runSteps run stopsOnFault rest) (t.noted (.acted step.name answer))
        (s.ledger.weight + (step.weight + stepsWeight rest)) := by
      have hn : (t.noted (.acted step.name answer)).ledger.weight = t.ledger.weight := rfl
      exact (ih hrest ht' (by omega)).mono (by omega)
    cases answer.fault? with
    | none => exact hi
    | some f =>
      cases stopsOnFault with
      | true => exact (ends_pure ht' (some f)).mono (by rw [noted_ledger]; omega)
      | false => exact hi

/-- A call uses up one callback. -/
theorem ends_invoke (id : PacketId) (resolution : Resolution) {c : Callback}
    (hc : c.Confined (·.aboutLedger)) (hs : s.Ready)
    (hw : s.ledger.weight + callbackWeight c ≤ depth) :
    Ends (invoke run id resolution c) s (s.ledger.weight + stepsWeight c.steps) := by
  rw [callbackWeight_eq] at hw
  have hs' : (s.noted (.invoked id c resolution s.view)).Ready := ⟨hs.owned, hs.waiting⟩
  have hsteps := ends_runSteps hrun c.stopsOnFault hc hs' (by rw [noted_ledger]; omega)
  have hreact : Ends (react run c) (s.noted (.invoked id c resolution s.view))
      (s.ledger.weight + stepsWeight c.steps) := by
    refine ends_bind hsteps fun fault t ht hm => ?_
    cases fault with
    | none => exact (ends_pure ht _).mono hm
    | some f => exact (ends_pure ht _).mono hm
  unfold Ends
  rw [invoke_apply]
  refine ends_bind hreact fun outcome t ht hm => ?_
  obtain ⟨r, u, hu, htu⟩ := contain_apply .callback outcome t
  exact ⟨r, u, hu, ready_of_aside htu ht, by rw [htu.ledger]; exact hm⟩

theorem ends_invoke? (id : PacketId) (resolution : Resolution) {callback : Option Callback}
    (hc : ∀ c, callback = some c → c.Confined (·.aboutLedger)) (hs : s.Ready)
    (hw : s.ledger.weight + callbackWeight? callback ≤ depth) :
    Ends (invoke? run id resolution callback) s (s.ledger.weight + callbackWeight? callback) := by
  cases callback with
  | none => exact (ends_pure hs _).mono (Nat.le_add_right _ _)
  | some c =>
    rw [callbackWeight?] at hw ⊢
    refine (ends_invoke hrun id resolution (hc c rfl) hs hw).mono ?_
    rw [callbackWeight_eq]
    omega

/-! ## Work on the ledger -/

theorem ends_track (id : PacketId) {callback : Option Callback}
    (hc : ∀ c, callback = some c → c.Confined (·.aboutLedger)) (hs : s.Ready)
    (hw : s.ledger.weight + callbackWeight? callback ≤ depth) :
    Ends (track run id callback) s (s.ledger.weight + callbackWeight? callback) := by
  have htrack : (s.tracking id callback).Ready :=
    ⟨hs.owned, Ledger.all_track hs.waiting id hc⟩
  by_cases he : id ∈ s.ledger.early
  · have hsame : (s.tracking id callback).ledger.weight = s.ledger.weight :=
      Ledger.weight_track_of_mem_early he callback
    have h := ends_invoke? (s := (s.tracking id callback).noted (.foundAcknowledged id)) hrun id
      .completed hc ⟨htrack.owned, htrack.waiting⟩ (by rw [noted_ledger]; omega)
    rw [noted_ledger, hsame] at h
    unfold Ends
    rw [track_of_mem_early run he]
    exact h
  · have hle : (s.tracking id callback).ledger.weight ≤
        s.ledger.weight + callbackWeight? callback :=
      Ledger.weight_track_le _ _ _
    unfold Ends
    rw [track_of_not_mem_early run he]
    cases s.ledger.pending[id]? with
    | none => exact ⟨_, _, rfl, ⟨htrack.owned, htrack.waiting⟩, hle⟩
    | some d => exact ⟨_, _, rfl, ⟨htrack.owned, htrack.waiting⟩, hle⟩

theorem ends_settle (id : PacketId) (hs : s.Ready) (hw : s.ledger.weight ≤ depth) :
    Ends (settle run id) s s.ledger.weight := by
  have hsettle : (s.settling id).Ready := ⟨hs.owned, Ledger.all_settle hs.waiting id⟩
  unfold Ends
  cases hp : s.ledger.pending[id]? with
  | none =>
    rw [settle_of_not_pending run hp]
    exact ⟨_, _, rfl, ⟨hsettle.owned, hsettle.waiting⟩,
      Nat.le_of_eq (Ledger.weight_settle_of_not_pending hp)⟩
  | some callback =>
    have hweight : (s.settling id).ledger.weight + callbackWeight? callback = s.ledger.weight :=
      Ledger.weight_settle_of_pending hp
    have hc : ∀ c, callback = some c → c.Confined (·.aboutLedger) := fun c hc =>
      hs.waiting id c (by rw [hp, hc])
    have h := ends_invoke? (s := (s.settling id).noted (.settled id)) hrun id .completed hc
      ⟨hsettle.owned, hsettle.waiting⟩ (by rw [noted_ledger]; omega)
    rw [noted_ledger, hweight] at h
    rw [settle_of_pending run hp]
    exact h

theorem ends_cancelEach {batch : List (Ledger.Entry Callback)} (first : Except Fatal Unit)
    (hc : ∀ e ∈ batch, ∀ c, e.2 = some c → c.Confined (·.aboutLedger)) (hs : s.Ready)
    (hw : s.ledger.weight + Ledger.entriesWeight batch ≤ depth) :
    Ends (cancelEach run first batch) s (s.ledger.weight + Ledger.entriesWeight batch) := by
  induction batch generalizing s first with
  | nil => exact (ends_pure hs first).mono (Nat.le_add_right _ _)
  | cons e rest ih =>
    have hrest := fun e he => hc e (List.mem_cons_of_mem _ he)
    rw [Ledger.entriesWeight_cons] at hw ⊢
    obtain ⟨id, callback⟩ := e
    cases callback with
    | none => exact (ih first hrest hs (by omega)).mono (by omega)
    | some c =>
      have hone : callbackWeight? (id, some c).2 = stepsWeight c.steps + 1 := by
        rw [callbackWeight?, callbackWeight_eq]
      rw [hone] at hw ⊢
      rw [cancelEach_cons]
      refine ends_bind (ends_invoke hrun id .cancelled
        (hc _ (List.mem_cons_self ..) c rfl) hs (by rw [callbackWeight_eq]; omega))
        fun r t ht hm => ?_
      obtain ⟨kept, u, hu, haside, -⟩ := exists_keep id first r t
      have htu : u.ledger.weight = t.ledger.weight := by rw [haside.ledger]
      have hi : Ends (cancelEach run kept rest) u
          (s.ledger.weight + (stepsWeight c.steps + 1 + Ledger.entriesWeight rest)) :=
        (ih kept hrest (ready_of_aside haside ht) (by omega)).mono (by omega)
      unfold Ends
      rw [bind_of_eq_some hu]
      exact hi

theorem ends_abandon (hs : s.Ready) (hw : s.ledger.weight ≤ depth) :
    Ends (abandon run) s s.ledger.weight := by
  have hbatch : Ledger.entriesWeight s.batch = s.ledger.weight :=
    Ledger.entriesWeight_of_perm s.batch_perm
  have hempty : s.abandoning.ledger.weight = 0 := Ledger.weight_empty
  have hc : ∀ e ∈ s.batch, ∀ c, e.2 = some c → c.Confined (·.aboutLedger) := by
    rintro ⟨id, callback⟩ he c rfl
    exact hs.waiting id c (mem_batch.mp he)
  have h := ends_cancelEach (s := s.abandoning) hrun (.ok ()) hc
    ⟨hs.owned, Ledger.all_empty⟩ (by omega)
  rw [hbatch, hempty, Nat.zero_add] at h
  unfold Ends
  rw [abandon_apply]
  exact h

theorem ends_trackAll (ids : List PacketId) {callback : Option Callback}
    (hc : ∀ c, callback = some c → c.Confined (·.aboutLedger)) (hs : s.Ready)
    (hw : s.ledger.weight + ids.length * callbackWeight? callback ≤ depth) :
    Ends (trackAll run callback ids) s
      (s.ledger.weight + ids.length * callbackWeight? callback) := by
  induction ids generalizing s with
  | nil => exact (ends_pure hs _).mono (Nat.le_add_right _ _)
  | cons id rest ih =>
    rw [List.length_cons, Nat.succ_mul] at hw ⊢
    refine ends_bind (ends_track hrun id hc hs (by omega)) fun r t ht hm => ?_
    cases r with
    | ok _ => exact (ih ht (by omega)).mono (by omega)
    | error f => exact (ends_pure ht _).mono (by omega)

theorem ends_settleAll (ids : List PacketId) (hs : s.Ready) (hw : s.ledger.weight ≤ depth) :
    Ends (settleAll run ids) s s.ledger.weight := by
  induction ids generalizing s with
  | nil => exact ends_pure hs _
  | cons id rest ih =>
    refine ends_bind (ends_settle hrun id hs hw) fun r t ht hm => ?_
    cases r with
    | ok _ => exact (ih ht (by omega)).mono hm
    | error f => exact (ends_pure ht _).mono hm

end

/-! ## Steps and runs -/

theorem ends_withLink {x : Play Answer} {n : Nat} (hs : s.Ready)
    (hx : Ends x { s with holders := s.holders + 1 } n) : Ends (withLink x) s n := by
  obtain ⟨a, t, hxs, ht, hn⟩ := hx
  unfold Ends
  rw [withLink_of_owned hs.owned]
  exact ⟨_, _, holding_of_eq_some hxs, ready_of_aside (aside_holders t _) ht, hn⟩

theorem ends_sweeping {x : Play Answer} {n : Nat} (hx : Ends x (s.noted .sweepBegun) n) :
    Ends (sweeping x) s n := by
  obtain ⟨a, t, hxs, ht, hn⟩ := hx
  exact ⟨_, _, sweeping_of_eq_some hxs, ready_of_aside (aside_noted t rfl) ht, hn⟩

theorem ends_perform {depth : Nat} {run : Runner} (hrun : Obliging depth run) {step : Step}
    (hstep : step.All (·.aboutLedger)) (hs : s.Ready)
    (hw : s.ledger.weight + step.weight ≤ depth) :
    Ends (perform run step) s (s.ledger.weight + step.weight) := by
  have hheld : ({ s with holders := s.holders + 1 } : Session).Ready := ⟨hs.owned, hs.waiting⟩
  have hown := hstep.own
  cases step with
  | track id callback =>
    rw [Step.weight] at hw ⊢
    exact ends_withLink hs (ends_map (ends_track hrun id (fun c hc => hstep.confined hc) hheld hw))
  | settle id =>
    rw [Step.weight_settle] at hw ⊢
    exact ends_withLink hs (ends_map (ends_settle hrun id hheld hw))
  | abandon =>
    rw [Step.weight_abandon] at hw ⊢
    have hbegun : (s.noted .sweepBegun).Ready := ready_of_aside (aside_noted s rfl) hs
    exact ends_sweeping (ends_withLink hbegun (ends_map
      (ends_abandon hrun ⟨hs.owned, hs.waiting⟩ hw)))
  | trackAll ids callback =>
    rw [Step.weight] at hw ⊢
    exact ends_withLink hs (ends_map (ends_trackAll hrun ids (fun c hc => hstep.confined hc) hheld
      hw))
  | settleAll ids =>
    refine (ends_withLink hs (ends_map (ends_settleAll hrun ids hheld ?_))).mono
      (Nat.le_add_right _ _)
    exact Nat.le_trans (Nat.le_add_right _ _) hw
  | inspect _ | describe =>
    refine (ends_withLink hs (ends_map (m := s.ledger.weight) ?_)).mono (Nat.le_add_right _ _)
    exact ⟨_, _, get_apply, hheld, Nat.le_refl _⟩
  | _ => cases hown

/-- A step ends if it may be nested as deeply as there are callbacks. -/
theorem obliging_performTo (depth : Nat) : Obliging depth (performTo depth) := by
  induction depth with
  | zero =>
    intro _ _ _ _ hw
    omega
  | succ depth ih =>
    intro step s hstep hs hw
    exact ends_perform ih hstep hs (Nat.lt_succ_iff.mp hw)

theorem ends_performAll {depth : Nat} {steps : List Step}
    (hsteps : ∀ step ∈ steps, step.All (·.onLedger)) (hs : s.Ready)
    (hw : s.ledger.weight + stepsWeight steps < depth) :
    Ends (performAll depth steps) s (s.ledger.weight + stepsWeight steps) := by
  induction steps generalizing s with
  | nil => exact (ends_pure hs ()).mono (Nat.le_add_right _ _)
  | cons step rest ih =>
    rw [stepsWeight_cons] at hw ⊢
    refine ends_bind (obliging_performTo depth ((hsteps step (List.mem_cons_self ..)).mono
      Step.aboutLedger_of_onLedger) hs (by omega)) fun _ t ht hm => ?_
    exact (ih (fun n hn => hsteps n (List.mem_cons_of_mem _ hn)) ht (by omega)).mono (by omega)

end Session

end MqttLink
