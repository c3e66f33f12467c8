import MqttLink.Proofs.Attribution
import MqttLink.Proofs.Calls
import MqttLink.Proofs.Simulation

/-!
The two tables at every moment. A callback may look at the ledger when it is called, between the
steps it runs, and when the last of them is done; so may everyone between two steps of a session.
Main statement: at none of these moments is an identifier in both tables; and a callback that hears
of a completed operation, or that is the first of a batch, finds its own identifier in neither, so
that an operation it hands over under that identifier waits.
-/

namespace MqttLink

namespace Ledger

variable {κ : Type} {l m : Ledger κ}

instance (l : Ledger κ) : Decidable l.Apart :=
  decidable_of_iff (∀ id ∈ l.pending.keys, id ∉ l.early) (by simp [Apart])

theorem apart_empty : (({} : Ledger κ)).Apart :=
  apart_abandon {}

theorem apart_of_worked (hl : l.Apart) (h : l.Worked m) : m.Apart := by
  cases h with
  | track id callback => exact apart_track hl id callback
  | settle id => exact apart_settle hl id
  | abandon => exact apart_empty

end Ledger

/-- What a callback finds when it is called right after what the journal `older` tells. -/
structure View.ClearFor (view : View) (id : PacketId) (resolution : Resolution)
    (older : List Occurrence) : Prop where
  apart : view.ledger.Apart
  absent : resolution = .completed → id ∉ view.ledger.pending ∧ id ∉ view.ledger.early
  empty : ∀ n rest, older = .abandoned n :: rest → view.ledger = {}

namespace Session

open Play

variable {α : Type} {s t : Session}

/-! ## Runs under watch -/

/-- Does what `x` does, but gives up if the tables are not apart before or afterwards. -/
def watched (x : Play α) : Play α := do
  guard (← get).ledger.Apart
  let a ← x
  guard (← get).ledger.Apart
  return a

theorem guard_apply {p : Prop} [Decidable p] (h : p) (s : Session) :
    (guard p : Play Unit) s = some ((), s) := by
  show (if p then pure () else failure : Play Unit) s = _
  rw [if_pos h]
  rfl

theorem watched_of_eq_some {x : Play α} {a : α} (hs : s.ledger.Apart) (h : x s = some (a, t))
    (ht : t.ledger.Apart) : watched x s = some (a, t) := by
  rw [watched, bind_of_eq_some get_apply, bind_of_eq_some (guard_apply hs s), bind_of_eq_some h,
    bind_of_eq_some get_apply, bind_of_eq_some (guard_apply ht t)]
  rfl

/-- Runs a step under watch, and so every step that is nested in it. -/
def performWatched : (depth : Nat) → Step → Play Answer
  | 0, _ => fun _ => none
  | depth + 1, step => watched (perform (performWatched depth) step)

/-- Runs steps in order, all of them under watch. -/
def performAllWatched (depth : Nat) : List Step → Play Unit
  | [] => pure ()
  | step :: rest => do
    let _ ← performWatched depth step
    performAllWatched depth rest

/-- The same session, whose tables are apart. -/
def SameApart (s t : Session) : Prop :=
  s = t ∧ s.ledger.Apart

theorem accord_sameApart : Accord SameApart where
  ledger _ _ h := h.1 ▸ rfl
  owned _ _ h := h.1 ▸ rfl
  order _ _ h := h.1 ▸ rfl
  sweeps _ _ h := h.1 ▸ rfl
  noted _ _ h _ _ := ⟨h.1 ▸ rfl, h.2⟩
  called _ _ h _ _ _ := ⟨h.1 ▸ rfl, h.2⟩
  worked _ _ h _ hl := ⟨h.1 ▸ rfl, Ledger.apart_of_worked h.2 hl⟩
  swept _ _ h := ⟨h.1 ▸ rfl, h.2⟩
  held _ _ h _ := ⟨h.1 ▸ rfl, h.2⟩

theorem accords_watched {x y : Play α} (h : Accords SameApart x y) :
    Accords SameApart x (watched y) := by
  rintro s _ a s' ⟨rfl, hs⟩ hx
  obtain ⟨_, hy, rfl, hs'⟩ := h ⟨rfl, hs⟩ hx
  exact ⟨s', watched_of_eq_some hs hy hs', rfl, hs'⟩

/-- Nobody who watches finds anything amiss. -/
theorem accords_performWatched (depth : Nat) (step : Step) :
    Accords SameApart (performAbout depth step) (performWatched depth step) := by
  induction depth generalizing step with
  | zero => exact accords_none _
  | succ depth ih =>
    unfold performAbout
    split
    next hstep => exact accords_watched (accord_sameApart.accords_perform ih hstep)
    next => exact accords_none _

theorem exists_performAllWatched {depth : Nat} {steps : List Step}
    (hsteps : ∀ step ∈ steps, step.All (·.onLedger)) (hs : s.Ready) (ha : s.ledger.Apart)
    (hw : s.ledger.weight + stepsWeight steps < depth) :
    ∃ t, performAll depth steps s = some ((), t) ∧
      performAllWatched depth steps s = some ((), t) := by
  induction steps generalizing s with
  | nil => exact ⟨s, rfl, rfl⟩
  | cons step rest ih =>
    rw [stepsWeight_cons] at hw
    have habout := (hsteps step (List.mem_cons_self ..)).mono Step.aboutLedger_of_onLedger
    obtain ⟨a, t, hstep, ht, hn⟩ := obliging_performAbout depth habout hs (by omega)
    obtain ⟨_, hplain, rfl⟩ := accord_eq.accords_performTo depth step rfl hstep
    obtain ⟨_, hwatched, rfl, hta⟩ := accords_performWatched depth step ⟨rfl, ha⟩ hstep
    obtain ⟨u, hu, huw⟩ :=
      ih (fun n hn => hsteps n (List.mem_cons_of_mem _ hn)) ht hta (by omega)
    exact ⟨u, bind_eq_some_iff.mpr ⟨a, t, hplain, hu⟩,
      bind_eq_some_iff.mpr ⟨a, t, hwatched, huw⟩⟩

/-! ## What a callback finds -/

/-- Every callback in the journal found the tables as it should. -/
def AllClear (journal : List Occurrence) : Prop :=
  ∀ newer id c resolution view older,
    journal = newer ++ .invoked id c resolution view :: older → view.ClearFor id resolution older

section

variable {older : List Occurrence}

theorem allClear_cons (h : AllClear older) {o : Occurrence} (ho : o.invocation? = none) :
    AllClear (o :: older) := by
  intro newer id c resolution view older' heq
  cases newer with
  | nil =>
    cases heq
    cases ho
  | cons _ newer => exact h newer id c resolution view older' (List.cons.inj heq).2

theorem allClear_invoked (h : AllClear older) {id : PacketId} {resolution : Resolution}
    {view : View} (hv : view.ClearFor id resolution older) (c : Callback) :
    AllClear (.invoked id c resolution view :: older) := by
  intro newer k d r v older' heq
  cases newer with
  | nil =>
    cases heq
    exact hv
  | cons _ newer => exact h newer k d r v older' (List.cons.inj heq).2

theorem allClear_append (h : AllClear older) {news : List Occurrence}
    (hn : ∀ o ∈ news, ¬ o.onLedger) : AllClear (news ++ older) := by
  induction news with
  | nil => exact h
  | cons o news ih =>
    have ho : ¬ o.onLedger := hn o (List.mem_cons_self ..)
    refine allClear_cons (ih fun o' ho' => hn o' (List.mem_cons_of_mem _ ho')) ?_
    cases o with
    | invoked _ _ _ _ => exact absurd rfl ho
    | _ => rfl

end

/-- The tables are apart, as they were whenever a callback was called, and a batch that has just
been taken out has left nothing behind. -/
structure Tidy (s : Session) : Prop where
  apart : s.ledger.Apart
  clear : AllClear s.journal
  emptied : ∀ n rest, s.journal = .abandoned n :: rest → s.ledger = {}

theorem tidy_of_idle ⦃s t : Session⦄ (h : Idle s t) : Keeping Tidy s t := by
  intro hs
  obtain ⟨news, hn, hq⟩ := h.journal
  refine ⟨by rw [h.ledger]; exact hs.apart, by rw [hn]; exact allClear_append hs.clear hq, ?_⟩
  intro n rest heq
  rw [hn] at heq
  rw [h.ledger]
  cases news with
  | nil => exact hs.emptied n rest heq
  | cons o news =>
    obtain ⟨rfl, -⟩ := List.cons.inj heq
    exact absurd rfl (hq _ (List.mem_cons_self ..))

theorem tidy_noted (ha : s.ledger.Apart) (hc : AllClear s.journal) {o : Occurrence}
    (ho : o.invocation? = none) (hn : ∀ n, o ≠ .abandoned n) : (s.noted o).Tidy :=
  ⟨ha, allClear_cons hc ho, fun n _ heq => absurd (List.cons.inj heq).1 (hn n)⟩

theorem tidy_of_aside ⦃s t : Session⦄ (h : Aside s t) : Keeping Tidy s t :=
  tidy_of_idle (idle_of_aside h)

section

variable {run : Runner} (hrun : ∀ step, Within (Keeping Tidy) (run step))
include hrun

theorem tidy_invoke {id : PacketId} {resolution : Resolution} {c : Callback}
    {r : Except Fatal Unit} (h : invoke run id resolution c s = some (r, t)) (hs : s.Tidy)
    (hv : s.view.ClearFor id resolution s.journal) : t.Tidy := by
  have hinvoked : (s.noted (.invoked id c resolution s.view)).Tidy :=
    ⟨hs.apart, allClear_invoked hs.clear hv c, nofun⟩
  rw [invoke_apply] at h
  exact within_called (calm_of_aside tidy_of_aside) (fun n _ => hrun n) h hinvoked

theorem tidy_invoke? {id : PacketId} {callback : Option Callback} {o : Occurrence}
    {r : Except Fatal Unit} (h : invoke? run id .completed callback (s.noted o) = some (r, t))
    (hs : (s.noted o).Tidy) (ho : o.meets id) (hp : id ∉ s.ledger.pending)
    (he : id ∉ s.ledger.early) : t.Tidy := by
  cases callback with
  | none =>
    cases h
    exact hs
  | some c =>
    refine tidy_invoke hrun h hs ⟨hs.apart, fun _ => ⟨hp, he⟩, fun n rest heq => ?_⟩
    obtain ⟨rfl, -⟩ := List.cons.inj heq
    simp [Occurrence.meets] at ho

theorem tidy_track (id : PacketId) (callback : Option Callback) :
    Within (Keeping Tidy) (track run id callback) := by
  intro s r t h hs
  have hapart : (s.tracking id callback).ledger.Apart := Ledger.apart_track hs.apart id callback
  have hclear : AllClear (s.tracking id callback).journal := allClear_cons hs.clear rfl
  by_cases he : id ∈ s.ledger.early
  · rw [track_of_mem_early run he] at h
    have hp : id ∉ s.ledger.pending := fun hp => hs.apart id hp he
    refine tidy_invoke? hrun h (tidy_noted hapart hclear rfl (by simp)) (.inr rfl) ?_ ?_
    · simp [tracking, Ledger.mem_pending_track, he, hp]
    · simp [tracking, Ledger.mem_early_track]
  · rw [track_of_not_mem_early run he] at h
    cases hp : s.ledger.pending[id]? with
    | none =>
      rw [hp] at h
      cases h
      exact tidy_noted hapart hclear rfl (by simp)
    | some d =>
      rw [hp] at h
      cases h
      have hdisplaced := tidy_noted hapart hclear (o := .displaced id d) rfl (by simp)
      exact tidy_noted hdisplaced.apart hdisplaced.clear rfl (by simp)

theorem tidy_settle (id : PacketId) : Within (Keeping Tidy) (settle run id) := by
  intro s r t h hs
  have hapart : (s.settling id).ledger.Apart := Ledger.apart_settle hs.apart id
  cases hp : s.ledger.pending[id]? with
  | none =>
    rw [settle_of_not_pending run hp] at h
    cases h
    exact tidy_noted hapart hs.clear rfl (by simp)
  | some callback =>
    rw [settle_of_pending run hp] at h
    have hmem : id ∈ s.ledger.pending :=
      Std.ExtTreeMap.mem_iff_isSome_getElem?.mpr (by rw [hp]; rfl)
    refine tidy_invoke? hrun h (tidy_noted hapart hs.clear rfl (by simp)) (.inl rfl) ?_ ?_
    · simp [settling, Ledger.mem_pending_settle]
    · simp [settling, Ledger.mem_early_settle, hmem, hs.apart id hmem]

theorem tidy_abandon : Within (Keeping Tidy) (abandon run) := by
  intro s r t h hs
  rw [abandon_apply] at h
  have habandoning : s.abandoning.Tidy :=
    ⟨Ledger.apart_empty, allClear_cons hs.clear rfl, fun _ _ _ => rfl⟩
  refine within_cancelEach (calm_of_aside tidy_of_aside) _ (fun id c _ u r v h hu => ?_) h
    habandoning
  -- that the first callback of the batch finds nothing is in the invariant, and of the others
  -- nothing is asked
  exact tidy_invoke hrun h hu ⟨hu.apart, nofun, hu.emptied⟩

end

/-- Whatever a session does, the tables stay apart, and callbacks find them as they should. -/
theorem law_tidy : Law (Keeping Tidy) where
  idle := tidy_of_idle
  track hrun := tidy_track hrun
  settle hrun := tidy_settle hrun
  abandon hrun := tidy_abandon hrun

/-! ## Batches -/

/-- Operations without a callback make no difference to a batch. -/
theorem cancelEach_filter (run : Runner) (first : Except Fatal Unit)
    (batch : List (Ledger.Entry Callback)) :
    cancelEach run first (batch.filter (·.2.isSome)) = cancelEach run first batch := by
  induction batch generalizing first with
  | nil => rfl
  | cons e rest ih =>
    match e with
    | (_, none) => exact ih first
    | (id, some c) =>
      rw [List.filter_cons_of_pos rfl, cancelEach_cons, cancelEach_cons]
      exact bind_congr fun r => bind_congr fun kept => ih kept

/-- Abandoning empties the ledger, then calls the first callback of the batch, if there is one. -/
theorem abandon_of_filter (run : Runner) {s : Session} {id : PacketId} {c : Callback}
    {rest : List (Ledger.Entry Callback)} (h : s.batch.filter (·.2.isSome) = (id, some c) :: rest) :
    abandon run s = (do
      let r ← invoke run id .cancelled c
      cancelEach run r rest) s.abandoning := by
  rw [abandon_apply, ← cancelEach_filter, h, cancelEach_cons]
  rfl

/-! ## Main statement -/

theorem tidy_opened (settings : Settings) (order : VisitOrder Callback) :
    (opened settings order).Tidy :=
  ⟨Ledger.apart_empty, fun _ _ _ _ _ _ h => absurd h (by simp [opened, attached]), nofun⟩

/-- An operation that a callback hands over as soon as it is called, under an identifier which is in
neither table by then, waits. -/
theorem waits_of_absent {view : View} {id : PacketId} (hp : id ∉ view.ledger.pending)
    (he : id ∉ view.ledger.early) (run : Runner) (again : Option Callback) {v : Session}
    (hv : v.ledger = view.ledger) :
    ∃ w, track run id again v = some (.ok (), w) ∧ w.ledger.pending[id]? = some again ∧
      w.journal = .waiting id :: .tracked id again :: v.journal := by
  rw [← hv] at hp he
  refine ⟨_, track_of_absent run hp he again, ?_, rfl⟩
  simp [tracking, Ledger.getElem?_track, he]

/-- A run of work on the ledger is the same under watch: whenever somebody looks, before and after
each step, however deep it is nested, no identifier is in both tables. A callback that is called
finds the tables apart as well. If it hears that its operation is completed, its identifier is in
neither; if it is called right after a batch was taken out, and so is the first of the batch, both
tables are empty. In both cases an operation that it hands over under its own identifier waits. -/
theorem apart_throughout {steps : List Step} (hsteps : ∀ step ∈ steps, step.All (·.onLedger))
    (settings : Settings) (order : VisitOrder Callback) {depth : Nat}
    (hdepth : stepsWeight steps < depth) :
    (∃ t, performAll depth steps (opened settings order) = some ((), t) ∧
      performAllWatched depth steps (opened settings order) = some ((), t) ∧
      ∀ newer id c resolution (view : View) older,
        t.journal = newer ++ .invoked id c resolution view :: older →
        view.ledger.Apart ∧
        (resolution = .completed → id ∉ view.ledger.pending ∧ id ∉ view.ledger.early) ∧
        (∀ n rest, older = .abandoned n :: rest → view.ledger = {}) ∧
        (resolution = .completed ∨ (∃ n rest, older = .abandoned n :: rest) →
          ∀ run again v, v.ledger = view.ledger → ∃ w, track run id again v = some (.ok (), w) ∧
            w.ledger.pending[id]? = some again ∧
            w.journal = .waiting id :: .tracked id again :: v.journal)) ∧
    ∀ (run : Runner) (s : Session) (id : PacketId) (c : Callback)
      (rest : List (Ledger.Entry Callback)),
      s.batch.filter (·.2.isSome) = (id, some c) :: rest →
      s.abandoning.ledger = {} ∧ (∃ n, s.abandoning.journal = .abandoned n :: s.journal) ∧
      abandon run s = (do
        let r ← invoke run id .cancelled c
        cancelEach run r rest) s.abandoning := by
  refine ⟨?_, fun run s id c rest h => ⟨rfl, ⟨_, rfl⟩, abandon_of_filter run h⟩⟩
  have hready : (opened settings order).Ready := ⟨rfl, Ledger.all_empty⟩
  have hempty : (opened settings order).ledger.weight = 0 := Ledger.weight_empty
  have hweight : (opened settings order).ledger.weight + stepsWeight steps < depth := by omega
  obtain ⟨t, ht, htw⟩ := exists_performAllWatched hsteps hready Ledger.apart_empty hweight
  have htidy : t.Tidy := law_tidy.within_performAll ht (tidy_opened settings order)
  refine ⟨t, ht, htw, fun newer id c resolution view older heq => ?_⟩
  have hclear := htidy.clear newer id c resolution view older heq
  refine ⟨hclear.apart, hclear.absent, hclear.empty, fun h run again v hv => ?_⟩
  rcases h with h | ⟨n, rest, h⟩
  · exact waits_of_absent (hclear.absent h).1 (hclear.absent h).2 run again hv
  · have hnone := hclear.empty n rest h
    exact waits_of_absent (by simp [hnone]) (by simp [hnone]) run again hv

/-- A callback that hands over another one under its own identifier. -/
theorem apart_throughout_again :
    ∃ t, performAllWatched 3 [.track 1 (some ⟨"first", [.track 1 (some ⟨"again", [], .ok (),
      true⟩)], .ok (), true⟩), .settle 1] (opened {} (.ascending _)) = some ((), t) := by
  have hagain : (Step.track 1 (some ⟨"again", [], .ok (), true⟩)).All (·.onLedger) :=
    .intro _ rfl fun c hc n hn => by cases hc; cases hn
  have hfirst : (Step.track 1 (some ⟨"first", [.track 1 (some ⟨"again", [], .ok (), true⟩)],
      .ok (), true⟩)).All (·.onLedger) := by
    refine .intro _ rfl fun c hc => ?_
    cases hc
    exact List.forall_mem_singleton.mpr hagain
  have hsettle : (Step.settle 1).All (·.onLedger) := .intro _ rfl nofun
  have hall := List.forall_mem_cons.mpr ⟨hfirst, List.forall_mem_singleton.mpr hsettle⟩
  have hdepth : stepsWeight [.track 1 (some ⟨"first", [.track 1 (some ⟨"again", [], .ok (),
      true⟩)], .ok (), true⟩), .settle 1] < 3 := by
    simp [stepsWeight, Step.weight, callbackWeight?, callbackWeight]
  obtain ⟨⟨t, -, ht, -⟩, -⟩ := apart_throughout hall {} (.ascending _) hdepth
  exact ⟨t, ht⟩

end Session

end MqttLink
