import MqttLink.Proofs.Simulation

/-!
What a run of nested calls spends. Each call takes a callback out of the ledger or straight out of
the step that hands it over, and none is put back: the calls that were made and the callbacks that
still wait are together no more than before, but for those that the step itself brings along. Main
statement: work on the ledger comes to its end, however its callbacks call one another, and calls no
more of them than waited or came with it.
-/

namespace MqttLink

namespace Session

open Play

variable {α β : Type} {m n : Nat}

/-- The calls that have been made and those that may still come of what waits. -/
def burden (s : Session) : Nat :=
  s.calls.length + s.ledger.weight

/-- Wherever `x` starts, it adds at most `n` to the calls made and the callbacks left. -/
def Spends (n : Nat) (x : Play α) : Prop :=
  ∀ ⦃s a t⦄, x s = some (a, t) → t.burden ≤ s.burden + n

theorem Spends.mono {x : Play α} (hx : Spends m x) (h : m ≤ n) : Spends n x := by
  intro s a t hs
  have hm := hx hs
  omega

theorem spends_pure (a : α) : Spends 0 (pure a : Play α) := by
  intro s b t hs
  cases hs
  exact Nat.le_refl _

theorem spends_bind {x : Play α} {f : α → Play β} (hx : Spends m x) (hf : ∀ a, Spends n (f a)) :
    Spends (m + n) (x >>= f) := by
  intro s b u hs
  obtain ⟨a, t, hxs, hft⟩ := bind_eq_some_iff.mp hs
  have hm := hx hxs
  have hn := hf a hft
  omega

/-- What follows a play that spends, and spends nothing itself. -/
theorem spends_before {x : Play α} {f : α → Play β} (hx : Spends n x)
    (hf : ∀ a, Spends 0 (f a)) : Spends n (x >>= f) :=
  spends_bind hx hf

/-- What comes before a play that spends, and spends nothing itself. -/
theorem spends_after {x : Play α} {f : α → Play β} (hx : Spends 0 x) (hf : ∀ a, Spends n (f a)) :
    Spends n (x >>= f) :=
  (spends_bind hx hf).mono (by omega)

theorem burden_of_aside {s t : Session} (h : Aside s t) : t.burden = s.burden := by
  rw [burden, burden, (worked_of_aside h).calls, h.ledger, List.nil_append]

theorem spends_of_aside {x : Play α} (hx : Within Aside x) : Spends 0 x := by
  intro s a t hs
  rw [burden_of_aside (hx hs)]
  exact Nat.le_refl _

theorem spends_note {o : Occurrence} (h : o.quiet) : Spends 0 (note o) :=
  spends_of_aside (aside_note h)

theorem burden_noted (s : Session) {o : Occurrence} (h : o.invocation? = none) :
    (s.noted o).burden = s.burden := by
  rw [burden, calls, noted_journal, List.filterMap_cons_none h]
  rfl

/-- The call itself counts. -/
theorem burden_called (s : Session) (id : PacketId) (c : Callback) (resolution : Resolution) :
    (s.noted (.invoked id c resolution s.view)).burden = s.burden + 1 := by
  have hcalls : (s.noted (.invoked id c resolution s.view)).calls =
      ⟨id, c, resolution⟩ :: s.calls := rfl
  rw [burden, hcalls, List.length_cons, noted_ledger, burden]
  omega

/-! ## Callbacks -/

section

variable {run : Runner} (hrun : ∀ step : Step, Spends step.weight (run step))
include hrun

theorem spends_runSteps (stopsOnFault : Bool) (steps : List Step) :
    Spends (stepsWeight steps) (runSteps run stopsOnFault steps) := by
  induction steps with
  | nil => exact (spends_pure none).mono (Nat.zero_le _)
  | cons step rest ih =>
    rw [stepsWeight_cons]
    refine spends_bind (hrun step) fun answer => spends_after (spends_note rfl) fun _ => ?_
    split
    · split
      · exact (spends_pure _).mono (Nat.zero_le _)
      · exact ih
    · exact ih

/-- A call is paid for by the callback that it uses up. -/
theorem spends_invoke (id : PacketId) (resolution : Resolution) (c : Callback) :
    Spends (callbackWeight c) (invoke run id resolution c) := by
  have hreact : Spends (stepsWeight c.steps) (react run c) := by
    refine spends_before (spends_runSteps hrun c.stopsOnFault c.steps) fun fault => ?_
    cases fault <;> exact spends_pure _
  have hcall : Spends (stepsWeight c.steps) (do contain .callback (← react run c)) :=
    spends_before hreact fun outcome => spends_of_aside (aside_contain _ outcome)
  intro s r t hs
  rw [invoke_apply] at hs
  have hspent := hcall hs
  rw [burden_called] at hspent
  rw [callbackWeight_eq]
  omega

theorem spends_invoke? (id : PacketId) (resolution : Resolution) (callback : Option Callback) :
    Spends (callbackWeight? callback) (invoke? run id resolution callback) := by
  cases callback with
  | none => exact (spends_pure _).mono (Nat.zero_le _)
  | some c =>
    rw [callbackWeight?]
    exact spends_invoke hrun id resolution c

theorem spends_cancelEach (first : Except Fatal Unit) (batch : List (Ledger.Entry Callback)) :
    Spends (Ledger.entriesWeight batch) (cancelEach run first batch) := by
  induction batch generalizing first with
  | nil => exact (spends_pure first).mono (Nat.zero_le _)
  | cons e rest ih =>
    rw [Ledger.entriesWeight_cons]
    obtain ⟨id, callback⟩ := e
    cases callback with
    | none => exact (ih first).mono (Nat.le_add_left _ _)
    | some c =>
      rw [callbackWeight?, cancelEach_cons]
      refine spends_bind (spends_invoke hrun id .cancelled c) fun r =>
        spends_after (fun s kept t hkept => ?_) ih
      obtain ⟨_, _, hkeep, haside, -⟩ := exists_keep id first r s
      cases hkeep.symm.trans hkept
      exact Nat.le_of_eq (burden_of_aside haside)

/-! ## Work on the ledger -/

/-- The callback is called at once or waits, never both. -/
theorem spends_track (id : PacketId) (callback : Option Callback) :
    Spends (callbackWeight? callback) (track run id callback) := by
  intro s r t hs
  by_cases he : id ∈ s.ledger.early
  · rw [track_of_mem_early run he] at hs
    have hsame : ((s.tracking id callback).noted (.foundAcknowledged id)).burden = s.burden := by
      rw [burden_noted _ rfl, burden, burden]
      exact congrArg (s.calls.length + ·) (Ledger.weight_track_of_mem_early he callback)
    have hspent := spends_invoke? hrun id .completed callback hs
    rwa [hsame] at hspent
  · have htracking : (s.tracking id callback).burden ≤ s.burden + callbackWeight? callback := by
      have hle := Ledger.weight_track_le s.ledger id callback
      have hcalls : (s.tracking id callback).calls = s.calls := rfl
      have hledger : (s.tracking id callback).ledger = (s.ledger.track id callback).2 := rfl
      rw [burden, hcalls, hledger, burden]
      omega
    rw [track_of_not_mem_early run he] at hs
    cases hp : s.ledger.pending[id]? with
    | none =>
      rw [hp] at hs
      cases hs
      rw [burden_noted _ rfl]
      exact htracking
    | some d =>
      rw [hp] at hs
      cases hs
      rw [burden_noted _ rfl, burden_noted _ rfl]
      exact htracking

/-- The callback that an acknowledgement calls has waited until then. -/
theorem spends_settle (id : PacketId) : Spends 0 (settle run id) := by
  intro s r t hs
  have hcalls : (s.settling id).calls = s.calls := rfl
  have hledger : (s.settling id).ledger = (s.ledger.settle id).2 := rfl
  cases hp : s.ledger.pending[id]? with
  | none =>
    rw [settle_of_not_pending run hp] at hs
    cases hs
    rw [burden_noted _ rfl, burden, hcalls, hledger, Ledger.weight_settle_of_not_pending hp]
    exact Nat.le_refl _
  | some callback =>
    rw [settle_of_pending run hp] at hs
    have hspent := spends_invoke? hrun id .completed callback hs
    have hsame : (s.settling id).burden + callbackWeight? callback = s.burden := by
      have hweight := Ledger.weight_settle_of_pending hp
      rw [burden, burden, hcalls, hledger]
      omega
    rw [burden_noted _ rfl] at hspent
    omega

/-- Whatever waited is in the batch, and nothing waits when the batch begins. -/
theorem spends_abandon : Spends 0 (abandon run) := by
  intro s r t hs
  rw [abandon_apply] at hs
  have hspent := spends_cancelEach hrun (.ok ()) s.batch hs
  have hbatch : Ledger.entriesWeight s.batch = s.ledger.weight :=
    Ledger.entriesWeight_of_perm s.batch_perm
  have hempty : s.abandoning.burden = s.calls.length :=
    congrArg (s.calls.length + ·) Ledger.weight_empty
  rw [hempty, hbatch] at hspent
  exact hspent

theorem spends_trackAll (callback : Option Callback) (ids : List PacketId) :
    Spends (ids.length * callbackWeight? callback) (trackAll run callback ids) := by
  induction ids with
  | nil => exact (spends_pure _).mono (Nat.zero_le _)
  | cons id rest ih =>
    rw [List.length_cons, Nat.succ_mul, Nat.add_comm]
    refine spends_bind (spends_track hrun id callback) fun r => ?_
    cases r with
    | ok _ => exact ih
    | error _ => exact (spends_pure _).mono (Nat.zero_le _)

theorem spends_settleAll (ids : List PacketId) : Spends 0 (settleAll run ids) := by
  induction ids with
  | nil => exact spends_pure _
  | cons id rest ih =>
    refine spends_before (spends_settle hrun id) fun r => ?_
    cases r with
    | ok _ => exact ih
    | error _ => exact spends_pure _

/-! ## Steps -/

omit hrun in
theorem spends_withLink {x : Play Answer} (hx : Spends n x) : Spends n (withLink x) := by
  have hholders (f : Nat → Nat) :
      Spends 0 (modify fun s : Session => { s with holders := f s.holders } : Play Unit) :=
    spends_of_aside (within_modify fun s => aside_holders s _)
  refine spends_after (spends_of_aside within_get) fun s => ?_
  split
  · exact spends_after (hholders (· + 1)) fun _ => spends_before hx fun _ =>
      spends_before (hholders (· - 1)) fun _ => spends_pure _
  · exact (spends_pure _).mono (Nat.zero_le _)

omit hrun in
theorem spends_answeringFatal {x : Play (Except Fatal Unit)} (hx : Spends n x) :
    Spends n (answeringFatal x) :=
  spends_before hx fun _ => spends_pure _

theorem spends_perform {step : Step} (hstep : step.aboutLedger) :
    Spends step.weight (perform run step) := by
  cases step with
  | track id callback =>
    rw [Step.weight]
    exact spends_withLink (spends_answeringFatal (spends_track hrun id callback))
  | settle id =>
    rw [Step.weight_settle]
    exact spends_withLink (spends_answeringFatal (spends_settle hrun id))
  | abandon =>
    rw [Step.weight_abandon]
    exact spends_after (spends_note rfl) fun _ =>
      spends_before (spends_withLink (spends_answeringFatal (spends_abandon hrun))) fun _ =>
      spends_before (spends_note rfl) fun _ => spends_pure _
  | trackAll ids callback =>
    rw [Step.weight]
    exact spends_withLink (spends_answeringFatal (spends_trackAll hrun callback ids))
  | settleAll ids =>
    exact (spends_withLink (spends_answeringFatal (spends_settleAll hrun ids))).mono (Nat.zero_le _)
  | inspect _ | describe => exact (spends_of_aside (aside_perform run rfl)).mono (Nat.zero_le _)
  | _ => cases hstep

end

/-- However deep steps about the ledger are nested, a run of one spends no more than it brings
along. -/
theorem spends_performAbout (depth : Nat) (step : Step) :
    Spends step.weight (performAbout depth step) := by
  induction depth generalizing step with
  | zero => exact fun _ _ _ hs => by cases hs
  | succ depth ih =>
    unfold performAbout
    split
    next hstep => exact spends_perform ih hstep
    next => exact fun _ _ _ hs => by cases hs

/-- A run that ends with its steps nested so deep ends just so if they may be nested deeper. -/
theorem accords_performAbout {depth depth' : Nat} (h : depth ≤ depth') (step : Step) :
    Accords Eq (performAbout depth step) (performAbout depth' step) := by
  induction depth generalizing depth' step with
  | zero => exact accords_none _
  | succ depth ih =>
    obtain ⟨deeper, rfl⟩ : ∃ deeper, depth' = deeper + 1 := ⟨depth' - 1, by omega⟩
    unfold performAbout
    split
    next hstep => exact accord_eq.accords_perform (ih (Nat.le_of_succ_le_succ h)) hstep
    next => exact accords_none _

/-- Let every callback that waits, or comes with a step about the ledger, do nothing but such steps,
nested to any depth. Then the step comes to its end, which is the same however deep steps may be
nested beyond the number of these callbacks. It has then made a number of calls that, together with
what still waits, is at most the number of callbacks that waited or came with the step. -/
theorem exists_performTo_spent {s : Session} (hs : s.Ready) {step : Step}
    (hstep : step.All (·.aboutLedger)) :
    ∃ answer t news,
      (∀ depth, s.ledger.weight + step.weight < depth →
        performTo depth step s = some (answer, t)) ∧
      t.calls = news ++ s.calls ∧
      news.length + t.ledger.weight ≤ s.ledger.weight + step.weight := by
  obtain ⟨answer, t, habout, -, -⟩ := obliging_performAbout (s.ledger.weight + step.weight + 1)
    hstep hs (Nat.lt_succ_self _)
  have hends {depth : Nat} (hd : s.ledger.weight + step.weight < depth) :
      performTo depth step s = some (answer, t) := by
    obtain ⟨_, hdeeper, rfl⟩ := accords_performAbout hd step rfl habout
    obtain ⟨_, hplain, rfl⟩ := accord_eq.accords_performTo depth step rfl hdeeper
    exact hplain
  obtain ⟨later, hlater⟩ := law_grows.within_performTo _ step (hends (Nat.lt_succ_self _))
  have hcalls : t.calls = later.filterMap (·.invocation?) ++ s.calls := by
    rw [calls, hlater, List.filterMap_append, calls]
  have hspent := spends_performAbout _ step habout
  rw [burden, burden, hcalls, List.length_append] at hspent
  exact ⟨answer, t, _, fun _ => hends, hcalls, by omega⟩

/-- One operation waits. Its callback hands over another one and acknowledges it at once, and the
other abandons everything. -/
def relay : Session :=
  (opened default (.ascending _)).withLedger (({} : Ledger Callback).track 1 (some ⟨"relaying",
    [.track 2 (some ⟨"relayed", [.abandon], .ok (), true⟩), .settle 2], .ok (), true⟩)).2

theorem ready_relay : relay.Ready := by
  have hrelayed : Reaction.Confined (·.aboutLedger) ⟨"relayed", [.abandon], .ok (), true⟩ :=
    List.forall_mem_singleton.mpr (.intro _ rfl nofun)
  refine ⟨rfl, Ledger.all_track Ledger.all_empty 1 fun c hc => ?_⟩
  cases hc
  simp only [Reaction.Confined, List.forall_mem_cons]
  exact ⟨.intro _ rfl fun c hc => by cases hc; exact hrelayed, .intro _ rfl nofun, nofun⟩

theorem weight_relay : relay.ledger.weight ≤ 2 := by
  refine Nat.le_trans (Ledger.weight_track_le {} 1 _) ?_
  rw [Ledger.weight_empty]
  simp [callbackWeight?, callbackWeight, stepsWeight, Step.weight]

/-- The acknowledgement sets off no more than the two calls that are there. -/
theorem exists_performTo_spent_relay :
    ∃ answer t news, performTo 3 (.settle 1) relay = some (answer, t) ∧
      t.calls = news ++ relay.calls ∧ news.length ≤ 2 := by
  have hweight := weight_relay
  obtain ⟨answer, t, news, hends, hcalls, hspent⟩ :=
    exists_performTo_spent ready_relay (Step.All.intro (.settle 1) rfl nofun)
  rw [Step.weight_settle] at hends hspent
  exact ⟨answer, t, news, hends 3 (by omega), hcalls, by omega⟩

end Session

end MqttLink
