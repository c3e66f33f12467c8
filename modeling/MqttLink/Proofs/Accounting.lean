import MqttLink.Proofs.EitherOrder
import MqttLink.Proofs.Isolation
import MqttLink.Report.Log

/-!
What becomes of the faults in an abandoned batch. The first fatal one is returned, each later one
and each recoverable one is written into the log as a warning, and nothing else is. Main statement:
so it is for every ledger and every order, and no fault keeps a later callback from being called.
-/

namespace MqttLink.Session

open Play Report

variable {α : Type} {s t u v : Session} {run run' : Runner} {id : PacketId} {depth : Nat}

/-! ## Faults and warnings -/

def fatal? : PacketId × Outcome → Option (PacketId × Fatal)
  | (id, .error (.fatal f)) => some (id, f)
  | _ => none

def recoverable? : PacketId × Outcome → Option (PacketId × String)
  | (id, .error (.recoverable text)) => some (id, text)
  | _ => none

/-- The fatal faults among what the callbacks of a batch came back with, in the same order. -/
def fatals (told : List (PacketId × Outcome)) : List (PacketId × Fatal) :=
  told.filterMap fatal?

def recoverables (told : List (PacketId × Outcome)) : List (PacketId × String) :=
  told.filterMap recoverable?

/-- The first of the fatal faults, if there is one. -/
def verdict : List (PacketId × Fatal) → Except Fatal Unit
  | [] => .ok ()
  | (_, f) :: _ => .error f

/-- The line about a fatal fault that comes too late to be returned. -/
def droppedLine (fault : PacketId × Fatal) : LogLine :=
  ⟨.warn, "Dropping fatal error from cancelled callback",
    [("error", fault.2.message), idField fault.1]⟩

/-- The line about a fault that is swallowed. -/
def recoveredLine (fault : PacketId × String) : LogLine :=
  ⟨.warn, "Recovered from error raised in callback",
    [("error", fault.2), ("source", Source.callback.name)]⟩

/-- The warnings among what was written down. -/
def warnings (os : List Occurrence) : List LogLine :=
  (os.filterMap logLine).filter (·.level = .warn)

theorem warnings_append (os ps : List Occurrence) :
    warnings (os ++ ps) = warnings os ++ warnings ps := by
  rw [warnings, List.filterMap_append, List.filter_append, warnings, warnings]

theorem fatals_cons (x : PacketId × Outcome) (told : List (PacketId × Outcome)) :
    fatals (x :: told) = fatals [x] ++ fatals told :=
  List.filterMap_append (l := [x])

theorem recoverables_cons (x : PacketId × Outcome) (told : List (PacketId × Outcome)) :
    recoverables (x :: told) = recoverables [x] ++ recoverables told :=
  List.filterMap_append (l := [x])

/-! ## Faults that follow earlier ones -/

/-- What stands after the fatal faults `fs` have followed `first`. -/
def verdictAfter (first : Except Fatal Unit) (fs : List (PacketId × Fatal)) : Except Fatal Unit :=
  match first with
  | .ok _ => verdict fs
  | .error f => .error f

/-- The faults among `fs` that come too late. -/
def lateAfter (first : Except Fatal Unit) (fs : List (PacketId × Fatal)) :
    List (PacketId × Fatal) :=
  match first with
  | .ok _ => fs.tail
  | .error _ => fs

theorem verdictAfter_append (first : Except Fatal Unit) (fs gs : List (PacketId × Fatal)) :
    verdictAfter first (fs ++ gs) = verdictAfter (verdictAfter first fs) gs := by
  cases first <;> cases fs <;> rfl

theorem lateAfter_append (first : Except Fatal Unit) (fs gs : List (PacketId × Fatal)) :
    lateAfter first (fs ++ gs) = lateAfter first fs ++ lateAfter (verdictAfter first fs) gs := by
  cases first <;> cases fs <;> rfl

theorem verdict_eq_ok_iff {fs : List (PacketId × Fatal)} : verdict fs = .ok () ↔ fs = [] := by
  cases fs <;> simp [verdict]

theorem mem_fatals {told : List (PacketId × Outcome)} {f : Fatal} :
    (id, f) ∈ fatals told ↔ (id, .error (.fatal f)) ∈ told := by
  rw [fatals, List.mem_filterMap]
  constructor
  · rintro ⟨⟨k, outcome⟩, hmem, hfatal⟩
    match outcome with
    | .ok () | .error (.recoverable _) => cases hfatal
    | .error (.fatal _) =>
      cases hfatal
      exact hmem
  · exact fun hmem => ⟨_, hmem, rfl⟩

/-! ## Sessions with other journals -/

theorem accords_of_silently (hrun : ∀ step, Blind (run step)) (step : Step) :
    Accords (Rewritten fun _ _ => True) (silently run step) (run step) := by
  intro s u a t h hs
  obtain ⟨⟨b, w⟩, hw, hwt⟩ := Option.map_eq_some_iff.mp hs
  cases hwt
  obtain ⟨v, news, hv, hsame, -⟩ := exists_of_blind (hrun step) hw h.same
  exact ⟨v, hv, hsame, trivial⟩

/-! ## What a batch writes of its own -/

/-- Calls the callbacks of a batch in order, and collects what each comes back with. -/
def reactEach (run : Runner) : List (Ledger.Entry Callback) → Play (List (PacketId × Outcome))
  | [] => pure []
  | (_, none) :: rest => reactEach run rest
  | (id, some c) :: rest => do
    note (.invoked id c .cancelled (← get).view)
    let outcome ← react run c
    let told ← reactEach run rest
    return (id, outcome) :: told

/-- From `s` to `t`, the calls `calls` were written down, the latest first, and the warnings
`lines`. -/
def Wrote (calls : List Invocation) (lines : List LogLine) (s t : Session) : Prop :=
  ∃ own, t.journal = own ++ s.journal ∧ own.filterMap (·.invocation?) = calls ∧
    (warnings own).Perm lines

theorem Wrote.trans {calls later : List Invocation} {lines more : List LogLine}
    (h : Wrote calls lines s t) (k : Wrote later more t u) :
    Wrote (later ++ calls) (lines ++ more) s u := by
  obtain ⟨own, hown, hcalls, hlines⟩ := h
  obtain ⟨news, hnews, hlater, hmore⟩ := k
  refine ⟨news ++ own, by rw [hnews, hown, List.append_assoc], ?_, ?_⟩
  · rw [List.filterMap_append, hcalls, hlater]
  · rw [warnings_append]
    exact (hmore.append hlines).trans List.perm_append_comm

theorem wrote_refl (s : Session) : Wrote [] [] s s :=
  ⟨[], rfl, rfl, List.Perm.refl _⟩

theorem Wrote.perm {calls : List Invocation} {lines more : List LogLine}
    (h : Wrote calls lines s t) (hp : lines.Perm more) : Wrote calls more s t := by
  obtain ⟨own, hown, hcalls, hlines⟩ := h
  exact ⟨own, hown, hcalls, hlines.trans hp⟩

/-- What a callback does by itself is no news of a call and no warning. -/
theorem wrote_runSteps (hrun : Silent run) {stopsOnFault : Bool} {steps : List Step}
    {fault : Option Fault} (h : runSteps run stopsOnFault steps s = some (fault, t)) :
    Wrote [] [] s t := by
  induction steps generalizing s with
  | nil =>
    cases h
    exact wrote_refl _
  | cons step rest ih =>
    obtain ⟨answer, v, hv, h⟩ := bind_eq_some_iff.mp h
    rw [bind_of_eq_some (note_apply _)] at h
    have hacted : Wrote [] [] s (v.noted (.acted step.name answer)) :=
      ⟨[.acted step.name answer], congrArg _ (hrun hv), rfl, List.Perm.refl _⟩
    cases hf : answer.fault? with
    | none =>
      rw [hf] at h
      exact hacted.trans (ih h)
    | some f =>
      rw [hf] at h
      cases stopsOnFault with
      | true =>
        cases h
        exact hacted
      | false => exact hacted.trans (ih h)

theorem wrote_react (hrun : Silent run) {c : Callback} {outcome : Outcome}
    (h : react run c s = some (outcome, t)) : Wrote [] [] s t := by
  obtain ⟨fault, v, hv, h⟩ := bind_eq_some_iff.mp h
  have hvt : v = t := by
    cases fault <;> cases h <;> rfl
  rw [← hvt]
  exact wrote_runSteps hrun hv

/-- A recoverable fault is written down, a fatal one comes out. -/
theorem wrote_contain {outcome : Outcome} {q : Except Fatal Unit} (id : PacketId)
    (h : contain .callback outcome s = some (q, t)) :
    q = verdict (fatals [(id, outcome)]) ∧ t.unwritten = s.unwritten ∧
      Wrote [] ((recoverables [(id, outcome)]).map recoveredLine) s t := by
  match outcome with
  | .ok () | .error (.fatal _) =>
    cases h
    exact ⟨rfl, rfl, wrote_refl s⟩
  | .error (.recoverable text) =>
    cases h
    exact ⟨rfl, rfl, [.recovered .callback text], rfl, rfl, List.Perm.refl _⟩

/-- The first fatal fault is kept, a later one is written down. -/
theorem wrote_keep (first : Except Fatal Unit) (x : PacketId × Outcome) (s : Session) :
    ∃ t, keep x.1 first (verdict (fatals [x])) s =
        some (verdictAfter first (fatals [x]), t) ∧ t.unwritten = s.unwritten ∧
      Wrote [] ((lateAfter first (fatals [x])).map droppedLine) s t := by
  match first, x with
  | .ok _, (_, .ok ()) | .ok _, (_, .error (.recoverable _)) | .ok _, (_, .error (.fatal _))
  | .error _, (_, .ok ()) | .error _, (_, .error (.recoverable _)) =>
    exact ⟨s, rfl, rfl, wrote_refl s⟩
  | .error _, (id, .error (.fatal f)) =>
    exact ⟨_, rfl, rfl, [.fatalDropped id f], rfl, rfl, List.Perm.refl _⟩

/-- A call writes itself down, and a fault that it swallows. -/
theorem told_of_invoke (hrun : Silent run)
    (hsame : ∀ step, Accords (Rewritten fun _ _ => True) (run step) (run' step)) {c : Callback}
    {q : Except Fatal Unit} (h : invoke run id .cancelled c s = some (q, t))
    (hsu : u.unwritten = s.unwritten) :
    ∃ outcome v,
      react run' c (u.noted (.invoked id c .cancelled u.view)) = some (outcome, v) ∧
      v.unwritten = t.unwritten ∧ q = verdict (fatals [(id, outcome)]) ∧
      Wrote [⟨id, c, .cancelled⟩] ((recoverables [(id, outcome)]).map recoveredLine) s t := by
  have hT := (unison_rewritten (J := fun _ _ => True) fun _ _ _ _ => trivial).accord
  rw [invoke_apply] at h
  obtain ⟨outcome, w, hw, hcontain⟩ := bind_eq_some_iff.mp h
  obtain ⟨v, hv, hwv⟩ := hT.accords_react hsame c (hT.called ⟨hsu, trivial⟩ id c .cancelled) hw
  obtain ⟨hq, hwt, hwrote⟩ := wrote_contain id hcontain
  have hcalled : Wrote [⟨id, c, .cancelled⟩] [] s
      (s.noted (.invoked id c .cancelled s.view)) :=
    ⟨[.invoked id c .cancelled s.view], rfl, rfl, List.Perm.refl _⟩
  exact ⟨outcome, v, hv, hwv.same.trans hwt.symm, hq,
    (hcalled.trans (wrote_react hrun hw)).trans hwrote⟩

/-- Everything that the callbacks of a batch come back with is accounted for. -/
theorem told_of_cancelEach (hrun : Silent run)
    (hsame : ∀ step, Accords (Rewritten fun _ _ => True) (run step) (run' step))
    {batch : List (Ledger.Entry Callback)} {first r : Except Fatal Unit}
    (h : cancelEach run first batch s = some (r, t)) (hsu : u.unwritten = s.unwritten) :
    ∃ told v, reactEach run' batch u = some (told, v) ∧ v.unwritten = t.unwritten ∧
      r = verdictAfter first (fatals told) ∧
      Wrote (batch.flatMap fun e => callOf e.1 .cancelled e.2).reverse
        ((lateAfter first (fatals told)).map droppedLine ++
          (recoverables told).map recoveredLine) s t := by
  induction batch generalizing s u first with
  | nil =>
    cases h
    cases r <;> exact ⟨[], u, rfl, hsu, rfl, wrote_refl _⟩
  | cons e rest ih =>
    rw [List.flatMap_cons, List.reverse_append]
    obtain ⟨id, callback⟩ := e
    cases callback with
    | none =>
      rw [cancelEach] at h
      simpa [callOf, reactEach] using ih h hsu
    | some c =>
      rw [cancelEach_cons] at h
      obtain ⟨q, v, hv, h⟩ := bind_eq_some_iff.mp h
      obtain ⟨outcome, w, hw, hwv, hq, hcall⟩ := told_of_invoke hrun hsame hv hsu
      obtain ⟨z, hz, hzv, hkeep⟩ := wrote_keep first (id, outcome) v
      rw [hq, bind_of_eq_some hz] at h
      obtain ⟨told, x, hx, hxt, hr, hrest⟩ := ih h (hwv.trans hzv.symm)
      refine ⟨(id, outcome) :: told, x, ?_, hxt, ?_, ?_⟩
      · rw [reactEach, bind_of_eq_some get_apply, bind_of_eq_some (note_apply _),
          bind_of_eq_some hw, bind_of_eq_some hx]
        rfl
      · rw [hr, fatals_cons _ told, verdictAfter_append]
      · rw [fatals_cons, lateAfter_append, recoverables_cons, List.map_append, List.map_append]
        refine ((hcall.trans hkeep).trans hrest).perm (List.perm_iff_count.mpr fun line => ?_)
        simp only [List.count_append]
        omega

/-! ## What callbacks come back with -/

/-- Everyone in the batch is heard. -/
theorem ids_told {batch : List (Ledger.Entry Callback)} {told : List (PacketId × Outcome)}
    (h : reactEach run batch s = some (told, t)) :
    told.map (·.1) = (batch.flatMap fun e => callOf e.1 .cancelled e.2).map (·.id) := by
  induction batch generalizing s told with
  | nil =>
    cases h
    rfl
  | cons e rest ih =>
    obtain ⟨id, callback⟩ := e
    cases callback with
    | none => exact ih h
    | some c =>
      rw [reactEach, bind_of_eq_some get_apply, bind_of_eq_some (note_apply _)] at h
      obtain ⟨outcome, v, -, h⟩ := bind_eq_some_iff.mp h
      obtain ⟨later, w, hw, h⟩ := bind_eq_some_iff.mp h
      cases h
      exact congrArg (id :: ·) (ih hw)

theorem exists_react_of_mem {batch : List (Ledger.Entry Callback)}
    {told : List (PacketId × Outcome)} (h : reactEach run batch s = some (told, t))
    {outcome : Outcome} (hmem : (id, outcome) ∈ told) :
    ∃ c v w, (id, some c) ∈ batch ∧ react run c v = some (outcome, w) := by
  induction batch generalizing s told with
  | nil =>
    cases h
    cases hmem
  | cons e rest ih =>
    obtain ⟨k, callback⟩ := e
    cases callback with
    | none =>
      obtain ⟨c, v, w, hc, hv⟩ := ih h hmem
      exact ⟨c, v, w, List.mem_cons_of_mem _ hc, hv⟩
    | some c =>
      rw [reactEach, bind_of_eq_some get_apply, bind_of_eq_some (note_apply _)] at h
      obtain ⟨first, v, hv, h⟩ := bind_eq_some_iff.mp h
      obtain ⟨later, w, hw, h⟩ := bind_eq_some_iff.mp h
      cases h
      rcases List.mem_cons.mp hmem with heq | hmem
      · cases heq
        exact ⟨c, _, v, List.mem_cons_self .., hv⟩
      · obtain ⟨d, x, y, hd, hx⟩ := ih hw hmem
        exact ⟨d, x, y, List.mem_cons_of_mem _ hd, hx⟩

/-- Wherever it is called, the callback comes back with `outcome`. -/
def Yields (depth : Nat) (c : Callback) (outcome : Outcome) : Prop :=
  ∀ ⦃s r t⦄, react (performTo depth) c s = some (r, t) → r = outcome

theorem runSteps_eq_none {steps : List Step} {fault : Option Fault}
    (h : runSteps run false steps s = some (fault, t)) : fault = none := by
  induction steps generalizing s with
  | nil =>
    cases h
    rfl
  | cons step rest ih =>
    obtain ⟨answer, v, -, h⟩ := bind_eq_some_iff.mp h
    rw [bind_of_eq_some (note_apply _)] at h
    cases hf : answer.fault? with
    | none | some f =>
      rw [hf] at h
      exact ih h

/-- A callback that its own steps cannot stop comes back with the outcome it has. -/
theorem yields_of_unstoppable (depth : Nat) {c : Callback} (h : c.stopsOnFault → c.steps = []) :
    Yields depth c c.outcome := by
  intro s r t hreact
  obtain ⟨fault, v, hv, hreact⟩ := bind_eq_some_iff.mp hreact
  have hnone : fault = none := by
    cases hstop : c.stopsOnFault with
    | false =>
      rw [hstop] at hv
      exact runSteps_eq_none hv
    | true =>
      rw [h hstop] at hv
      cases hv
      rfl
  rw [hnone] at hreact
  cases hreact
  rfl

/-- If callbacks come back with the outcomes they are given, there is a fatal fault among them just
when one of the given outcomes is such. -/
theorem fatals_eq_nil_iff {batch : List (Ledger.Entry Callback)}
    {told : List (PacketId × Outcome)} {outcomes : PacketId → Outcome}
    (h : reactEach (performTo depth) batch s = some (told, t))
    (hyields : ∀ id c, (id, some c) ∈ batch → Yields depth c (outcomes id)) :
    fatals told = [] ↔
      ∀ id c, (id, some c) ∈ batch → ∀ f, outcomes id ≠ .error (.fatal f) := by
  constructor
  · intro hnone id c hc f hf
    have hcall : ⟨id, c, .cancelled⟩ ∈ batch.flatMap fun e => callOf e.1 .cancelled e.2 :=
      List.mem_flatMap.mpr ⟨_, hc, mem_callOf.mpr ⟨rfl, rfl, rfl⟩⟩
    have hid : id ∈ told.map (·.1) := by
      rw [ids_told h]
      exact List.mem_map_of_mem hcall
    obtain ⟨⟨k, outcome⟩, hmem, hk⟩ := List.mem_map.mp hid
    cases hk
    obtain ⟨d, v, w, hd, hv⟩ := exists_react_of_mem h hmem
    rw [hyields _ d hd hv, hf, ← mem_fatals, hnone] at hmem
    cases hmem
  · intro hno
    refine List.eq_nil_iff_forall_not_mem.mpr ?_
    rintro ⟨id, f⟩ hmem
    rw [mem_fatals] at hmem
    obtain ⟨c, v, w, hc, hv⟩ := exists_react_of_mem h hmem
    exact hno id c hc f (hyields id c hc hv).symm

/-! ## Main statement -/

/-- How an abandoned batch is accounted for, when abandoning at `s` has ended with `r` at `t`: its
callbacks came back with `told`, and apart from what was nested in them, `own` was written down. -/
structure Reported (depth : Nat) (s t : Session) (r : Except Fatal Unit)
    (told : List (PacketId × Outcome)) (own : List Occurrence) : Prop where
  /-- Called one after the other on an emptied ledger, the callbacks come back with this. -/
  reacted : ∃ u, reactEach (performTo depth) s.batch s.abandoning = some (told, u) ∧
    u.unwritten = t.unwritten
  /-- With what is nested in callbacks struck from the journal, this is what is written down. -/
  struck : ∃ u, abandon (silently (performTo depth)) s = some (r, u) ∧
    u.unwritten = t.unwritten ∧ u.journal = own ++ s.journal ∧ u.journal.Sublist t.journal
  /-- Everyone is called once, whatever the others come back with. -/
  called : own.filterMap (·.invocation?) =
    (s.batch.flatMap fun e => callOf e.1 .cancelled e.2).reverse
  heard : told.map (·.1) = (s.batch.flatMap fun e => callOf e.1 .cancelled e.2).map (·.id)
  result : r = verdict (fatals told)
  /-- One warning for each fatal fault but the first, one for each recoverable fault, no other. -/
  warned : (warnings own).Perm
    ((fatals told).tail.map droppedLine ++ (recoverables told).map recoveredLine)

theorem exists_reported {r : Except Fatal Unit}
    (h : abandon (performTo depth) s = some (r, t)) :
    ∃ told own, Reported depth s t r told own := by
  have hblind := blind_performTo depth
  obtain ⟨u, hu, htu⟩ := unison_thinner.accord.accords_abandon (accords_silently_of_blind hblind)
    (t := s) ⟨rfl, List.Sublist.refl _⟩ h
  obtain ⟨told, v, hv, hvu, hr, own, hown, hcalled, hwarned⟩ :=
    told_of_cancelEach (silent_silently _) (accords_of_silently hblind)
      ((abandon_apply _).symm.trans hu) (u := s.abandoning) rfl
  exact ⟨told, own ++ [.abandoned s.ledger.pending.toList.length], {
    reacted := ⟨v, hv, hvu.trans htu.same⟩
    struck := ⟨u, hu, htu.same, by rw [hown, List.append_assoc]; rfl, htu.journal⟩
    called := by
      rw [List.filterMap_append, hcalled]
      exact List.append_nil _
    heard := ids_told hv
    result := hr
    warned := by
      rw [warnings_append]
      exact (List.append_nil _).symm ▸ hwarned }⟩

theorem abandon_eq_ok_iff {outcomes : PacketId → Outcome} {r : Except Fatal Unit}
    (hyields : ∀ id c, s.ledger.pending[id]? = some (some c) → Yields depth c (outcomes id))
    (h : abandon (performTo depth) s = some (r, t)) :
    r = .ok () ↔
      ∀ id c, s.ledger.pending[id]? = some (some c) → ∀ f, outcomes id ≠ .error (.fatal f) := by
  obtain ⟨told, own, hreported⟩ := exists_reported h
  obtain ⟨u, hu, -⟩ := hreported.reacted
  rw [hreported.result, verdict_eq_ok_iff,
    fatals_eq_nil_iff hu fun id c hc => hyields id c (mem_batch.mp hc)]
  simp only [mem_batch]

/-- No fault is lost when a ledger is abandoned, whatever waits in it and in whatever order the
batch is gone through. If the callbacks only work on the ledger, abandoning comes to its end.
However it ends, everyone in the batch has been called, the first of the fatal faults they came back
with is the result, and there is one warning for each of the others and for each recoverable fault,
and no further one. If callbacks leave the operations alone and come back with outcomes that are
given, the order makes no difference to whether there is a fatal fault. -/
theorem abandon_reported (s : Session) (depth : Nat) :
    (s.Ready → s.ledger.weight ≤ depth → ∃ r t, abandon (performTo depth) s = some (r, t)) ∧
    (∀ r t, abandon (performTo depth) s = some (r, t) →
      ∃ told own, Reported depth s t r told own) ∧
    ∀ outcomes : PacketId → Outcome, 0 < depth →
      (∀ id c, s.ledger.pending[id]? = some (some c) → c.Inert ∧ Yields depth c (outcomes id)) →
      ∀ order order' : VisitOrder Callback, ∃ r t r' t',
        abandon (performTo depth) { s with order := order } = some (r, t) ∧
        abandon (performTo depth) { s with order := order' } = some (r', t') ∧
        (r = .ok () ↔ r' = .ok ()) := by
  refine ⟨fun hs hdepth => ?_, fun r t h => exists_reported h,
    fun outcomes hdepth hgiven order order' => ?_⟩
  · obtain ⟨r, t, ht, -⟩ := ends_abandon (obliging_performTo depth) hs hdepth
    exact ⟨r, t, ht⟩
  · obtain ⟨d, rfl⟩ : ∃ d, depth = d + 1 := ⟨depth - 1, by omega⟩
    have hends (o : VisitOrder Callback) : ∃ r t,
        abandon (performTo (d + 1)) { s with order := o } = some (r, t) ∧
        (r = .ok () ↔ ∀ id c, s.ledger.pending[id]? = some (some c) →
          ∀ f, outcomes id ≠ .error (.fatal f)) := by
      obtain ⟨r, t, ht, -⟩ := worked_abandon (s := { s with order := o }) (serving_performTo d)
        fun id c hc => (hgiven id c hc).1
      exact ⟨r, t, ht, abandon_eq_ok_iff (s := { s with order := o })
        (fun id c hc => (hgiven id c hc).2) ht⟩
    obtain ⟨r, t, ht, hr⟩ := hends order
    obtain ⟨r', t', ht', hr'⟩ := hends order'
    exact ⟨r, t, r', t', ht, ht', hr.trans hr'.symm⟩

/-- Four operations wait. The callbacks of two fail for good and that of another can be recovered
from; the last one has none. -/
def failing : Session :=
  let first := (({} : Ledger Callback).track 1 (some ⟨"one", [], .error (.fatal ⟨"one"⟩), true⟩)).2
  let second := (first.track 2 (some ⟨"two", [], .error (.recoverable "two"), true⟩)).2
  let third := (second.track 3 (some ⟨"three", [], .error (.fatal ⟨"three"⟩), true⟩)).2
  { opened default (.ascending _) with ledger := (third.track 4 none).2 }

/-- Goes through a batch against the order of the identifiers. -/
def descending : VisitOrder Callback where
  arrange _ batch := batch.reverse
  perm _ batch := batch.reverse_perm

theorem steps_failing {id : PacketId} {c : Callback}
    (h : failing.ledger.pending[id]? = some (some c)) : c.steps = [] := by
  have hall : failing.ledger.All (·.steps = []) :=
    Ledger.all_track (Ledger.all_track (Ledger.all_track (Ledger.all_track Ledger.all_empty 1
      fun c hc => by cases hc; rfl) 2 fun c hc => by cases hc; rfl) 3
      fun c hc => by cases hc; rfl) 4 nofun
  exact hall id c h

/-- The first of the fatal faults is returned; the other one and the recoverable fault are warned
of. The other way round there is a fatal fault as well. -/
theorem abandon_reported_failing :
    (∃ t own, abandon (performTo 1) failing = some (.error ⟨"one"⟩, t) ∧
      (own.filterMap (·.invocation?)).map (·.id) = [3, 2, 1] ∧
      (warnings own).Perm [droppedLine (3, ⟨"three"⟩), recoveredLine (2, "two")]) ∧
    ∃ r t, abandon (performTo 1) { failing with order := descending } = some (r, t) ∧
      r ≠ .ok () := by
  obtain ⟨-, hreported, hanyOrder⟩ := abandon_reported failing 1
  obtain ⟨t, ht⟩ : ∃ t, abandon (performTo 1) failing = some (.error ⟨"one"⟩, t) := ⟨_, rfl⟩
  constructor
  · obtain ⟨told, own, hown⟩ := hreported _ _ ht
    obtain ⟨u, hu, -⟩ := hown.reacted
    obtain ⟨v, hv⟩ : ∃ v, reactEach (performTo 1) failing.batch failing.abandoning =
        some ([(1, .error (.fatal ⟨"one"⟩)), (2, .error (.recoverable "two")),
          (3, .error (.fatal ⟨"three"⟩))], v) := ⟨_, rfl⟩
    cases hu.symm.trans hv
    refine ⟨t, own, ht, ?_, hown.warned⟩
    rw [hown.called]
    rfl
  · have hgiven : ∀ (id : PacketId) (c : Callback),
        failing.ledger.pending[id]? = some (some c) → c.Inert ∧
          Yields 1 c (failing.ledger.pending[id]?.join.elim (.ok ()) Reaction.outcome) := by
      intro id c hc
      have hsteps := steps_failing hc
      refine ⟨fun n hn => ?_, ?_⟩
      · rw [hsteps] at hn
        cases hn
      · rw [hc]
        exact yields_of_unstoppable 1 fun _ => hsteps
    obtain ⟨r, t', r', t'', hr, hr', hsame⟩ :=
      hanyOrder _ Nat.one_pos hgiven failing.order descending
    cases ht.symm.trans hr
    exact ⟨r', t'', hr', fun hok => nomatch hsame.mpr hok⟩

end MqttLink.Session
