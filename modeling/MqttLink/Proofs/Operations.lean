import MqttLink.Proofs.Aside

/-!
The ledger at work, state by state. Main statements: what tracking, settling and abandoning do at a
given state up to the point where callbacks are called.
-/

namespace MqttLink

namespace Ledger

variable {κ : Type} {p : κ → Prop} {l : Ledger κ} {id : PacketId}

/-! ## What waits -/

theorem mem_pending_track {k : PacketId} {callback : Option κ} :
    k ∈ (l.track id callback).2.pending ↔ k = id ∧ id ∉ l.early ∨ k ∈ l.pending := by
  rw [Std.ExtTreeMap.mem_iff_isSome_getElem?, getElem?_track,
    Std.ExtTreeMap.mem_iff_isSome_getElem?]
  split
  next h => simp [h]
  next h => simp [h]

theorem mem_pending_settle {k : PacketId} :
    k ∈ (l.settle id).2.pending ↔ k ≠ id ∧ k ∈ l.pending := by
  rw [Std.ExtTreeMap.mem_iff_isSome_getElem?, getElem?_settle,
    Std.ExtTreeMap.mem_iff_isSome_getElem?]
  split
  next h => simp [h]
  next h => simp [h]

/-! ## What is remembered -/

theorem early_settle_of_pending {callback : Option κ} (h : l.pending[id]? = some callback) :
    (l.settle id).2.early = l.early := by
  rw [settle, h]

theorem size_early_settle_le (l : Ledger κ) (id : PacketId) :
    (l.settle id).2.early.size ≤ l.early.size + 1 := by
  unfold settle
  split
  · exact Nat.le_succ _
  · exact Std.ExtTreeSet.size_insert_le

theorem early_track_of_not_mem (h : id ∉ l.early) (callback : Option κ) :
    (l.track id callback).2.early = l.early := by
  rw [track, if_neg (mt Std.ExtTreeSet.contains_iff_mem.mp h)]

theorem size_early_track_of_mem (h : id ∈ l.early) (callback : Option κ) :
    (l.track id callback).2.early.size + 1 = l.early.size := by
  have hmem : l.early.contains id := Std.ExtTreeSet.contains_iff_mem.mpr h
  have hpos : l.early.size ≠ 0 := fun hzero => by
    rw [Std.ExtTreeSet.eq_empty_iff_size_eq_zero.mpr hzero] at h
    exact Std.ExtTreeSet.not_mem_empty h
  rw [track, if_pos hmem, Std.ExtTreeSet.size_erase, if_pos hmem]
  omega

/-! ## An operation and its acknowledgement -/

/-- An operation that is acknowledged after it came leaves nothing behind. -/
theorem settle_track (hp : id ∉ l.pending) (he : id ∉ l.early) (callback : Option κ) :
    ((l.track id callback).2.settle id).2 = l := by
  have hsame : (l.pending.insert id callback).erase id = l.pending := by
    refine Std.ExtTreeMap.ext_getElem? fun k => ?_
    rw [Std.ExtTreeMap.getElem?_erase, Std.ExtTreeMap.getElem?_insert]
    simp only [Std.LawfulEqCmp.compare_eq_iff_eq]
    split
    next h => rw [← h, Std.ExtTreeMap.getElem?_eq_none hp]
    next => rfl
  simp [track, settle, he, hsame]

/-- Nor does an operation that was acknowledged before it came. -/
theorem track_settle (hp : id ∉ l.pending) (he : id ∉ l.early) (callback : Option κ) :
    ((l.settle id).2.track id callback).2 = l := by
  have hsame : (l.early.insert id).erase id = l.early := by
    refine Std.ExtTreeSet.ext_mem fun k => ?_
    rw [Std.ExtTreeSet.mem_erase, Std.ExtTreeSet.mem_insert]
    simp only [Std.LawfulEqCmp.compare_eq_iff_eq]
    grind
  simp [track, settle, Std.ExtTreeMap.getElem?_eq_none hp, hsame]

/-! ## Callbacks that wait -/

/-- `p` holds of every callback that waits. -/
def All (p : κ → Prop) (l : Ledger κ) : Prop :=
  ∀ (id : PacketId) (c : κ), l.pending[id]? = some (some c) → p c

theorem all_empty : All p {} := by
  intro id c h
  simp at h

theorem all_track (hl : l.All p) (id : PacketId) {callback : Option κ}
    (hp : ∀ c, callback = some c → p c) : (l.track id callback).2.All p := by
  intro k c h
  rw [getElem?_track] at h
  split at h
  · exact hp c (Option.some.inj h)
  · exact hl k c h

theorem all_settle (hl : l.All p) (id : PacketId) : (l.settle id).2.All p := by
  intro k c h
  rw [getElem?_settle] at h
  split at h
  · cases h
  · exact hl k c h

end Ledger

namespace Session

open Play

/-- The session with another ledger. -/
def withLedger (s : Session) (l : Ledger Callback) : Session :=
  { s with ledger := l }

@[simp]
theorem withLedger_ledger (s : Session) (l : Ledger Callback) : (s.withLedger l).ledger = l := rfl

@[simp]
theorem withLedger_journal (s : Session) (l : Ledger Callback) :
    (s.withLedger l).journal = s.journal := rfl

theorem alike_withLedger (s : Session) (l : Ledger Callback) : Alike s (s.withLedger l) :=
  ⟨rfl, rfl, rfl, rfl, rfl, rfl⟩

theorem alike_noted (s : Session) (o : Occurrence) : Alike s (s.noted o) :=
  ⟨rfl, rfl, rfl, rfl, rfl, rfl⟩

/-- The session whose ledger has just taken an operation in. -/
def tracking (s : Session) (id : PacketId) (callback : Option Callback) : Session :=
  (s.noted (.tracked id callback)).withLedger (s.ledger.track id callback).2

/-- The session whose ledger has just taken an acknowledgement in. -/
def settling (s : Session) (id : PacketId) : Session :=
  s.withLedger (s.ledger.settle id).2

/-- The session whose ledger has just been emptied. -/
def abandoning (s : Session) : Session :=
  { (s.withLedger {}).noted (.abandoned s.ledger.pending.toList.length) with
    sweeps := s.sweeps + 1 }

/-- The session whose client has just heard that the request under `id` is done. -/
def freeing (s : Session) (id : PacketId) : Session :=
  { s.noted (.acknowledged id) with client := s.client.reclaim id }

/-- The session whose client has just given an identifier away. -/
def giving (s : Session) (m : Method) (id : PacketId) (code : Int) (c : Client) : Session :=
  ({ s with client := c } : Session).noted (.issued m id code)

/-- The order in which the operations that wait now are gone through if they are abandoned. -/
def batch (s : Session) : List (Ledger.Entry Callback) :=
  s.order.arrange s.sweeps s.ledger.pending.toList

theorem batch_perm (s : Session) : s.batch.Perm s.ledger.pending.toList :=
  s.order.perm _ _

theorem mem_batch {s : Session} {id : PacketId} {callback : Option Callback} :
    (id, callback) ∈ s.batch ↔ s.ledger.pending[id]? = some callback := by
  rw [s.batch_perm.mem_iff, Std.ExtTreeMap.mem_toList_iff_getElem?_eq_some]

theorem onLedger_apply {α : Type} (f : Ledger Callback → α × Ledger Callback) (s : Session) :
    onLedger f s = some ((f s.ledger).1, s.withLedger (f s.ledger).2) := rfl

/-! ## Around a step -/

/-- The session when the span of an operation has begun. -/
def entering (s : Session) (operation : Operation) (arguments : List Argument) : Session :=
  s.noted (.entered (.ofCall operation arguments s.settings))

section

variable {α : Type} {a : α} {s t : Session} {operation : Operation} {arguments : List Argument}

theorem aside_entering (s : Session) (operation : Operation) (arguments : List Argument) :
    Aside s (s.entering operation arguments) :=
  aside_noted s rfl

theorem spanning_of_eq_some {x : Play α} (h : x (s.entering operation arguments) = some (a, t)) :
    spanning operation arguments x s = some (a, t.noted (.left operation)) := by
  rw [spanning, bind_of_eq_some get_apply, bind_of_eq_some (note_apply _)]
  exact bind_of_eq_some h _

theorem exists_of_spanning {x : Play α} (h : spanning operation arguments x s = some (a, t)) :
    ∃ u, x (s.entering operation arguments) = some (a, u) ∧ t = u.noted (.left operation) := by
  rw [spanning, bind_of_eq_some get_apply, bind_of_eq_some (note_apply _)] at h
  obtain ⟨b, u, hu, h⟩ := bind_eq_some_iff.mp h
  cases h
  exact ⟨u, hu, rfl⟩

theorem holding_of_eq_some {x : Play α} (h : x { s with holders := s.holders + 1 } = some (a, t)) :
    holding x s = some (a, { t with holders := t.holders - 1 }) := by
  rw [holding, bind_of_eq_some (modify_apply _), bind_of_eq_some h]
  rfl

theorem exists_of_holding {x : Play α} (h : holding x s = some (a, t)) :
    ∃ u, x { s with holders := s.holders + 1 } = some (a, u) ∧
      t = { u with holders := u.holders - 1 } := by
  obtain ⟨_, v, hv, h⟩ := bind_eq_some_iff.mp h
  cases hv
  obtain ⟨b, u, hu, h⟩ := bind_eq_some_iff.mp h
  obtain ⟨_, w, hw, h⟩ := bind_eq_some_iff.mp h
  cases hw
  cases h
  exact ⟨u, hu, rfl⟩

theorem sweeping_of_eq_some {x : Play α} (h : x (s.noted .sweepBegun) = some (a, t)) :
    sweeping x s = some (a, t.noted .sweepEnded) := by
  rw [sweeping, bind_of_eq_some (note_apply _), bind_of_eq_some h]
  rfl

/-- The answer to a request that came back with a result. -/
def requestAnswer : Except Fault PacketId → Answer
  | .ok id => .id id
  | .error f => .fault f

theorem exists_of_answering {x : Play (Except Fault Unit)} {a : Answer}
    (h : answering x s = some (a, t)) : ∃ r, x s = some (r, t) ∧ a = .ofResult r := by
  obtain ⟨r, u, hu, h⟩ := bind_eq_some_iff.mp h
  cases h
  exact ⟨r, hu, rfl⟩

theorem answeringRequest_of_eq_some {run : Runner} {r : Request} {callback : Option Callback}
    {res : Except Fault PacketId}
    (h : request run r callback (s.entering r.operation r.arguments) = some (res, t)) :
    answeringRequest run r callback s =
      some (requestAnswer res, t.noted (.left r.operation)) := by
  rw [answeringRequest, answeringId, bind_of_eq_some (spanning_of_eq_some h)]
  cases res <;> rfl

theorem exists_of_answeringRequest {run : Runner} {r : Request} {callback : Option Callback}
    {answer : Answer} (h : answeringRequest run r callback s = some (answer, t)) :
    ∃ res u, request run r callback (s.entering r.operation r.arguments) = some (res, u) ∧
      answer = requestAnswer res ∧ t = u.noted (.left r.operation) := by
  obtain ⟨res, v, hv, h⟩ := bind_eq_some_iff.mp h
  obtain ⟨u, hu, rfl⟩ := exists_of_spanning hv
  cases res <;> cases h <;> exact ⟨_, u, hu, rfl, rfl⟩

theorem withLink_of_owned (hs : s.owned) (x : Play Answer) : withLink x s = holding x s := by
  rw [withLink, bind_of_eq_some get_apply, if_pos hs]

end

variable (run : Runner) {s : Session} {id : PacketId}

/-! ## Tracking -/

theorem track_of_mem_early (h : id ∈ s.ledger.early) (callback : Option Callback) :
    track run id callback s =
      invoke? run id .completed callback
        ((s.tracking id callback).noted (.foundAcknowledged id)) := by
  have hl : onLedger (·.track id callback) (s.noted (.tracked id callback)) =
      some (.acknowledged, s.tracking id callback) := by
    simp [onLedger_apply, tracking, Ledger.track, h]
  rw [track, bind_of_eq_some (note_apply _), bind_of_eq_some hl]
  exact bind_of_eq_some (note_apply _) _

theorem track_of_not_mem_early (h : id ∉ s.ledger.early) (callback : Option Callback) :
    track run id callback s = match s.ledger.pending[id]? with
      | some d =>
        some (.ok (), ((s.tracking id callback).noted (.displaced id d)).noted (.waiting id))
      | none => some (.ok (), (s.tracking id callback).noted (.waiting id)) := by
  have hl : onLedger (·.track id callback) (s.noted (.tracked id callback)) =
      some (.waiting s.ledger.pending[id]?, s.tracking id callback) := by
    simp [onLedger_apply, tracking, Ledger.track, h]
  rw [track, bind_of_eq_some (note_apply _), bind_of_eq_some hl]
  cases s.ledger.pending[id]? <;> rfl

/-- An operation whose identifier is in neither table waits. -/
theorem track_of_absent (hp : id ∉ s.ledger.pending) (he : id ∉ s.ledger.early)
    (callback : Option Callback) :
    track run id callback s = some (.ok (), (s.tracking id callback).noted (.waiting id)) := by
  rw [track_of_not_mem_early run he, Std.ExtTreeMap.getElem?_eq_none hp]

/-! ## Settling -/

theorem settle_of_pending {callback : Option Callback}
    (h : s.ledger.pending[id]? = some callback) :
    settle run id s = invoke? run id .completed callback ((s.settling id).noted (.settled id)) := by
  have hl : onLedger (·.settle id) s = some (some callback, s.settling id) := by
    simp [onLedger_apply, settling, Ledger.settle, h]
  rw [settle, bind_of_eq_some hl]
  exact bind_of_eq_some (note_apply _) _

theorem settle_of_not_pending (h : s.ledger.pending[id]? = none) :
    settle run id s = some (.ok (), (s.settling id).noted (.deferred id)) := by
  have hl : onLedger (·.settle id) s = some (none, s.settling id) := by
    simp [onLedger_apply, settling, Ledger.settle, h]
  rw [settle, bind_of_eq_some hl]
  rfl

/-! ## Abandoning -/

theorem abandon_apply : abandon run s = cancelEach run (.ok ()) s.batch s.abandoning := rfl

/-- Keeps the first fatal fault of a batch, and writes the later ones down. -/
def keep (id : PacketId) : (first r : Except Fatal Unit) → Play (Except Fatal Unit)
  | .ok _, r => pure r
  | .error f, .ok _ => pure (.error f)
  | .error f, .error g => do
    note (.fatalDropped id g)
    return .error f

theorem cancelEach_cons (first : Except Fatal Unit) (id : PacketId) (c : Callback)
    (rest : List (Ledger.Entry Callback)) :
    cancelEach run first ((id, some c) :: rest) = (do
      let r ← invoke run id .cancelled c
      let kept ← keep id first r
      cancelEach run kept rest) := by
  rw [cancelEach]
  refine bind_congr fun r => ?_
  cases first <;> cases r <;> rfl

theorem exists_keep (id : PacketId) (first r : Except Fatal Unit) (s : Session) :
    ∃ kept t, keep id first r s = some (kept, t) ∧ Aside s t ∧ t.sweeps = s.sweeps := by
  match first, r with
  | .ok _, r => exact ⟨r, s, rfl, Aside.refl s, rfl⟩
  | .error f, .ok _ => exact ⟨.error f, s, rfl, Aside.refl s, rfl⟩
  | .error f, .error g =>
    exact ⟨.error f, s.noted (.fatalDropped id g), rfl, aside_noted s rfl, rfl⟩

/-- A batch calls its first callback, and the rest of it follows. -/
theorem exists_invoke_of_cancelEach {run : Runner} {first r : Except Fatal Unit} {c : Callback}
    {rest : List (Ledger.Entry Callback)}
    (h : cancelEach run first ((id, some c) :: rest) s = some (r, t)) :
    ∃ q u kept v, invoke run id .cancelled c s = some (q, u) ∧ Aside u v ∧
      v.sweeps = u.sweeps ∧ cancelEach run kept rest v = some (r, t) := by
  rw [cancelEach_cons] at h
  obtain ⟨q, u, hu, h⟩ := bind_eq_some_iff.mp h
  obtain ⟨kept, v, hv, haside, hsweeps⟩ := exists_keep id first q u
  rw [bind_of_eq_some hv] at h
  exact ⟨q, u, kept, v, hu, haside, hsweeps, h⟩

/-! ## Calling -/

theorem invoke_apply (resolution : Resolution) (c : Callback) :
    invoke run id resolution c s =
      (do contain .callback (← react run c)) (s.noted (.invoked id c resolution s.view)) := rfl

theorem contain_apply (source : Source) (outcome : Outcome) (s : Session) :
    ∃ r t, contain source outcome s = some (r, t) ∧ Aside s t := by
  match outcome with
  | .ok () => exact ⟨_, _, rfl, Aside.refl s⟩
  | .error (.recoverable _) => exact ⟨_, _, rfl, aside_noted s rfl⟩
  | .error (.fatal _) => exact ⟨_, _, rfl, Aside.refl s⟩

end Session

end MqttLink
