import MqttLink.Proofs.Issue
import MqttLink.Proofs.Loans

/-!
Operations side by side. Each one is given an identifier, is acknowledged and is tracked, and the
parts of many operations may come in any order in which identifiers come first. An identifier is
free again as soon as its operation is acknowledged, so it may belong to a second operation before
the first one is tracked. Main statements: in whatever order the parts come, an identifier is there
for each operation, no callback is called twice, and the calls and the remembered acknowledgements
together are never more than the acknowledgements.
-/

namespace MqttLink

namespace Session

open Play

/-! ## Operations in parts -/

/-- An operation that runs beside others. -/
structure Errand where
  request : Request
  callback : Callback

/-- The call that an operation is due under its identifier. -/
def Errand.completion (e : Errand) (id : PacketId) : Invocation :=
  ⟨id, e.callback, .completed⟩

/-- The client gives an operation its identifier and hears that it is done, and the ledger tracks
it. -/
inductive Part
  | issue
  | acknowledge
  | track
  deriving DecidableEq

/-- The client gives an identifier out, if one is free. -/
def giveId : Play (Option PacketId) :=
  onClient fun c =>
    match c.takeId with
    | some (id, d) => (some id, d)
    | none => (none, c)

variable {n : Nat} (run : Runner) (op : Fin n → Errand)

/-- Goes through one part of an operation; `ids` are the identifiers that have been given out. -/
def takePart (ids : Fin n → Option PacketId) (i : Fin n) : Part → Play (Fin n → Option PacketId)
  | .issue => do return Function.update ids i (← giveId)
  | .acknowledge =>
    match ids i with
    | some id => do
      let _ ← deliver run ((op i).request.acknowledgement id)
      return ids
    | none => pure ids
  | .track =>
    match ids i with
    | some id => do
      let _ ← Session.track run id (some (op i).callback)
      return ids
    | none => pure ids

/-- Goes through parts of operations in order. -/
def takeParts (ids : Fin n → Option PacketId) :
    List (Fin n × Part) → Play (Fin n → Option PacketId)
  | [] => pure ids
  | (i, part) :: rest => do takeParts (← takePart run op ids i part) rest

theorem takeParts_concat {ids ids' ids'' : Fin n → Option PacketId} {moves : List (Fin n × Part)}
    {i : Fin n} {part : Part} {s t u : Session}
    (h : takeParts run op ids moves s = some (ids', t))
    (hpart : takePart run op ids' i part t = some (ids'', u)) :
    takeParts run op ids (moves ++ [(i, part)]) s = some (ids'', u) := by
  induction moves generalizing ids s with
  | nil =>
    cases h
    exact bind_of_eq_some hpart _
  | cons move rest ih =>
    obtain ⟨ids₁, s₁, h₁, h⟩ := bind_eq_some_iff.mp h
    exact (bind_of_eq_some h₁ _).trans (ih h)

/-- Every part of every operation once, and the issue of each operation first. -/
structure Interleaved (moves : List (Fin n × Part)) : Prop where
  once : moves.Nodup
  all : ∀ move, move ∈ moves
  issued : ∀ k (h : k < moves.length), moves[k].2 ≠ .issue → (moves[k].1, .issue) ∈ moves.take k

/-- After `k` parts on a fresh link the session is `s`, and `ids` have been given out. -/
def Reaches (moves : List (Fin n × Part)) (settings : Settings) (order : VisitOrder Callback)
    (k : Nat) (ids : Fin n → Option PacketId) (s : Session) : Prop :=
  takeParts run op (fun _ => none) (moves.take k) (opened settings order) = some (ids, s)

/-! ## Single parts -/

/-- From `s` to `t` the pool became `p`, the ledger became `l`, and the callbacks `news` were
called. -/
structure Moved (p : PacketId.Pool) (l : Ledger Callback) (news : List Invocation)
    (s t : Session) : Prop extends Alike s t where
  pool : t.client.pool = p
  ledger : t.ledger = l
  calls : t.calls = news ++ s.calls

variable {run op} {s t : Session} {id : PacketId}

theorem moved_giveId {q : PacketId.Pool} (hs : s.Linked) (hl : s.client.pool.lend = some (id, q)) :
    ∃ t, giveId s = some (some id, t) ∧ Moved q s.ledger [] s t := by
  have htake : s.client.takeId = some (id, { s.client with pool := q }) := by
    rw [takeId_of_queuedIds hs.queuedIds, hl]
    rfl
  rw [giveId, onClient_apply, htake]
  exact ⟨_, rfl, ⟨rfl, rfl, rfl, rfl, rfl, rfl⟩, rfl, rfl, rfl⟩

section

variable (hrun : Serving run)
include hrun

theorem moved_deliver {event : BrokerEvent} (he : event.acknowledged? = some id) (hs : s.Linked)
    (hinert : s.ledger.All Reaction.Inert) :
    ∃ a t, deliver run event s = some (a, t) ∧
      Moved (s.client.pool.reclaim id) (s.ledger.settle id).2
        (s.ledger.pending[id]?.elim [] (callOf id .completed)) s t := by
  obtain ⟨o, ho, hdeliver⟩ := deliver_acknowledgement run he hs.sink
  have howned : ((s.freeing id).noted o).owned := hs.owned
  obtain ⟨a, t, ht, hworked⟩ := worked_map (Except.mapError Fault.fatal) (worked_holding
    (worked_settle (s := { (s.freeing id).noted o with holders := s.holders + 1 }) hrun id hinert))
  have hcalls : ((s.freeing id).noted o).calls = s.calls := by
    rw [Session.calls, noted_journal,
      List.filterMap_cons_none (Occurrence.invocation?_of_quiet ho)]
    rfl
  refine ⟨a, t, ?_, ?_, hworked.pool, hworked.ledger, ?_⟩
  · rw [hdeliver, acknowledge_of_owned run howned]
    exact ht
  · exact (alike_freeing s id).trans ((alike_noted _ o).trans hworked.toAlike)
  · rw [hworked.calls, hcalls]
    rfl

theorem moved_track (id : PacketId) {c : Callback} (hc : c.Inert) :
    ∃ r t, Session.track run id (some c) s = some (r, t) ∧
      Moved s.client.pool (s.ledger.track id (some c)).2
        (if id ∈ s.ledger.early then [⟨id, c, .completed⟩] else []) s t := by
  have hinert : ∀ d, some c = some d → d.Inert := fun _ h => Option.some.inj h ▸ hc
  obtain ⟨r, t, ht, hworked⟩ := worked_track (s := s) hrun id hinert
  exact ⟨r, t, ht, hworked.toAlike, hworked.pool, hworked.ledger, hworked.calls⟩

end

/-! ## Whatever the order -/

/-- What the client has lent to the operations after the parts in `done`. -/
structure Lent (done : List (Fin n × Part)) (ids : Fin n → Option PacketId) (s : Session) : Prop
    extends Linked s where
  given : ∀ i, (ids i).isSome ↔ (i, .issue) ∈ done
  onLoan : ∀ id, s.client.pool.onLoan id ↔ ∃ i, ids i = some id ∧ (i, .acknowledge) ∉ done
  distinct : ∀ i j id, ids i = some id → ids j = some id → (i, .acknowledge) ∉ done →
    (j, .acknowledge) ∉ done → i = j

/-- What stands of the operations after the parts in `done`, in whatever order they came: each call
has used up an acknowledgement, and so has each one that is remembered; at least `lost` were of no
use. -/
structure Beside (op : Fin n → Errand) (lost : Nat) (done : List (Fin n × Part))
    (ids : Fin n → Option PacketId) (s : Session) : Prop extends Lent done ids s where
  waits : ∀ id callback, s.ledger.pending[id]? = some callback → ∃ i,
    callback = some (op i).callback ∧ ids i = some id ∧ (i, .track) ∈ done ∧
      (op i).callback ∉ s.calls.map (·.callback)
  called : ∀ call ∈ s.calls, ∃ i, ids i = some call.id ∧ (i, .track) ∈ done ∧
    call = (op i).completion call.id
  once : (s.calls.map (·.callback)).Nodup
  sparing : s.calls.length + s.ledger.early.size + lost ≤ done.countP (·.2 = .acknowledge)

variable {lost : Nat} {done done' : List (Fin n × Part)} {ids ids' : Fin n → Option PacketId}
  {i : Fin n}

theorem beside_opened (op : Fin n → Errand) (settings : Settings) (order : VisitOrder Callback) :
    Beside op 0 [] (fun _ => none) (opened settings order) where
  toLinked := linked_opened settings order
  given i := by simp
  onLoan id := by
    constructor
    · exact fun h => absurd h (PacketId.Pool.not_onLoan_fresh id)
    · rintro ⟨_, h, -⟩
      cases h
  distinct := nofun
  waits id callback h := by simp [opened, attached] at h
  called := nofun
  once := List.nodup_nil
  sparing := Nat.le_refl 0

theorem inert_of_beside (hinert : ∀ i, (op i).callback.Inert) (hs : Beside op lost done ids s) :
    s.ledger.All Reaction.Inert := by
  intro id c hc
  obtain ⟨i, heq, -⟩ := hs.waits id (some c) hc
  cases heq
  exact hinert i

theorem mem_concat_iff {i j : Fin n} {part part' : Part} :
    (i, part) ∈ done ++ [(j, part')] ↔ (i, part) ∈ done ∨ i = j ∧ part = part' := by
  simp

/-- As long as an operation is still to be issued, an identifier is free for it. -/
theorem exists_lend (hn : n ≤ 65535) (hs : Lent done ids s) (hi : (i, .issue) ∉ done) :
    ∃ id q, s.client.pool.lend = some (id, q) := by
  cases hl : s.client.pool.lend with
  | some lent => exact ⟨lent.1, lent.2, rfl⟩
  | none =>
    -- All identifiers would be on loan to the other operations, which are too few.
    have hall := (PacketId.Pool.lend_eq_none_iff hs.canonical).mp hl
    have hmaps : PacketId.Pool.lendable ⊆
        (Finset.univ.erase i).image fun j => (ids j).getD ⟨0, by decide⟩ := by
      intro id hid
      obtain ⟨j, hj, -⟩ := (hs.onLoan id).mp (hall id (PacketId.Pool.mem_lendable.mp hid))
      have hne : j ≠ i := by
        rintro rfl
        exact hi ((hs.given j).mp (by rw [hj]; rfl))
      exact Finset.mem_image.mpr ⟨j, Finset.mem_erase.mpr ⟨hne, Finset.mem_univ j⟩,
        by rw [hj]; rfl⟩
    have hcard := (Finset.card_le_card hmaps).trans Finset.card_image_le
    rw [PacketId.Pool.card_lendable, Finset.card_erase_of_mem (Finset.mem_univ i),
      Finset.card_fin] at hcard
    have := i.isLt
    omega

/-! ### Loans -/

theorem lent_issue {q : PacketId.Pool} (hs : Lent done ids s) (hi : (i, .issue) ∉ done)
    (hissued : (i, .acknowledge) ∈ done → (i, .issue) ∈ done)
    (hl : s.client.pool.lend = some (id, q)) (ht : Moved q s.ledger [] s t) :
    Lent (done ++ [(i, .issue)]) (Function.update ids i (some id)) t := by
  obtain ⟨-, hfree, -, hloans⟩ := PacketId.Pool.onLoan_of_lend hs.canonical hl
  have hnone : ids i = none := by
    rw [← Option.not_isSome_iff_eq_none, hs.given]
    exact hi
  have hack (j : Fin n) : (j, Part.acknowledge) ∉ done ++ [(i, .issue)] ↔
      (j, .acknowledge) ∉ done := by simp
  have hother {j : Fin n} {k : PacketId} (hj : ids j = some k) : j ≠ i := by
    rintro rfl
    rw [hnone] at hj
    cases hj
  have hfresh {j : Fin n} (hj : ids j = some id) (hm : (j, .acknowledge) ∉ done) : False :=
    hfree ((hs.onLoan id).mpr ⟨j, hj, hm⟩)
  refine ⟨linked_of_alike hs.toLinked ht.toAlike
    (by rw [ht.pool]; exact PacketId.Pool.canonical_of_lend hs.canonical hl),
    fun j => ?_, fun k => ?_, fun j j' k hj hj' hm hm' => ?_⟩
  · rw [mem_concat_iff, ← hs.given]
    by_cases hj : j = i <;> simp [hj]
  · rw [ht.pool, hloans, hs.onLoan]
    simp only [hack]
    constructor
    · rintro (rfl | ⟨j, hj, hm⟩)
      · exact ⟨i, Function.update_self .., fun hm => hi (hissued hm)⟩
      · exact ⟨j, by rw [Function.update_of_ne (hother hj)]; exact hj, hm⟩
    · rintro ⟨j, hj, hm⟩
      by_cases hji : j = i
      · rw [hji, Function.update_self] at hj
        exact .inl (Option.some.inj hj).symm
      · rw [Function.update_of_ne hji] at hj
        exact .inr ⟨j, hj, hm⟩
  · rw [hack] at hm hm'
    by_cases hji : j = i <;> by_cases hji' : j' = i
    · rw [hji, hji']
    · rw [hji, Function.update_self] at hj
      rw [Function.update_of_ne hji', ← hj] at hj'
      exact (hfresh hj' hm').elim
    · rw [hji', Function.update_self] at hj'
      rw [Function.update_of_ne hji, ← hj'] at hj
      exact (hfresh hj hm).elim
    · rw [Function.update_of_ne hji] at hj
      rw [Function.update_of_ne hji'] at hj'
      exact hs.distinct j j' k hj hj' hm hm'

theorem lent_acknowledge {l : Ledger Callback} {news : List Invocation} (hs : Lent done ids s)
    (hid : ids i = some id) (hi : (i, .acknowledge) ∉ done)
    (ht : Moved (s.client.pool.reclaim id) l news s t) :
    Lent (done ++ [(i, .acknowledge)]) ids t := by
  have hack (j : Fin n) : (j, Part.acknowledge) ∉ done ++ [(i, .acknowledge)] ↔
      (j, .acknowledge) ∉ done ∧ j ≠ i := by simp
  refine ⟨linked_of_alike hs.toLinked ht.toAlike
    (by rw [ht.pool]; exact PacketId.Pool.canonical_reclaim hs.canonical id),
    fun j => (hs.given j).trans (by simp), fun k => ?_, fun j j' k hj hj' hm hm' =>
      hs.distinct j j' k hj hj' ((hack j).mp hm).1 ((hack j').mp hm').1⟩
  rw [ht.pool, PacketId.Pool.onLoan_reclaim, hs.onLoan]
  simp only [hack]
  constructor
  · rintro ⟨hne, j, hj, hm⟩
    refine ⟨j, hj, hm, ?_⟩
    rintro rfl
    exact hne (Option.some.inj (hj.symm.trans hid))
  · rintro ⟨j, hj, hm, hji⟩
    refine ⟨?_, j, hj, hm⟩
    rintro rfl
    exact hji (hs.distinct j i k hj hid hm hi)

theorem lent_track {l : Ledger Callback} {news : List Invocation} (hs : Lent done ids s)
    (ht : Moved s.client.pool l news s t) : Lent (done ++ [(i, .track)]) ids t where
  toLinked := linked_of_alike hs.toLinked ht.toAlike (by rw [ht.pool]; exact hs.canonical)
  given j := (hs.given j).trans (by simp)
  onLoan k := by
    rw [ht.pool, hs.onLoan]
    simp
  distinct j j' k hj hj' hm hm' :=
    hs.distinct j j' k hj hj' (by simpa using hm) (by simpa using hm')

/-! ### Calls -/

/-- Going on when at most one callback is called, which was not called before. -/
theorem beside_of_called (who : Option (Fin n)) (id : PacketId)
    (hown : Function.Injective fun i => (op i).callback)
    (hs : Beside op lost done ids s) (ht : Lent done' ids' t)
    (hids : ∀ j k, ids j = some k → ids' j = some k)
    (hsub : ∀ j, (j, .track) ∈ done → (j, .track) ∈ done')
    (hcalls : t.calls = who.toList.map (fun j => (op j).completion id) ++ s.calls)
    (hwho : ∀ j ∈ who, ids' j = some id ∧ (j, .track) ∈ done' ∧
      (op j).callback ∉ s.calls.map (·.callback))
    (hwaits : ∀ k callback, t.ledger.pending[k]? = some callback → ∃ j,
      callback = some (op j).callback ∧ ids' j = some k ∧ (j, .track) ∈ done' ∧ j ∉ who ∧
        (op j).callback ∉ s.calls.map (·.callback))
    (hsparing : t.calls.length + t.ledger.early.size + lost ≤ done'.countP (·.2 = .acknowledge)) :
    Beside op lost done' ids' t where
  toLent := ht
  waits k callback hk := by
    obtain ⟨j, hc, hj, hm, hne, hnot⟩ := hwaits k callback hk
    refine ⟨j, hc, hj, hm, ?_⟩
    rw [hcalls, List.map_append, List.mem_append, not_or]
    refine ⟨fun hmem => ?_, hnot⟩
    obtain ⟨_, hmem, heq⟩ := List.mem_map.mp hmem
    obtain ⟨w, hw, rfl⟩ := List.mem_map.mp hmem
    exact hne (hown heq ▸ Option.mem_toList.mp hw)
  called := by
    rw [hcalls]
    intro call hcall
    rcases List.mem_append.mp hcall with hcall | hcall
    · obtain ⟨w, hw, rfl⟩ := List.mem_map.mp hcall
      obtain ⟨hwid, hwm, -⟩ := hwho w (Option.mem_toList.mp hw)
      exact ⟨w, hwid, hwm, rfl⟩
    · obtain ⟨j, hj, hm, hc⟩ := hs.called call hcall
      exact ⟨j, hids j _ hj, hsub j hm, hc⟩
  once := by
    rw [hcalls]
    cases who with
    | none => exact hs.once
    | some w => exact List.nodup_cons.mpr ⟨(hwho w rfl).2.2, hs.once⟩
  sparing := hsparing

theorem beside_issue {q : PacketId.Pool} (hown : Function.Injective fun i => (op i).callback)
    (hs : Beside op lost done ids s) (hi : (i, .issue) ∉ done)
    (hissued : (i, .acknowledge) ∈ done → (i, .issue) ∈ done)
    (hl : s.client.pool.lend = some (id, q)) (ht : Moved q s.ledger [] s t) :
    Beside op lost (done ++ [(i, .issue)]) (Function.update ids i (some id)) t := by
  have hcalls : t.calls = s.calls := ht.calls
  have hne {j : Fin n} {k : PacketId} (hj : ids j = some k) : j ≠ i := by
    rintro rfl
    exact hi ((hs.given j).mp (by rw [hj]; rfl))
  refine beside_of_called none id hown hs
    (lent_issue hs.toLent hi hissued hl ht) (fun j k hj => ?_)
    (fun j hj => mem_concat_iff.mpr (.inl hj)) hcalls nofun (fun k callback hk => ?_) ?_
  · rw [Function.update_of_ne (hne hj)]
    exact hj
  · rw [ht.ledger] at hk
    obtain ⟨j, hc, hj, hm, hnot⟩ := hs.waits k callback hk
    exact ⟨j, hc, by rw [Function.update_of_ne (hne hj)]; exact hj, mem_concat_iff.mpr (.inl hm),
      nofun, hnot⟩
  · rw [hcalls, ht.ledger, List.countP_append]
    exact Nat.le_add_right_of_le hs.sparing

theorem beside_acknowledge (hown : Function.Injective fun i => (op i).callback)
    (hs : Beside op lost done ids s) (hid : ids i = some id) (hi : (i, .acknowledge) ∉ done)
    (ht : Moved (s.client.pool.reclaim id) (s.ledger.settle id).2
      (s.ledger.pending[id]?.elim [] (callOf id .completed)) s t) :
    Beside op lost (done ++ [(i, .acknowledge)]) ids t := by
  have hlent := lent_acknowledge hs.toLent hid hi ht
  have hsub {j : Fin n} (hj : (j, .track) ∈ done) : (j, .track) ∈ done ++ [(i, .acknowledge)] :=
    mem_concat_iff.mpr (.inl hj)
  have hacks : (done ++ [(i, Part.acknowledge)]).countP (·.2 = .acknowledge) =
      done.countP (·.2 = .acknowledge) + 1 := by simp
  have hrest {k : PacketId} {callback : Option Callback}
      (hk : t.ledger.pending[k]? = some callback) :
      k ≠ id ∧ s.ledger.pending[k]? = some callback := by
    rw [ht.ledger, Ledger.getElem?_settle] at hk
    split at hk
    · cases hk
    next hne => exact ⟨hne, hk⟩
  cases hp : s.ledger.pending[id]? with
  | none =>
    have hcalls : t.calls = s.calls := by
      rw [ht.calls, hp]
      rfl
    refine beside_of_called none id hown hs hlent (fun _ _ hj => hj)
      (fun _ => hsub) hcalls nofun (fun k callback hk => ?_) ?_
    · obtain ⟨j, hc, hj, hm, hnot⟩ := hs.waits k callback (hrest hk).2
      exact ⟨j, hc, hj, hsub hm, nofun, hnot⟩
    · have hsize := s.ledger.size_early_settle_le id
      have := hs.sparing
      rw [hcalls, hacks, ht.ledger]
      omega
  | some callback =>
    obtain ⟨w, rfl, hw, hwm, hwnot⟩ := hs.waits id callback hp
    have hcalls : t.calls = (op w).completion id :: s.calls := by
      rw [ht.calls, hp]
      rfl
    refine beside_of_called (some w) id hown hs hlent (fun _ _ hj => hj) (fun _ => hsub) hcalls
      (fun j hj => ?_) (fun k callback hk => ?_) ?_
    · cases hj
      exact ⟨hw, hsub hwm, hwnot⟩
    · obtain ⟨hne, hk⟩ := hrest hk
      obtain ⟨j, hc, hj, hm, hnot⟩ := hs.waits k callback hk
      refine ⟨j, hc, hj, hsub hm, fun hjw => hne ?_, hnot⟩
      cases hjw
      exact Option.some.inj (hj.symm.trans hw)
    · have hsize := Ledger.early_settle_of_pending hp
      have := hs.sparing
      rw [hcalls, hacks, List.length_cons, ht.ledger, hsize]
      omega

theorem beside_track (hown : Function.Injective fun i => (op i).callback)
    (hs : Beside op lost done ids s) (hid : ids i = some id) (hi : (i, .track) ∉ done)
    (ht : Moved s.client.pool (s.ledger.track id (some (op i).callback)).2
      (if id ∈ s.ledger.early then [(op i).completion id] else []) s t) :
    Beside op lost (done ++ [(i, .track)]) ids t := by
  have hsub {j : Fin n} (hj : (j, .track) ∈ done) : (j, .track) ∈ done ++ [(i, .track)] :=
    mem_concat_iff.mpr (.inl hj)
  have hlast : (i, Part.track) ∈ done ++ [(i, .track)] := mem_concat_iff.mpr (.inr ⟨rfl, rfl⟩)
  have hacks : (done ++ [(i, Part.track)]).countP (·.2 = .acknowledge) =
      done.countP (·.2 = .acknowledge) := by simp
  have huncalled : (op i).callback ∉ s.calls.map (·.callback) := by
    intro hmem
    obtain ⟨call, hcall, heq⟩ := List.mem_map.mp hmem
    obtain ⟨j, -, hm, hc⟩ := hs.called call hcall
    exact hi (hown (heq.symm.trans (congrArg Invocation.callback hc)) ▸ hm)
  have hne {j : Fin n} (hj : (j, .track) ∈ done) : j ≠ i := by
    rintro rfl
    exact hi hj
  by_cases he : id ∈ s.ledger.early
  · rw [if_pos he] at ht
    refine beside_of_called (some i) id hown hs (lent_track hs.toLent ht)
      (fun _ _ hj => hj) (fun _ => hsub) ht.calls (fun j hj => ?_) (fun k callback hk => ?_) ?_
    · cases hj
      exact ⟨hid, hlast, huncalled⟩
    · rw [ht.ledger, Ledger.getElem?_track, if_neg fun h => h.2 he] at hk
      obtain ⟨j, hc, hj, hm, hnot⟩ := hs.waits k callback hk
      exact ⟨j, hc, hj, hsub hm, fun hji => hne hm (Option.some.inj hji).symm, hnot⟩
    · have hsize := Ledger.size_early_track_of_mem he (some (op i).callback)
      have := hs.sparing
      rw [ht.calls, hacks, ht.ledger, List.length_append, List.length_singleton]
      omega
  · rw [if_neg he] at ht
    have hcalls : t.calls = s.calls := ht.calls
    refine beside_of_called none id hown hs (lent_track hs.toLent ht)
      (fun _ _ hj => hj) (fun _ => hsub) hcalls nofun (fun k callback hk => ?_) ?_
    · rw [ht.ledger, Ledger.getElem?_track] at hk
      split at hk
      next hk' =>
        exact ⟨i, (Option.some.inj hk).symm, by rw [hk'.1]; exact hid, hlast, nofun, huncalled⟩
      next =>
        obtain ⟨j, hc, hj, hm, hnot⟩ := hs.waits k callback hk
        exact ⟨j, hc, hj, hsub hm, nofun, hnot⟩
    · rw [hcalls, hacks, ht.ledger, Ledger.early_track_of_not_mem he]
      exact hs.sparing

/-! ## Runs -/

/-- What a part of operation `i` does. -/
inductive Goes (op : Fin n → Errand) (i : Fin n) (ids : Fin n → Option PacketId) (s : Session) :
    Part → (Fin n → Option PacketId) → Session → Prop
  | issue (id : PacketId) (q : PacketId.Pool) (t : Session)
      (lend : s.client.pool.lend = some (id, q)) (moved : Moved q s.ledger [] s t) :
      Goes op i ids s .issue (Function.update ids i (some id)) t
  | acknowledge (id : PacketId) (t : Session) (given : ids i = some id)
      (moved : Moved (s.client.pool.reclaim id) (s.ledger.settle id).2
        (s.ledger.pending[id]?.elim [] (callOf id .completed)) s t) :
      Goes op i ids s .acknowledge ids t
  | track (id : PacketId) (t : Session) (given : ids i = some id)
      (moved : Moved s.client.pool (s.ledger.track id (some (op i).callback)).2
        (if id ∈ s.ledger.early then [(op i).completion id] else []) s t) :
      Goes op i ids s .track ids t

theorem goes_takePart (hrun : Serving run) (hinert : ∀ i, (op i).callback.Inert) (hn : n ≤ 65535)
    (hs : Beside op lost done ids s) {part : Part} (hpart : (i, part) ∉ done)
    (hissued : part ≠ .issue → (i, .issue) ∈ done) :
    ∃ ids' t, takePart run op ids i part s = some (ids', t) ∧ Goes op i ids s part ids' t := by
  cases part with
  | issue =>
    obtain ⟨id, q, hl⟩ := exists_lend hn hs.toLent hpart
    obtain ⟨t, ht, hmoved⟩ := moved_giveId hs.toLinked hl
    exact ⟨_, t, bind_of_eq_some ht _, .issue id q t hl hmoved⟩
  | acknowledge =>
    obtain ⟨id, hid⟩ := Option.isSome_iff_exists.mp ((hs.given i).mpr (hissued nofun))
    have he : ((op i).request.acknowledgement id).acknowledged? = some id :=
      acknowledged?_acknowledgement _ _
    obtain ⟨_, t, ht, hmoved⟩ := moved_deliver hrun he hs.toLinked (inert_of_beside hinert hs)
    rw [takePart, hid]
    exact ⟨ids, t, bind_of_eq_some ht _, .acknowledge id t hid hmoved⟩
  | track =>
    obtain ⟨id, hid⟩ := Option.isSome_iff_exists.mp ((hs.given i).mpr (hissued nofun))
    obtain ⟨_, t, ht, hmoved⟩ := moved_track (s := s) hrun id (hinert i)
    rw [takePart, hid]
    exact ⟨ids, t, bind_of_eq_some ht _, .track id t hid hmoved⟩

theorem beside_of_goes (hown : Function.Injective fun i => (op i).callback)
    (hs : Beside op lost done ids s) {part : Part} (hpart : (i, part) ∉ done)
    (hissued : ∀ p, (i, p) ∈ done → (i, .issue) ∈ done) (h : Goes op i ids s part ids' t) :
    Beside op lost (done ++ [(i, part)]) ids' t := by
  cases h with
  | issue id q _ lend moved => exact beside_issue hown hs hpart (hissued _) lend moved
  | acknowledge id _ given moved => exact beside_acknowledge hown hs given hpart moved
  | track id _ given moved => exact beside_track hown hs given hpart moved

section

variable {moves : List (Fin n × Part)} {k m : Nat}

theorem Interleaved.issue_mem_take (h : Interleaved moves) {part : Part}
    (hm : (i, part) ∈ moves.take k) : (i, .issue) ∈ moves.take k := by
  obtain ⟨j, hj, heq⟩ := List.mem_iff_getElem.mp hm
  rw [List.getElem_take] at heq
  have hjk : j < k ∧ j < moves.length := lt_min_iff.mp (List.length_take ▸ hj)
  by_cases hpart : part = .issue
  · rwa [← hpart]
  · have hissued := h.issued j hjk.2 (by rw [heq]; exact hpart)
    rw [heq] at hissued
    exact (List.take_subset_take_left moves hjk.1.le) hissued

theorem Interleaved.getElem_notMem_take (h : Interleaved moves) (hk : k < moves.length) :
    moves[k] ∉ moves.take k := by
  intro hm
  obtain ⟨j, hj, heq⟩ := List.mem_iff_getElem.mp hm
  rw [List.getElem_take] at heq
  have hjk : j < k ∧ j < moves.length := lt_min_iff.mp (List.length_take ▸ hj)
  have := (h.once.getElem_inj_iff).mp heq
  omega

variable {settings : Settings} {order : VisitOrder Callback}

theorem reaches_zero : Reaches run op moves settings order 0 (fun _ => none)
    (opened settings order) := rfl

theorem reaches_unique (h : Reaches run op moves settings order k ids s)
    (h' : Reaches run op moves settings order k ids' t) : ids = ids' ∧ s = t :=
  Prod.mk.inj (Option.some.inj (h.symm.trans h'))

variable (hrun : Serving run) (hinert : ∀ i, (op i).callback.Inert)
  (hown : Function.Injective fun i => (op i).callback) (hn : n ≤ 65535) (h : Interleaved moves)
include hrun hinert hown hn h

theorem reaches_succ (hk : k < moves.length) (hr : Reaches run op moves settings order k ids s)
    (hs : Beside op lost (moves.take k) ids s) :
    ∃ ids' t, Reaches run op moves settings order (k + 1) ids' t ∧
      Goes op moves[k].1 ids s moves[k].2 ids' t ∧ Beside op lost (moves.take (k + 1)) ids' t := by
  have hnew : (moves[k].1, moves[k].2) ∉ moves.take k := h.getElem_notMem_take hk
  obtain ⟨ids', t, ht, hgoes⟩ := goes_takePart hrun hinert hn hs hnew (h.issued k hk)
  have hbeside := beside_of_goes hown hs hnew (fun _ => h.issue_mem_take) hgoes
  have hreaches := takeParts_concat run op hr ht
  have htake : moves.take k ++ [(moves[k].1, moves[k].2)] = moves.take (k + 1) :=
    List.take_append_getElem hk
  rw [htake] at hbeside hreaches
  exact ⟨ids', t, hreaches, hgoes, hbeside⟩

theorem reaches_of_le (hr : Reaches run op moves settings order k ids s)
    (hs : Beside op lost (moves.take k) ids s) (hkm : k ≤ m) (hm : m ≤ moves.length) :
    ∃ ids' t, Reaches run op moves settings order m ids' t ∧
      Beside op lost (moves.take m) ids' t := by
  induction m, hkm using Nat.le_induction with
  | base => exact ⟨ids, s, hr, hs⟩
  | succ m hkm ih =>
    obtain ⟨ids₁, u, hu, hbeside⟩ := ih (by omega)
    obtain ⟨ids₂, t, ht, -, hbeside⟩ := reaches_succ hrun hinert hown hn h hm hu hbeside
    exact ⟨ids₂, t, ht, hbeside⟩

/-- The parts run in whatever order they come. -/
theorem exists_reaches (settings : Settings) (order : VisitOrder Callback)
    (hk : k ≤ moves.length) :
    ∃ ids s, Reaches run op moves settings order k ids s ∧ Beside op 0 (moves.take k) ids s :=
  reaches_of_le hrun hinert hown hn h reaches_zero (beside_opened op settings order) (Nat.zero_le k)
    hk

end

end Session

end MqttLink
