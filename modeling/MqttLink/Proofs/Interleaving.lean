import MqttLink.Proofs.Positions

/-!
Operations and acknowledgements in any order. Main statement: when each identifier is used for at
most one operation and at most one acknowledgement, mixed with any number of abandonments, it is
decided by the positions of these events alone which callback is called when, and with what.
-/

namespace MqttLink

namespace Session

open Play

/-! ## Single events -/

section

variable {s : Session} (depth : Nat) (id : PacketId)

theorem worked_performTo_track (callback : Option Callback) (hs : s.owned)
    (h : ∀ c, callback = some c → c.Inert) :
    ∃ a t, performTo (depth + 2) (.track id callback) s = some (a, t) ∧
      Worked (s.ledger.track id callback).2
        (if id ∈ s.ledger.early then callOf id .completed callback else []) s t :=
  worked_withLink hs (worked_map _ (worked_track (serving_performTo depth) id h))

theorem worked_performTo_settle (hs : s.owned) (h : s.ledger.All Reaction.Inert) :
    ∃ a t, performTo (depth + 2) (.settle id) s = some (a, t) ∧
      Worked (s.ledger.settle id).2 (s.ledger.pending[id]?.elim [] (callOf id .completed)) s t :=
  worked_withLink hs (worked_map _ (worked_settle (serving_performTo depth) id h))

theorem worked_performTo_abandon (hs : s.owned) (h : s.ledger.All Reaction.Inert) :
    ∃ a t, performTo (depth + 2) .abandon s = some (a, t) ∧
      Worked {} (s.batch.flatMap fun e => callOf e.1 .cancelled e.2).reverse s t :=
  worked_sweeping (worked_withLink hs (worked_map _ (worked_abandon (serving_performTo depth) h)))

end

/-! ## Runs -/

/-- After the first `n` events the tables and the calls are what the positions of the events say. -/
structure Foretold (steps : List Step) (n : Nat) (s : Session) : Prop where
  owned : s.owned
  pending : ∀ id callback, s.ledger.pending[id]? = some callback ↔
    ∃ c, callback = some c ∧ WaitsAfter steps id c n
  early : ∀ id, id ∈ s.ledger.early ↔ EarlyAfter steps id n
  calls : ∀ id c r, ⟨id, c, r⟩ ∈ s.calls ↔ ∃ k < n, CalledAt steps id c r k
  once : (s.calls.map (·.id)).Nodup

theorem foretold_opened (steps : List Step) (settings : Settings) (order : VisitOrder Callback) :
    Foretold steps 0 (opened settings order) where
  owned := rfl
  pending id callback := by
    constructor
    · intro h
      simp [opened, attached] at h
    · rintro ⟨c, -, i, hi, -⟩
      omega
  early id := by
    constructor
    · intro h
      simp [opened, attached] at h
    · rintro ⟨j, hj, -⟩
      omega
  calls id c r := by
    constructor
    · intro h
      cases h
    · rintro ⟨k, hk, -⟩
      omega
  once := List.nodup_nil

section

variable {steps : List Step} (h : Interleaving steps) {n : Nat} {s t : Session}
include h

theorem inert_of_foretold (hs : Foretold steps n s) : s.ledger.All Reaction.Inert := by
  intro id c hc
  obtain ⟨d, hd, i, -, ht, -⟩ := (hs.pending id (some c)).mp hc
  cases hd
  rcases h.event _ (List.mem_of_getElem? ht) with ⟨k, e, he, heq⟩ | ⟨k, heq⟩ | heq
  · cases heq
    exact he
  · cases heq
  · cases heq

theorem foretold_calls {news : List Invocation} (hs : Foretold steps n s)
    (hnews : ∀ id c r, ⟨id, c, r⟩ ∈ news ↔ CalledAt steps id c r n)
    (honce : (news.map (·.id)).Nodup) (ht : t.calls = news ++ s.calls) :
    (∀ id c r, ⟨id, c, r⟩ ∈ t.calls ↔ ∃ k < n + 1, CalledAt steps id c r k) ∧
      (t.calls.map (·.id)).Nodup := by
  constructor
  · intro id c r
    rw [ht, List.mem_append, hnews, hs.calls, Nat.exists_lt_succ_right, or_comm]
  · rw [ht, List.map_append, List.nodup_append]
    refine ⟨honce, hs.once, ?_⟩
    intro id hid id' hid' heq
    subst heq
    obtain ⟨⟨_, c, r⟩, hm, rfl⟩ := List.mem_map.mp hid
    obtain ⟨⟨_, c', r'⟩, hm', heq⟩ := List.mem_map.mp hid'
    cases heq
    obtain ⟨k, hk, hcalled⟩ := (hs.calls _ _ _).mp hm'
    have := calledAt_unique h ((hnews _ _ _).mp hm) hcalled
    omega

theorem foretold_of_trackedAt {id : PacketId} {c : Callback} (hs : Foretold steps n s)
    (hc : TrackedAt steps id c n) (ht : Worked (s.ledger.track id (some c)).2
      (if id ∈ s.ledger.early then callOf id .completed (some c) else []) s t) :
    Foretold steps (n + 1) t := by
  have hfresh {k : PacketId} {d : Callback} : WaitsAfter steps k d n → k ≠ id := by
    rintro ⟨i, hi, hti, -⟩ rfl
    exact absurd (h.track_once hti hc) (by omega)
  have hnews (k : PacketId) (d : Callback) (r : Resolution) :
      ⟨k, d, r⟩ ∈ (if id ∈ s.ledger.early then callOf id .completed (some c) else []) ↔
        CalledAt steps k d r n := by
    rw [calledAt_of_trackedAt h hc, ← hs.early]
    split
    next he =>
      rw [mem_callOf]
      constructor
      · rintro ⟨rfl, hcd, rfl⟩
        cases hcd
        exact ⟨rfl, rfl, rfl, he⟩
      · rintro ⟨rfl, rfl, rfl, -⟩
        exact ⟨rfl, rfl, rfl⟩
    next he => simp [he]
  have honce : ((if id ∈ s.ledger.early then callOf id .completed (some c) else []).map
      (·.id)).Nodup := by
    split
    · simp [callOf]
    · exact List.nodup_nil
  obtain ⟨hcalls, honce⟩ := foretold_calls h hs hnews honce ht.calls
  refine ⟨by rw [ht.owned]; exact hs.owned, fun k callback => ?_, fun k => ?_, hcalls, honce⟩
  · rw [ht.ledger, Ledger.getElem?_track]
    simp only [waitsAfter_of_trackedAt h hc, ← hs.early]
    split
    next hk =>
      obtain ⟨rfl, he⟩ := hk
      constructor
      · intro heq
        cases heq
        exact ⟨c, rfl, .inr ⟨rfl, rfl, he⟩⟩
      · rintro ⟨d, rfl, hwaits | ⟨-, rfl, -⟩⟩
        · exact absurd rfl (hfresh hwaits)
        · rfl
    next hk =>
      rw [hs.pending]
      constructor
      · rintro ⟨d, rfl, hwaits⟩
        exact ⟨d, rfl, .inl hwaits⟩
      · rintro ⟨d, rfl, hwaits | ⟨rfl, rfl, he⟩⟩
        · exact ⟨d, rfl, hwaits⟩
        · exact absurd ⟨rfl, he⟩ hk
  · rw [ht.ledger, Ledger.mem_early_track, hs.early, earlyAfter_of_trackedAt hc, and_comm]

theorem foretold_of_settledAt {id : PacketId} (hs : Foretold steps n s)
    (hid : SettledAt steps id n) (ht : Worked (s.ledger.settle id).2
      (s.ledger.pending[id]?.elim [] (callOf id .completed)) s t) :
    Foretold steps (n + 1) t := by
  have hnews (k : PacketId) (d : Callback) (r : Resolution) :
      ⟨k, d, r⟩ ∈ s.ledger.pending[id]?.elim [] (callOf id .completed) ↔
        CalledAt steps k d r n := by
    rw [calledAt_of_settledAt h hid]
    have hpending := hs.pending id (some d)
    simp only [Option.some.injEq, exists_eq_left'] at hpending
    rw [← hpending]
    cases s.ledger.pending[id]? with
    | none => simp
    | some callback =>
      rw [Option.elim_some, mem_callOf]
      simp [and_comm, and_left_comm]
  have honce : ((s.ledger.pending[id]?.elim [] (callOf id .completed)).map (·.id)).Nodup := by
    cases s.ledger.pending[id]? with
    | none => exact List.nodup_nil
    | some callback => cases callback <;> simp [callOf]
  obtain ⟨hcalls, honce⟩ := foretold_calls h hs hnews honce ht.calls
  refine ⟨by rw [ht.owned]; exact hs.owned, fun k callback => ?_, fun k => ?_, hcalls, honce⟩
  · rw [ht.ledger, Ledger.getElem?_settle]
    simp only [waitsAfter_of_settledAt hid]
    split
    next hk => simp [hk]
    next hk =>
      rw [hs.pending]
      simp [hk]
  · rw [ht.ledger, Ledger.mem_early_settle, hs.early, earlyAfter_of_settledAt h hid]
    have hpending : id ∉ s.ledger.pending ↔ ∀ c, ¬ WaitsAfter steps id c n := by
      rw [Std.ExtTreeMap.mem_iff_isSome_getElem?, Option.isSome_iff_exists]
      simp only [hs.pending]
      constructor
      · intro hnone c hc
        exact hnone ⟨_, c, rfl, hc⟩
      · rintro hnone ⟨_, c, rfl, hc⟩
        exact hnone c hc
    rw [hpending]

theorem foretold_of_abandonedAt (hs : Foretold steps n s) (ha : AbandonedAt steps n)
    (ht : Worked {} (s.batch.flatMap fun e => callOf e.1 .cancelled e.2).reverse s t) :
    Foretold steps (n + 1) t := by
  have hnews (k : PacketId) (d : Callback) (r : Resolution) :
      ⟨k, d, r⟩ ∈ (s.batch.flatMap fun e => callOf e.1 .cancelled e.2).reverse ↔
        CalledAt steps k d r n := by
    have hpending := hs.pending k (some d)
    simp only [Option.some.injEq, exists_eq_left'] at hpending
    rw [mem_calls_batch, hpending, calledAt_of_abandonedAt h ha]
  obtain ⟨hcalls, honce⟩ := foretold_calls h hs hnews (nodup_calls_batch s) ht.calls
  refine ⟨by rw [ht.owned]; exact hs.owned, fun k callback => ?_, fun k => ?_, hcalls, honce⟩
  · rw [ht.ledger]
    simp [not_waitsAfter_of_abandonedAt ha]
  · rw [ht.ledger]
    simp [not_earlyAfter_of_abandonedAt ha]

/-- The next event does what its position says. -/
theorem foretold_succ (depth : Nat) (hs : Foretold steps n s) (hn : n < steps.length) :
    ∃ a t, performTo (depth + 2) steps[n] s = some (a, t) ∧ Foretold steps (n + 1) t := by
  have hat : steps[n]? = some steps[n] := List.getElem?_eq_getElem hn
  have hinert := inert_of_foretold h hs
  rcases h.event _ (List.getElem_mem hn) with ⟨id, c, hc, heq⟩ | ⟨id, heq⟩ | heq
  · rw [heq] at hat ⊢
    obtain ⟨a, t, ht, hworked⟩ := worked_performTo_track depth id (some c) hs.owned
      (fun d hd => by cases hd; exact hc)
    exact ⟨a, t, ht, foretold_of_trackedAt h hs hat hworked⟩
  · rw [heq] at hat ⊢
    obtain ⟨a, t, ht, hworked⟩ := worked_performTo_settle depth id hs.owned hinert
    exact ⟨a, t, ht, foretold_of_settledAt h hs hat hworked⟩
  · rw [heq] at hat ⊢
    obtain ⟨a, t, ht, hworked⟩ := worked_performTo_abandon depth hs.owned hinert
    exact ⟨a, t, ht, foretold_of_abandonedAt h hs hat hworked⟩

theorem foretold_performAll (depth : Nat) (settings : Settings) (order : VisitOrder Callback)
    (hn : n ≤ steps.length) :
    ∃ s, performAll (depth + 2) (steps.take n) (opened settings order) = some ((), s) ∧
      Foretold steps n s := by
  induction n with
  | zero => exact ⟨_, rfl, foretold_opened steps settings order⟩
  | succ n ih =>
    obtain ⟨s, hs, hforetold⟩ := ih (by omega)
    obtain ⟨a, t, ht, hnext⟩ := foretold_succ h depth hforetold hn
    refine ⟨t, ?_, hnext⟩
    rw [← List.take_append_getElem hn]
    refine performAll_append.mpr ⟨s, hs, ?_⟩
    rw [performAll, bind_of_eq_some ht]
    rfl

end

/-- When each identifier is used for at most one operation and at most one acknowledgement, the run
of the first `n` events comes to its end, and by then: the callback of an operation has been called
as completed just when the operation and its acknowledgement came with no abandonment between, at
the later of the two; as cancelled just when it is not completed and was abandoned, at the first
abandonment; no callback twice. What waits and what is remembered follows from the calls. -/
theorem calls_of_interleaving {steps : List Step} (h : Interleaving steps) (depth : Nat)
    (settings : Settings) (order : VisitOrder Callback) {n : Nat} (hn : n ≤ steps.length) :
    ∃ s, performAll (depth + 2) (steps.take n) (opened settings order) = some ((), s) ∧
      (∀ id c, ⟨id, c, .completed⟩ ∈ s.calls ↔ ∃ k < n, CompletedAt steps id c k) ∧
      (∀ id c, ⟨id, c, .cancelled⟩ ∈ s.calls ↔ ∃ k < n, CancelledAt steps id c k) ∧
      (s.calls.map (·.id)).Nodup ∧
      (∀ id, id ∈ s.ledger.pending ↔
        ∃ c, (∃ i < n, TrackedAt steps id c i) ∧ ∀ r, ⟨id, c, r⟩ ∉ s.calls) ∧
      ∀ id, id ∈ s.ledger.early ↔
        (∃ j < n, SettledAt steps id j ∧ ∀ l < n, AbandonedAt steps l → l < j) ∧
          ∀ c, ⟨id, c, .completed⟩ ∉ s.calls := by
  obtain ⟨s, hs, hforetold⟩ := foretold_performAll h depth settings order hn
  refine ⟨s, hs, fun id c => hforetold.calls id c .completed,
    fun id c => hforetold.calls id c .cancelled, hforetold.once, fun id => ?_, fun id => ?_⟩
  · rw [Std.ExtTreeMap.mem_iff_isSome_getElem?, Option.isSome_iff_exists]
    simp only [hforetold.pending, hforetold.calls, waitsAfter_iff h]
    constructor
    · rintro ⟨_, c, rfl, htracked, hcalls⟩
      exact ⟨c, htracked, fun r ⟨k, hk, hcalled⟩ => hcalls r k hk hcalled⟩
    · rintro ⟨c, htracked, hcalls⟩
      exact ⟨_, c, rfl, htracked, fun r k hk hcalled => hcalls r ⟨k, hk, hcalled⟩⟩
  · rw [hforetold.early, earlyAfter_iff h]
    simp only [hforetold.calls]
    constructor
    · rintro ⟨hsettled, hcalls⟩
      exact ⟨hsettled, fun c ⟨k, hk, hcalled⟩ => hcalls c k hk hcalled⟩
    · rintro ⟨hsettled, hcalls⟩
      exact ⟨hsettled, fun c k hk hcalled => hcalls c ⟨k, hk, hcalled⟩⟩

/-- An acknowledgement that comes first, another that comes never. -/
theorem calls_of_interleaving_early :
    ∃ s, performAll 2 [.settle 1, .track 1 (some ⟨"met", [], .ok (), true⟩),
        .track 2 (some ⟨"unmet", [], .ok (), true⟩), .abandon]
        (opened {} (.ascending _)) = some ((), s) ∧
      ⟨1, ⟨"met", [], .ok (), true⟩, .completed⟩ ∈ s.calls ∧ 2 ∉ s.ledger.pending := by
  have h : Interleaving [.settle 1, .track 1 (some ⟨"met", [], .ok (), true⟩),
      .track 2 (some ⟨"unmet", [], .ok (), true⟩), .abandon] := {
    event := by
      have hinert (label : String) : Reaction.Inert ⟨label, [], .ok (), true⟩ :=
        List.forall_mem_nil _
      exact List.forall_mem_cons.mpr ⟨.inr (.inl ⟨_, rfl⟩), List.forall_mem_cons.mpr
        ⟨.inl ⟨_, _, hinert _, rfl⟩, List.forall_mem_cons.mpr ⟨.inl ⟨_, _, hinert _, rfl⟩,
          List.forall_mem_singleton.mpr (.inr (.inr rfl))⟩⟩⟩
    track_once := by
      intro id c d i j hi hj
      rcases i with _ | _ | _ | _ | i <;> rcases j with _ | _ | _ | _ | j <;> cases hi <;>
        cases hj <;> rfl
    settle_once := by
      intro id i j hi hj
      rcases i with _ | _ | _ | _ | i <;> cases hi
      rcases j with _ | _ | _ | _ | j <;> cases hj
      rfl }
  obtain ⟨s, hs, hcompleted, hcancelled, -, hpending, -⟩ :=
    calls_of_interleaving h 0 {} (.ascending _) (n := 4) (Nat.le_refl 4)
  refine ⟨s, hs, (hcompleted 1 _).mpr ⟨1, by decide, 1, 0, rfl, rfl, fun k _ => by omega, rfl⟩, ?_⟩
  rw [hpending]
  rintro ⟨c, ⟨i, hi, ht⟩, hcalls⟩
  have hi2 : i = 2 := h.track_once ht (d := ⟨"unmet", [], .ok (), true⟩) rfl
  subst hi2
  cases ht
  refine hcalls .cancelled ((hcancelled 2 _).mpr ⟨3, by decide, ?_, 2, rfl, by decide, rfl, ?_⟩)
  · rintro k ⟨i, j, -, hj, -⟩
    rcases j with _ | _ | _ | _ | j <;> cases hj
  · intro l _ hl
    omega

end Session

end MqttLink
