import MqttLink.Proofs.Law

/-!
Callbacks are neither lost nor multiplied. Main statement: each callback that was handed to the
ledger has been called, or waits for its acknowledgement, or has lost its place to another.
-/

namespace MqttLink

namespace Occurrence

/-- An operation was handed to the ledger under `id`, with a callback that `p` holds of. -/
@[simp]
def tracks (id : PacketId) (p : Callback → Bool) : Occurrence → Bool
  | tracked k c => k = id && c.any p
  | _ => false

/-- An operation that waited under `id`, with a callback that `p` holds of, lost its place. -/
@[simp]
def displaces (id : PacketId) (p : Callback → Bool) : Occurrence → Bool
  | displaced k c => k = id && c.any p
  | _ => false

/-- A callback that `p` holds of was called for the operation under `id`. -/
@[simp]
def invokes (id : PacketId) (p : Callback → Bool) : Occurrence → Bool
  | invoked k c _ _ => k = id && p c
  | _ => false

variable {id : PacketId} {p : Callback → Bool} {o : Occurrence}

theorem onLedger_of_tracks (h : o.tracks id p) : o.onLedger := by
  cases o with
  | tracked _ _ => rfl
  | _ => cases h

theorem onLedger_of_displaces (h : o.displaces id p) : o.onLedger := by
  cases o with
  | displaced _ _ => rfl
  | _ => cases h

theorem onLedger_of_invokes (h : o.invokes id p) : o.onLedger := by
  cases o with
  | invoked _ _ _ _ => rfl
  | _ => cases h

end Occurrence

namespace Session

open Play

variable (s : Session) (id : PacketId) (p : Callback → Bool)

/-! ## Counts -/

def trackings : Nat := s.journal.countP (·.tracks id p)

def displacements : Nat := s.journal.countP (·.displaces id p)

def invocations : Nat := s.journal.countP (·.invokes id p)

/-- One if an operation waits under `id` with a callback that `p` holds of, and else zero. -/
def waiting : Nat := if s.ledger.pending[id]?.any (·.any p) then 1 else 0

/-- Callbacks that have been taken out of the ledger and not been called yet. -/
def inHand : Int := s.trackings id p - s.displacements id p - s.invocations id p - s.waiting id p

variable {s id p}

theorem waiting_eq_of_ledger_eq {t : Session} (h : t.ledger = s.ledger) :
    t.waiting id p = s.waiting id p := by
  rw [waiting, waiting, h]

theorem inHand_noted (o : Occurrence) : (s.noted o).inHand id p =
    s.inHand id p + (o.tracks id p).toNat - (o.displaces id p).toNat - (o.invokes id p).toNat := by
  have hw : (s.noted o).waiting id p = s.waiting id p := rfl
  simp only [inHand, trackings, displacements, invocations, noted_journal, List.countP_cons, hw]
  cases o.tracks id p <;> cases o.displaces id p <;> cases o.invokes id p <;> simp <;> omega

theorem inHand_withLedger (l : Ledger Callback) : (s.withLedger l).inHand id p =
    s.inHand id p + s.waiting id p - (s.withLedger l).waiting id p := by
  simp only [inHand, trackings, displacements, invocations, withLedger_journal]
  omega

/-! ## Operations that wait -/

theorem waiting_of_pending {callback : Option Callback}
    (h : s.ledger.pending[id]? = some callback) : s.waiting id p = (callback.any p).toNat := by
  rw [waiting, h, Option.any_some]
  cases callback.any p <;> rfl

theorem waiting_of_not_pending (h : s.ledger.pending[id]? = none) : s.waiting id p = 0 := by
  rw [waiting, h]
  rfl

theorem waiting_tracking (k : PacketId) (callback : Option Callback) :
    (s.tracking k callback).waiting id p =
      if id = k ∧ k ∉ s.ledger.early then (callback.any p).toNat else s.waiting id p := by
  have hk := s.ledger.getElem?_track k id callback
  split
  next h =>
    rw [if_pos h] at hk
    exact waiting_of_pending hk
  next h =>
    rw [if_neg h] at hk
    rw [waiting, waiting, tracking, withLedger_ledger, hk]

theorem waiting_settling (k : PacketId) :
    (s.settling k).waiting id p = if id = k then 0 else s.waiting id p := by
  have hk := s.ledger.getElem?_settle k id
  split
  next h =>
    rw [if_pos h] at hk
    exact waiting_of_not_pending hk
  next h =>
    rw [if_neg h] at hk
    rw [waiting, waiting, settling, withLedger_ledger, hk]

/-- In a list of entries with different identifiers, at most one entry has a given one. -/
theorem countP_of_pairwise_ne {es : List (Ledger.Entry Callback)}
    (h : es.Pairwise fun a b => a.1 ≠ b.1) {e : Ledger.Entry Callback} (he : e ∈ es) :
    es.countP (fun e' => e'.1 = e.1 && e'.2.any p) = (e.2.any p).toNat := by
  induction es with
  | nil => cases he
  | cons d rest ih =>
    obtain ⟨hd, hrest⟩ := List.pairwise_cons.mp h
    rw [List.countP_cons]
    rcases List.mem_cons.mp he with rfl | he
    · have hz : rest.countP (fun e' => e'.1 = e.1 && e'.2.any p) = 0 := by
        refine List.countP_eq_zero.mpr fun e' he' => ?_
        simp [(hd e' he').symm]
      rw [hz]
      cases e.2.any p <;> simp
    · have hne : d.1 ≠ e.1 := hd e he
      simp [ih hrest he, hne]

theorem countP_toList : s.ledger.pending.toList.countP (fun e => e.1 = id && e.2.any p) =
    s.waiting id p := by
  have hd : s.ledger.pending.toList.Pairwise fun a b => a.1 ≠ b.1 := by
    simpa [Std.LawfulEqCmp.compare_eq_iff_eq] using s.ledger.pending.distinct_keys_toList
  cases h : s.ledger.pending[id]? with
  | some callback =>
    have hm := Std.ExtTreeMap.mem_toList_iff_getElem?_eq_some.mpr h
    rw [waiting_of_pending h]
    exact countP_of_pairwise_ne hd hm
  | none =>
    rw [waiting_of_not_pending h, List.countP_eq_zero]
    intro e he
    have hm := Std.ExtTreeMap.mem_toList_iff_getElem?_eq_some.mp he
    have hne : e.1 ≠ id := by
      intro heq
      rw [heq, h] at hm
      cases hm
    simp [hne]

/-! ## Work on the ledger -/

/-- No callback is taken out of the ledger and then forgotten. -/
def SameInHand (id : PacketId) (p : Callback → Bool) (s t : Session) : Prop :=
  t.inHand id p = s.inHand id p

instance : IsPreorder Session (SameInHand id p) where
  refl _ := rfl
  trans _ _ _ h k := k.trans h

theorem same_of_idle ⦃s t : Session⦄ (h : Idle s t) : SameInHand id p s t := by
  obtain ⟨news, hn, hq⟩ := h.journal
  have ht : news.countP (·.tracks id p) = 0 :=
    List.countP_eq_zero.mpr fun o ho h => hq o ho (Occurrence.onLedger_of_tracks h)
  have hd : news.countP (·.displaces id p) = 0 :=
    List.countP_eq_zero.mpr fun o ho h => hq o ho (Occurrence.onLedger_of_displaces h)
  have hi : news.countP (·.invokes id p) = 0 :=
    List.countP_eq_zero.mpr fun o ho h => hq o ho (Occurrence.onLedger_of_invokes h)
  simp only [SameInHand, inHand, trackings, displacements, invocations, hn, List.countP_append,
    ht, hd, hi, Nat.zero_add, waiting_eq_of_ledger_eq h.ledger]

theorem same_of_aside ⦃s t : Session⦄ (h : Aside s t) : SameInHand id p s t :=
  same_of_idle (idle_of_aside h)

section

variable {run : Runner} (hrun : ∀ step, Within (SameInHand id p) (run step))
include hrun

theorem inHand_invoke {k : PacketId} {resolution : Resolution} {c : Callback}
    {r : Except Fatal Unit} {t : Session} (h : invoke run k resolution c s = some (r, t)) :
    t.inHand id p = s.inHand id p - (k = id && p c).toNat := by
  rw [invoke_apply] at h
  have hsame : SameInHand id p (s.noted (.invoked k c resolution s.view)) t :=
    within_bind (within_react (calm_of_aside same_of_aside) fun n _ => hrun n)
      (fun _ => (aside_contain _ _).mono same_of_aside) h
  rw [SameInHand] at hsame
  rw [hsame, inHand_noted]
  simp

theorem inHand_invoke? {k : PacketId} {resolution : Resolution} {callback : Option Callback}
    {r : Except Fatal Unit} {t : Session} (h : invoke? run k resolution callback s = some (r, t)) :
    t.inHand id p = s.inHand id p - (k = id && callback.any p).toNat := by
  cases callback with
  | none =>
    cases h
    simp
  | some c => exact inHand_invoke hrun h

theorem same_track (k : PacketId) (callback : Option Callback) :
    Within (SameInHand id p) (track run k callback) := by
  intro s r t h
  have htrack : (s.tracking k callback).inHand id p = s.inHand id p +
      (k = id && callback.any p).toNat + s.waiting id p -
        (s.tracking k callback).waiting id p := by
    have hw : (s.noted (.tracked k callback)).waiting id p = s.waiting id p := rfl
    rw [tracking, inHand_withLedger, inHand_noted, hw]
    simp
  by_cases he : k ∈ s.ledger.early
  · rw [track_of_mem_early run he] at h
    rw [SameInHand, inHand_invoke? hrun h, inHand_noted, htrack, waiting_tracking]
    simp [he]
  · rw [track_of_not_mem_early run he] at h
    cases hp : s.ledger.pending[k]? with
    | none =>
      rw [hp] at h
      cases h
      rw [SameInHand, inHand_noted, htrack, waiting_tracking]
      by_cases hk : id = k
      · have hw := waiting_of_not_pending (p := p) hp
        simp [he, hk, hw]
      · simp [hk, Ne.symm hk]
    | some d =>
      rw [hp] at h
      cases h
      rw [SameInHand, inHand_noted, inHand_noted, htrack, waiting_tracking]
      by_cases hk : id = k
      · have hw := waiting_of_pending (p := p) hp
        simp [he, hk, hw]
        omega
      · simp [hk, Ne.symm hk]

theorem same_settle (k : PacketId) : Within (SameInHand id p) (settle run k) := by
  intro s r t h
  have hsettle : (s.settling k).inHand id p =
      s.inHand id p + s.waiting id p - (if id = k then 0 else s.waiting id p : Nat) := by
    rw [settling, inHand_withLedger, ← settling, waiting_settling]
  cases hp : s.ledger.pending[k]? with
  | none =>
    rw [settle_of_not_pending run hp] at h
    cases h
    rw [SameInHand, inHand_noted, hsettle]
    by_cases hk : id = k
    · have hw := waiting_of_not_pending (p := p) hp
      simp [hk, hw]
    · simp [hk]
  | some callback =>
    rw [settle_of_pending run hp] at h
    rw [SameInHand, inHand_invoke? hrun h, inHand_noted, hsettle]
    by_cases hk : id = k
    · have hw := waiting_of_pending (p := p) hp
      simp [hk, hw]
    · simp [hk, Ne.symm hk]

/-- Each callback of a batch is called once. -/
theorem inHand_cancelEach {batch : List (Ledger.Entry Callback)} {first r : Except Fatal Unit}
    {t : Session} (h : cancelEach run first batch s = some (r, t)) :
    t.inHand id p = s.inHand id p - batch.countP fun e => e.1 = id && e.2.any p := by
  induction batch generalizing s first with
  | nil =>
    cases h
    simp
  | cons e rest ih =>
    obtain ⟨k, callback⟩ := e
    cases callback with
    | none =>
      rw [ih h]
      simp
    | some c =>
      obtain ⟨q, u, kept, v, hu, haside, -, hrest⟩ := exists_invoke_of_cancelEach h
      rw [ih hrest, same_of_aside haside, inHand_invoke hrun hu, List.countP_cons, Option.any_some]
      cases decide (k = id) && p c with
      | false => simp
      | true =>
        simp
        omega

theorem same_abandon : Within (SameInHand id p) (abandon run) := by
  intro s r t h
  rw [abandon_apply] at h
  have hempty : s.abandoning.inHand id p = s.inHand id p + s.waiting id p := by
    have hn : s.abandoning.inHand id p =
      ((s.withLedger {}).noted (.abandoned s.ledger.pending.toList.length)).inHand id p := rfl
    have hw : (s.withLedger {}).waiting id p = 0 := waiting_of_not_pending (by simp)
    rw [hn, inHand_noted, inHand_withLedger, hw]
    simp
  rw [SameInHand, inHand_cancelEach hrun h, hempty, s.batch_perm.countP_eq, countP_toList]
  omega

end

/-- Whatever a session does, and however deep its steps are nested, no callback that is taken out of
the ledger is left uncalled. -/
theorem law_sameInHand (id : PacketId) (p : Callback → Bool) : Law (SameInHand id p) where
  idle := same_of_idle
  track hrun := same_track hrun
  settle hrun := same_settle hrun
  abandon hrun := same_abandon hrun

theorem inHand_opened (settings : Settings) (order : VisitOrder Callback) :
    (opened settings order).inHand id p = 0 := by
  have hw : (opened settings order).waiting id p = 0 := waiting_of_not_pending (by
    simp [opened, attached])
  rw [inHand, hw]
  rfl

/-- Each callback that was handed over has been called, or waits, or has lost its place. -/
theorem trackings_eq (id : PacketId) (p : Callback → Bool) {settings : Settings}
    {order : VisitOrder Callback} {depth : Nat} {steps : List Step}
    (h : performAll depth steps (opened settings order) = some ((), s)) :
    s.trackings id p = s.invocations id p + s.waiting id p + s.displacements id p := by
  have hs := (law_sameInHand id p).within_performAll h
  rw [SameInHand, inHand_opened, inHand] at hs
  omega

end Session

end MqttLink
