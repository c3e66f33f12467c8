import MqttLink.Proofs.Loans

/-!
One pool for each set of loans. Main statement: after every run on a fresh pool the top is the
largest identifier on loan, and the holes are the identifiers below it that are not on loan; so what
is on loan decides what the pool is, and the numbers in which it is kept never leave their range.
-/

namespace MqttLink.PacketId

/-! ## Numbers within their range -/

/-- One less, if there is such an identifier. -/
def pred? (id : PacketId) : Option PacketId :=
  if id.val = 0 then none else ofNat? (id.val - 1)

/-- One more, if there is such an identifier. -/
def succ? (id : PacketId) : Option PacketId :=
  ofNat? (id.val + 1)

theorem ofNat?_of_lt {n : Nat} (h : n < 65536) : ofNat? n = some ⟨n, h⟩ :=
  dif_pos h

theorem pred?_succ {n : Nat} (h : n + 1 < 65536) :
    pred? ⟨n + 1, h⟩ = some ⟨n, Nat.lt_of_succ_lt h⟩ := by
  rw [pred?, if_neg (Nat.succ_ne_zero n)]
  exact ofNat?_of_lt (Nat.lt_of_succ_lt h)

theorem lt_of_pred? {id below : PacketId} (h : pred? id = some below) : below.val < id.val := by
  obtain ⟨n, hn⟩ := id
  cases n with
  | zero => cases h
  | succ n =>
    rw [pred?_succ hn] at h
    cases h
    exact Nat.lt_succ_self n

namespace Pool

variable {p q : Pool} {id : PacketId}

/-- Takes the top down past the holes right below it, and gives up if it would fall below zero. -/
def foldTop? (holes : Std.ExtTreeSet PacketId compare) (top : PacketId) : Option Pool :=
  if top.val ≠ 0 && holes.contains top then
    match _h : pred? top with
    | some below => foldTop? (holes.erase top) below
    | none => none
  else some ⟨top, holes⟩
termination_by top.val
decreasing_by exact lt_of_pred? _h

/-- Lends an identifier, and gives up if the top would rise above the last one. -/
def lendChecked (p : Pool) : Option (Option PacketId × Pool) :=
  match p.holes.min? with
  | some id => some (some id, { p with holes := p.holes.erase id })
  | none =>
    if p.top.val = 65535 then some (none, p)
    else (succ? p.top).map fun top => (some top, { p with top := top })

/-- Takes `id` back, and gives up if the top would fall below zero. -/
def reclaimChecked (p : Pool) (id : PacketId) : Option Pool :=
  if !p.onLoan id then some p
  else if id = p.top then (pred? p.top).bind (foldTop? p.holes)
  else some { p with holes := p.holes.insert id }

/-- Counts the loans, and gives up if there are more holes than identifiers. -/
def countChecked (p : Pool) : Option Nat :=
  if p.holes.size ≤ p.top.val then some (p.top.val - p.holes.size) else none

theorem foldTop?_eq_settleAt (holes : Std.ExtTreeSet PacketId compare) {n : Nat}
    (h : n < 65536) : foldTop? holes ⟨n, h⟩ = some (settleAt holes n h) := by
  induction n generalizing holes with
  | zero =>
    rw [foldTop?]
    rfl
  | succ n ih =>
    rw [foldTop?, settleAt]
    cases holes.contains ⟨n + 1, h⟩ with
    | false => simp
    | true =>
      simp only [ne_eq, Nat.add_eq_zero_iff, one_ne_zero, and_false, not_false_eq_true,
        decide_true, Bool.and_self, ↓reduceIte]
      split
      next below hbelow =>
        rw [pred?_succ h] at hbelow
        cases hbelow
        exact ih _ _
      next hnone =>
        rw [pred?_succ h] at hnone
        cases hnone

theorem lendChecked_eq (p : Pool) : p.lendChecked =
    some (p.lend.elim (none, p) fun lent => (some lent.1, lent.2)) := by
  unfold lendChecked lend
  cases p.holes.min? with
  | some id => rfl
  | none =>
    have hlt := p.top.isLt
    by_cases htop : p.top.val = 65535
    · have hlast : ¬ p.top.val + 1 < 65536 := by omega
      simp only [htop, ↓reduceIte]
      rfl
    · have hnext : p.top.val + 1 < 65536 := by omega
      simp only [htop, ↓reduceIte, dif_pos hnext, succ?, ofNat?_of_lt hnext]
      rfl

/-- An identifier on loan is not zero, so the top can fall by one when it is taken back. -/
theorem reclaimChecked_eq (p : Pool) (id : PacketId) :
    p.reclaimChecked id = some (p.reclaim id) := by
  unfold reclaimChecked reclaim reclaim?
  cases hon : p.onLoan id with
  | false => rfl
  | true =>
    simp only [Bool.not_true, Bool.false_eq_true, ↓reduceIte]
    split
    next htop =>
      subst htop
      have hne : p.top.val ≠ 0 := ne_zero_of_onLoan hon
      obtain ⟨⟨n, hn⟩, holes⟩ := p
      cases n with
      | zero => exact absurd rfl hne
      | succ n =>
        rw [pred?_succ hn, Option.bind_some]
        exact foldTop?_eq_settleAt _ _
    next => rfl

theorem countChecked_eq (hp : p.Canonical) : p.countChecked = some p.count := by
  have hle := Finset.card_le_card (holesUsed_subset hp)
  rw [card_holesUsed, card_Icc_one] at hle
  exact if_pos hle

/-! ## Pools with the same loans -/

theorem onLoan_top (hp : p.Canonical) (h : p.top.val ≠ 0) : p.onLoan p.top :=
  onLoan_iff.mpr ⟨h, Nat.le_refl _, fun hm => Nat.lt_irrefl _ (hp _ hm).2⟩

theorem le_top_of_onLoan (h : p.onLoan id) : id ≤ p.top :=
  (onLoan_iff.mp h).2.1

/-- The top is the largest identifier on loan, and zero if none is. -/
theorem top_cases (hp : p.Canonical) :
    p.top = 0 ∧ (∀ id, ¬ p.onLoan id) ∨ IsGreatest {id | p.onLoan id} p.top := by
  by_cases htop : p.top.val = 0
  · refine .inl ⟨Fin.ext htop, fun id hon => ne_zero_of_onLoan hon ?_⟩
    have hle : id.val ≤ p.top.val := le_top_of_onLoan hon
    omega
  · exact .inr ⟨onLoan_top hp htop, fun id => le_top_of_onLoan⟩

theorem mem_holes_iff (hp : p.Canonical) :
    id ∈ p.holes ↔ 1 ≤ id.val ∧ id < p.top ∧ ¬ p.onLoan id := by
  rw [onLoan_iff, Fin.lt_def]
  constructor
  · intro hm
    obtain ⟨hne, hlt⟩ := hp id hm
    exact ⟨Nat.one_le_iff_ne_zero.mpr hne, hlt, fun hon => hon.2.2 hm⟩
  · rintro ⟨hone, hlt, hfree⟩
    by_contra hm
    exact hfree ⟨Nat.one_le_iff_ne_zero.mp hone, hlt.le, hm⟩

theorem top_le_of_onLoan (hp : p.Canonical) (h : ∀ id, p.onLoan id → q.onLoan id) :
    p.top ≤ q.top := by
  by_cases htop : p.top.val = 0
  · rw [Fin.le_def, htop]
    exact Nat.zero_le _
  · exact le_top_of_onLoan (h _ (onLoan_top hp htop))

/-- What is on loan decides what the pool is. -/
theorem eq_of_onLoan_iff (hp : p.Canonical) (hq : q.Canonical)
    (h : ∀ id, p.onLoan id ↔ q.onLoan id) : p = q := by
  have htop : p.top = q.top :=
    le_antisymm (top_le_of_onLoan hp fun id => (h id).mp)
      (top_le_of_onLoan hq fun id => (h id).mpr)
  have hholes : p.holes = q.holes := by
    refine Std.ExtTreeSet.ext_mem fun id => ?_
    rw [mem_holes_iff hp, mem_holes_iff hq, htop, h]
  cases p
  cases q
  cases htop
  cases hholes
  rfl

/-- An identifier that comes back at once leaves no trace. -/
theorem reclaim_of_lend (hp : p.Canonical) (h : p.lend = some (id, q)) : q.reclaim id = p :=
  eq_of_onLoan_iff (canonical_reclaim (canonical_of_lend hp h) id) hp fun _ =>
    onLoan_reclaim_of_lend h

end Pool

namespace Drill

open Pool

variable {p : Pool} {d : Drill} {ds es : List Drill} {ids ids' : List PacketId}

/-! ## Runs -/

/-- Runs a single drill, and gives up where a number would leave its range. -/
def runChecked (p : Pool) : Drill → Option (Answer × Pool)
  | lend => p.lendChecked.map fun (id, q) => (.lent id, q)
  | reclaim id => (p.reclaimChecked id).map fun q => (.yes (p.onLoan id), q)
  | onLoan id => some (.yes (p.onLoan id), p)
  | _ => none

/-- Runs single drills in order, counts the loans after each, and gives up where a number would
leave its range. -/
def runAllChecked : Pool → List Drill → Option (List (Answer × Nat))
  | _, [] => some []
  | p, d :: rest => do
    let (a, q) ← runChecked p d
    let count ← q.countChecked
    let later ← runAllChecked q rest
    return (a, count) :: later

theorem runChecked_eq (p : Pool) (hd : d.single) : runChecked p d = some (d.run p) := by
  cases d with
  | lend =>
    rw [runChecked, lendChecked_eq, run]
    cases p.lend <;> rfl
  | reclaim id =>
    rw [runChecked, reclaimChecked_eq]
    rfl
  | onLoan id => rfl
  | _ => cases hd

theorem canonical_run (hp : p.Canonical) (hd : d.single) : (d.run p).2.Canonical := by
  cases d with
  | lend =>
    rw [run]
    cases hl : p.lend with
    | none => exact hp
    | some lent => exact canonical_of_lend hp hl
  | reclaim id => exact canonical_reclaim hp id
  | onLoan id => exact hp
  | _ => cases hd

theorem canonical_poolAfter (hp : p.Canonical) (hds : ∀ d ∈ ds, d.single) :
    (poolAfter p ds).Canonical := by
  induction ds generalizing p with
  | nil => exact hp
  | cons d ds ih =>
    obtain ⟨hd, hds⟩ := List.forall_mem_cons.mp hds
    exact ih (canonical_run hp hd) hds

theorem runAllChecked_eq (hp : p.Canonical) (hds : ∀ d ∈ ds, d.single) :
    runAllChecked p ds = some (runAll p ds) := by
  induction ds generalizing p with
  | nil => rfl
  | cons d ds ih =>
    obtain ⟨hd, hds⟩ := List.forall_mem_cons.mp hds
    have hnext := canonical_run hp hd
    rw [runAllChecked, runChecked_eq p hd, Option.bind_eq_bind, Option.bind_some]
    dsimp only
    rw [countChecked_eq hnext, Option.bind_eq_bind, Option.bind_some, ih hnext hds]
    rfl

theorem onLoan_poolAfter_reclaim (p : Pool) (ids : List PacketId) (id : PacketId) :
    (poolAfter p (ids.map .reclaim)).onLoan id ↔ id ∉ ids ∧ p.onLoan id := by
  induction ids generalizing p with
  | nil => simp [poolAfter]
  | cons first ids ih =>
    have hnext : poolAfter p ((first :: ids).map .reclaim) =
        poolAfter (p.reclaim first) (ids.map .reclaim) := rfl
    rw [hnext, ih, onLoan_reclaim, List.mem_cons, not_or]
    tauto

theorem single_of_mem_map_reclaim (hd : d ∈ ids.map .reclaim) : d.single := by
  obtain ⟨id, -, rfl⟩ := List.mem_map.mp hd
  rfl

/-- The order in which identifiers come back makes no difference, nor how often they do. -/
theorem poolAfter_reclaim_congr (hp : p.Canonical) (h : ∀ id, id ∈ ids ↔ id ∈ ids') :
    poolAfter p (ids.map .reclaim) = poolAfter p (ids'.map .reclaim) := by
  refine eq_of_onLoan_iff (canonical_poolAfter hp fun _ => single_of_mem_map_reclaim)
    (canonical_poolAfter hp fun _ => single_of_mem_map_reclaim) fun id => ?_
  rw [onLoan_poolAfter_reclaim, onLoan_poolAfter_reclaim, h]

/-! ## Main statement -/

/-- After every run on a fresh pool the top is the largest identifier on loan, or zero if none is,
and the holes are the identifiers from one to below the top that are not on loan. So runs that leave
the same loans leave the same pool, identifiers may come back in any order, and a loan that comes
back at once leaves no trace. A run that gives up where the top would fall below zero or rise above
the last identifier, or where there would be more holes than identifiers, does not give up and
answers the same. -/
theorem poolAfter_canonical (hds : ∀ d ∈ ds, d.single) :
    ((poolAfter fresh ds).top = 0 ∧ (∀ id, ¬ (poolAfter fresh ds).onLoan id) ∨
      IsGreatest {id | (poolAfter fresh ds).onLoan id} (poolAfter fresh ds).top) ∧
    (∀ id, id ∈ (poolAfter fresh ds).holes ↔
      1 ≤ id.val ∧ id < (poolAfter fresh ds).top ∧ ¬ (poolAfter fresh ds).onLoan id) ∧
    (∀ es, (∀ d ∈ es, d.single) →
      (∀ id, (poolAfter fresh es).onLoan id ↔ (poolAfter fresh ds).onLoan id) →
      poolAfter fresh es = poolAfter fresh ds) ∧
    (∀ ids ids' : List PacketId, (∀ id, id ∈ ids ↔ id ∈ ids') →
      poolAfter (poolAfter fresh ds) (ids.map .reclaim) =
        poolAfter (poolAfter fresh ds) (ids'.map .reclaim)) ∧
    (∀ id q, (poolAfter fresh ds).lend = some (id, q) → q.reclaim id = poolAfter fresh ds) ∧
    runAllChecked fresh ds = some (runAll fresh ds) := by
  have hp : (poolAfter fresh ds).Canonical := canonical_poolAfter canonical_fresh hds
  refine ⟨top_cases hp, fun _ => mem_holes_iff hp, fun es hes hsame => ?_,
    fun _ _ => poolAfter_reclaim_congr hp, fun _ _ => reclaim_of_lend hp,
    runAllChecked_eq canonical_fresh hds⟩
  exact eq_of_onLoan_iff (canonical_poolAfter canonical_fresh hes) hp hsame

/-- Three loans that come back in one order or in another. -/
theorem poolAfter_canonical_orders :
    poolAfter fresh [lend, lend, lend, reclaim 1, reclaim 2, reclaim 3] =
        poolAfter fresh [lend, lend, lend, reclaim 3, reclaim 1, reclaim 2] ∧
      runAllChecked fresh [lend, lend, lend] = some (runAll fresh [lend, lend, lend]) := by
  have hds : ∀ d ∈ [lend, lend, lend], d.single := by decide
  obtain ⟨-, -, -, horders, -, hchecked⟩ := poolAfter_canonical hds
  have hsame : ∀ id, id ∈ [1, 2, 3] ↔ id ∈ ([3, 1, 2] : List PacketId) := by
    simp only [List.mem_cons, List.not_mem_nil, or_false]
    tauto
  exact ⟨horders [1, 2, 3] [3, 1, 2] hsame, hchecked⟩

end Drill

end MqttLink.PacketId
