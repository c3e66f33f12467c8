import Mathlib.Data.Finset.Card
import Mathlib.Order.Interval.Finset.Fin
import MqttLink.PacketId.Drill

/-!
A pool is a finite set of identifiers. Main statements: the identifiers on loan are as many as the
pool counts, and every run of loans and returns on a fresh pool answers as the set does of which the
least identifier outside is lent and from which those that come back are taken.
-/

namespace MqttLink.PacketId

/-! ## What is on loan -/

namespace Pool

variable {p q : Pool} {S : Finset PacketId} {id : PacketId}

/-- The identifiers in `S` and no others are on loan. -/
structure Lends (p : Pool) (S : Finset PacketId) : Prop where
  canonical : p.Canonical
  onLoan : ∀ id, p.onLoan id ↔ id ∈ S

theorem lends_fresh : fresh.Lends ∅ where
  canonical := canonical_fresh
  onLoan id := by simpa using not_onLoan_fresh id

theorem ne_zero_of_onLoan (h : p.onLoan id) : id.val ≠ 0 :=
  (onLoan_iff.mp h).1

/-- The holes as a finite set. -/
def holesUsed (p : Pool) : Finset PacketId :=
  p.holes.toList.toFinset

theorem mem_holesUsed : id ∈ p.holesUsed ↔ id ∈ p.holes := by
  rw [holesUsed, List.mem_toFinset, Std.ExtTreeSet.mem_toList]

theorem card_holesUsed (p : Pool) : p.holesUsed.card = p.holes.size := by
  have hnodup : p.holes.toList.Nodup :=
    p.holes.distinct_toList.imp fun h e => h (by rw [e]; exact Std.ReflCmp.compare_self)
  rw [holesUsed, List.toFinset_card_of_nodup hnodup, Std.ExtTreeSet.length_toList]

theorem card_Icc_one (top : PacketId) : (Finset.Icc 1 top).card = top.val := by
  rw [Fin.card_Icc]
  exact Nat.add_sub_cancel top.val 1

theorem holesUsed_subset (hp : p.Canonical) : p.holesUsed ⊆ Finset.Icc 1 p.top := by
  intro id hid
  have := hp id (mem_holesUsed.mp hid)
  have hone : (1 : PacketId).val = 1 := rfl
  rw [Finset.mem_Icc, Fin.le_def, Fin.le_def]
  omega

/-- The holes lie below the top, so each of them makes the count smaller by one. -/
theorem count_of_lends (h : p.Lends S) : p.count = S.card := by
  have hloans : S = Finset.Icc 1 p.top \ p.holesUsed := by
    ext id
    rw [← h.onLoan, onLoan_iff, Finset.mem_sdiff, Finset.mem_Icc, mem_holesUsed, Fin.le_def,
      Fin.le_def, and_assoc]
    exact and_congr_left' Nat.one_le_iff_ne_zero.symm
  rw [hloans, Finset.card_sdiff_of_subset (holesUsed_subset h.canonical), card_Icc_one,
    card_holesUsed, count]

/-- The identifiers that can be lent. -/
def lendable : Finset PacketId :=
  Finset.univ.erase 0

theorem mem_lendable : id ∈ lendable ↔ id.val ≠ 0 := by
  rw [lendable, Finset.mem_erase, Ne, Fin.ext_iff]
  simp

theorem card_lendable : lendable.card = 65535 := by
  rw [lendable, Finset.card_erase_of_mem (Finset.mem_univ _), Finset.card_fin]

theorem lends_of_lend (h : p.Lends S) (hl : p.lend = some (id, q)) :
    IsLeast {k | k ∈ lendable ∧ k ∉ S} id ∧ q.Lends (insert id S) := by
  obtain ⟨hne, hfree, hleast, hloans⟩ := onLoan_of_lend h.canonical hl
  refine ⟨⟨⟨mem_lendable.mpr hne, fun hm => hfree ((h.onLoan id).mpr hm)⟩, ?_⟩,
    canonical_of_lend h.canonical hl, fun k => ?_⟩
  · rintro k ⟨hk, hfree⟩
    exact hleast k (mem_lendable.mp hk) fun hon => hfree ((h.onLoan k).mp hon)
  · rw [hloans, h.onLoan, Finset.mem_insert]

theorem lend_eq_none_iff_of_lends (h : p.Lends S) : p.lend = none ↔ S = lendable := by
  rw [lend_eq_none_iff h.canonical]
  constructor
  · intro hall
    ext id
    rw [mem_lendable, ← h.onLoan]
    exact ⟨ne_zero_of_onLoan, hall id⟩
  · intro hall id hne
    rw [h.onLoan, hall]
    exact mem_lendable.mpr hne

theorem lends_reclaim (h : p.Lends S) (id : PacketId) : (p.reclaim id).Lends (S.erase id) where
  canonical := canonical_reclaim h.canonical id
  onLoan k := by rw [onLoan_reclaim, h.onLoan, Finset.mem_erase]

end Pool

/-! ## Runs -/

namespace Drill

open Pool

/-- Single loans, single returns and questions. -/
def single : Drill → Bool
  | lend | reclaim _ | onLoan _ => true
  | _ => false

/-- What a drill answers when the identifiers in `S` are on loan, and which are on loan then. -/
inductive Turn (S : Finset PacketId) : Drill → Answer → Finset PacketId → Prop
  | lent (id : PacketId) (least : IsLeast {k | k ∈ lendable ∧ k ∉ S} id) :
      Turn S lend (.lent (some id)) (insert id S)
  | exhausted (all : S = lendable) : Turn S lend (.lent none) S
  | reclaimed (id : PacketId) (mem : id ∈ S) : Turn S (reclaim id) (.yes true) (S.erase id)
  | refused (id : PacketId) (free : id ∉ S) : Turn S (reclaim id) (.yes false) S
  | confirmed (id : PacketId) (mem : id ∈ S) : Turn S (onLoan id) (.yes true) S
  | denied (id : PacketId) (free : id ∉ S) : Turn S (onLoan id) (.yes false) S

/-- Drills with their answers, each beside the number of identifiers on loan after it, from the time
when those in `S` are on loan to the time when those in `T` are. -/
inductive Turns : Finset PacketId → List Drill → List (Answer × Nat) → Finset PacketId → Prop
  | nil (S : Finset PacketId) : Turns S [] [] S
  | cons {S T U : Finset PacketId} {d : Drill} {a : Answer} {ds : List Drill}
      {as : List (Answer × Nat)} (turn : Turn S d a T) (rest : Turns T ds as U) :
      Turns S (d :: ds) ((a, T.card) :: as) U

/-- The pool after drills in order. -/
def poolAfter (p : Pool) (ds : List Drill) : Pool :=
  ds.foldl (fun p d => (d.run p).2) p

variable {p : Pool} {S T : Finset PacketId} {d : Drill} {ds : List Drill}

theorem turn_lend (h : p.Lends S) :
    ∃ T, Turn S lend (run p lend).1 T ∧ (run p lend).2.Lends T ∧ (T = S → (run p lend).2 = p) := by
  unfold run
  cases hl : p.lend with
  | none => exact ⟨S, .exhausted ((lend_eq_none_iff_of_lends h).mp hl), h, fun _ => rfl⟩
  | some lent =>
    obtain ⟨hleast, hlends⟩ := lends_of_lend h hl
    refine ⟨insert lent.1 S, .lent lent.1 hleast, hlends, fun hsame => ?_⟩
    exact absurd (Finset.insert_eq_self.mp hsame) hleast.1.2

theorem turn_reclaim (h : p.Lends S) (id : PacketId) :
    ∃ T, Turn S (reclaim id) (.yes (p.onLoan id)) T ∧ (p.reclaim id).Lends T ∧
      (T = S → p.reclaim id = p) := by
  have hlends := lends_reclaim h id
  cases hon : p.onLoan id with
  | true =>
    have hid : id ∈ S := (h.onLoan id).mp hon
    refine ⟨S.erase id, .reclaimed id hid, hlends, fun hsame => ?_⟩
    exact absurd hid (Finset.erase_eq_self.mp hsame)
  | false =>
    have hid : id ∉ S := fun hm => by simp [(h.onLoan id).mpr hm] at hon
    have hsame : p.reclaim id = p := by
      rw [Pool.reclaim, reclaim?, hon]
      rfl
    exact ⟨S, .refused id hid, by rw [hsame]; exact h, fun _ => hsame⟩

theorem turn_onLoan (h : p.Lends S) (id : PacketId) :
    Turn S (onLoan id) (.yes (p.onLoan id)) S := by
  cases hon : p.onLoan id with
  | true => exact .confirmed id ((h.onLoan id).mp hon)
  | false => exact .denied id fun hm => by simp [(h.onLoan id).mpr hm] at hon

/-- A drill that leaves the set as it is leaves the pool as it is. -/
theorem turn_run (h : p.Lends S) (hd : d.single) :
    ∃ T, Turn S d (d.run p).1 T ∧ (d.run p).2.Lends T ∧ (T = S → (d.run p).2 = p) := by
  cases d with
  | lend => exact turn_lend h
  | reclaim id => exact turn_reclaim h id
  | onLoan id => exact ⟨S, turn_onLoan h id, h, fun _ => rfl⟩
  | _ => cases hd

theorem turns_runAll (h : p.Lends S) (hds : ∀ d ∈ ds, d.single) :
    ∃ T, Turns S ds (runAll p ds) T ∧ (poolAfter p ds).Lends T := by
  induction ds generalizing p S with
  | nil => exact ⟨S, .nil S, h⟩
  | cons d ds ih =>
    obtain ⟨hd, hds⟩ := List.forall_mem_cons.mp hds
    obtain ⟨T, hturn, hlends, -⟩ := turn_run h hd
    obtain ⟨U, hturns, hafter⟩ := ih hlends hds
    have hcount : runAll p (d :: ds) = ((d.run p).1, T.card) :: runAll (d.run p).2 ds := by
      rw [runAll, ← count_of_lends hlends]
    rw [hcount]
    exact ⟨U, .cons hturn hturns, hafter⟩

/-- Every run on a fresh pool answers as a finite set: the least identifier outside is lent, none
when there is no such identifier, those inside are taken back, and the count is the size of the set.
The set is what the pool says is on loan, and only what changes the set changes the pool. -/
theorem runAll_fresh (hds : ∀ d ∈ ds, d.single) :
    ∃ S, Turns ∅ ds (runAll fresh ds) S ∧ (∀ id, (poolAfter fresh ds).onLoan id ↔ id ∈ S) ∧
      ∀ d, d.single → ∃ T, Turn S d (d.run (poolAfter fresh ds)).1 T ∧
        (T = S → (d.run (poolAfter fresh ds)).2 = poolAfter fresh ds) := by
  obtain ⟨S, hturns, hlends⟩ := turns_runAll lends_fresh hds
  refine ⟨S, hturns, hlends.onLoan, fun d hd => ?_⟩
  obtain ⟨T, hturn, -, hsame⟩ := turn_run hlends hd
  exact ⟨T, hturn, hsame⟩

/-- Two loans, the first of which is given back twice, and a third. -/
theorem runAll_fresh_returned_twice :
    ∃ S, Turns ∅ [lend, lend, reclaim 1, reclaim 1, lend]
      (runAll fresh [lend, lend, reclaim 1, reclaim 1, lend]) S := by
  have hds : ∀ d ∈ [lend, lend, reclaim 1, reclaim 1, lend], d.single := by decide
  obtain ⟨S, hturns, -⟩ := runAll_fresh hds
  exact ⟨S, hturns⟩

end Drill

end MqttLink.PacketId
