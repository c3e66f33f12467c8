import Std.Data.ExtTreeSet

/-!
Packet identifiers and the pool they are lent from. The pool keeps the highest identifier on loan
and the holes below it, and always lends the lowest identifier that is free. Main statements: the
lowest free identifier is lent, and how lending and reclaiming change what is on loan.
-/

namespace MqttLink

/-- Identifies an operation that waits for its acknowledgement; zero is never lent. -/
abbrev PacketId := Fin 65536

namespace PacketId

/-- There are identifiers, so numerals stand for them. Zero is named in full, so that a numeral is
the same term whatever is imported. -/
instance nonempty : @NeZero Nat Zero.ofOfNat0 65536 :=
  ⟨by decide⟩

/-- Identifiers are ordered by their numbers. -/
instance ordered : Std.TransCmp (compare : PacketId → PacketId → Ordering) :=
  inferInstance

theorem isLE_compare {a b : PacketId} : (compare a b).isLE ↔ a.val ≤ b.val :=
  Nat.isLE_compare

def ofNat? (n : Nat) : Option PacketId :=
  if h : n < 65536 then some ⟨n, h⟩ else none

/-- The identifiers from `first` to `last`, both included, every `stride` apart. -/
def range (first last stride : Nat) : List PacketId :=
  (List.range' first ((last + stride - first) / stride) stride).filterMap ofNat?

/-- Every identifier up to `top` that is not a hole is on loan, and none above it. -/
structure Pool where
  top : PacketId := ⟨0, by decide⟩
  holes : Std.ExtTreeSet PacketId compare := ∅

namespace Pool

/-- Nothing is on loan. -/
def fresh : Pool := {}

def onLoan (p : Pool) (id : PacketId) : Bool :=
  id.val ≠ 0 && id ≤ p.top && !p.holes.contains id

/-- Number of identifiers on loan. -/
def count (p : Pool) : Nat :=
  p.top.val - p.holes.size

/-- Lends the lowest free identifier; nothing is lent when all are on loan. -/
def lend (p : Pool) : Option (PacketId × Pool) :=
  match p.holes.min? with
  | some id => some (id, { p with holes := p.holes.erase id })
  | none =>
    if h : p.top.val + 1 < 65536 then
      some (⟨p.top.val + 1, h⟩, { p with top := ⟨p.top.val + 1, h⟩ })
    else none

/-- The pool whose identifiers up to `n` are on loan but for the holes: holes right at the top
are folded away, so that the top is always on loan. -/
def settleAt (holes : Std.ExtTreeSet PacketId compare) : (n : Nat) → n < 65536 → Pool
  | 0, _ => ⟨0, holes⟩
  | n + 1, h =>
    if holes.contains ⟨n + 1, h⟩ then
      settleAt (holes.erase ⟨n + 1, h⟩) n (Nat.lt_of_succ_lt h)
    else ⟨⟨n + 1, h⟩, holes⟩

/-- Takes `id` back; `none` when it is not on loan. -/
def reclaim? (p : Pool) (id : PacketId) : Option Pool :=
  if !p.onLoan id then none
  else if id = p.top then
    some (settleAt p.holes (p.top.val - 1) (Nat.lt_of_le_of_lt (Nat.sub_le _ _) p.top.isLt))
  else some { p with holes := p.holes.insert id }

/-- Takes `id` back if it is on loan, and is unchanged otherwise. -/
def reclaim (p : Pool) (id : PacketId) : Pool :=
  (p.reclaim? id).getD p

theorem onLoan_iff {p : Pool} {id : PacketId} :
    p.onLoan id ↔ id.val ≠ 0 ∧ id.val ≤ p.top.val ∧ id ∉ p.holes := by
  rw [← Std.ExtTreeSet.contains_iff_mem, ← Fin.le_def]
  simp only [onLoan, Bool.and_eq_true, decide_eq_true_eq, Bool.not_eq_true', Bool.not_eq_true,
    and_assoc]

theorem not_onLoan_iff {p : Pool} {id : PacketId} (h : id.val ≠ 0) :
    ¬ p.onLoan id ↔ id ∈ p.holes ∨ p.top.val < id.val := by
  rw [onLoan_iff]
  by_cases hm : id ∈ p.holes <;> simp [h, hm]

/-- The holes lie between zero and the top, so the top itself is on loan. -/
def Canonical (p : Pool) : Prop :=
  ∀ id ∈ p.holes, id.val ≠ 0 ∧ id.val < p.top.val

theorem canonical_fresh : fresh.Canonical := by
  intro id h
  simp [fresh] at h

theorem not_onLoan_fresh (id : PacketId) : ¬ fresh.onLoan id := by
  rw [onLoan_iff]
  exact fun h => h.1 (Nat.le_zero.mp h.2.1)

/-! ## Lending -/

theorem lend_eq_none_iff {p : Pool} (hp : p.Canonical) :
    p.lend = none ↔ ∀ id : PacketId, id.val ≠ 0 → p.onLoan id := by
  unfold lend
  split
  next id h =>
    have hm := Std.ExtTreeSet.min?_mem h
    simp only [reduceCtorEq, false_iff, Classical.not_forall]
    exact ⟨id, (hp id hm).1, by simp [onLoan_iff, hm]⟩
  next h =>
    have he : p.holes = ∅ := Std.ExtTreeSet.min?_eq_none_iff.mp h
    split
    next ht =>
      simp only [reduceCtorEq, false_iff, Classical.not_forall]
      have h0 : (⟨p.top.val + 1, ht⟩ : PacketId).val ≠ 0 := Nat.succ_ne_zero _
      exact ⟨_, h0, (not_onLoan_iff h0).mpr (.inr (Nat.lt_succ_self _))⟩
    next ht =>
      simp only [true_iff]
      intro id h0
      have := id.isLt
      exact onLoan_iff.mpr ⟨h0, by omega, by simp [he]⟩

/-- The lowest free identifier is lent, and no other changes hands. -/
theorem onLoan_of_lend {p q : Pool} {id : PacketId} (hp : p.Canonical)
    (h : p.lend = some (id, q)) :
    id.val ≠ 0 ∧ ¬ p.onLoan id ∧
      (∀ k : PacketId, k.val ≠ 0 → ¬ p.onLoan k → id.val ≤ k.val) ∧
      ∀ k, q.onLoan k ↔ k = id ∨ p.onLoan k := by
  unfold lend at h
  split at h
  next i hi =>
    obtain ⟨rfl, rfl⟩ : i = id ∧ _ = q := by simpa using h
    obtain ⟨hm, hmin⟩ := Std.ExtTreeSet.min?_eq_some_iff_mem_and_forall.mp hi
    obtain ⟨h0, ht⟩ := hp i hm
    refine ⟨h0, (not_onLoan_iff h0).mpr (.inl hm), fun k hk hf => ?_, fun k => ?_⟩
    · rcases (not_onLoan_iff hk).mp hf with hk | hk
      · exact isLE_compare.mp (hmin k hk)
      · omega
    · simp only [onLoan_iff, Std.ExtTreeSet.mem_erase]
      grind
  next hi =>
    split at h
    next ht =>
      obtain ⟨rfl, rfl⟩ : _ = id ∧ _ = q := by simpa using h
      have he : p.holes = ∅ := Std.ExtTreeSet.min?_eq_none_iff.mp hi
      refine ⟨Nat.succ_ne_zero _, ?_, fun k hk hf => ?_, fun k => ?_⟩
      · exact (not_onLoan_iff (Nat.succ_ne_zero _)).mpr (.inr (Nat.lt_succ_self _))
      · rcases (not_onLoan_iff hk).mp hf with hk | hk
        · simp [he] at hk
        · exact hk
      · simp only [onLoan_iff, he, Std.ExtTreeSet.not_mem_empty, Fin.ext_iff]
        grind
    next => simp at h

theorem canonical_of_lend {p q : Pool} {id : PacketId} (hp : p.Canonical)
    (h : p.lend = some (id, q)) : q.Canonical := by
  unfold lend at h
  split at h
  next i hi =>
    obtain ⟨-, rfl⟩ : i = id ∧ _ = q := by simpa using h
    exact fun k hk => hp k (Std.ExtTreeSet.mem_erase.mp hk).2
  next hi =>
    split at h
    next ht =>
      obtain ⟨-, rfl⟩ : _ = id ∧ _ = q := by simpa using h
      exact fun k hk => ⟨(hp k hk).1, Nat.lt_succ_of_lt (hp k hk).2⟩
    next => simp at h

/-! ## Reclaiming -/

theorem canonical_settleAt {holes : Std.ExtTreeSet PacketId compare} {n : Nat} (h : n < 65536)
    (hh : ∀ id ∈ holes, id.val ≠ 0 ∧ id.val ≤ n) : (settleAt holes n h).Canonical := by
  induction n generalizing holes with
  | zero => exact fun id hi => absurd (hh id hi) (by omega)
  | succ n ih =>
    rw [settleAt]
    split
    next hc =>
      refine ih _ fun id hi => ?_
      obtain ⟨hne, hm⟩ := Std.ExtTreeSet.mem_erase.mp hi
      have hne : n + 1 ≠ id.val := by simpa [Fin.ext_iff] using hne
      have := hh id hm
      omega
    next hc =>
      intro id hi
      have hne : id ≠ ⟨n + 1, h⟩ := fun e =>
        hc (Std.ExtTreeSet.contains_iff_mem.mpr (e ▸ hi))
      have hne : id.val ≠ n + 1 := by simpa [Fin.ext_iff] using hne
      have := hh id hi
      exact ⟨this.1, by simp only; omega⟩

theorem onLoan_settleAt {holes : Std.ExtTreeSet PacketId compare} {n : Nat} (h : n < 65536)
    (id : PacketId) :
    (settleAt holes n h).onLoan id ↔ id.val ≠ 0 ∧ id.val ≤ n ∧ id ∉ holes := by
  induction n generalizing holes with
  | zero => simp [settleAt, onLoan_iff]
  | succ n ih =>
    rw [settleAt]
    split
    next hc =>
      have hm := Std.ExtTreeSet.contains_iff_mem.mp hc
      rw [ih]
      simp only [Std.ExtTreeSet.mem_erase]
      grind
    next hc => simp [onLoan_iff]

theorem canonical_reclaim {p : Pool} (hp : p.Canonical) (id : PacketId) :
    (p.reclaim id).Canonical := by
  unfold reclaim reclaim?
  split
  next => exact hp
  next hl =>
    split
    next ht =>
      exact canonical_settleAt _ fun k hk =>
        ⟨(hp k hk).1, Nat.le_sub_one_of_lt (hp k hk).2⟩
    next ht =>
      intro k hk
      have hl := onLoan_iff.mp (by simpa using hl)
      rcases Std.ExtTreeSet.mem_insert.mp hk with e | hk
      · obtain rfl : id = k := by simpa using e
        exact ⟨hl.1, Nat.lt_of_le_of_ne hl.2.1 fun e => ht (Fin.ext e)⟩
      · exact hp k hk

/-- No other identifier changes hands. -/
theorem onLoan_reclaim (p : Pool) (id k : PacketId) :
    (p.reclaim id).onLoan k ↔ k ≠ id ∧ p.onLoan k := by
  cases hl : p.onLoan id
  · rw [reclaim, reclaim?, hl]
    simp only [Bool.not_false, ↓reduceIte, Option.getD_none]
    exact ⟨fun hk => ⟨fun e => by simp_all, hk⟩, And.right⟩
  · have hid := onLoan_iff.mp hl
    rw [reclaim, reclaim?, hl]
    simp only [Bool.not_true, Bool.false_eq_true, ↓reduceIte]
    split
    next ht =>
      subst ht
      rw [Option.getD_some, onLoan_settleAt, onLoan_iff]
      grind
    next ht =>
      simp only [Option.getD_some, onLoan_iff, Std.ExtTreeSet.mem_insert]
      grind

/-- An identifier that is lent and reclaimed at once leaves the others as they are. -/
theorem onLoan_reclaim_of_lend {p q : Pool} {id k : PacketId} (h : p.lend = some (id, q)) :
    (q.reclaim id).onLoan k ↔ p.onLoan k := by
  rw [onLoan_reclaim, onLoan_iff, onLoan_iff]
  unfold lend at h
  split at h
  next i hi =>
    -- the lowest hole is lent
    obtain ⟨rfl, rfl⟩ : i = id ∧ _ = q := by simpa using h
    have hm := Std.ExtTreeSet.min?_mem hi
    simp only [Std.ExtTreeSet.mem_erase]
    grind
  next hi =>
    -- there are no holes, so the identifier above the top is lent
    have he : p.holes = ∅ := Std.ExtTreeSet.min?_eq_none_iff.mp hi
    split at h
    next ht =>
      obtain ⟨rfl, rfl⟩ : _ = id ∧ _ = q := by simpa using h
      simp only [he, Std.ExtTreeSet.not_mem_empty]
      grind
    next => simp at h

end Pool

end PacketId

end MqttLink
