import Mathlib.Data.Nat.Find
import MqttLink.Proofs.Calls

/-!
Positions of operations, acknowledgements and abandonments in a list of steps. Main statements: how
each single event changes which operations wait, which acknowledgements are remembered and which
callbacks are called, in terms of the positions of the events before it.
-/

namespace MqttLink

namespace Session

/-! ## Events -/

section

variable (steps : List Step) (id : PacketId) (c : Callback)

def TrackedAt (i : Nat) : Prop := steps[i]? = some (.track id (some c))

def SettledAt (j : Nat) : Prop := steps[j]? = some (.settle id)

def AbandonedAt (k : Nat) : Prop := steps[k]? = some .abandon

/-- Nothing is abandoned between two positions. -/
def Undisturbed (i j : Nat) : Prop :=
  ∀ k, AbandonedAt steps k → ¬ (min i j < k ∧ k < max i j)

/-- The operation and its acknowledgement come undisturbed, the later of them at `k`. -/
def CompletedAt (k : Nat) : Prop :=
  ∃ i j, TrackedAt steps id c i ∧ SettledAt steps id j ∧ Undisturbed steps i j ∧ k = max i j

/-- The operation is not completed anywhere, and is first abandoned at `k`. -/
def CancelledAt (k : Nat) : Prop :=
  (∀ k', ¬ CompletedAt steps id c k') ∧
    ∃ i, TrackedAt steps id c i ∧ i < k ∧ AbandonedAt steps k ∧
      ∀ l, AbandonedAt steps l → i < l → k ≤ l

def CalledAt : Resolution → Nat → Prop
  | .completed => CompletedAt steps id c
  | .cancelled => CancelledAt steps id c

/-- Of the first `n` events one tracks an operation that is neither completed nor abandoned. -/
def WaitsAfter (n : Nat) : Prop :=
  ∃ i < n, TrackedAt steps id c i ∧ (∀ l < n, AbandonedAt steps l → l ≤ i) ∧
    ∀ j < n, SettledAt steps id j → ¬ Undisturbed steps i j

/-- Of the first `n` events one is an acknowledgement that is neither matched nor forgotten. -/
def EarlyAfter (n : Nat) : Prop :=
  ∃ j < n, SettledAt steps id j ∧ (∀ l < n, AbandonedAt steps l → l ≤ j) ∧
    ∀ i < n, ∀ c, TrackedAt steps id c i → ¬ Undisturbed steps i j

/-- Each identifier is used for at most one operation, whose callback leaves operations alone, and
for at most one acknowledgement. -/
structure Interleaving : Prop where
  event : ∀ step ∈ steps, (∃ id c, c.Inert ∧ step = .track id (some c)) ∨
    (∃ id, step = .settle id) ∨ step = .abandon
  track_once : ∀ {id c d i j}, TrackedAt steps id c i → TrackedAt steps id d j → i = j
  settle_once : ∀ {id i j}, SettledAt steps id i → SettledAt steps id j → i = j

end

section

variable {steps : List Step} {id k : PacketId} {c d : Callback} {n : Nat}

theorem undisturbed_comm {i j : Nat} : Undisturbed steps i j ↔ Undisturbed steps j i := by
  simp only [Undisturbed, Nat.min_comm i j, Nat.max_comm i j]

/-- The later of two events is the last one so far. -/
theorem undisturbed_iff {j : Nat} (h : j < n) :
    Undisturbed steps n j ↔ ∀ l < n, AbandonedAt steps l → l ≤ j := by
  constructor
  · intro hu l hl ha
    have := hu l ha
    omega
  · intro hl l ha
    have := hl l
    by_cases hln : l < n
    · have := this hln ha
      omega
    · omega

theorem not_settledAt_of_trackedAt (h : TrackedAt steps id c n) : ¬ SettledAt steps k n := by
  intro hs
  rw [SettledAt, h] at hs
  cases hs

theorem not_abandonedAt_of_trackedAt (h : TrackedAt steps id c n) : ¬ AbandonedAt steps n := by
  intro hs
  rw [AbandonedAt, h] at hs
  cases hs

theorem not_abandonedAt_of_settledAt (h : SettledAt steps id n) : ¬ AbandonedAt steps n := by
  intro hs
  rw [AbandonedAt, h] at hs
  cases hs

theorem trackedAt_inj (h : TrackedAt steps id c n) (h' : TrackedAt steps k d n) :
    id = k ∧ c = d := by
  rw [TrackedAt, h] at h'
  cases h'
  exact ⟨rfl, rfl⟩

theorem settledAt_inj (h : SettledAt steps id n) (h' : SettledAt steps k n) : id = k := by
  rw [SettledAt, h] at h'
  cases h'
  rfl

end

section

variable {steps : List Step} (h : Interleaving steps) {id k : PacketId} {c d : Callback} {n : Nat}
include h

theorem completedAt_unique {m : Nat} (hn : CompletedAt steps id c n)
    (hm : CompletedAt steps id d m) : n = m := by
  obtain ⟨i, j, hi, hj, -, rfl⟩ := hn
  obtain ⟨i', j', hi', hj', -, rfl⟩ := hm
  rw [h.track_once hi hi', h.settle_once hj hj']

theorem not_completedAt_of_cancelledAt {m : Nat} (hn : CancelledAt steps id c n) :
    ¬ CompletedAt steps id d m := by
  rintro ⟨i', j, hi', hj, hu, rfl⟩
  obtain ⟨hnever, i, hi, -⟩ := hn
  obtain rfl := h.track_once hi hi'
  obtain ⟨-, rfl⟩ := trackedAt_inj hi hi'
  exact hnever _ ⟨i, j, hi, hj, hu, rfl⟩

/-- Callbacks of one identifier are called at one position at most. -/
theorem calledAt_unique {r r' : Resolution} {m : Nat} (hn : CalledAt steps id c r n)
    (hm : CalledAt steps id d r' m) : n = m := by
  match r, r' with
  | .completed, .completed => exact completedAt_unique h hn hm
  | .cancelled, .completed => exact absurd hm (not_completedAt_of_cancelledAt h hn)
  | .completed, .cancelled => exact absurd hn (not_completedAt_of_cancelledAt h hm)
  | .cancelled, .cancelled =>
    obtain ⟨-, i, hi, hin, han, hfirst⟩ := hn
    obtain ⟨-, i', hi', him, ham, hfirst'⟩ := hm
    obtain rfl := h.track_once hi hi'
    exact Nat.le_antisymm (hfirst m ham him) (hfirst' n han hin)

/-! ## An operation comes -/

section

variable (ht : TrackedAt steps k d n)
include ht

theorem waitsAfter_of_trackedAt :
    WaitsAfter steps id c (n + 1) ↔
      WaitsAfter steps id c n ∨ id = k ∧ c = d ∧ ¬ EarlyAfter steps k n := by
  constructor
  · rintro ⟨i, hi, hti, hlast, hnone⟩
    by_cases hin : i = n
    · subst hin
      obtain ⟨rfl, rfl⟩ := trackedAt_inj hti ht
      refine .inr ⟨rfl, rfl, ?_⟩
      rintro ⟨j, hj, hs, hl, -⟩
      exact hnone j (by omega) hs ((undisturbed_iff hj).mpr hl)
    · exact .inl ⟨i, by omega, hti, fun l hl => hlast l (by omega), fun j hj => hnone j (by omega)⟩
  · rintro (⟨i, hi, hti, hlast, hnone⟩ | ⟨rfl, rfl, hearly⟩)
    · refine ⟨i, by omega, hti, Nat.forall_lt_succ_right.mpr ⟨hlast, fun ha => ?_⟩,
        Nat.forall_lt_succ_right.mpr ⟨hnone, fun hs => ?_⟩⟩
      · exact absurd ha (not_abandonedAt_of_trackedAt ht)
      · exact absurd hs (not_settledAt_of_trackedAt ht)
    · refine ⟨n, by omega, ht, fun l hl _ => by omega,
        Nat.forall_lt_succ_right.mpr ⟨fun j hj hs hu => ?_, fun hs => ?_⟩⟩
      · refine hearly ⟨j, hj, hs, (undisturbed_iff hj).mp hu, fun i hi e hti => ?_⟩
        exact absurd (h.track_once hti ht) (by omega)
      · exact absurd hs (not_settledAt_of_trackedAt ht)

omit h in
theorem earlyAfter_of_trackedAt :
    EarlyAfter steps id (n + 1) ↔ EarlyAfter steps id n ∧ id ≠ k := by
  constructor
  · rintro ⟨j, hj, hs, hlast, hnone⟩
    have hjn : j ≠ n := fun e => not_settledAt_of_trackedAt ht (e ▸ hs)
    have hjlt : j < n := by omega
    refine ⟨⟨j, hjlt, hs, fun l hl => hlast l (by omega), fun i hi => hnone i (by omega)⟩, ?_⟩
    rintro rfl
    exact hnone n (by omega) d ht ((undisturbed_iff hjlt).mpr fun l hl => hlast l (by omega))
  · rintro ⟨⟨j, hj, hs, hlast, hnone⟩, hne⟩
    refine ⟨j, by omega, hs, Nat.forall_lt_succ_right.mpr ⟨hlast, fun ha => ?_⟩,
      Nat.forall_lt_succ_right.mpr ⟨hnone, fun e he => ?_⟩⟩
    · exact absurd ha (not_abandonedAt_of_trackedAt ht)
    · exact absurd (trackedAt_inj he ht).1 hne

theorem calledAt_of_trackedAt {r : Resolution} :
    CalledAt steps id c r n ↔ r = .completed ∧ id = k ∧ c = d ∧ EarlyAfter steps k n := by
  match r with
  | .cancelled =>
    constructor
    · rintro ⟨-, i, hi, hin, ha, -⟩
      exact absurd ha (not_abandonedAt_of_trackedAt ht)
    · rintro ⟨hr, -⟩
      cases hr
  | .completed =>
    constructor
    · rintro ⟨i, j, hi, hj, hu, hn⟩
      have hjn : j ≠ n := fun e => not_settledAt_of_trackedAt ht (e ▸ hj)
      have hin : i = n := by omega
      subst hin
      obtain ⟨rfl, rfl⟩ := trackedAt_inj hi ht
      have hjlt : j < i := by omega
      refine ⟨rfl, rfl, rfl, j, hjlt, hj, (undisturbed_iff hjlt).mp hu, fun l hl e hle => ?_⟩
      exact absurd (h.track_once hle hi) (by omega)
    · rintro ⟨-, rfl, rfl, j, hj, hs, hlast, -⟩
      exact ⟨n, j, ht, hs, (undisturbed_iff hj).mpr hlast, by omega⟩

end

/-! ## An acknowledgement comes -/

section

variable (hs : SettledAt steps k n)
include hs

omit h in
theorem waitsAfter_of_settledAt :
    WaitsAfter steps id c (n + 1) ↔ WaitsAfter steps id c n ∧ id ≠ k := by
  constructor
  · rintro ⟨i, hi, hti, hlast, hnone⟩
    have hin : i ≠ n := fun e => not_settledAt_of_trackedAt (e ▸ hti) hs
    have hilt : i < n := by omega
    refine ⟨⟨i, hilt, hti, fun l hl => hlast l (by omega), fun j hj => hnone j (by omega)⟩, ?_⟩
    rintro rfl
    exact hnone n (by omega) hs
      (undisturbed_comm.mpr ((undisturbed_iff hilt).mpr fun l hl => hlast l (by omega)))
  · rintro ⟨⟨i, hi, hti, hlast, hnone⟩, hne⟩
    refine ⟨i, by omega, hti, Nat.forall_lt_succ_right.mpr ⟨hlast, fun ha => ?_⟩,
      Nat.forall_lt_succ_right.mpr ⟨hnone, fun hj => ?_⟩⟩
    · exact absurd ha (not_abandonedAt_of_settledAt hs)
    · exact absurd (settledAt_inj hj hs) hne

theorem earlyAfter_of_settledAt :
    EarlyAfter steps id (n + 1) ↔
      EarlyAfter steps id n ∨ id = k ∧ ∀ c, ¬ WaitsAfter steps k c n := by
  constructor
  · rintro ⟨j, hj, hsj, hlast, hnone⟩
    by_cases hjn : j = n
    · subst hjn
      obtain rfl := settledAt_inj hsj hs
      refine .inr ⟨rfl, ?_⟩
      rintro e ⟨i, hi, hti, hl, -⟩
      exact hnone i (by omega) e hti (undisturbed_comm.mpr ((undisturbed_iff hi).mpr hl))
    · exact .inl ⟨j, by omega, hsj, fun l hl => hlast l (by omega), fun i hi => hnone i (by omega)⟩
  · rintro (⟨j, hj, hsj, hlast, hnone⟩ | ⟨rfl, hwaits⟩)
    · refine ⟨j, by omega, hsj, Nat.forall_lt_succ_right.mpr ⟨hlast, fun ha => ?_⟩,
        Nat.forall_lt_succ_right.mpr ⟨hnone, fun e he => ?_⟩⟩
      · exact absurd ha (not_abandonedAt_of_settledAt hs)
      · exact absurd hs (not_settledAt_of_trackedAt he)
    · refine ⟨n, by omega, hs, fun l hl _ => by omega,
        Nat.forall_lt_succ_right.mpr ⟨fun i hi e hti hu => ?_, fun e he => ?_⟩⟩
      · refine hwaits e ⟨i, hi, hti, (undisturbed_iff hi).mp (undisturbed_comm.mpr hu),
          fun j hj hsj => ?_⟩
        exact absurd (h.settle_once hsj hs) (by omega)
      · exact absurd hs (not_settledAt_of_trackedAt he)

theorem calledAt_of_settledAt {r : Resolution} :
    CalledAt steps id c r n ↔ r = .completed ∧ id = k ∧ WaitsAfter steps k c n := by
  match r with
  | .cancelled =>
    constructor
    · rintro ⟨-, i, hi, hin, ha, -⟩
      exact absurd ha (not_abandonedAt_of_settledAt hs)
    · rintro ⟨hr, -⟩
      cases hr
  | .completed =>
    constructor
    · rintro ⟨i, j, hi, hj, hu, hn⟩
      have hin : i ≠ n := fun e => not_settledAt_of_trackedAt (e ▸ hi) hs
      have hjn : j = n := by omega
      subst hjn
      obtain rfl := settledAt_inj hj hs
      have hilt : i < j := by omega
      refine ⟨rfl, rfl, i, hilt, hi, (undisturbed_iff hilt).mp (undisturbed_comm.mpr hu),
        fun l hl hsl => ?_⟩
      exact absurd (h.settle_once hsl hj) (by omega)
    · rintro ⟨-, rfl, i, hi, hti, hlast, -⟩
      exact ⟨i, n, hti, hs, undisturbed_comm.mpr ((undisturbed_iff hi).mpr hlast), by omega⟩

end

/-! ## Everything is abandoned -/

section

variable (ha : AbandonedAt steps n)
include ha

omit h in
theorem not_waitsAfter_of_abandonedAt : ¬ WaitsAfter steps id c (n + 1) := by
  rintro ⟨i, hi, ht, hlast, -⟩
  have hni := hlast n (Nat.lt_succ_self n) ha
  have : i = n := by omega
  exact not_abandonedAt_of_trackedAt (this ▸ ht) ha

omit h in
theorem not_earlyAfter_of_abandonedAt : ¬ EarlyAfter steps id (n + 1) := by
  rintro ⟨j, hj, hs, hlast, -⟩
  have hnj := hlast n (Nat.lt_succ_self n) ha
  have : j = n := by omega
  exact not_abandonedAt_of_settledAt (this ▸ hs) ha

theorem calledAt_of_abandonedAt {r : Resolution} :
    CalledAt steps id c r n ↔ r = .cancelled ∧ WaitsAfter steps id c n := by
  match r with
  | .completed =>
    constructor
    · rintro ⟨i, j, hi, hj, -, hn⟩
      have hin : i ≠ n := fun e => not_abandonedAt_of_trackedAt (e ▸ hi) ha
      have hjn : j ≠ n := fun e => not_abandonedAt_of_settledAt (e ▸ hj) ha
      omega
    · rintro ⟨hr, -⟩
      cases hr
  | .cancelled =>
    constructor
    · rintro ⟨hnever, i, hi, hin, -, hfirst⟩
      refine ⟨rfl, i, hin, hi, fun l hl hal => ?_, fun j hj hsj hu => ?_⟩
      · have := hfirst l hal
        omega
      · exact hnever _ ⟨i, j, hi, hsj, hu, rfl⟩
    · rintro ⟨-, i, hin, hi, hlast, hnone⟩
      refine ⟨?_, i, hi, hin, ha, fun l hal hil => ?_⟩
      · rintro k' ⟨i', j, hi', hj, hu, rfl⟩
        obtain rfl := h.track_once hi hi'
        by_cases hjn : j < n
        · exact hnone j hjn hj hu
        · -- the acknowledgement comes too late: everything is abandoned between
          have hne : j ≠ n := fun e => not_abandonedAt_of_settledAt (e ▸ hj) ha
          exact hu n ha (by omega)
      · have := hlast l
        by_cases hln : l < n
        · have := this hln hal
          omega
        · omega

end

/-! ## In terms of calls -/

omit h in
/-- Of the abandonments after a position there is a first one. -/
theorem exists_first {i l : Nat} (hl : AbandonedAt steps l) (hil : i < l) :
    ∃ k ≤ l, i < k ∧ AbandonedAt steps k ∧ ∀ l', AbandonedAt steps l' → i < l' → k ≤ l' := by
  classical
  have h : ∃ k, i < k ∧ AbandonedAt steps k := ⟨l, hil, hl⟩
  obtain ⟨hik, hk⟩ := Nat.find_spec h
  exact ⟨Nat.find h, Nat.find_min' h ⟨hil, hl⟩, hik, hk,
    fun l' ha hil' => Nat.find_min' h ⟨hil', ha⟩⟩

/-- An operation waits unless its callback has been called. -/
theorem waitsAfter_iff : WaitsAfter steps id c n ↔
    (∃ i < n, TrackedAt steps id c i) ∧ ∀ r, ∀ k < n, ¬ CalledAt steps id c r k := by
  constructor
  · rintro ⟨i, hi, ht, hlast, hnone⟩
    refine ⟨⟨i, hi, ht⟩, fun r k hk hcalled => ?_⟩
    match r with
    | .completed =>
      obtain ⟨i', j, hi', hj, hu, rfl⟩ := hcalled
      obtain rfl := h.track_once ht hi'
      exact hnone j (by omega) hj hu
    | .cancelled =>
      obtain ⟨-, i', hi', hik, ha, -⟩ := hcalled
      obtain rfl := h.track_once ht hi'
      have := hlast k hk ha
      omega
  · rintro ⟨⟨i, hi, ht⟩, hcalls⟩
    have hnone : ∀ j < n, SettledAt steps id j → ¬ Undisturbed steps i j := fun j hj hs hu =>
      hcalls .completed (max i j) (by omega) ⟨i, j, ht, hs, hu, rfl⟩
    refine ⟨i, hi, ht, fun l hl ha => Nat.le_of_not_lt fun hil => ?_, hnone⟩
    obtain ⟨k, hkl, hik, hk, hfirst⟩ := exists_first ha hil
    refine hcalls .cancelled k (by omega) ⟨?_, i, ht, hik, hk, hfirst⟩
    rintro k' ⟨i', j, hi', hj, hu, rfl⟩
    obtain rfl := h.track_once ht hi'
    by_cases hjn : j < n
    · exact hnone j hjn hj hu
    · exact hu l ha (by omega)

/-- An acknowledgement is remembered unless it completed its operation or was forgotten. -/
theorem earlyAfter_iff : EarlyAfter steps id n ↔
    (∃ j < n, SettledAt steps id j ∧ ∀ l < n, AbandonedAt steps l → l < j) ∧
      ∀ c, ∀ k < n, ¬ CompletedAt steps id c k := by
  constructor
  · rintro ⟨j, hj, hs, hlast, hnone⟩
    refine ⟨⟨j, hj, hs, fun l hl ha => ?_⟩, ?_⟩
    · have hlj := hlast l hl ha
      have hne : l ≠ j := fun e => not_abandonedAt_of_settledAt hs (e ▸ ha)
      omega
    · rintro c k hk ⟨i, j', hi, hj', hu, rfl⟩
      obtain rfl := h.settle_once hs hj'
      exact hnone i (by omega) c hi hu
  · rintro ⟨⟨j, hj, hs, hlast⟩, hcalls⟩
    exact ⟨j, hj, hs, fun l hl ha => Nat.le_of_lt (hlast l hl ha), fun i hi c ht hu =>
      hcalls c (max i j) (by omega) ⟨i, j, ht, hs, hu, rfl⟩⟩

end

end Session

end MqttLink
