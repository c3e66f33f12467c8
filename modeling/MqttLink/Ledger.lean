import Std.Data.ExtTreeMap
import MqttLink.PacketId.Pool

/-!
The ledger of operations in flight. An operation and its acknowledgement carry one identifier and
may arrive in either order: an operation that comes first waits in `pending`, an acknowledgement
that comes first is remembered in `early`. Main statements: what each step does to both tables, and
that no identifier is ever in both.
-/

namespace MqttLink

/-- How an operation came to its end. -/
inductive Resolution
  | completed
  | cancelled
  deriving DecidableEq, Repr

namespace Resolution

def isCancelled : Resolution → Bool
  | cancelled => true
  | completed => false

def name : Resolution → String
  | completed => "Completed"
  | cancelled => "Cancelled"

instance : Inhabited Resolution := ⟨completed⟩

end Resolution

/-- Operations wait with the callback they came with, if any. -/
structure Ledger (κ : Type) where
  pending : Std.ExtTreeMap PacketId (Option κ) compare := ∅
  early : Std.ExtTreeSet PacketId compare := ∅

namespace Ledger

variable {κ : Type}

/-- An operation and the callback it came with. -/
abbrev Entry (κ : Type) := PacketId × Option κ

/-- What becomes of an operation that enters the ledger: its acknowledgement is already there, or
it waits, perhaps in the place of another operation with the same identifier. -/
inductive Entered (κ : Type)
  | acknowledged
  | waiting (displaced : Option (Option κ))

def track (l : Ledger κ) (id : PacketId) (callback : Option κ) : Entered κ × Ledger κ :=
  if l.early.contains id then (.acknowledged, { l with early := l.early.erase id })
  else (.waiting l.pending[id]?, { l with pending := l.pending.insert id callback })

/-- Takes out the operation that an acknowledgement ends; `none` when there is none yet. -/
def settle (l : Ledger κ) (id : PacketId) : Option (Option κ) × Ledger κ :=
  match l.pending[id]? with
  | some callback => (some callback, { l with pending := l.pending.erase id })
  | none => (none, { l with early := l.early.insert id })

/-- Takes out every operation, in the order of the identifiers, and forgets every
acknowledgement. -/
def abandon (l : Ledger κ) : List (Entry κ) × Ledger κ :=
  (l.pending.toList, {})

def isPending (l : Ledger κ) (id : PacketId) : Bool :=
  l.pending.contains id

def isEarly (l : Ledger κ) (id : PacketId) : Bool :=
  l.early.contains id

/-! ## The tables after a step -/

theorem getElem?_track (l : Ledger κ) (id k : PacketId) (callback : Option κ) :
    (l.track id callback).2.pending[k]? =
      if k = id ∧ id ∉ l.early then some callback else l.pending[k]? := by
  unfold track
  split
  next h => simp [Std.ExtTreeSet.contains_iff_mem.mp h]
  next h =>
    rw [Std.ExtTreeSet.contains_iff_mem] at h
    simp only [Std.ExtTreeMap.getElem?_insert, Std.LawfulEqCmp.compare_eq_iff_eq]
    grind

theorem mem_early_track (l : Ledger κ) (id k : PacketId) (callback : Option κ) :
    k ∈ (l.track id callback).2.early ↔ k ≠ id ∧ k ∈ l.early := by
  unfold track
  split
  next h =>
    simp only [Std.ExtTreeSet.mem_erase]
    grind
  next h => grind

theorem getElem?_settle (l : Ledger κ) (id k : PacketId) :
    (l.settle id).2.pending[k]? = if k = id then none else l.pending[k]? := by
  unfold settle
  split
  next h =>
    simp only [Std.ExtTreeMap.getElem?_erase, Std.LawfulEqCmp.compare_eq_iff_eq]
    grind
  next h => grind

theorem mem_early_settle (l : Ledger κ) (id k : PacketId) :
    k ∈ (l.settle id).2.early ↔ k ∈ l.early ∨ k = id ∧ id ∉ l.pending := by
  unfold settle
  split
  next h => grind
  next h =>
    simp only [Std.ExtTreeSet.mem_insert]
    grind

/-! ## The tables stay apart -/

/-- No identifier is in both tables. -/
def Apart (l : Ledger κ) : Prop :=
  ∀ id ∈ l.pending, id ∉ l.early

theorem apart_track {l : Ledger κ} (h : l.Apart) (id : PacketId) (callback : Option κ) :
    (l.track id callback).2.Apart := by
  intro k hk
  rw [Std.ExtTreeMap.mem_iff_isSome_getElem?, getElem?_track] at hk
  rw [mem_early_track]
  have := h k
  grind

theorem apart_settle {l : Ledger κ} (h : l.Apart) (id : PacketId) : (l.settle id).2.Apart := by
  intro k hk
  rw [Std.ExtTreeMap.mem_iff_isSome_getElem?, getElem?_settle] at hk
  rw [mem_early_settle]
  have := h k
  grind

theorem apart_abandon (l : Ledger κ) : l.abandon.2.Apart := by
  intro k hk
  simp [abandon] at hk

end Ledger

/-- An order in which an abandoned batch is gone through. It may differ from sweep to sweep. -/
structure VisitOrder (κ : Type) where
  arrange : (sweep : Nat) → List (Ledger.Entry κ) → List (Ledger.Entry κ)
  perm : ∀ sweep batch, (arrange sweep batch).Perm batch

/-- Goes through a batch in the order of the identifiers. -/
def VisitOrder.ascending (κ : Type) : VisitOrder κ where
  arrange _ batch := batch
  perm _ batch := List.Perm.refl batch

instance (κ : Type) : Inhabited (VisitOrder κ) := ⟨.ascending κ⟩

end MqttLink
