import MqttLink.PacketId.Pool

/-!
Exercises of an identifier pool: single loans and returns, and whole runs of them.
-/

namespace MqttLink.PacketId

inductive Drill
  | lend
  | lendMany (times : Nat)
  | reclaim (id : PacketId)
  | reclaimAll (ids : List PacketId)
  | onLoan (id : PacketId)

namespace Drill

/-- What a run of loans came to: the first and the last result, how many loans succeeded, and
the sum of the identifiers lent. -/
structure Tally where
  first : Option PacketId := none
  last : Option PacketId := none
  lent : Nat := 0
  sum : Nat := 0
  deriving DecidableEq, Repr

inductive Answer
  | lent (id : Option PacketId)
  | tally (t : Tally)
  | yes (b : Bool)
  | reclaimed (count : Nat)
  deriving DecidableEq, Repr

/-- Adds the result of one more loan to a tally; `fresh` tells that it is the first. -/
def Tally.add (t : Tally) (fresh : Bool) (id : Option PacketId) : Tally where
  first := if fresh then id else t.first
  last := id
  lent := t.lent + if id.isSome then 1 else 0
  sum := t.sum + (id.elim 0 (·.val))

/-- Lends `times` identifiers, adding each result to the tally. -/
def Tally.lend (p : Pool) : (times : Nat) → (fresh : Bool) → Tally → Tally × Pool
  | 0, _, t => (t, p)
  | times + 1, fresh, t =>
    match p.lend with
    | some (id, p) => Tally.lend p times false (t.add fresh (some id))
    | none => Tally.lend p times false (t.add fresh none)

/-- Takes back each of `ids` in turn and counts those that were on loan. -/
def reclaimCounting (p : Pool) (ids : List PacketId) : Nat × Pool :=
  ids.foldl (fun (n, p) id =>
    match p.reclaim? id with
    | some p => (n + 1, p)
    | none => (n, p)) (0, p)

def run (p : Pool) : Drill → Answer × Pool
  | lend =>
    match p.lend with
    | some (id, p) => (.lent (some id), p)
    | none => (.lent none, p)
  | lendMany times =>
    let (t, p) := Tally.lend p times true {}
    (.tally t, p)
  | reclaim id => (.yes (p.onLoan id), p.reclaim id)
  | reclaimAll ids =>
    let (n, p) := reclaimCounting p ids
    (.reclaimed n, p)
  | onLoan id => (.yes (p.onLoan id), p)

/-- Runs the drills in order; each answer stands beside the number of loans after it. -/
def runAll : Pool → List Drill → List (Answer × Nat)
  | _, [] => []
  | p, d :: rest =>
    let (a, p) := d.run p
    (a, p.count) :: runAll p rest

end Drill

end MqttLink.PacketId
