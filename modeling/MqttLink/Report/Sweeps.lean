import MqttLink.Journal

/-!
Entries of a journal in a fixed order. What a sweep wrote has no order of its own, so it is sorted;
all else keeps its place.
-/

namespace MqttLink.Report

/-- Whether one entry comes before another: part by part, by code points, and a beginning before
what it begins. -/
def partsLe : List String → List String → Bool
  | [], _ => true
  | _ :: _, [] => false
  | a :: as, b :: bs => if a = b then partsLe as bs else a < b

/-- Goes through the occurrences `depth` sweeps deep; `batch` holds what the outermost sweep has
written so far and `done` all that is before it, both in reverse. -/
def collectEntries (entry : Occurrence → Option (List String)) : (depth : Nat) →
    (batch done : List (List String)) → List Occurrence → List (List String)
  | _, batch, done, [] => (batch ++ done).reverse
  | depth, batch, done, .sweepBegun :: rest =>
    collectEntries entry (depth + 1) batch done rest
  | depth, batch, done, .sweepEnded :: rest =>
    if depth = 1 then
      collectEntries entry 0 [] ((batch.reverse.mergeSort partsLe).reverse ++ done) rest
    else collectEntries entry (depth - 1) batch done rest
  | depth, batch, done, o :: rest =>
    match entry o with
    | none => collectEntries entry depth batch done rest
    | some parts =>
      if depth = 0 then collectEntries entry 0 [] (parts :: done) rest
      else collectEntries entry depth (parts :: batch) done rest

/-- The entries of a journal, the oldest first. -/
def entries (entry : Occurrence → Option (List String)) (os : List Occurrence) :
    List (List String) :=
  collectEntries entry 0 [] [] os

end MqttLink.Report
