import MqttLink.Proofs.Attribution
import MqttLink.Proofs.Conservation
import MqttLink.Proofs.Own

/-!
What becomes of a callback that is handed over, where its like may be handed over again while it is
called. Main statement: it is called once, or waits, or has lost its place, and it was handed over
by a step that hands over just this one.
-/

namespace MqttLink

/-- The operation that the entry says has been handed over, with its callback. -/
def Occurrence.handedOver? : Occurrence → Option (PacketId × Option Callback)
  | tracked id callback => some (id, callback)
  | _ => none

/-- The operation that such a step is there to hand over, if any. -/
def Step.handedOver? : Step → Option (PacketId × Option Callback)
  | track id callback => some (id, callback)
  | _ => none

theorem Occurrence.filterMap_handedOver? (os : List Occurrence) :
    (os.filter (·.decisive)).filterMap (·.handedOver?) = os.filterMap (·.handedOver?) := by
  rw [List.filterMap_filter]
  congr 1
  funext o
  cases o <;> rfl

namespace Session

open Play

variable {s t : Session} {step : Step} {a : Answer} {depth : Nat}

/-- Work on the ledger hands over by itself what it is there to hand over, and nothing else. -/
theorem exists_own_of_onLedger (hstep : step.onLedger) (hs : s.owned)
    (h : performTo (depth + 1) step s = some (a, t)) :
    ∃ own, Own depth step s a t own ∧
      own.filterMap (·.handedOver?) = step.handedOver?.toList := by
  obtain ⟨own, hown, htells⟩ := exists_tells h
  refine ⟨own, hown, ?_⟩
  rw [← Occurrence.filterMap_handedOver?]
  cases step with
  | track id callback =>
    rw [Tells, if_pos hs] at htells
    rw [htells]
    rfl
  | settle _ | abandon =>
    rw [show own.filter (·.decisive) = [] from htells]
    rfl
  | _ => cases hstep

/-- Every run of work on the ledger comes to its end. By then each callback handed over under an
identifier has been called once under that identifier, or waits there, or lost its place to a later
operation; and it was told that its operation is completed just when an acknowledgement met it.
Apart from what is nested in it, each step of such a run, nested or not, hands over the operation
that it is there for, if any, and no other. -/
theorem callback_called_once {steps : List Step} (hsteps : ∀ step ∈ steps, step.All (·.onLedger))
    (settings : Settings) (order : VisitOrder Callback) :
    (∀ depth, stepsWeight steps < depth →
      ∃ t, performAll depth steps (opened settings order) = some ((), t)) ∧
    (∀ depth t, performAll depth steps (opened settings order) = some ((), t) →
      Attributed t.journal ∧ ∀ id p,
        t.trackings id p = t.invocations id p + t.waiting id p + t.displacements id p ∧
        (t.trackings id p = 1 →
          t.invocations id p = 1 ∧ t.waiting id p = 0 ∧ t.displacements id p = 0 ∨
          t.invocations id p = 0 ∧ t.waiting id p = 1 ∧ t.displacements id p = 0 ∨
          t.invocations id p = 0 ∧ t.waiting id p = 0 ∧ t.displacements id p = 1)) ∧
    ∀ depth step u a v, step.onLedger → u.owned → performTo (depth + 1) step u = some (a, v) →
      ∃ own, Own depth step u a v own ∧
        own.filterMap (·.handedOver?) = step.handedOver?.toList := by
  have hready : (opened settings order).Ready := ⟨rfl, Ledger.all_empty⟩
  have hempty : (opened settings order).ledger.weight = 0 := Ledger.weight_empty
  refine ⟨fun depth hd => ?_, fun depth t ht => ⟨?_, fun id p => ?_⟩, fun _ _ _ _ _ hstep hu h =>
    exists_own_of_onLedger hstep hu h⟩
  · have hw : (opened settings order).ledger.weight + stepsWeight steps < depth := by omega
    obtain ⟨_, t, ht, -⟩ := ends_performAll hsteps hready hw
    exact ⟨t, ht⟩
  · exact law_attributed.within_performAll ht trivial
  · have hsum := trackings_eq id p ht
    exact ⟨hsum, fun hone => by omega⟩

/-- A callback that hands over another one under its own identifier while it is called, and then
abandons everything. -/
theorem callback_called_once_reentrant :
    ∃ t, performAll 4 [.track 1 (some ⟨"first", [.track 1 (some ⟨"again", [], .ok (), true⟩),
        .abandon], .ok (), true⟩), .settle 1, .settle 1] (opened {} (.ascending _)) =
          some ((), t) ∧
      ∀ p, t.trackings 1 p = t.invocations 1 p + t.waiting 1 p + t.displacements 1 p := by
  have hagain : (Step.track 1 (some ⟨"again", [], .ok (), true⟩)).All (·.onLedger) :=
    .intro _ rfl fun c hc n hn => by cases hc; cases hn
  have habandon : Step.abandon.All (·.onLedger) := .intro _ rfl nofun
  have hsettle : (Step.settle 1).All (·.onLedger) := .intro _ rfl nofun
  have hfirst : (Step.track 1 (some ⟨"first", [.track 1 (some ⟨"again", [], .ok (), true⟩),
      .abandon], .ok (), true⟩)).All (·.onLedger) := by
    refine .intro _ rfl fun c hc => ?_
    cases hc
    exact List.forall_mem_cons.mpr ⟨hagain, List.forall_mem_singleton.mpr habandon⟩
  have hall := List.forall_mem_cons.mpr
    ⟨hfirst, List.forall_mem_cons.mpr ⟨hsettle, List.forall_mem_singleton.mpr hsettle⟩⟩
  obtain ⟨hend, honce, -⟩ := callback_called_once hall {} (.ascending _)
  obtain ⟨t, ht⟩ := hend 4 (by simp [stepsWeight, Step.weight, callbackWeight?, callbackWeight])
  exact ⟨t, ht, fun p => ((honce 4 t ht).2 1 p).1⟩

end Session

end MqttLink
