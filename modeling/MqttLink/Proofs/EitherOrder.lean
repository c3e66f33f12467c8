import MqttLink.Proofs.Simulation
import MqttLink.Proofs.Unread

/-!
An operation and its acknowledgement, in either order. Main statement: whichever of them comes
first, the callback is called when the second one comes, and from there on nothing tells the two
orders apart but the journal.
-/

namespace MqttLink.Session

open Play

variable {α : Type} {s t u v : Session} {id : PacketId} {callback : Option Callback} {depth : Nat}
  {run : Runner}

theorem unwritten_withPast (s : Session) (past : List Occurrence) :
    (s.withPast past).unwritten = s.unwritten := rfl

theorem calls_withPast (s : Session) (past : List Occurrence) :
    (s.withPast past).calls = s.calls ++ past.filterMap (·.invocation?) :=
  List.filterMap_append

/-- What there is to see of a step: its answer, the session but for the journal, and all the calls
of callbacks so far. -/
def seen (found : Answer × Session) : Answer × Session × List Invocation :=
  (found.1, found.2.unwritten, found.2.calls)

/-- Sessions that differ in their journals alone, with the same calls in them, see the same of a
play that does not read the journal. -/
theorem map_seen_congr {x : Play Answer} (hx : Blind x) (h : t.unwritten = s.unwritten)
    (hcalls : t.calls = s.calls) : (x t).map seen = (x s).map seen := by
  have hview (w : Session) : (x w).map seen =
      (x w.unwritten).map fun found =>
        (found.1, found.2.unwritten, found.2.calls ++ w.calls) := by
    have hrun : x w = x (w.unwritten.withPast w.journal) := rfl
    rw [hrun, hx w.unwritten w.journal, Option.map_map]
    refine Option.map_congr fun found _ => ?_
    simp only [Function.comp_apply, seen, unwritten_withPast, calls_withPast]
    rfl
  rw [hview t, hview s, h, hcalls]

/-! ## What comes first -/

section

variable (run) (hs : s.owned) (hp : id ∉ s.ledger.pending)
include hs hp

/-- An operation that comes first waits. -/
theorem perform_track_of_absent (he : id ∉ s.ledger.early) (callback : Option Callback) :
    perform run (.track id callback) s =
      some (.done, (s.tracking id callback).noted (.waiting id)) := by
  have htrack := track_of_absent (s := { s with holders := s.holders + 1 }) run hp he callback
  have hanswer := bind_of_eq_some htrack fun r => pure (Answer.ofResult (r.mapError .fatal))
  exact (withLink_of_owned hs _).trans (holding_of_eq_some hanswer)

/-- An acknowledgement that comes first is remembered. -/
theorem perform_settle_of_absent :
    perform run (.settle id) s = some (.done, (s.settling id).noted (.deferred id)) := by
  have hsettle := settle_of_not_pending (s := { s with holders := s.holders + 1 }) run
    (Std.ExtTreeMap.getElem?_eq_none hp)
  have hanswer := bind_of_eq_some hsettle fun r => pure (Answer.ofResult (r.mapError .fatal))
  exact (withLink_of_owned hs _).trans (holding_of_eq_some hanswer)

end

/-! ## What comes second -/

/-- What is left to do of a step when an operation and its acknowledgement have met. -/
def meet (run : Runner) (id : PacketId) (callback : Option Callback) : Play Answer := do
  let answer ← answeringFatal (invoke? run id .completed callback)
  modify fun s => { s with holders := s.holders - 1 }
  return answer

theorem blind_meet (depth : Nat) (id : PacketId) (callback : Option Callback) :
    Blind (meet (performTo depth) id callback) :=
  blind_of_accords fun _ hT => accords_bind
    (accords_answeringFatal
      (hT.accord.accords_invoke? (hT.accords_performTo depth) id .completed callback))
    fun _ => accords_bind (accords_modify fun _ _ h => hT.accord.held h (· - 1)) fun _ =>
    accords_pure _

section

variable (run) (hs : s.owned)
include hs

theorem perform_settle_of_pending (h : s.ledger.pending[id]? = some callback) :
    perform run (.settle id) s = meet run id callback
      ((({ s with holders := s.holders + 1 } : Session).settling id).noted (.settled id)) := by
  have hsettle := settle_of_pending (s := { s with holders := s.holders + 1 }) run h
  have hlink : perform run (.settle id) s = holding (answeringFatal (settle run id)) s :=
    withLink_of_owned hs _
  rw [hlink, holding, bind_of_eq_some (modify_apply _), answeringFatal, bind_apply, bind_apply,
    hsettle]
  rfl

theorem perform_track_of_early (h : id ∈ s.ledger.early) (callback : Option Callback) :
    perform run (.track id callback) s = meet run id callback
      ((({ s with holders := s.holders + 1 } : Session).tracking id callback).noted
        (.foundAcknowledged id)) := by
  have htrack := track_of_mem_early (s := { s with holders := s.holders + 1 }) run h callback
  have hlink : perform run (.track id callback) s =
      holding (answeringFatal (track run id callback)) s := withLink_of_owned hs _
  rw [hlink, holding, bind_of_eq_some (modify_apply _), answeringFatal, bind_apply, bind_apply,
    htrack]
  rfl

end

/-- The callback is called before anything else is written down. -/
theorem calls_of_meet {answer : Answer} (h : meet (performTo depth) id callback s =
    some (answer, t)) : ∃ nested, t.calls = nested ++ (callOf id .completed callback ++ s.calls) ∧
      (callback = none → nested = []) := by
  obtain ⟨_, u, hu, h⟩ := bind_eq_some_iff.mp h
  obtain ⟨r, w, hw, hu⟩ := bind_eq_some_iff.mp hu
  cases hu
  cases h
  cases callback with
  | none =>
    cases hw
    exact ⟨[], rfl, fun _ => rfl⟩
  | some c =>
    obtain ⟨later, hlater⟩ := exists_later hw
    refine ⟨later.filterMap (·.invocation?), ?_, nofun⟩
    have hj := hlater c rfl
    simp only [calls, hj, List.filterMap_append, List.filterMap_cons]
    rfl

/-! ## Main statement -/

/-- Take any session whose link is held, any identifier that neither waits nor is remembered in it,
and any callback, whatever it does when it is called. An operation under this identifier comes
before or after its acknowledgement. What comes first is done without a call. What comes second
comes to its end in both orders or in neither, answers the same, and leaves the same session but for
the journal, with the same calls of callbacks in the same order: that of the operation is the first
of them, and was told that it is completed. It does come to its end if neither the callback nor
those that wait do more than work on the ledger or ask it. -/
theorem perform_either_order (hs : s.owned) (hp : id ∉ s.ledger.pending)
    (he : id ∉ s.ledger.early) (callback : Option Callback) (depth : Nat) :
    ∃ u v,
      performTo (depth + 1) (.track id callback) s = some (.done, u) ∧ u.calls = s.calls ∧
      performTo (depth + 1) (.settle id) s = some (.done, v) ∧ v.calls = s.calls ∧
      (performTo (depth + 1) (.settle id) u).map seen =
        (performTo (depth + 1) (.track id callback) v).map seen ∧
      (∀ answer t, performTo (depth + 1) (.settle id) u = some (answer, t) →
        ∃ nested, t.calls = nested ++ (callOf id .completed callback ++ s.calls) ∧
          (callback = none → nested = [])) ∧
      (s.ledger.All (·.Confined (·.aboutLedger)) →
        (∀ c, callback = some c → c.Confined (·.aboutLedger)) →
        s.ledger.weight + callbackWeight? callback ≤ depth →
        ∃ answer t, performTo (depth + 1) (.settle id) u = some (answer, t)) := by
  have hu := perform_track_of_absent (performTo depth) hs hp he callback
  have hv := perform_settle_of_absent (performTo depth) hs hp
  generalize hsu : (s.tracking id callback).noted (.waiting id) = u at hu
  generalize hsv : (s.settling id).noted (.deferred id) = v at hv
  have hledger : u.ledger = (s.ledger.track id callback).2 := by rw [← hsu]; rfl
  have howned : u.owned = s.owned := by rw [← hsu]; rfl
  have hwaits : u.ledger.pending[id]? = some callback := by
    rw [hledger, Ledger.getElem?_track, if_pos ⟨rfl, he⟩]
  have hearly : id ∈ v.ledger.early := by
    rw [← hsv]
    exact (Ledger.mem_early_settle ..).mpr (.inr ⟨rfl, hp⟩)
  have hsecond : performTo (depth + 1) (.settle id) u = _ :=
    perform_settle_of_pending (performTo depth) (howned.trans hs) hwaits
  have hsecond' : performTo (depth + 1) (.track id callback) v = _ :=
    perform_track_of_early (performTo depth) (by rw [← hsv]; exact hs) hearly callback
  refine ⟨u, v, hu, by rw [← hsu]; rfl, hv, by rw [← hsv]; rfl, ?_, fun answer t ht => ?_,
    fun hwaiting hc hw => ?_⟩
  · rw [hsecond, hsecond']
    refine map_seen_congr (blind_meet depth id callback) ?_ ?_
    · -- in either order the ledger is left as it was, and so is all else
      have hsame : ((s.ledger.track id callback).2.settle id).2 =
          ((s.ledger.settle id).2.track id callback).2 :=
        (Ledger.settle_track hp he callback).trans (Ledger.track_settle hp he callback).symm
      rw [← hsu, ← hsv]
      exact congrArg (fun l =>
        ({ s with holders := s.holders + 1, ledger := l, journal := [] } : Session)) hsame
    · rw [← hsu, ← hsv]
      rfl
  · rw [hsecond] at ht
    obtain ⟨nested, hnested, hnone⟩ := calls_of_meet ht
    refine ⟨nested, hnested.trans ?_, hnone⟩
    rw [← hsu]
    rfl
  · have hready : u.Ready := by
      refine ⟨howned.trans hs, ?_⟩
      rw [hledger]
      exact Ledger.all_track hwaiting id hc
    have hweight : u.ledger.weight + (Step.settle id).weight < depth + 1 := by
      have hle := Ledger.weight_track_le s.ledger id callback
      rw [hledger, Step.weight_settle]
      omega
    obtain ⟨answer, t, ht, -⟩ :=
      obliging_performTo (depth + 1) (.intro (.settle id) rfl nofun) hready hweight
    exact ⟨answer, t, ht⟩

/-- A callback that hands over an operation under its own identifier, acknowledges it, abandons all
the others, and fails. -/
def meddling : Callback :=
  ⟨"meddler", [.track 1 (some ⟨"again", [], .ok (), true⟩), .settle 1, .abandon],
    .error (.fatal ⟨"stop"⟩), true⟩

theorem confined_meddling : meddling.Confined (·.aboutLedger) := by
  have hagain : (Step.track 1 (some ⟨"again", [], .ok (), true⟩)).All (·.aboutLedger) :=
    .intro _ rfl fun c hc n hn => by cases hc; cases hn
  exact List.forall_mem_cons.mpr ⟨hagain, List.forall_mem_cons.mpr
    ⟨.intro _ rfl nofun, List.forall_mem_singleton.mpr (.intro _ rfl nofun)⟩⟩

/-- The meddling callback is called first, and the two orders end alike. -/
theorem perform_either_order_meddling : ∃ u v answer t nested,
    performTo 3 (.track 1 (some meddling)) (opened {} (.ascending _)) = some (.done, u) ∧
    performTo 3 (.settle 1) (opened {} (.ascending _)) = some (.done, v) ∧
    performTo 3 (.settle 1) u = some (answer, t) ∧
    (performTo 3 (.track 1 (some meddling)) v).map seen =
      some (answer, t.unwritten, t.calls) ∧
    t.calls = nested ++ [⟨1, meddling, .completed⟩] := by
  have hempty : (1 : PacketId) ∉ (opened {} (.ascending _)).ledger.pending ∧
      1 ∉ (opened {} (.ascending _)).ledger.early := by
    simp [opened, attached]
  have hweight :
      (opened {} (.ascending _)).ledger.weight + callbackWeight? (some meddling) ≤ 2 := by
    have hnone : (opened {} (.ascending _)).ledger.weight = 0 := Ledger.weight_empty
    simp [hnone, meddling, callbackWeight?, callbackWeight, stepsWeight, Step.weight]
  obtain ⟨u, v, hu, -, hv, -, hsame, hcalls, hends⟩ :=
    perform_either_order rfl hempty.1 hempty.2 (some meddling) 2
  obtain ⟨answer, t, ht⟩ := hends Ledger.all_empty
    (fun c hc => Option.some.inj hc ▸ confined_meddling) hweight
  obtain ⟨nested, hnested, -⟩ := hcalls answer t ht
  refine ⟨u, v, answer, t, nested, hu, hv, ht, ?_, hnested⟩
  rw [← hsame, ht]
  rfl

end MqttLink.Session
