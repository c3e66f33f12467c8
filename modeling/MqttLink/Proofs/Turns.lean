import MqttLink.Proofs.Overlap

/-!
Operations side by side that take turns with their identifiers: none is acknowledged or tracked
while another one with its identifier has been acknowledged and is still to be tracked. Main
statement: all callbacks are called, and none before its operation is acknowledged, just when the
operations take turns. Acknowledgements that come first are remembered without a count, so that of
two with one identifier one is lost.
-/

namespace MqttLink

namespace Session

open Play

variable {n : Nat} {run : Runner} {op : Fin n → Errand} {done : List (Fin n × Part)}
  {ids ids' : Fin n → Option PacketId} {i : Fin n} {s t : Session} {id : PacketId} {lost : Nat}

/-- Operation `i` has been acknowledged and is still to be tracked. -/
def Ahead (done : List (Fin n × Part)) (i : Fin n) : Prop :=
  (i, .acknowledge) ∈ done ∧ (i, .track) ∉ done

instance : Decidable (Ahead done i) := inferInstanceAs (Decidable (_ ∧ _))

/-- No other operation with the identifier of `i` is ahead. -/
def Clear (done : List (Fin n × Part)) (ids : Fin n → Option PacketId) (i : Fin n) : Prop :=
  ∀ j, j ≠ i → ids j = ids i → ¬ Ahead done j

/-! ## While they take turns -/

/-- What stands of the operations after the parts in `done`, when they took turns. -/
structure Timely (op : Fin n → Errand) (done : List (Fin n × Part))
    (ids : Fin n → Option PacketId) (s : Session) : Prop where
  apart : s.ledger.Apart
  waits : ∀ i id, ids i = some id → (i, .track) ∈ done → (i, .acknowledge) ∉ done →
    s.ledger.pending[id]? = some (some (op i).callback)
  waiting : ∀ id ∈ s.ledger.pending, ∃ i, ids i = some id ∧ (i, .track) ∈ done ∧
    (i, .acknowledge) ∉ done
  early : ∀ id, id ∈ s.ledger.early ↔ ∃ i, ids i = some id ∧ Ahead done i
  single : ∀ i j, ids i = ids j → Ahead done i → Ahead done j → i = j
  called : ∀ i, (op i).callback ∈ s.calls.map (·.callback) ↔
    (i, .acknowledge) ∈ done ∧ (i, .track) ∈ done

theorem timely_opened (op : Fin n → Errand) (settings : Settings)
    (order : VisitOrder Callback) : Timely op [] (fun _ => none) (opened settings order) where
  apart := fun id h => by simp [opened, attached] at h
  waits := nofun
  waiting := fun id h => by simp [opened, attached] at h
  early id := by simp [opened, attached]
  single _ _ _ h := absurd h.1 (List.not_mem_nil)
  called i := by
    constructor
    · exact fun h => absurd h List.not_mem_nil
    · exact fun h => absurd h.1 List.not_mem_nil

/-! ### One part more -/

theorem ahead_issue {j : Fin n} : Ahead (done ++ [(i, .issue)]) j ↔ Ahead done j := by
  simp [Ahead]

theorem ahead_acknowledge {j : Fin n} : Ahead (done ++ [(i, .acknowledge)]) j ↔
    Ahead done j ∨ j = i ∧ (i, .track) ∉ done := by
  simp only [Ahead, mem_concat_iff, reduceCtorEq, and_true, and_false, or_false, or_and_right]
  exact or_congr_right (and_congr_right fun hj => by rw [hj])

theorem ahead_track {j : Fin n} :
    Ahead (done ++ [(i, .track)]) j ↔ Ahead done j ∧ j ≠ i := by
  simp only [Ahead, mem_concat_iff, reduceCtorEq, and_true, and_false, or_false, not_or, and_assoc]

/-- An operation waits if it has been tracked and not acknowledged yet. -/
theorem mem_pending_of_timely (hs : Timely op done ids s) (hlent : Lent done ids s)
    (hid : ids i = some id) (hi : (i, .acknowledge) ∉ done) :
    id ∈ s.ledger.pending ↔ (i, .track) ∈ done := by
  constructor
  · intro hp
    obtain ⟨j, hj, hm, hnot⟩ := hs.waiting id hp
    exact hlent.distinct j i id hj hid hnot hi ▸ hm
  · intro hm
    exact Std.ExtTreeMap.mem_iff_isSome_getElem?.mpr (by rw [hs.waits i id hid hm hi]; rfl)

/-- What is remembered for an operation is its own acknowledgement. -/
theorem mem_early_of_timely (hs : Timely op done ids s) (hid : ids i = some id)
    (hi : (i, .track) ∉ done) (hclear : Clear done ids i) :
    id ∈ s.ledger.early ↔ (i, .acknowledge) ∈ done := by
  rw [hs.early]
  constructor
  · rintro ⟨j, hj, hm⟩
    by_contra hnot
    refine hclear j ?_ (hj.trans hid.symm) hm
    rintro rfl
    exact hnot hm.1
  · exact fun hm => ⟨i, hid, hm, hi⟩

/-- An acknowledgement calls the callback of its own operation, if that waits. -/
theorem mem_calls_acknowledge (hown : Function.Injective fun i => (op i).callback)
    (hs : Timely op done ids s) (hlent : Lent done ids s) (hid : ids i = some id)
    (hi : (i, .acknowledge) ∉ done) {j : Fin n} :
    (op j).callback ∈ (s.ledger.pending[id]?.elim [] (callOf id .completed)).map (·.callback) ↔
      j = i ∧ (i, .track) ∈ done := by
  by_cases hm : (i, .track) ∈ done
  · rw [hs.waits i id hid hm hi]
    simp [callOf, hown.eq_iff (a := j), hm]
  · rw [Std.ExtTreeMap.getElem?_eq_none (mt (mem_pending_of_timely hs hlent hid hi).mp hm)]
    simp [hm]

/-- An operation that is tracked calls its callback, if it has been acknowledged. -/
theorem mem_calls_track (hown : Function.Injective fun i => (op i).callback)
    (hs : Timely op done ids s) (hid : ids i = some id) (hi : (i, .track) ∉ done)
    (hclear : Clear done ids i) {j : Fin n} :
    (op j).callback ∈ (if id ∈ s.ledger.early then [(op i).completion id] else []).map
      (·.callback) ↔ j = i ∧ (i, .acknowledge) ∈ done := by
  by_cases hm : (i, .acknowledge) ∈ done
  · rw [if_pos ((mem_early_of_timely hs hid hi hclear).mpr hm)]
    simp [Errand.completion, hown.eq_iff (a := j), hm]
  · rw [if_neg (mt (mem_early_of_timely hs hid hi hclear).mp hm)]
    simp [hm]

theorem timely_issue {q : PacketId.Pool} (hs : Timely op done ids s)
    (hi : ∀ part, (i, part) ∉ done) (ht : Moved q s.ledger [] s t) :
    Timely op (done ++ [(i, .issue)]) (Function.update ids i (some id)) t := by
  have hack (j : Fin n) : (j, Part.acknowledge) ∈ done ++ [(i, .issue)] ↔
      (j, .acknowledge) ∈ done := by simp
  have htrack (j : Fin n) : (j, Part.track) ∈ done ++ [(i, .issue)] ↔ (j, .track) ∈ done := by simp
  have hids {j : Fin n} {part : Part} (hj : (j, part) ∈ done) :
      Function.update ids i (some id) j = ids j := by
    refine Function.update_of_ne ?_ _ _
    rintro rfl
    exact hi part hj
  have hcalls : t.calls = s.calls := ht.calls
  refine ⟨by rw [ht.ledger]; exact hs.apart, fun j k hj hm hn => ?_, fun k hk => ?_, fun k => ?_,
    fun j j' hjj' hj hj' => ?_, fun j => ?_⟩
  · rw [htrack] at hm
    rw [hack] at hn
    rw [hids hm] at hj
    rw [ht.ledger]
    exact hs.waits j k hj hm hn
  · rw [ht.ledger] at hk
    obtain ⟨j, hj, hm, hn⟩ := hs.waiting k hk
    exact ⟨j, (hids hm).trans hj, (htrack j).mpr hm, mt (hack j).mp hn⟩
  · rw [ht.ledger, hs.early]
    simp only [ahead_issue]
    refine exists_congr fun j => and_congr_left fun hj => ?_
    rw [hids hj.1]
  · rw [ahead_issue] at hj hj'
    rw [hids hj.1, hids hj'.1] at hjj'
    exact hs.single j j' hjj' hj hj'
  · rw [hcalls, hs.called, hack, htrack]

theorem timely_acknowledge (hown : Function.Injective fun i => (op i).callback)
    (hs : Timely op done ids s) (hlent : Lent done ids s) (hid : ids i = some id)
    (hi : (i, .acknowledge) ∉ done) (hclear : Clear done ids i)
    (ht : Moved (s.client.pool.reclaim id) (s.ledger.settle id).2
      (s.ledger.pending[id]?.elim [] (callOf id .completed)) s t) :
    Timely op (done ++ [(i, .acknowledge)]) ids t := by
  have hack (j : Fin n) : (j, Part.acknowledge) ∈ done ++ [(i, .acknowledge)] ↔
      (j, .acknowledge) ∈ done ∨ j = i := by simp
  have htrack (j : Fin n) : (j, Part.track) ∈ done ++ [(i, .acknowledge)] ↔
      (j, .track) ∈ done := by simp
  refine ⟨by rw [ht.ledger]; exact Ledger.apart_settle hs.apart id, fun j k hj hm hnot => ?_,
    fun k hk => ?_, fun k => ?_, fun j j' hjj' hj hj' => ?_, fun j => ?_⟩
  · rw [hack, not_or] at hnot
    rw [htrack] at hm
    have hne : k ≠ id := by
      rintro rfl
      exact hnot.2 (hlent.distinct j i k hj hid hnot.1 hi)
    rw [ht.ledger, Ledger.getElem?_settle, if_neg hne]
    exact hs.waits j k hj hm hnot.1
  · rw [ht.ledger, Ledger.mem_pending_settle] at hk
    obtain ⟨j, hj, hm, hnot⟩ := hs.waiting k hk.2
    refine ⟨j, hj, (htrack j).mpr hm, fun h => ?_⟩
    rcases (hack j).mp h with h | rfl
    · exact hnot h
    · exact hk.1 (Option.some.inj (hj.symm.trans hid))
  · rw [ht.ledger, Ledger.mem_early_settle, hs.early, mem_pending_of_timely hs hlent hid hi]
    simp only [ahead_acknowledge]
    constructor
    · rintro (⟨j, hj, hm⟩ | ⟨rfl, hm⟩)
      · exact ⟨j, hj, .inl hm⟩
      · exact ⟨i, hid, .inr ⟨rfl, hm⟩⟩
    · rintro ⟨j, hj, hm | ⟨rfl, hm⟩⟩
      · exact .inl ⟨j, hj, hm⟩
      · exact .inr ⟨Option.some.inj (hj.symm.trans hid), hm⟩
  · rcases ahead_acknowledge.mp hj with hold | ⟨hji, -⟩ <;>
      rcases ahead_acknowledge.mp hj' with hold' | ⟨hji', -⟩
    · exact hs.single j j' hjj' hold hold'
    · by_contra hne
      exact hclear j (hji' ▸ hne) (hji' ▸ hjj') hold
    · by_contra hne
      exact hclear j' (hji ▸ Ne.symm hne) (hji ▸ hjj'.symm) hold'
    · rw [hji, hji']
  · rw [ht.calls, List.map_append, List.mem_append, mem_calls_acknowledge hown hs hlent hid hi,
      hs.called, hack, htrack, or_and_right, or_comm]
    exact or_congr_right (and_congr_right fun hj => by rw [hj])

theorem timely_track (hown : Function.Injective fun i => (op i).callback)
    (hs : Timely op done ids s) (hlent : Lent done ids s) (hid : ids i = some id)
    (hi : (i, .track) ∉ done) (hclear : Clear done ids i)
    (ht : Moved s.client.pool (s.ledger.track id (some (op i).callback)).2
      (if id ∈ s.ledger.early then [(op i).completion id] else []) s t) :
    Timely op (done ++ [(i, .track)]) ids t := by
  have hack (j : Fin n) : (j, Part.acknowledge) ∈ done ++ [(i, .track)] ↔
      (j, .acknowledge) ∈ done := by simp
  have htrack (j : Fin n) : (j, Part.track) ∈ done ++ [(i, .track)] ↔
      (j, .track) ∈ done ∨ j = i := by simp
  have hearly := mem_early_of_timely hs hid hi hclear
  refine ⟨by rw [ht.ledger]; exact Ledger.apart_track hs.apart id _, fun j k hj hm hnot => ?_,
    fun k hk => ?_, fun k => ?_, fun j j' hjj' hj hj' => ?_, fun j => ?_⟩
  · rw [hack] at hnot
    rw [ht.ledger, Ledger.getElem?_track]
    rcases (htrack j).mp hm with hm | hji
    · split
      next hk =>
        have hji : j = i := hlent.distinct j i id (by rw [hj, hk.1]) hid hnot (mt hearly.mpr hk.2)
        rw [hji]
      next => exact hs.waits j k hj hm hnot
    · subst hji
      rw [if_pos ⟨Option.some.inj (hj.symm.trans hid), mt hearly.mp hnot⟩]
  · rw [ht.ledger, Ledger.mem_pending_track, hearly] at hk
    rcases hk with ⟨rfl, hnot⟩ | hk
    · exact ⟨i, hid, (htrack i).mpr (.inr rfl), mt (hack i).mp hnot⟩
    · obtain ⟨j, hj, hm, hnot⟩ := hs.waiting k hk
      exact ⟨j, hj, (htrack j).mpr (.inl hm), mt (hack j).mp hnot⟩
  · rw [ht.ledger, Ledger.mem_early_track, hs.early]
    simp only [ahead_track]
    constructor
    · rintro ⟨hne, j, hj, hm⟩
      refine ⟨j, hj, hm, ?_⟩
      rintro rfl
      exact hne (Option.some.inj (hj.symm.trans hid))
    · rintro ⟨j, hj, hm, hji⟩
      refine ⟨?_, j, hj, hm⟩
      rintro rfl
      exact hclear j hji (hj.trans hid.symm) hm
  · exact hs.single j j' hjj' (ahead_track.mp hj).1 (ahead_track.mp hj').1
  · rw [ht.calls, List.map_append, List.mem_append, mem_calls_track hown hs hid hi hclear,
      hs.called, hack, htrack, and_or_left, or_comm, and_comm (a := j = i)]
    exact or_congr_right (and_congr_left fun hj => by rw [hj])

theorem timely_of_goes (hown : Function.Injective fun i => (op i).callback)
    (hs : Timely op done ids s) (hlent : Lent done ids s) {part : Part} (hpart : (i, part) ∉ done)
    (hissued : ∀ p, (i, p) ∈ done → (i, .issue) ∈ done) (hclear : part ≠ .issue → Clear done ids i)
    (h : Goes op i ids s part ids' t) : Timely op (done ++ [(i, part)]) ids' t := by
  cases h with
  | issue id q _ _ moved => exact timely_issue hs (fun p hp => hpart (hissued p hp)) moved
  | acknowledge id _ given moved =>
    exact timely_acknowledge hown hs hlent given hpart (hclear nofun) moved
  | track id _ given moved => exact timely_track hown hs hlent given hpart (hclear nofun) moved

/-! ## An acknowledgement that is lost -/

/-- An acknowledgement is of no use when another one is remembered under its identifier. -/
theorem beside_lost (hbeside : Beside op lost (done ++ [(i, .acknowledge)]) ids t)
    (hs : Beside op lost done ids s) (hp : s.ledger.pending[id]? = none) (he : id ∈ s.ledger.early)
    (ht : Moved (s.client.pool.reclaim id) (s.ledger.settle id).2
      (s.ledger.pending[id]?.elim [] (callOf id .completed)) s t) :
    Beside op (lost + 1) (done ++ [(i, .acknowledge)]) ids t := by
  refine { hbeside with sparing := ?_ }
  have hcalls : t.calls = s.calls := by
    rw [ht.calls, hp]
    rfl
  have hearly : t.ledger.early = s.ledger.early := by
    refine Std.ExtTreeSet.ext_mem fun k => ?_
    rw [ht.ledger, Ledger.mem_early_settle]
    constructor
    · rintro (hk | ⟨rfl, -⟩)
      · exact hk
      · exact he
    · exact .inl
  have hacks : (done ++ [(i, Part.acknowledge)]).countP (·.2 = .acknowledge) =
      done.countP (·.2 = .acknowledge) + 1 := by simp
  have := hs.sparing
  rw [hcalls, hearly, hacks]
  omega

theorem countP_acknowledge_le {moves : List (Fin n × Part)} (h : moves.Nodup) :
    moves.countP (·.2 = .acknowledge) ≤ n := by
  rw [List.countP_eq_length_filter, ← List.length_map (·.1)]
  refine (List.Nodup.length_le_card (List.Nodup.map_on ?_ (h.filter _))).trans_eq
    (Fintype.card_fin n)
  intro move hmove move' hmove' heq
  have hpart := (List.mem_filter.mp hmove).2
  have hpart' := (List.mem_filter.mp hmove').2
  exact Prod.ext heq ((of_decide_eq_true hpart).trans (of_decide_eq_true hpart').symm)

/-- After a loss there are fewer calls than operations. -/
theorem exists_not_called (hown : Function.Injective fun i => (op i).callback) (hdone : done.Nodup)
    (hs : Beside op (lost + 1) done ids s) :
    ∃ i, (op i).callback ∉ s.calls.map (·.callback) := by
  by_contra hall
  have hall : ∀ i, (op i).callback ∈ s.calls.map (·.callback) := fun i => by_contra fun hi =>
    hall ⟨i, hi⟩
  have hcard : n ≤ s.calls.length := by
    have hsub : (List.ofFn fun i => (op i).callback) ⊆ s.calls.map (·.callback) := by
      intro c hc
      obtain ⟨i, rfl⟩ := List.mem_ofFn.mp hc
      exact hall i
    have hle := ((List.nodup_ofFn.mpr hown).subperm hsub).length_le
    rwa [List.length_ofFn, List.length_map] at hle
  have := hs.sparing
  have := countP_acknowledge_le hdone
  omega

/-! ## Runs -/

section

variable (run op) (moves : List (Fin n × Part)) (settings : Settings)
  (order : VisitOrder Callback)

/-- The part in place `k` issues an identifier, or comes when no other operation with the same
identifier is ahead. -/
def InTurn (k : Nat) : Prop :=
  ∀ (h : k < moves.length) ids s, Reaches run op moves settings order k ids s →
    moves[k].2 ≠ .issue → Clear (moves.take k) ids moves[k].1

/-- All callbacks are called in the end, and none before its operation is acknowledged. -/
structure AllCompleted : Prop where
  called : ∀ ids s, Reaches run op moves settings order moves.length ids s →
    ∀ i, (op i).callback ∈ s.calls.map (·.callback)
  notBefore : ∀ k ≤ moves.length, ∀ ids s, Reaches run op moves settings order k ids s →
    ∀ i, (op i).callback ∈ s.calls.map (·.callback) → (i, .acknowledge) ∈ moves.take k

end

section

variable {moves : List (Fin n × Part)} {settings : Settings} {order : VisitOrder Callback}
  (hrun : Serving run) (hinert : ∀ i, (op i).callback.Inert)
  (hown : Function.Injective fun i => (op i).callback) (hn : n ≤ 65535) (h : Interleaved moves)
  {k : Nat}
include hrun hinert hown hn h

theorem beside_of_reaches (hk : k ≤ moves.length)
    (hr : Reaches run op moves settings order k ids s) :
    Beside op 0 (moves.take k) ids s := by
  obtain ⟨_, _, hr', hbeside⟩ := exists_reaches hrun hinert hown hn h settings order hk
  obtain ⟨rfl, rfl⟩ := reaches_unique hr hr'
  exact hbeside

theorem timely_of_reaches (hturns : ∀ j < k, InTurn run op moves settings order j)
    (hk : k ≤ moves.length) (hr : Reaches run op moves settings order k ids s) :
    Timely op (moves.take k) ids s := by
  induction k generalizing ids s with
  | zero =>
    obtain ⟨rfl, rfl⟩ := reaches_unique hr reaches_zero
    exact timely_opened op settings order
  | succ k ih =>
    obtain ⟨ids₁, u, hu, hbeside⟩ := exists_reaches hrun hinert hown hn h settings order
      (Nat.le_of_succ_le hk)
    obtain ⟨ids₂, t, ht, hgoes, -⟩ := reaches_succ hrun hinert hown hn h hk hu hbeside
    obtain ⟨rfl, rfl⟩ := reaches_unique hr ht
    have htimely := ih (fun j hj => hturns j (by omega)) (Nat.le_of_succ_le hk) hu
    have hnew : (moves[k].1, moves[k].2) ∉ moves.take k := h.getElem_notMem_take hk
    have htake : moves.take k ++ [(moves[k].1, moves[k].2)] = moves.take (k + 1) :=
      List.take_append_getElem hk
    rw [← htake]
    exact timely_of_goes hown htimely hbeside.toLent hnew (fun _ => h.issue_mem_take)
      (hturns k (by omega) hk _ _ hu) hgoes

/-- The first part that is out of turn leads to a call that is too early, or to one that is never
made. -/
theorem inTurn_of_allCompleted (hall : AllCompleted run op moves settings order)
    (hturns : ∀ j < k, InTurn run op moves settings order j) :
    InTurn run op moves settings order k := by
  intro hk ids s hr hpart j hji hids hahead
  have hbeside := beside_of_reaches hrun hinert hown hn h hk.le hr
  have htimely := timely_of_reaches hrun hinert hown hn h hturns hk.le hr
  have hnew : (moves[k].1, moves[k].2) ∉ moves.take k := h.getElem_notMem_take hk
  have htake : moves.take k ++ [(moves[k].1, moves[k].2)] = moves.take (k + 1) :=
    List.take_append_getElem hk
  obtain ⟨ids', t, ht, hgoes, hnext⟩ := reaches_succ hrun hinert hown hn h hk hr hbeside
  have hcalled := hall.notBefore (k + 1) hk ids' t ht moves[k].1
  rw [← htake] at hnext hcalled
  generalize moves[k].1 = i at *
  generalize moves[k].2 = part at *
  cases hgoes with
  | issue => exact hpart rfl
  | acknowledge id _ given moved =>
    have hearly : id ∈ s.ledger.early := (htimely.early id).mpr ⟨j, hids.trans given, hahead⟩
    have hnone : s.ledger.pending[id]? = none :=
      Std.ExtTreeMap.getElem?_eq_none fun hp => htimely.apart id hp hearly
    have hlost := beside_lost hnext hbeside hnone hearly moved
    rw [htake] at hlost
    obtain ⟨ids₂, u, hu, hlost⟩ := reaches_of_le hrun hinert hown hn h ht hlost hk (Nat.le_refl _)
    obtain ⟨w, hw⟩ := exists_not_called hown (by rw [List.take_length]; exact h.once) hlost
    exact hw (hall.called ids₂ u hu w)
  | track id _ given moved =>
    have hearly : id ∈ s.ledger.early := (htimely.early id).mpr ⟨j, hids.trans given, hahead⟩
    have hmem : (op i).callback ∈ t.calls.map (·.callback) := by
      rw [moved.calls, if_pos hearly]
      exact List.mem_cons_self ..
    have hack : (i, .acknowledge) ∈ moves.take k := by simpa using hcalled hmem
    exact hji (htimely.single j i hids hahead ⟨hack, hnew⟩)

end

/-- When at most 65535 operations with callbacks of their own run side by side, each part comes to
its end, no callback is called twice, each one only as completed and under an identifier of its own
operation, and in the end nothing is on loan. All callbacks are called, and none before its
operation is acknowledged, just when the operations take turns with their identifiers, and then
nothing waits or is remembered in the end. -/
theorem calls_of_interleaved {moves : List (Fin n × Part)} (hn : n ≤ 65535)
    (hinert : ∀ i, (op i).callback.Inert) (hown : Function.Injective fun i => (op i).callback)
    (h : Interleaved moves) (depth : Nat) (settings : Settings) (order : VisitOrder Callback) :
    (∀ k ≤ moves.length, ∃ ids s,
      Reaches (performTo (depth + 1)) op moves settings order k ids s ∧
      (s.calls.map (·.callback)).Nodup ∧
      (∀ call ∈ s.calls, ∃ i, ids i = some call.id ∧ call = (op i).completion call.id) ∧
      (k = moves.length → ∀ id, ¬ s.client.pool.onLoan id)) ∧
    ((∀ k, InTurn (performTo (depth + 1)) op moves settings order k) ↔
      AllCompleted (performTo (depth + 1)) op moves settings order) ∧
    ((∀ k, InTurn (performTo (depth + 1)) op moves settings order k) →
      ∀ ids s, Reaches (performTo (depth + 1)) op moves settings order moves.length ids s →
        s.ledger.pending = ∅ ∧ s.ledger.early = ∅) := by
  have hrun := serving_performTo depth
  have hmem (i : Fin n) (part : Part) : (i, part) ∈ moves.take moves.length := by
    rw [List.take_length]
    exact h.all _
  refine ⟨fun k hk => ?_, ⟨fun hturns => ⟨fun ids s hr i => ?_, fun k hk ids s hr i hi => ?_⟩,
    fun hall k => ?_⟩, fun hturns ids s hr => ?_⟩
  · obtain ⟨ids, s, hr, hbeside⟩ := exists_reaches hrun hinert hown hn h settings order hk
    refine ⟨ids, s, hr, hbeside.once, fun call hcall => ?_, ?_⟩
    · obtain ⟨i, hi, -, heq⟩ := hbeside.called call hcall
      exact ⟨i, hi, heq⟩
    · rintro rfl id hid
      obtain ⟨i, -, hnot⟩ := (hbeside.onLoan id).mp hid
      exact hnot (hmem i _)
  · have htimely := timely_of_reaches hrun hinert hown hn h (fun j _ => hturns j) (Nat.le_refl _)
      hr
    exact (htimely.called i).mpr ⟨hmem i _, hmem i _⟩
  · have htimely := timely_of_reaches hrun hinert hown hn h (fun j _ => hturns j) hk hr
    exact ((htimely.called i).mp hi).1
  · induction k using Nat.strong_induction_on with
    | _ k ih => exact inTurn_of_allCompleted hrun hinert hown hn h hall ih
  · have htimely := timely_of_reaches hrun hinert hown hn h (fun j _ => hturns j) (Nat.le_refl _)
      hr
    refine ⟨Std.ExtTreeMap.ext_getElem? fun id => ?_, Std.ExtTreeSet.ext_mem fun id => ?_⟩
    · rw [Std.ExtTreeMap.getElem?_empty]
      refine Std.ExtTreeMap.getElem?_eq_none fun hid => ?_
      obtain ⟨i, -, -, hnot⟩ := htimely.waiting id hid
      exact hnot (hmem i _)
    · constructor
      · intro hid
        obtain ⟨i, -, hahead⟩ := (htimely.early id).mp hid
        exact absurd (hmem i _) hahead.2
      · exact fun hid => absurd hid Std.ExtTreeSet.not_mem_empty

/-! ## Two operations -/

/-- Two operations that differ in the labels of their callbacks. -/
def pair (i : Fin 2) : Errand :=
  ⟨.unsubscribe "t", ⟨if i = 0 then "first" else "second", [], .ok (), true⟩⟩

theorem inert_pair (i : Fin 2) : (pair i).callback.Inert :=
  List.forall_mem_nil _

theorem injective_pair : Function.Injective fun i => (pair i).callback := by
  intro i j h
  have hlabel : (pair i).callback.label = (pair j).callback.label := congrArg _ h
  clear h
  revert i j
  decide

/-- The second operation begins when the first one has come to its end. -/
def oneByOne : List (Fin 2 × Part) :=
  [(0, .issue), (0, .acknowledge), (0, .track), (1, .issue), (1, .track), (1, .acknowledge)]

/-- Both operations are acknowledged, one after the other, before they are tracked. -/
def bothAhead : List (Fin 2 × Part) :=
  [(0, .issue), (0, .acknowledge), (1, .issue), (1, .acknowledge), (0, .track), (1, .track)]

theorem interleaved_oneByOne : Interleaved oneByOne where
  once := by decide
  all := by
    rintro ⟨i, part⟩
    cases part <;> revert i <;> decide
  issued := by decide

theorem interleaved_bothAhead : Interleaved bothAhead where
  once := by decide
  all := by
    rintro ⟨i, part⟩
    cases part <;> revert i <;> decide
  issued := by decide

theorem calls_of_interleaved_oneByOne :
    ∃ ids s, Reaches (performTo 1) pair oneByOne {} (.ascending _) 6 ids s ∧
      (∀ i, (pair i).callback ∈ s.calls.map (·.callback)) ∧ s.ledger.pending = ∅ := by
  have hclear : ∀ k (h : k < oneByOne.length), ∀ j, j ≠ oneByOne[k].1 →
      ¬ Ahead (oneByOne.take k) j := by decide
  have hturns (k : Nat) : InTurn (performTo 1) pair oneByOne {} (.ascending _) k :=
    fun hk _ _ _ _ j hj _ => hclear k hk j hj
  obtain ⟨hreaches, hiff, hempty⟩ := calls_of_interleaved (n := 2) (by decide) inert_pair
    injective_pair interleaved_oneByOne 0 {} (.ascending _)
  obtain ⟨ids, s, hr, -⟩ := hreaches 6 (Nat.le_refl 6)
  exact ⟨ids, s, hr, (hiff.mp hturns).called ids s hr, (hempty hturns ids s hr).1⟩

section

variable {part : Part} {rest : List (Fin n × Part)}

theorem takeParts_cons (h : takePart run op ids i part s = some (ids', t)) :
    takeParts run op ids ((i, part) :: rest) s = takeParts run op ids' rest t :=
  bind_of_eq_some h _

theorem takePart_issue_of_fresh (hq : s.client.queuedIds = []) (hp : s.client.pool = .fresh) :
    takePart run op ids i .issue s = some (Function.update ids i (some 1),
      { s with client := { s.client with pool := ⟨1, ∅⟩ } }) := by
  have hgive : giveId s = some (some 1, { s with client := { s.client with pool := ⟨1, ∅⟩ } }) := by
    rw [giveId, onClient_apply, takeId_of_queuedIds hq, hp, lend_fresh]
    rfl
  exact bind_of_eq_some hgive _

end

/-- Both operations are given identifier 1, and it is remembered once that it is acknowledged. -/
theorem reaches_bothAhead :
    ∃ ids s, Reaches (performTo 1) pair bothAhead {} (.ascending _) 3 ids s ∧
      ids 1 = some 1 ∧ s.ledger = (({} : Ledger Callback).settle 1).2 := by
  have hfirst : takeParts (performTo 1) pair (fun _ => none) (bothAhead.take 3)
      (opened {} (.ascending _)) = takeParts (performTo 1) pair _ (bothAhead.extract 1 3) _ :=
    takeParts_cons (takePart_issue_of_fresh rfl rfl)
  have hsecond := hfirst.trans (takeParts_cons rfl)
  have hthird := hsecond.trans (takeParts_cons (takePart_issue_of_fresh rfl rfl))
  exact ⟨_, _, hthird, rfl, rfl⟩

/-- Of two acknowledgements that come first one is lost, and with it a call. -/
theorem not_called_of_bothAhead : Interleaved bothAhead ∧ (∀ i, (pair i).callback.Inert) ∧
    (Function.Injective fun i => (pair i).callback) ∧
    ∃ ids s, Reaches (performTo 1) pair bothAhead {} (.ascending _) bothAhead.length ids s ∧
      ∃ i, (pair i).callback ∉ s.calls.map (·.callback) := by
  refine ⟨interleaved_bothAhead, inert_pair, injective_pair, ?_⟩
  have hrun := serving_performTo 0
  have hn : 2 ≤ 65535 := by decide
  obtain ⟨ids, s, hr, hids, hledger⟩ := reaches_bothAhead
  have hbeside := beside_of_reaches hrun inert_pair injective_pair hn interleaved_bothAhead
    (k := 3) (by decide) hr
  obtain ⟨ids', t, ht, hgoes, hnext⟩ := reaches_succ hrun inert_pair injective_pair hn
    interleaved_bothAhead (k := 3) (by decide) hr hbeside
  have hgoes : Goes pair 1 ids s .acknowledge ids' t := hgoes
  cases hgoes with
  | acknowledge id _ given moved =>
    obtain rfl : id = 1 := Option.some.inj (given.symm.trans hids)
    have hnone : s.ledger.pending[(1 : PacketId)]? = none := by
      rw [hledger, Ledger.getElem?_settle, if_pos rfl]
    have hearly : 1 ∈ s.ledger.early := by
      rw [hledger, Ledger.mem_early_settle]
      exact .inr ⟨rfl, Std.ExtTreeMap.not_mem_empty⟩
    have hlost := beside_lost (i := 1) hnext hbeside hnone hearly moved
    obtain ⟨ids₂, u, hu, hlost⟩ := reaches_of_le hrun inert_pair injective_pair hn
      interleaved_bothAhead ht hlost (by decide) (Nat.le_refl _)
    exact ⟨ids₂, u, hu, exists_not_called injective_pair (by decide) hlost⟩

end Session

end MqttLink
