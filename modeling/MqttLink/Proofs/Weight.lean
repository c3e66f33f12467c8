import MqttLink.Proofs.Run

/-!
How many callbacks a step hands over, counting those which its callbacks hand over in turn, and how
many a ledger holds. Main statements: what work on the ledger does to the second number.
-/

namespace MqttLink

mutual

/-- The callbacks that a step hands over, at any depth. -/
def Step.weight : Step → Nat
  | .track _ callback => callbackWeight? callback
  | .trackAll ids callback => ids.length * callbackWeight? callback
  | .subscribe _ _ callback => callbackWeight? callback
  | .unsubscribe _ callback => callbackWeight? callback
  | .publish _ _ _ callback => callbackWeight? callback
  | .setHandler _ handler => callbackWeight handler
  | _ => 0

def callbackWeight? : Option (Reaction Step) → Nat
  | none => 0
  | some c => callbackWeight c

/-- A callback itself and the callbacks that its steps hand over. -/
def callbackWeight : Reaction Step → Nat
  | ⟨_, steps, _, _⟩ => stepsWeight steps + 1

def stepsWeight : List Step → Nat
  | [] => 0
  | step :: rest => step.weight + stepsWeight rest

end

theorem callbackWeight_eq (c : Callback) : callbackWeight c = stepsWeight c.steps + 1 := by
  cases c
  rw [callbackWeight]

theorem stepsWeight_cons (step : Step) (steps : List Step) :
    stepsWeight (step :: steps) = step.weight + stepsWeight steps := by
  rw [stepsWeight]

theorem Step.weight_settle (id : PacketId) : (Step.settle id).weight = 0 := by
  simp [weight]

theorem Step.weight_abandon : Step.abandon.weight = 0 := by
  simp [weight]

namespace Ledger

/-- The callbacks in a list of entries, at any depth. -/
def entriesWeight : List (Entry Callback) → Nat
  | [] => 0
  | e :: es => callbackWeight? e.2 + entriesWeight es

/-- The callbacks that wait, at any depth. -/
def weight (l : Ledger Callback) : Nat :=
  entriesWeight l.pending.toList

variable {l : Ledger Callback} {id : PacketId}

theorem entriesWeight_cons (e : Entry Callback) (es : List (Entry Callback)) :
    entriesWeight (e :: es) = callbackWeight? e.2 + entriesWeight es := rfl

theorem entriesWeight_of_perm {es fs : List (Entry Callback)} (h : es.Perm fs) :
    entriesWeight es = entriesWeight fs := by
  induction h with
  | nil => rfl
  | cons e _ ih => rw [entriesWeight_cons, entriesWeight_cons, ih]
  | swap e f es =>
    simp only [entriesWeight_cons]
    omega
  | trans _ _ ih ih' => exact ih.trans ih'

theorem entriesWeight_filter_le (es : List (Entry Callback)) (p : Entry Callback → Bool) :
    entriesWeight (es.filter p) ≤ entriesWeight es := by
  induction es with
  | nil => exact Nat.le_refl _
  | cons e es ih =>
    rw [List.filter_cons]
    split
    · rw [entriesWeight_cons, entriesWeight_cons]
      omega
    · rw [entriesWeight_cons]
      omega

/-! ## Entries of a table -/

theorem nodup_toList (m : Std.ExtTreeMap PacketId (Option Callback) compare) : m.toList.Nodup :=
  m.distinct_keys_toList.imp fun h e => h (by rw [e]; exact Std.ReflCmp.compare_self)

/-- The entries under other identifiers. -/
def others (l : Ledger Callback) (id : PacketId) : List (Entry Callback) :=
  l.pending.toList.filter (·.1 ≠ id)

theorem mem_others {k : PacketId} {callback : Option Callback} :
    (k, callback) ∈ l.others id ↔ l.pending[k]? = some callback ∧ k ≠ id := by
  rw [others, List.mem_filter, Std.ExtTreeMap.mem_toList_iff_getElem?_eq_some, decide_eq_true_iff]

theorem nodup_cons_others (callback : Option Callback) :
    ((id, callback) :: l.others id).Nodup :=
  List.nodup_cons.mpr ⟨fun h => (mem_others.mp h).2 rfl, (nodup_toList _).filter _⟩

theorem perm_cons_others {callback : Option Callback} (h : l.pending[id]? = some callback) :
    l.pending.toList.Perm ((id, callback) :: l.others id) := by
  refine (List.perm_ext_iff_of_nodup (nodup_toList _) (nodup_cons_others callback)).mpr ?_
  rintro ⟨k, c⟩
  rw [Std.ExtTreeMap.mem_toList_iff_getElem?_eq_some, List.mem_cons, mem_others, Prod.mk.injEq]
  by_cases hk : k = id
  · rw [hk, h]
    simp [eq_comm]
  · simp [hk]

theorem perm_toList_insert (callback : Option Callback) :
    (l.pending.insert id callback).toList.Perm ((id, callback) :: l.others id) := by
  refine (List.perm_ext_iff_of_nodup (nodup_toList _) (nodup_cons_others callback)).mpr ?_
  rintro ⟨k, c⟩
  rw [Std.ExtTreeMap.mem_toList_iff_getElem?_eq_some, List.mem_cons, mem_others, Prod.mk.injEq]
  simp only [Std.ExtTreeMap.getElem?_insert, Std.LawfulEqCmp.compare_eq_iff_eq]
  by_cases hk : k = id
  · simp [hk, eq_comm]
  · simp [hk, Ne.symm hk]

theorem perm_toList_erase : (l.pending.erase id).toList.Perm (l.others id) := by
  refine (List.perm_ext_iff_of_nodup (nodup_toList _) ((nodup_toList _).filter _)).mpr ?_
  rintro ⟨k, c⟩
  rw [Std.ExtTreeMap.mem_toList_iff_getElem?_eq_some, ← others, mem_others]
  simp only [Std.ExtTreeMap.getElem?_erase, Std.LawfulEqCmp.compare_eq_iff_eq]
  by_cases hk : k = id
  · simp [hk]
  · simp [hk, Ne.symm hk]

/-! ## Weight after work on the ledger -/

theorem weight_track_le (l : Ledger Callback) (id : PacketId) (callback : Option Callback) :
    (l.track id callback).2.weight ≤ l.weight + callbackWeight? callback := by
  unfold track
  split
  · exact Nat.le_add_right _ _
  · rw [weight, entriesWeight_of_perm (perm_toList_insert callback), entriesWeight_cons]
    have hothers : entriesWeight (l.others id) ≤ l.weight :=
      entriesWeight_filter_le l.pending.toList (·.1 ≠ id)
    simp only
    omega

theorem weight_track_of_mem_early (h : id ∈ l.early) (callback : Option Callback) :
    (l.track id callback).2.weight = l.weight := by
  simp [track, h, weight]

theorem weight_settle_of_pending {callback : Option Callback}
    (h : l.pending[id]? = some callback) :
    (l.settle id).2.weight + callbackWeight? callback = l.weight := by
  rw [weight, weight, entriesWeight_of_perm (perm_cons_others h), entriesWeight_cons]
  simp only [settle, h]
  rw [entriesWeight_of_perm perm_toList_erase]
  omega

theorem weight_settle_of_not_pending (h : l.pending[id]? = none) :
    (l.settle id).2.weight = l.weight := by
  simp [settle, h, weight]

theorem weight_empty : weight {} = 0 := by
  have hnil : (∅ : Std.ExtTreeMap PacketId (Option Callback) compare).toList = [] := by
    simp
  rw [weight, hnil]
  rfl

end Ledger

end MqttLink
