import MqttLink.Proofs.Likeness

/-!
Plays in lockstep. Main statements: what a play does in a session another does in every like one,
one rule a construct; so do callbacks and the work on the ledger, given that the steps do which
callbacks run.
-/

namespace MqttLink

/-- Both are the same if answers are. -/
def Licence.Agree {α : Type} (L : Licence) (a b : α) : Prop :=
  L.exact → a = b

variable {L : Licence}

theorem Licence.compares_of_isCall_eq_false {o : Occurrence} (hL : ¬ L.full)
    (ho : o.isCall = false) : L.compares o = false := by
  simp [compares, hL, ho]

theorem Licence.compared_cons {o : Occurrence} (ho : L.compares o = false)
    (journal : List Occurrence) : L.compared (o :: journal) = L.compared journal :=
  List.filter_cons_of_neg (by simp [ho])

theorem Licence.sameOutcome_refl (o : Outcome) : L.SameOutcome o o :=
  ⟨fun _ => rfl, fun _ => rfl⟩

theorem Licence.sameOutcome_of_not_exact (hL : ¬ L.exact) (o o' : Outcome) :
    L.SameOutcome o o' :=
  ⟨fun h => absurd (L.exact_of_full h) hL, fun h => absurd h hL⟩

theorem Occurrence.compares_of_like {o o' : Occurrence} (h : o.Like L o') :
    L.compares o' = L.compares o := by
  cases h <;> rfl

theorem Step.name_of_like {x y : Step} (h : x.Like L y) : y.name = x.name := by
  cases h <;> rfl

namespace Session

open Play

/-! ## Entries -/

section

variable {s t : Session} (h : s.Like L t)
include h

theorem like_noted {o o' : Occurrence} (ho : o.Like L o') : (s.noted o).Like L (t.noted o') :=
  { h with
    journal := by
      rw [noted_journal, noted_journal, Licence.compared, Licence.compared, List.filter_cons,
        List.filter_cons, Occurrence.compares_of_like ho]
      split
      · exact .cons ho h.journal
      · exact h.journal }

theorem like_noted_left {o : Occurrence} (ho : L.compares o = false) : (s.noted o).Like L t :=
  { h with
    journal := by
      rw [noted_journal, Licence.compared_cons ho]
      exact h.journal }

theorem like_noted_right {o : Occurrence} (ho : L.compares o = false) : s.Like L (t.noted o) :=
  { h with
    journal := by
      rw [noted_journal, Licence.compared_cons ho]
      exact h.journal }

theorem view_of_like : s.view.Like L t.view :=
  ⟨h.ledger, h.client.pool⟩

theorem alive_of_like : t.alive = s.alive := by
  rw [alive, alive, h.owned, h.holders]

end

/-! ## Plays that follow each other -/

variable {α β γ δ : Type} {A : α → β → Prop} {B : γ → δ → Prop}

/-- What `x` does in a session, `y` does in every like one, with a value that stands to that of `x`
as `A` says. -/
def Follows (L : Licence) (A : α → β → Prop) (x : Play α) (y : Play β) : Prop :=
  ∀ ⦃s t⦄, s.Like L t → ∀ ⦃a s'⦄, x s = some (a, s') →
    ∃ b t', y t = some (b, t') ∧ A a b ∧ s'.Like L t'

theorem Follows.mono {A' : α → β → Prop} {x : Play α} {y : Play β} (h : Follows L A x y)
    (hA : ∀ a b, A a b → A' a b) : Follows L A' x y := by
  intro s t hst a s' hx
  obtain ⟨b, t', hy, hab, hlike⟩ := h hst hx
  exact ⟨b, t', hy, hA a b hab, hlike⟩

theorem Follows.agree {x y : Play α} (h : Follows L Eq x y) : Follows L L.Agree x y :=
  h.mono fun _ _ hab _ => hab

theorem follows_pure {a : α} {b : β} (h : A a b) : Follows L A (pure a) (pure b) := by
  intro s t hst a' s' hx
  cases hx
  exact ⟨b, t, rfl, h, hst⟩

theorem follows_bind {x : Play α} {y : Play β} {f : α → Play γ} {g : β → Play δ}
    (hx : Follows L A x y) (hf : ∀ a b, A a b → Follows L B (f a) (g b)) :
    Follows L B (x >>= f) (y >>= g) := by
  intro s t hst c s'' hxf
  obtain ⟨a, s', hxs, hfs⟩ := bind_eq_some_iff.mp hxf
  obtain ⟨b, t', hyt, hab, hst'⟩ := hx hst hxs
  obtain ⟨d, t'', hgt, hcd, hst''⟩ := hf a b hab hst' hfs
  exact ⟨d, t'', bind_eq_some_iff.mpr ⟨b, t', hyt, hgt⟩, hcd, hst''⟩

theorem follows_map {x : Play α} {y : Play β} {f : α → γ} {g : β → δ} (hx : Follows L A x y)
    (hf : ∀ a b, A a b → B (f a) (g b)) :
    Follows L B (do return f (← x)) (do return g (← y)) :=
  follows_bind hx fun a b hab => follows_pure (hf a b hab)

theorem follows_bindEq {x y : Play α} {f : α → Play γ} {g : α → Play δ} (hx : Follows L Eq x y)
    (hf : ∀ a, Follows L B (f a) (g a)) : Follows L B (x >>= f) (y >>= g) :=
  follows_bind hx fun a b hab => by
    rw [← hab]
    exact hf a

/-- Values that agree agree after the same function. -/
theorem follows_mapAgree {x y : Play α} (f : α → γ) (hx : Follows L L.Agree x y) :
    Follows L L.Agree (do return f (← x)) (do return f (← y)) :=
  follows_map hx fun _ _ hab hL => congrArg f (hab hL)

/-- What goes on with a value that may differ unless all answers are the same. -/
theorem follows_bindAgree {x y : Play α} {f g : α → Play γ} {C : γ → γ → Prop}
    (hx : Follows L L.Agree x y) (hsame : ∀ a, Follows L C (f a) (g a))
    (hany : ¬ L.exact → ∀ a b, Follows L C (f a) (g b)) : Follows L C (x >>= f) (y >>= g) := by
  refine follows_bind hx fun a b hab => ?_
  by_cases hL : L.exact
  · rw [hab hL]
    exact hsame b
  · exact hany hL a b

theorem follows_get {f : Session → Play γ} {g : Session → Play δ}
    (h : ∀ s t, s.Like L t → Follows L B (f s) (g t)) :
    Follows L B (get >>= f) (get >>= g) :=
  fun s t hst _ _ hx => h s t hst hst hx

theorem follows_modify {f g : Session → Session} (h : ∀ s t, s.Like L t → (f s).Like L (g t)) :
    Follows L Eq (modify f : Play Unit) (modify g) := by
  intro s t hst a s' hx
  cases hx
  exact ⟨(), g t, rfl, rfl, h s t hst⟩

theorem follows_note {o o' : Occurrence} (h : o.Like L o') : Follows L Eq (note o) (note o') :=
  follows_modify fun _ _ hst => like_noted hst h

theorem follows_noteSame (o : Occurrence) : Follows L Eq (note o) (note o) :=
  follows_note (.same o)

theorem follows_changeClient {f g : Client → Client}
    (h : ∀ c d : Client, c.Like L d → (f c).Like L (g d)) :
    Follows L Eq (changeClient f) (changeClient g) :=
  follows_modify fun _ _ hst => { hst with client := h _ _ hst.client }

theorem follows_onClient {f g : Client → α × Client}
    (h : ∀ c d : Client, c.Like L d → (g d).1 = (f c).1 ∧ (f c).2.Like L (g d).2) :
    Follows L Eq (onClient f) (onClient g) := by
  intro s t hst a s' hx
  cases hx
  obtain ⟨hvalue, hlike⟩ := h _ _ hst.client
  exact ⟨_, _, rfl, hvalue.symm, { hst with client := hlike }⟩

theorem follows_onLedger {f : Ledger Callback → α × Ledger Callback}
    {g : Ledger Callback → β × Ledger Callback}
    (h : ∀ l m : Ledger Callback, l.Like L m → A (f l).1 (g m).1 ∧ (f l).2.Like L (g m).2) :
    Follows L A (onLedger f) (onLedger g) := by
  intro s t hst a s' hx
  cases hx
  obtain ⟨hvalue, hlike⟩ := h _ _ hst.ledger
  exact ⟨_, _, rfl, hvalue, { hst with ledger := hlike }⟩

theorem follows_ite {p q : Prop} [Decidable p] [Decidable q] (h : q ↔ p) {x x' : Play α}
    {y y' : Play β} (hx : Follows L A x y) (hx' : Follows L A x' y') :
    Follows L A (if p then x else x') (if q then y else y') := by
  by_cases hp : p
  · rw [if_pos hp, if_pos (h.mpr hp)]
    exact hx
  · rw [if_neg hp, if_neg (mt h.mp hp)]
    exact hx'

/-- `x` comes back with `a`, and writes at most an entry that is not compared. -/
def Unseen (L : Licence) (a : α) (x : Play α) : Prop :=
  ∀ s, x s = some (a, s) ∨ ∃ o, L.compares o = false ∧ x s = some (a, s.noted o)

theorem follows_of_unseen {a : α} {b : β} {x : Play α} {y : Play β} (hx : Unseen L a x)
    (hy : Unseen L b y) (h : A a b) : Follows L A x y := by
  intro s t hst a' s' hxs
  obtain ⟨rfl, hst'⟩ : a' = a ∧ s'.Like L t := by
    rcases hx s with hs | ⟨o, ho, hs⟩
    · rw [hs] at hxs
      cases hxs
      exact ⟨rfl, hst⟩
    · rw [hs] at hxs
      cases hxs
      exact ⟨rfl, like_noted_left hst ho⟩
  rcases hy t with ht | ⟨o, ho, ht⟩
  · exact ⟨b, t, ht, h, hst'⟩
  · exact ⟨b, _, ht, h, like_noted_right hst' ho⟩

theorem unseen_note (hL : ¬ L.full) {o : Occurrence} (ho : o.isCall = false) :
    Unseen L () (note o) :=
  fun _ => .inr ⟨o, Licence.compares_of_isCall_eq_false hL ho, rfl⟩

theorem unseen_contain (hL : ¬ L.full) (source : Source) (o : Outcome) :
    Unseen L (contained o) (contain source o) := by
  intro s
  match o with
  | .ok () => exact .inl rfl
  | .error (.recoverable text) =>
    exact .inr ⟨.recovered source text, Licence.compares_of_isCall_eq_false hL rfl, rfl⟩
  | .error (.fatal _) => exact .inl rfl

theorem follows_holding {x : Play α} {y : Play β} (h : Follows L A x y) :
    Follows L A (holding x) (holding y) :=
  follows_bindEq (follows_modify fun _ _ hst => { hst with holders := by rw [hst.holders] })
    fun _ => follows_bind h fun _ _ hab =>
    follows_bindEq (follows_modify fun _ _ hst => { hst with holders := by rw [hst.holders] })
    fun _ => follows_pure hab

theorem follows_withLink {x y : Play Answer} (h : Follows L L.Agree x y) :
    Follows L L.Agree (withLink x) (withLink y) :=
  follows_get fun s t hst => follows_ite (by rw [hst.owned]) (follows_holding h)
    (follows_pure fun _ => rfl)

theorem follows_sweeping {x y : Play α} (h : Follows L L.Agree x y) :
    Follows L L.Agree (sweeping x) (sweeping y) :=
  follows_bindEq (follows_noteSame _) fun _ => follows_bind h fun _ _ hab =>
    follows_bindEq (follows_noteSame _) fun _ => follows_pure hab

/-- What the span of an operation skips may differ. -/
theorem follows_spanning {operation : Operation} {arguments arguments' : List Argument}
    (hspan : ∀ settings, Span.ofCall operation arguments' settings =
      Span.ofCall operation arguments settings) {x y : Play α} (h : Follows L L.Agree x y) :
    Follows L L.Agree (spanning operation arguments x) (spanning operation arguments' y) := by
  refine follows_get fun s t hst => ?_
  rw [hst.settings, hspan]
  exact follows_bindEq (follows_noteSame _) fun _ => follows_bind h fun _ _ hab =>
    follows_bindEq (follows_noteSame _) fun _ => follows_pure hab

theorem follows_withQos {level : Nat} {x y : Qos → Play Answer}
    (h : ∀ qos, Follows L L.Agree (x qos) (y qos)) :
    Follows L L.Agree (withQos level x) (withQos level y) := by
  unfold withQos
  split
  · exact h _
  · exact follows_pure fun _ => rfl

theorem follows_answering {x y : Play (Except Fault Unit)} (h : Follows L L.Agree x y) :
    Follows L L.Agree (answering x) (answering y) :=
  follows_mapAgree Answer.ofResult h

theorem follows_answeringFatal {x y : Play (Except Fatal Unit)} (h : Follows L L.Agree x y) :
    Follows L L.Agree (answeringFatal x) (answeringFatal y) :=
  follows_map h fun _ _ hab hL => by rw [hab hL]

theorem follows_answeringId {x y : Play (Except Fault PacketId)} (h : Follows L L.Agree x y) :
    Follows L L.Agree (answeringId x) (answeringId y) := by
  refine follows_bindAgree h (fun a => ?_) fun hL a b => ?_
  · cases a <;> exact follows_pure fun _ => rfl
  · cases a <;> cases b <;> exact follows_pure fun h => absurd h hL

theorem follows_answeringIssued {x y : Play (Except ClientFault (Int × PacketId))}
    (h : Follows L Eq x y) : Follows L Eq (answeringIssued x) (answeringIssued y) :=
  follows_bindEq h fun a => by cases a <;> exact follows_pure rfl

theorem follows_answeringReply {x y : Play Reply} (h : Follows L Eq x y) :
    Follows L Eq (answeringReply x) (answeringReply y) :=
  follows_bindEq h fun a => by cases a <;> exact follows_pure rfl

theorem follows_answeringStopped {x y : Play (Except ClientFault Unit)} (h : Follows L Eq x y) :
    Follows L Eq (answeringStopped x) (answeringStopped y) :=
  follows_bindEq h fun _ => follows_pure rfl

/-! ## Calls that end at once -/

theorem follows_stopLoop : Follows L Eq Play.stopLoop Play.stopLoop := by
  refine follows_bindEq (follows_onClient fun _ _ h => Client.like_stopLoop h) fun a => ?_
  match a with
  | .ok _ => exact follows_bindEq (follows_noteSame _) fun _ => follows_pure rfl
  | .error _ => exact follows_pure rfl

theorem follows_hangUp : Follows L Eq hangUp hangUp := by
  refine follows_bindEq (follows_onClient fun _ _ h => Client.like_disconnect h) fun a => ?_
  match a with
  | .ok _ => exact follows_map follows_stopLoop fun _ _ hab => by rw [hab]
  | .error _ => exact follows_pure rfl

theorem follows_checkCode (operation : Operation) (code : Int) :
    Follows L Eq (checkCode operation code) (checkCode operation code) := by
  unfold checkCode
  split
  · exact follows_pure rfl
  · exact follows_bindEq (follows_noteSame _) fun _ => follows_pure rfl

theorem follows_tryStopLoop : Follows L Eq tryStopLoop tryStopLoop := by
  refine follows_bindEq follows_stopLoop fun a => ?_
  cases a with
  | error _ => exact follows_noteSame _
  | ok _ => exact follows_pure rfl

theorem follows_stopAfterFailure : Follows L Eq stopAfterFailure stopAfterFailure := by
  refine follows_bindEq (follows_onClient fun _ _ h => Client.like_disconnect h) fun a => ?_
  cases a with
  | error _ => exact follows_bindEq (follows_noteSame _) fun _ => follows_tryStopLoop
  | ok _ => exact follows_tryStopLoop

theorem follows_connect {p p' : Option String} (hp : L.password p p') :
    Follows L Eq (connect p) (connect p') := by
  refine follows_get fun s t hst => ?_
  rw [hst.settings]
  refine follows_bindEq (follows_noteSame _) fun _ =>
    follows_bindEq (follows_changeClient fun c d h => Client.like_add h (.setCredentials _ hp))
      fun _ =>
    follows_bindEq (follows_onClient fun _ _ h => Client.like_connect h _ _) fun a => ?_
  match a with
  | none =>
    exact follows_bindEq (follows_noteSame _) fun _ =>
      follows_bindEq follows_stopAfterFailure fun _ => follows_pure rfl
  | some (.error _) =>
    exact follows_bindEq (follows_noteSame _) fun _ =>
      follows_bindEq follows_stopAfterFailure fun _ => follows_pure rfl
  | some (.ok code) =>
    refine follows_bindEq (follows_checkCode .connect code) fun a => ?_
    match a with
    | .error _ => exact follows_pure rfl
    | .ok _ =>
      refine follows_bindEq (follows_onClient fun _ _ h => Client.like_startLoop h) fun a => ?_
      match a with
      | .error _ => exact follows_pure rfl
      | .ok _ => exact follows_bindEq (follows_noteSame _) fun _ => follows_pure rfl

theorem follows_shutDown : Follows L Eq shutDown shutDown := by
  refine follows_get fun s t hst => ?_
  rw [hst.settings]
  refine follows_bindEq (follows_noteSame _) fun _ =>
    follows_bindEq (follows_changeClient fun _ _ h => Client.like_setSink h false) fun _ =>
    follows_bindEq (follows_onClient fun _ _ h => Client.like_disconnect h) fun disconnected =>
    follows_bindEq follows_stopLoop fun stopped => ?_
  match disconnected, stopped with
  | .error _, _ => exact follows_pure rfl
  | .ok _, .error _ => exact follows_pure rfl
  | .ok code, .ok _ =>
    simp only
    split
    · exact follows_bindEq (follows_noteSame _) fun _ => follows_pure rfl
    · exact follows_pure rfl

/-! ## Callbacks and handlers -/

theorem follows_contain {source : Source} {o o' : Outcome} (h : L.SameOutcome o o') :
    Follows L L.Agree (contain source o) (contain source o') := by
  by_cases hL : L.full
  · obtain rfl := h.full hL
    match o with
    | .ok () => exact follows_pure fun _ => rfl
    | .error (.recoverable _) =>
      exact follows_bindEq (follows_noteSame _) fun _ => follows_pure fun _ => rfl
    | .error (.fatal _) => exact follows_pure fun _ => rfl
  · exact follows_of_unseen (unseen_contain hL source o) (unseen_contain hL source o') h.exact

/-- The entry about a step that a callback has run. -/
theorem follows_acted {x y : Step} (h : x.Like L y) {a b : Answer} (hab : L.Agree a b) :
    Follows L Eq (note (.acted x.name a)) (note (.acted y.name b)) := by
  by_cases hL : L.full
  · rw [hab (L.exact_of_full hL), Step.name_of_like h]
    exact follows_noteSame _
  · exact follows_of_unseen (unseen_note hL rfl) (unseen_note hL rfl) rfl

/-- What comes of operations that enter like ledgers. -/
inductive EnteredLike (L : Licence) : Ledger.Entered Callback → Ledger.Entered Callback → Prop
  | acknowledged : EnteredLike L .acknowledged .acknowledged
  | waiting : EnteredLike L (.waiting none) (.waiting none)
  | displaced {c c' : Option Callback} (same : Option.Rel (Reaction.Like L) c c') :
      EnteredLike L (.waiting (some c)) (.waiting (some c'))

theorem enteredLike_track {l m : Ledger Callback} (h : l.Like L m) (id : PacketId)
    (c c' : Option Callback) : EnteredLike L (l.track id c).1 (m.track id c').1 := by
  unfold Ledger.track
  rw [h.early]
  split
  · exact .acknowledged
  · rcases cases_of_rel (h.pending id) with ⟨hl, hm⟩ | ⟨d, d', hl, hm, hd⟩
    · rw [hl, hm]
      exact .waiting
    · rw [hl, hm]
      exact .displaced hd

theorem settled_like {l m : Ledger Callback} (h : l.Like L m) (id : PacketId) :
    Option.Rel (Option.Rel (Reaction.Like L)) (l.settle id).1 (m.settle id).1 := by
  unfold Ledger.settle
  rcases cases_of_rel (h.pending id) with ⟨hl, hm⟩ | ⟨c, c', hl, hm, hc⟩
  · rw [hl, hm]
    exact .none
  · rw [hl, hm]
    exact .some hc

/-! ## Batches -/

theorem unseen_keep (hL : ¬ L.full) (id : PacketId) (first r : Except Fatal Unit) :
    Unseen L (first >>= fun _ => r) (keep id first r) := by
  intro s
  match first, r with
  | .ok _, _ => exact .inl rfl
  | .error _, .ok _ => exact .inl rfl
  | .error _, .error g =>
    exact .inr ⟨.fatalDropped id g, Licence.compares_of_isCall_eq_false hL rfl, rfl⟩

theorem follows_keep {id : PacketId} {first first' r r' : Except Fatal Unit}
    (hfirst : L.Agree first first') (hr : L.Agree r r') :
    Follows L L.Agree (keep id first r) (keep id first' r') := by
  by_cases hL : L.full
  · rw [hfirst (L.exact_of_full hL), hr (L.exact_of_full hL)]
    cases first' with
    | ok _ => exact follows_pure fun _ => rfl
    | error f =>
      cases r' with
      | ok _ => exact follows_pure fun _ => rfl
      | error g => exact follows_bindEq (follows_noteSame _) fun _ => follows_pure fun _ => rfl
  · refine follows_of_unseen (unseen_keep hL id first r) (unseen_keep hL id first' r') fun h => ?_
    rw [hfirst h, hr h]

/-- Entries of ledgers that are like each other. -/
inductive EntryLike (L : Licence) : Ledger.Entry Callback → Ledger.Entry Callback → Prop
  | none (id : PacketId) : EntryLike L (id, .none) (id, .none)
  | some (id : PacketId) {c c' : Callback} (same : Reaction.Like L c c') :
      EntryLike L (id, .some c) (id, .some c')

theorem forall₂_entryLike {es fs : List (Ledger.Entry Callback)}
    (hkeys : fs.map (·.1) = es.map (·.1))
    (h : ∀ id c c', (id, c) ∈ es → (id, c') ∈ fs → Option.Rel (Reaction.Like L) c c') :
    List.Forall₂ (EntryLike L) es fs := by
  induction es generalizing fs with
  | nil =>
    rw [List.map_nil, List.map_eq_nil_iff] at hkeys
    rw [hkeys]
    exact .nil
  | cons e es ih =>
    obtain ⟨f, fs, rfl, hid, hrest⟩ := List.map_eq_cons_iff.mp hkeys
    obtain ⟨id, c⟩ := e
    obtain ⟨_, c'⟩ := f
    obtain rfl : _ = id := hid
    refine .cons ?_ (ih hrest fun k d d' hd hd' =>
      h k d d' (List.mem_cons_of_mem _ hd) (List.mem_cons_of_mem _ hd'))
    cases h _ c c' (List.mem_cons_self ..) (List.mem_cons_self ..) with
    | none => exact .none _
    | some hc => exact .some _ hc

section

variable {s t : Session} (h : s.Like L t)
include h

theorem batch_like : List.Forall₂ (EntryLike L) s.batch t.batch := by
  refine forall₂_entryLike ?_ fun id c c' hc hc' => ?_
  · rw [batch, batch, h.sweeps]
    refine h.order s.sweeps _ _ ?_
    rw [Std.ExtTreeMap.map_fst_toList_eq_keys, Std.ExtTreeMap.map_fst_toList_eq_keys,
      Ledger.keys_of_like h.ledger]
  · have hrel := h.ledger.pending id
    rw [mem_batch.mp hc, mem_batch.mp hc'] at hrel
    cases hrel with
    | some hrel => exact hrel

theorem abandoning_like : s.abandoning.Like L t.abandoning := by
  have hcount : t.ledger.pending.toList.length = s.ledger.pending.toList.length := by
    rw [Std.ExtTreeMap.length_toList, Std.ExtTreeMap.length_toList, Ledger.size_of_like h.ledger]
  have hnoted : (s.noted (.abandoned s.ledger.pending.toList.length)).Like L
      (t.noted (.abandoned t.ledger.pending.toList.length)) := by
    rw [hcount]
    exact like_noted h (.same _)
  exact { hnoted with ledger := Ledger.like_empty, sweeps := congrArg (· + 1) h.sweeps }

end

section

variable {run run' : Runner}
  (hrun : ∀ x y, Step.Like L x y → Follows L L.Agree (run x) (run' y))
include hrun

theorem follows_runSteps {stopsOnFault : Bool} {steps steps' : List Step}
    (hcareful : L.Careful stopsOnFault steps) (h : List.Forall₂ (Step.Like L) steps steps') :
    Follows L L.Agree (runSteps run stopsOnFault steps) (runSteps run' stopsOnFault steps') := by
  induction h with
  | nil => exact follows_pure fun _ => rfl
  | @cons x y steps steps' hxy hrest ih =>
    have ih := ih fun hstops => (hcareful hstops).imp id fun h => by
      rw [List.length_cons] at h
      omega
    refine follows_bind (hrun x y hxy) fun a b hab => follows_bindEq (follows_acted hxy hab)
      fun _ => ?_
    by_cases hL : L.exact
    · rw [hab hL]
      cases b.fault? with
      | none => exact ih
      | some f =>
        cases stopsOnFault with
        | true => exact follows_pure fun _ => rfl
        | false => exact ih
    · cases stopsOnFault with
      | true =>
        -- there is no later step that could be left out in one of them
        have hlength := (hcareful rfl).resolve_left hL
        obtain rfl : steps = [] := List.eq_nil_of_length_eq_zero (by simpa using hlength)
        cases hrest
        cases a.fault? <;> cases b.fault? <;> exact follows_pure fun h => absurd h hL
      | false => cases a.fault? <;> cases b.fault? <;> exact ih

theorem follows_react {c c' : Callback} (h : Reaction.Like L c c') :
    Follows L L.SameOutcome (react run c) (react run' c') := by
  cases h with
  | intro label stopsOnFault same careful outcomes =>
    refine follows_bindAgree (follows_runSteps hrun careful same) (fun a => ?_)
      fun hL a b => ?_
    · cases a with
      | none => exact follows_pure outcomes
      | some f => exact follows_pure (Licence.sameOutcome_refl _)
    · cases a <;> cases b <;> exact follows_pure (Licence.sameOutcome_of_not_exact hL _ _)

theorem follows_invoke (id : PacketId) (resolution : Resolution) {c c' : Callback}
    (h : Reaction.Like L c c') :
    Follows L L.Agree (invoke run id resolution c) (invoke run' id resolution c') :=
  follows_get fun _ _ hst =>
    follows_bindEq (follows_note (.invoked id h resolution (view_of_like hst))) fun _ =>
    follows_bind (follows_react hrun h) fun _ _ hab => follows_contain hab

theorem follows_invoke? (id : PacketId) (resolution : Resolution) {c c' : Option Callback}
    (h : Option.Rel (Reaction.Like L) c c') :
    Follows L L.Agree (invoke? run id resolution c) (invoke? run' id resolution c') := by
  cases h with
  | none => exact follows_pure fun _ => rfl
  | some h => exact follows_invoke hrun id resolution h

theorem follows_signal {x x' : Signal} (h : x.Like L x') :
    Follows L L.Agree (signal run x) (signal run' x') := by
  refine follows_get fun s t hst => ?_
  have hslot : x'.slot = x.slot := by cases h <;> rfl
  rw [hslot]
  rcases cases_of_rel (hst.handlers x.slot) with ⟨hs, ht⟩ | ⟨c, c', hs, ht, hc⟩
  · rw [hs, ht]
    exact follows_pure fun _ => rfl
  · have hlabel : c'.label = c.label := by cases hc; rfl
    rw [hs, ht]
    simp only
    rw [hlabel]
    exact follows_bindEq (follows_note (.handled h _)) fun _ =>
      follows_bind (follows_react hrun hc) fun _ _ ho =>
      follows_mapAgree _ (follows_contain ho)

/-! ## Work on the ledger -/

omit hrun in
/-- Operations are tracked in lockstep if their callbacks are called so. -/
theorem follows_trackBy {A : Except Fatal Unit → Except Fatal Unit → Prop}
    (hok : A (.ok ()) (.ok ())) {id : PacketId} {c c' : Option Callback}
    (h : Option.Rel (Reaction.Like L) c c')
    (hcall : Follows L A (invoke? run id .completed c) (invoke? run' id .completed c')) :
    Follows L A (track run id c) (track run' id c') := by
  refine follows_bindEq (follows_note (.tracked id h)) fun _ => ?_
  refine follows_bind (follows_onLedger fun l m hlm =>
    ⟨enteredLike_track hlm id c c', Ledger.like_track hlm id h⟩) fun a b hab => ?_
  cases hab with
  | acknowledged => exact follows_bindEq (follows_noteSame _) fun _ => hcall
  | displaced hd =>
    exact follows_bindEq (follows_note (.displaced id hd)) fun _ =>
      follows_bindEq (follows_noteSame _) fun _ => follows_pure hok
  | waiting => exact follows_bindEq (follows_noteSame _) fun _ => follows_pure hok

theorem follows_track (id : PacketId) {c c' : Option Callback}
    (h : Option.Rel (Reaction.Like L) c c') :
    Follows L L.Agree (track run id c) (track run' id c') :=
  follows_trackBy (fun _ => rfl) h (follows_invoke? hrun id .completed h)

theorem follows_settle (id : PacketId) :
    Follows L L.Agree (settle run id) (settle run' id) := by
  refine follows_bind (follows_onLedger fun l m hlm =>
    ⟨settled_like hlm id, Ledger.like_settle hlm id⟩) fun a b hab => ?_
  cases hab with
  | none => exact follows_bindEq (follows_noteSame _) fun _ => follows_pure fun _ => rfl
  | some hc => exact follows_bindEq (follows_noteSame _) fun _ => follows_invoke? hrun _ _ hc

theorem follows_cancelEach {es es' : List (Ledger.Entry Callback)}
    (h : List.Forall₂ (EntryLike L) es es') {first first' : Except Fatal Unit}
    (hfirst : L.Agree first first') :
    Follows L L.Agree (cancelEach run first es) (cancelEach run' first' es') := by
  induction h generalizing first first' with
  | nil => exact follows_pure hfirst
  | @cons e e' es es' he _ ih =>
    cases he with
    | none id => exact ih hfirst
    | some id hc =>
      rw [cancelEach_cons, cancelEach_cons]
      exact follows_bind (follows_invoke hrun id .cancelled hc) fun _ _ hab =>
        follows_bind (follows_keep hfirst hab) fun _ _ hkept => ih hkept

theorem follows_abandon : Follows L L.Agree (abandon run) (abandon run') := by
  intro s t hst a s' h
  rw [abandon_apply] at h ⊢
  exact follows_cancelEach hrun (batch_like hst) (fun _ => rfl) (abandoning_like hst) h

theorem follows_disconnect (clear : Bool) :
    Follows L L.Agree (disconnect run clear) (disconnect run' clear) := by
  refine follows_bindEq (follows_noteSame _) fun _ =>
    follows_bindEq (follows_onClient fun _ _ h => Client.like_disconnect h) fun disconnected =>
    follows_bindEq follows_stopLoop fun stopped => ?_
  match disconnected, stopped with
  | .error _, _ => exact follows_pure fun _ => rfl
  | .ok _, .error _ => exact follows_pure fun _ => rfl
  | .ok code, .ok _ =>
    refine follows_bindEq (follows_checkCode .disconnect code) fun a => ?_
    match a with
    | .error _ => exact follows_pure fun _ => rfl
    | .ok _ =>
      -- a fatal fault in the batch ends the last thing there is to do
      cases clear with
      | true => exact follows_mapAgree _ (follows_abandon hrun)
      | false => exact follows_pure fun _ => rfl

omit hrun in
/-- Nothing fails where there is no callback. -/
theorem follows_trackAll_none (ids : List PacketId) :
    Follows L Eq (trackAll run none ids) (trackAll run' none ids) := by
  induction ids with
  | nil => exact follows_pure rfl
  | cons id rest ih =>
    have htrack : Follows L (fun a b => a = .ok () ∧ b = .ok ()) (track run id none)
        (track run' id none) :=
      follows_trackBy ⟨rfl, rfl⟩ .none (follows_pure ⟨rfl, rfl⟩)
    refine follows_bind htrack fun a b hab => ?_
    rw [hab.1, hab.2]
    exact ih

theorem follows_trackAll (hL : L.exact) {c c' : Callback} (h : Reaction.Like L c c')
    (ids : List PacketId) :
    Follows L L.Agree (trackAll run (some c) ids) (trackAll run' (some c') ids) := by
  induction ids with
  | nil => exact follows_pure fun _ => rfl
  | cons id rest ih =>
    refine follows_bindAgree (follows_track hrun id (.some h)) (fun a => ?_)
      fun hany => absurd hL hany
    cases a with
    | ok _ => exact ih
    | error _ => exact follows_pure fun _ => rfl

theorem follows_settleAll (hL : L.exact) (ids : List PacketId) :
    Follows L L.Agree (settleAll run ids) (settleAll run' ids) := by
  induction ids with
  | nil => exact follows_pure fun _ => rfl
  | cons id rest ih =>
    refine follows_bindAgree (follows_settle hrun id) (fun a => ?_) fun hany => absurd hL hany
    cases a with
    | ok _ => exact ih
    | error _ => exact follows_pure fun _ => rfl

end

end Session

end MqttLink
