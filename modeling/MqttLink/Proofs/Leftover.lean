import Mathlib.Logic.Basic
import MqttLink.Proofs.Lending

/-!
Acknowledgements that come too late. When operations are abandoned, the client goes on to hold the
identifiers of those that it has not heard of, and their acknowledgements may still come. The ledger
takes such an acknowledgement for one that is ahead of its operation. Main statement: as long as
only requests in flight are acknowledged, a callback is called as completed only when its own
request has been acknowledged, or when its identifier was in flight at the last abandonment before
the request.
-/

namespace MqttLink

/-! ## What the journal tells -/

/-- The client has accepted a request under `id` and has not heard since that it is done. -/
def InFlight (id : PacketId) : List Occurrence → Prop
  | [] => False
  | .issued _ k code :: older => k = id ∧ code = 0 ∨ InFlight id older
  | .acknowledged k :: older => k ≠ id ∧ InFlight id older
  | _ :: older => InFlight id older

/-- When operations were last abandoned, a request under `id` was in flight. -/
def LeftOver (id : PacketId) : List Occurrence → Prop
  | [] => False
  | .abandoned _ :: older => InFlight id older
  | _ :: older => LeftOver id older

/-- Only requests in flight have been acknowledged. -/
def Solicited : List Occurrence → Prop
  | [] => True
  | .acknowledged id :: older => InFlight id older ∧ Solicited older
  | _ :: older => Solicited older

/-- The latest request that was accepted under `id` is tracked with this callback and has not been
abandoned; `between` came after it and `rest` before it. -/
structure Latest (id : PacketId) (callback : Option Callback)
    (between rest older : List Occurrence) : Prop where
  accepted : ∃ m, older = between ++ .issued m id 0 :: rest
  tracked : .tracked id callback ∈ between
  last : ∀ m, .issued m id 0 ∉ between
  kept : ∀ n, .abandoned n ∉ between

/-- The latest request under `id` has this callback and has been acknowledged, or its identifier is
left over from an earlier one. -/
def Due (id : PacketId) (callback : Option Callback) (older : List Occurrence) : Prop :=
  ∃ between rest, Latest id callback between rest older ∧
    (.acknowledged id ∈ between ∨ LeftOver id rest)

/-- Every callback that was called as completed was due. -/
def Justified : List Occurrence → Prop
  | [] => True
  | .invoked id c .completed _ :: older => Due id (some c) older ∧ Justified older
  | _ :: older => Justified older

namespace Occurrence

/-- Entries that change neither what is in flight nor what is due. -/
def silent : Occurrence → Bool
  | issued _ _ code => code ≠ 0
  | acknowledged _ | abandoned _ | invoked _ _ .completed _ => false
  | _ => true

theorem silent_of_quiet {o : Occurrence} (h : o.quiet) : o.silent := by
  cases o <;> first | rfl | cases h

/-- Entries after which a request is still the latest under its identifier, and not abandoned. -/
def Spares (id : PacketId) (o : Occurrence) : Prop :=
  (∀ m, o ≠ issued m id 0) ∧ ∀ n, o ≠ abandoned n

theorem spares_of_silent {o : Occurrence} (h : o.silent) (id : PacketId) : o.Spares id := by
  constructor
  · rintro m rfl
    cases h
  · rintro n rfl
    cases h

theorem spares_issued (m : Method) (code : Int) {id k : PacketId} (h : k ≠ id) :
    (issued m id code).Spares k :=
  ⟨fun _ heq => h (Occurrence.issued.inj heq).2.1.symm, nofun⟩

theorem spares_acknowledged (id k : PacketId) : (acknowledged id).Spares k := by
  constructor
  · rintro m ⟨⟩
  · rintro n ⟨⟩

end Occurrence

section

variable {news older between rest : List Occurrence} {id : PacketId} {callback : Option Callback}
  (hn : ∀ o ∈ news, o.silent)

theorem Latest.append (h : Latest id callback between rest older)
    (hn : ∀ o ∈ news, o.Spares id) : Latest id callback (news ++ between) rest (news ++ older) where
  accepted := by
    obtain ⟨m, rfl⟩ := h.accepted
    exact ⟨m, (List.append_assoc ..).symm⟩
  tracked := List.mem_append_right _ h.tracked
  last m hm := by
    rcases List.mem_append.mp hm with hm | hm
    · exact (hn _ hm).1 m rfl
    · exact h.last m hm
  kept n hm := by
    rcases List.mem_append.mp hm with hm | hm
    · exact (hn _ hm).2 n rfl
    · exact h.kept n hm

include hn

theorem inFlight_append (id : PacketId) : InFlight id (news ++ older) ↔ InFlight id older := by
  induction news with
  | nil => exact Iff.rfl
  | cons o news ih =>
    obtain ⟨ho, hn⟩ := List.forall_mem_cons.mp hn
    refine Iff.trans ?_ (ih hn)
    cases o with
    | issued m k code =>
      have hcode : code ≠ 0 := by simpa [Occurrence.silent] using ho
      exact or_iff_right fun h => hcode h.2
    | acknowledged k => cases ho
    | _ => exact Iff.rfl

theorem leftOver_append (id : PacketId) : LeftOver id (news ++ older) ↔ LeftOver id older := by
  induction news with
  | nil => exact Iff.rfl
  | cons o news ih =>
    obtain ⟨ho, hn⟩ := List.forall_mem_cons.mp hn
    refine Iff.trans ?_ (ih hn)
    cases o with
    | abandoned n => cases ho
    | _ => exact Iff.rfl

theorem solicited_append : Solicited (news ++ older) ↔ Solicited older := by
  induction news with
  | nil => exact Iff.rfl
  | cons o news ih =>
    obtain ⟨ho, hn⟩ := List.forall_mem_cons.mp hn
    refine Iff.trans ?_ (ih hn)
    cases o with
    | acknowledged k => cases ho
    | _ => exact Iff.rfl

theorem justified_append : Justified (news ++ older) ↔ Justified older := by
  induction news with
  | nil => exact Iff.rfl
  | cons o news ih =>
    obtain ⟨ho, hn⟩ := List.forall_mem_cons.mp hn
    refine Iff.trans ?_ (ih hn)
    cases o with
    | invoked k c resolution view =>
      cases resolution with
      | completed => cases ho
      | cancelled => exact Iff.rfl
    | _ => exact Iff.rfl

end

theorem due_of_justified {newer older : List Occurrence} {id : PacketId} {c : Callback}
    {view : View} (h : Justified (newer ++ .invoked id c .completed view :: older)) :
    Due id (some c) older := by
  induction newer with
  | nil => exact h.1
  | cons o newer ih =>
    refine ih ?_
    cases o with
    | invoked k d resolution view =>
      cases resolution with
      | completed => exact h.2
      | cancelled => exact h
    | _ => exact h

namespace Session

open Play

variable {s t u : Session} {id : PacketId}

/-! ## What the ledger holds -/

/-- The tables in terms of the journal: who waits is the latest under its identifier, and what is
remembered, or in flight and not waited for, is left over. -/
structure Told (s : Session) : Prop where
  waiting : ∀ id callback, s.ledger.pending[id]? = some callback →
    ∃ between rest, Latest id callback between rest s.journal
  early : ∀ id ∈ s.ledger.early, LeftOver id s.journal
  unheard : ∀ id, InFlight id s.journal → id ∉ s.ledger.pending → LeftOver id s.journal
  called : Justified s.journal

/-- A link on which nobody is called too early, unless acknowledgements are left over. -/
structure Sound (s : Session) : Prop extends Lending s where
  told : Solicited s.journal → Told s

theorem sound_opened (settings : Settings) (order : VisitOrder Callback) :
    (opened settings order).Sound where
  toLending := lending_opened settings order
  told _ := {
    waiting := fun id callback h => by simp [opened, attached] at h
    early := fun id h => by simp [opened, attached] at h
    unheard := fun _ h => h.elim
    called := trivial }

theorem told_of_silent (news : List Occurrence) (hs : s.Told) (hl : t.ledger = s.ledger)
    (hj : t.journal = news ++ s.journal) (hn : ∀ o ∈ news, o.silent) : t.Told where
  waiting k callback hk := by
    rw [hl] at hk
    obtain ⟨between, rest, hlatest⟩ := hs.waiting k callback hk
    rw [hj]
    exact ⟨_, rest, hlatest.append fun o ho => Occurrence.spares_of_silent (hn o ho) k⟩
  early k hk := by
    rw [hj, leftOver_append hn]
    exact hs.early k (by rwa [hl] at hk)
  unheard k hk hnot := by
    rw [hj, leftOver_append hn]
    rw [hj, inFlight_append hn] at hk
    exact hs.unheard k hk (by rwa [hl] at hnot)
  called := by
    rw [hj, justified_append hn]
    exact hs.called

theorem sound_of_silent (news : List Occurrence) (hs : s.Sound) (ht : t.Lending)
    (hl : t.ledger = s.ledger) (hj : t.journal = news ++ s.journal)
    (hn : ∀ o ∈ news, o.silent) : t.Sound where
  toLending := ht
  told hsol := told_of_silent news (hs.told (by rwa [hj, solicited_append hn] at hsol)) hl hj hn

theorem sound_of_aside ⦃s t : Session⦄ (h : Aside s t) : Keeping Sound s t := by
  intro hs
  obtain ⟨news, hj, hq⟩ := h.journal
  exact sound_of_silent news hs (lending_of_aside h hs.toLending) h.ledger hj
    fun o ho => Occurrence.silent_of_quiet (hq o ho)

theorem framed_sound : Framed (·.onLink) Sound :=
  ⟨sound_of_aside, fun _ hs => hs.handlers⟩

theorem sound_noted (hs : s.Sound) {o : Occurrence} (hneutral : o.neutral) (h : o.silent) :
    (s.noted o).Sound :=
  sound_of_silent [o] hs (lending_noted hs.toLending hneutral) rfl rfl (by simpa using h)

theorem sound_of_refused (h : Refused s t) (hs : s.Sound) : t.Sound := by
  obtain ⟨news, hj, hn⟩ := h.journal
  refine sound_of_silent news hs (lending_of_refused h hs.toLending) h.ledger hj fun o ho => ?_
  rcases hn o ho with hq | ⟨m, k, code, hcode, rfl⟩
  · exact Occurrence.silent_of_quiet hq
  · simpa [Occurrence.silent] using hcode

theorem sound_setHandler (slot : Slot) (handler : Callback) (hc : handler.Confined (·.onLink))
    (s : Session) (hs : s.Sound) : (s.setHandler slot handler).Sound where
  toLending := lending_setHandler slot hc hs.toLending
  told hsol := told_of_silent [] (hs.told hsol) rfl rfl (by simp)

theorem sound_clearHandlers (s : Session) (hs : s.Sound) : s.clearHandlers.Sound where
  toLending := lending_clearHandlers hs.toLending
  told hsol := told_of_silent [] (hs.told hsol) rfl rfl (by simp)

/-- A callback that is due is called. -/
theorem sound_invoked {c : Callback} (hs : s.Sound)
    (hdue : Solicited s.journal → Due id (some c) s.journal) (view : View) :
    (s.noted (.invoked id c .completed view)).Sound where
  toLending := lending_noted hs.toLending rfl
  told hsol := {
    waiting := by
      intro k callback hk
      have hspares : ∀ o ∈ [Occurrence.invoked id c .completed view], o.Spares k :=
        List.forall_mem_singleton.mpr ⟨nofun, nofun⟩
      obtain ⟨between, rest, hlatest⟩ := (hs.told hsol).waiting k callback hk
      exact ⟨_, rest, hlatest.append hspares⟩
    early := (hs.told hsol).early
    unheard := (hs.told hsol).unheard
    called := ⟨hdue hsol, (hs.told hsol).called⟩ }

/-! ### The ledger has just been changed -/

theorem sound_abandoning (hs : s.Sound) : s.abandoning.Sound where
  toLending := lending_abandoning hs.toLending
  told hsol := {
    waiting := fun k callback hk => by simp [abandoning] at hk
    early := fun k hk => by simp [abandoning] at hk
    unheard := fun k hk _ => hk
    called := (hs.told hsol).called }

/-- Of an acknowledgement that nobody waits for, the request was called off or has been completed by
another one that was left over. -/
theorem sound_settling {o : Occurrence} (ho : o.quiet) (hs : s.Sound) (holders : Nat) :
    (({ (s.freeing id).noted o with holders := holders } : Session).settling id).Sound where
  toLending := lending_settling_of_heard ho hs.toLending holders
  told hsol := by
    have hsilent : ∀ o' ∈ [o], o'.silent := by simpa using Occurrence.silent_of_quiet ho
    have hsol : InFlight id s.journal ∧ Solicited s.journal := (solicited_append hsilent).mp hsol
    have htold := hs.told hsol.2
    have hleft {k : PacketId} (h : LeftOver k s.journal) :
        LeftOver k (o :: .acknowledged id :: s.journal) := (leftOver_append hsilent k).mpr h
    have hspares (k : PacketId) : ∀ o' ∈ [o, .acknowledged id], o'.Spares k :=
      List.forall_mem_cons.mpr ⟨Occurrence.spares_of_silent (Occurrence.silent_of_quiet ho) k,
        List.forall_mem_singleton.mpr (Occurrence.spares_acknowledged id _)⟩
    refine ⟨fun k callback hk => ?_, fun k hk => ?_, fun k hk hnot => ?_,
      (justified_append hsilent).mpr htold.called⟩
    · rw [settling, withLedger_ledger, Ledger.getElem?_settle] at hk
      split at hk
      · cases hk
      next =>
        obtain ⟨between, rest, hlatest⟩ := htold.waiting k callback hk
        exact ⟨_, rest, hlatest.append (hspares k)⟩
    · rcases (Ledger.mem_early_settle _ _ _).mp hk with hk | ⟨rfl, hk⟩
      · exact hleft (htold.early k hk)
      · exact hleft (htold.unheard k hsol.1 hk)
    · obtain ⟨hne, hk⟩ : id ≠ k ∧ InFlight k s.journal := (inFlight_append hsilent k).mp hk
      refine hleft (htold.unheard k hk fun hm => hnot ?_)
      exact Ledger.mem_pending_settle.mpr ⟨Ne.symm hne, hm⟩

/-- A request that finds an acknowledgement was acknowledged early, or that acknowledgement was left
over. -/
theorem due_of_accepted {r : Request} (callback : Option Callback) (hs : s.Told)
    (h : Accepted r id s t) (he : id ∈ t.ledger.early) :
    Due id callback (.foundAcknowledged id :: .tracked id callback :: t.journal) := by
  cases h with
  | late _ _ _ _ _ ledger journal =>
    refine ⟨[.foundAcknowledged id, .tracked id callback], s.journal, ?_, .inr (hs.early id ?_)⟩
    · exact {
        accepted := ⟨r.method, by rw [journal]; rfl⟩
        tracked := by simp
        last := by simp
        kept := by simp }
    · rwa [ledger] at he
  | early _ _ _ _ _ ledger journal =>
    obtain ⟨o, ho, journal⟩ := journal
    have hspares : o.Spares id := Occurrence.spares_of_silent (Occurrence.silent_of_quiet ho) id
    refine ⟨[.foundAcknowledged id, .tracked id callback, .deferred id, o, .acknowledged id],
      s.journal, ?_, .inl (by simp)⟩
    exact {
      accepted := ⟨r.method, by rw [journal]; rfl⟩
      tracked := by simp
      last := fun m hm => hspares.1 m (by simpa [eq_comm] using hm)
      kept := fun n hm => hspares.2 n (by simpa [eq_comm] using hm) }

/-- An operation is tracked right after its request was accepted. -/
theorem told_tracking_late {m : Method} (callback : Option Callback) (hs : s.Told)
    (hnone : s.ledger.pending[id]? = none) (hl : t.ledger = s.ledger)
    (hj : t.journal = .issued m id 0 :: s.journal) : (t.tracking id callback).Told := by
  have hledger : (t.tracking id callback).ledger = (s.ledger.track id callback).2 :=
    congrArg (fun l : Ledger Callback => (l.track id callback).2) hl
  have hjournal : (t.tracking id callback).journal =
      .tracked id callback :: .issued m id 0 :: s.journal :=
    congrArg (Occurrence.tracked id callback :: ·) hj
  refine ⟨fun k c hk => ?_, fun k hk => ?_, fun k hk hnot => ?_, ?_⟩
  · rw [hledger, Ledger.getElem?_track] at hk
    rw [hjournal]
    split at hk
    next hid =>
      cases hk
      rw [hid.1]
      exact ⟨[.tracked id callback], s.journal, ⟨m, rfl⟩, by simp, by simp, by simp⟩
    next =>
      have hne : k ≠ id := by
        rintro rfl
        rw [hnone] at hk
        cases hk
      have hspares : ∀ o ∈ [Occurrence.tracked id callback, .issued m id 0], o.Spares k :=
        List.forall_mem_cons.mpr ⟨Occurrence.spares_of_silent rfl k,
          List.forall_mem_singleton.mpr (Occurrence.spares_issued m 0 hne)⟩
      obtain ⟨between, rest, hlatest⟩ := hs.waiting k c hk
      exact ⟨_, rest, hlatest.append hspares⟩
  · rw [hledger, Ledger.mem_early_track] at hk
    rw [hjournal]
    exact hs.early k hk.2
  · rw [hledger, Ledger.mem_pending_track, not_or, not_and_not_right] at hnot
    rw [hjournal] at hk ⊢
    rcases hk with ⟨rfl, -⟩ | hk
    · exact hs.early id (hnot.1 rfl)
    · exact hs.unheard k hk hnot.2
  · rw [hjournal]
    exact hs.called

/-- An operation is tracked after its request was accepted and acknowledged. -/
theorem told_tracking_early {m : Method} {o : Occurrence} (ho : o.quiet)
    (callback : Option Callback) (hs : s.Told) (hnone : s.ledger.pending[id]? = none)
    (hl : t.ledger = (s.ledger.settle id).2)
    (hj : t.journal = .deferred id :: o :: .acknowledged id :: .issued m id 0 :: s.journal) :
    (t.tracking id callback).Told := by
  have hledger : (t.tracking id callback).ledger =
      ((s.ledger.settle id).2.track id callback).2 :=
    congrArg (fun l : Ledger Callback => (l.track id callback).2) hl
  have hjournal : (t.tracking id callback).journal = [.tracked id callback, .deferred id, o] ++
      .acknowledged id :: .issued m id 0 :: s.journal :=
    congrArg (Occurrence.tracked id callback :: ·) hj
  have hmem : id ∈ (s.ledger.settle id).2.early :=
    (Ledger.mem_early_settle _ _ _).mpr (.inr ⟨rfl, fun hm => by
      rw [Std.ExtTreeMap.mem_iff_isSome_getElem?, hnone] at hm
      cases hm⟩)
  have hsilent : ∀ o' ∈ [.tracked id callback, .deferred id, o], o'.silent :=
    List.forall_mem_cons.mpr ⟨rfl, List.forall_mem_cons.mpr ⟨rfl,
      List.forall_mem_singleton.mpr (Occurrence.silent_of_quiet ho)⟩⟩
  refine ⟨fun k c hk => ?_, fun k hk => ?_, fun k hk hnot => ?_, ?_⟩
  · rw [hledger, Ledger.getElem?_track, if_neg (fun h => h.2 hmem), Ledger.getElem?_settle] at hk
    rw [hjournal]
    split at hk
    · cases hk
    next hne =>
      have hspares : ∀ o' ∈ [.tracked id callback, .deferred id, o] ++
          [.acknowledged id, .issued m id 0], o'.Spares k :=
        List.forall_mem_append.mpr ⟨fun o' ho' => Occurrence.spares_of_silent (hsilent o' ho') k,
          List.forall_mem_cons.mpr ⟨⟨nofun, nofun⟩,
            List.forall_mem_singleton.mpr (Occurrence.spares_issued m 0 hne)⟩⟩
      obtain ⟨between, rest, hlatest⟩ := hs.waiting k c hk
      exact ⟨_, rest, hlatest.append hspares⟩
  · rw [hledger, Ledger.mem_early_track, Ledger.mem_early_settle] at hk
    rw [hjournal]
    refine (leftOver_append hsilent k).mpr (hs.early k ?_)
    exact hk.2.resolve_right fun h => hk.1 h.1
  · rw [hledger, Ledger.mem_pending_track, not_or, Ledger.mem_pending_settle] at hnot
    rw [hjournal] at hk ⊢
    obtain ⟨hne, hk⟩ := (inFlight_append hsilent k).mp hk
    have hk : InFlight k s.journal := hk.resolve_left fun h => hne h.1
    refine (leftOver_append hsilent k).mpr (hs.unheard k hk fun hm => hnot.2 ?_)
    exact ⟨Ne.symm hne, hm⟩
  · rw [hjournal]
    exact (justified_append hsilent).mpr hs.called

theorem told_tracking {r : Request} (callback : Option Callback) (hs : s.Told)
    (hnone : s.ledger.pending[id]? = none) (h : Accepted r id s t) :
    (t.tracking id callback).Told := by
  cases h with
  | late _ _ _ _ _ ledger journal => exact told_tracking_late callback hs hnone ledger journal
  | early _ _ _ _ _ ledger journal =>
    obtain ⟨o, ho, journal⟩ := journal
    exact told_tracking_early ho callback hs hnone ledger journal

theorem solicited_of_accepted {r : Request} (h : Accepted r id s t) (hsol : Solicited t.journal) :
    Solicited s.journal := by
  cases h with
  | late _ _ _ _ _ _ journal =>
    rw [journal] at hsol
    exact hsol
  | early _ _ _ _ _ _ journal =>
    obtain ⟨o, ho, journal⟩ := journal
    have hsilent : ∀ o' ∈ [.deferred id, o], o'.silent := List.forall_mem_cons.mpr ⟨rfl,
      List.forall_mem_singleton.mpr (Occurrence.silent_of_quiet ho)⟩
    rw [journal] at hsol
    exact ((solicited_append hsilent).mp hsol).2

/-! ## Calls -/

section

variable {run : Runner} (hrun : ∀ step, step.All (·.onLink) → Within (Keeping Sound) (run step))
include hrun

theorem sound_invoke_cancelled {c : Callback} (hc : c.Confined (·.onLink)) :
    Within (Keeping Sound) (invoke run id .cancelled c) :=
  within_invoke (calm_of_aside sound_of_aside) (fun _ hs => sound_noted hs rfl rfl) fun n hn =>
    hrun n (hc n hn)

theorem sound_invoke_completed {callback : Option Callback} {r : Except Fatal Unit}
    (h : invoke? run id .completed callback s = some (r, t))
    (hc : ∀ c, callback = some c → c.Confined (·.onLink)) (hs : s.Sound)
    (hdue : Solicited s.journal → Due id callback s.journal) : t.Sound := by
  cases callback with
  | none =>
    cases h
    exact hs
  | some c =>
    have hreact : Within (Keeping Sound) (do contain .callback (← react run c)) :=
      within_bind (keeping_react framed_sound hrun (hc c rfl)) fun _ =>
        (aside_contain _ _).mono sound_of_aside
    rw [invoke?, invoke_apply] at h
    exact hreact h (sound_invoked hs hdue _)

theorem sound_abandon : Within (Keeping Sound) (abandon run) := by
  intro s r t h hs
  rw [abandon_apply] at h
  refine within_cancelEach (calm_of_aside sound_of_aside) _ (fun id c hm => ?_) h
    (sound_abandoning hs)
  exact sound_invoke_cancelled hrun (hs.waiting id c (mem_batch.mp hm))

theorem sound_settle {o : Occurrence} {r : Except Fatal Unit} {holders : Nat} (ho : o.quiet)
    (hs : s.Sound)
    (h : settle run id { (s.freeing id).noted o with holders := holders } = some (r, t)) :
    t.Sound := by
  have hsettling : (({ (s.freeing id).noted o with holders := holders } : Session).settling
      id).Sound := sound_settling ho hs holders
  generalize hu : ({ (s.freeing id).noted o with holders := holders } : Session) = u at *
  have hledger : u.ledger = s.ledger := by rw [← hu]; rfl
  have hjournal : u.journal = [o, .acknowledged id] ++ s.journal := by rw [← hu]; rfl
  cases hp : u.ledger.pending[id]? with
  | none =>
    rw [settle_of_not_pending run hp] at h
    cases h
    exact sound_noted hsettling rfl rfl
  | some callback =>
    rw [settle_of_pending run hp] at h
    rw [hledger] at hp
    refine sound_invoke_completed hrun h (fun c hc => hs.waiting id c (by rw [hp, hc]))
      (sound_noted hsettling rfl rfl) fun hsol => ?_
    have hj : ((u.settling id).noted (.settled id)).journal =
        [.settled id, o, .acknowledged id] ++ s.journal := by
      rw [noted_journal, settling, withLedger_journal, hjournal]
      rfl
    have hsilent : ∀ o' ∈ [.settled id, o], o'.silent := List.forall_mem_cons.mpr ⟨rfl,
      List.forall_mem_singleton.mpr (Occurrence.silent_of_quiet ho)⟩
    have hspares : ∀ o' ∈ [.settled id, o] ++ [.acknowledged id], o'.Spares id :=
      List.forall_mem_append.mpr ⟨fun o' ho' => Occurrence.spares_of_silent (hsilent o' ho') id,
        List.forall_mem_singleton.mpr (Occurrence.spares_acknowledged id _)⟩
    rw [hj] at hsol ⊢
    obtain ⟨-, hsol⟩ := (solicited_append hsilent).mp hsol
    obtain ⟨between, rest, hlatest⟩ := (hs.told hsol).waiting id callback hp
    exact ⟨_, rest, hlatest.append hspares, .inl (by simp)⟩

theorem sound_request (r : Request) {callback : Option Callback}
    (hc : ∀ c, callback = some c → c.Confined (·.onLink)) :
    Within (Keeping Sound) (request run r callback) := by
  intro s answer u h hs
  rcases request_apply run r callback hs.toLinked hs.onLoan with
    ⟨f, t, ht, hrefused⟩ | ⟨id, t, haccepted, ht⟩
  · rw [ht] at h
    cases h
    exact sound_of_refused hrefused hs
  · rw [ht] at h
    obtain ⟨_, htrack⟩ := track_of_trackAccepted h
    obtain ⟨hnone, hnone'⟩ := pending_eq_none_of_accepted hs.toLending haccepted
    have htracking : (t.tracking id callback).Sound := {
      toLending := lending_tracking_of_accepted hc hs.toLending haccepted
      told := fun hsol =>
        told_tracking callback (hs.told (solicited_of_accepted haccepted hsol)) hnone haccepted }
    by_cases he : id ∈ t.ledger.early
    · rw [track_of_mem_early run he] at htrack
      exact sound_invoke_completed hrun htrack hc (sound_noted htracking rfl rfl) fun hsol =>
        due_of_accepted callback (hs.told (solicited_of_accepted haccepted hsol)) haccepted he
    · rw [track_of_not_mem_early run he, hnone'] at htrack
      cases htrack
      exact sound_noted htracking rfl rfl

theorem sound_deliver_acknowledgement {event : BrokerEvent}
    (he : event.acknowledged? = some id) : Within (Keeping Sound) (deliver run event) := by
  intro s answer u h hs
  obtain ⟨o, ho, hdeliver⟩ := deliver_acknowledgement run he hs.sink
  have howned : ((s.freeing id).noted o).owned := hs.owned
  rw [hdeliver, acknowledge_of_owned run howned] at h
  obtain ⟨r, t, ht, h⟩ := bind_eq_some_iff.mp h
  cases h
  obtain ⟨w, hsettle, ht⟩ := exists_of_holding ht
  rw [ht]
  exact sound_of_aside (aside_holders w _) (sound_settle hrun ho hs hsettle)

theorem sound_perform {step : Step} (hstep : step.All (·.onLink)) :
    Within (Keeping Sound) (perform run step) :=
  keeping_perform framed_sound sound_setHandler sound_clearHandlers (sound_abandon hrun)
    (fun r _ => sound_request hrun r) (fun _ _ => sound_deliver_acknowledgement hrun) hrun hstep

end

theorem sound_performAll {depth : Nat} {steps : List Step}
    (hsteps : ∀ step ∈ steps, step.All (·.onLink)) :
    Within (Keeping Sound) (performAll depth steps) :=
  within_performAll fun step hm =>
    within_performTo (fun _ hrun _ => sound_perform hrun) depth (hsteps step hm)

/-- In every run of a link whose client chooses the identifiers, and in which only requests in
flight are acknowledged, a callback is called as completed only for the latest request under its
identifier, which has not been abandoned, and only when that request has been acknowledged or the
identifier was in flight at the last abandonment before the request. -/
theorem completed_of_acknowledged {steps : List Step}
    (hsteps : ∀ step ∈ steps, step.All (·.onLink)) {settings : Settings}
    {order : VisitOrder Callback} {depth : Nat} {s : Session}
    (h : performAll depth steps (opened settings order) = some ((), s))
    (hsol : Solicited s.journal) (newer older : List Occurrence) {id : PacketId} {c : Callback}
    {view : View} (hj : s.journal = newer ++ .invoked id c .completed view :: older) :
    ∃ between rest, Latest id (some c) between rest older ∧
      (.acknowledged id ∈ between ∨ LeftOver id rest) := by
  have hs : s.Sound := sound_performAll hsteps h (sound_opened settings order)
  have hjustified := (hs.told hsol).called
  rw [hj] at hjustified
  exact due_of_justified hjustified

/-! ## Two requests -/

/-- A callback that does nothing. -/
def labelled (label : String) : Callback :=
  ⟨label, [], .ok (), true⟩

theorem performAll_cons {depth : Nat} {step : Step} {rest : List Step} {a : Answer}
    (h : performTo depth step s = some (a, t)) :
    performAll depth (step :: rest) s = performAll depth rest t :=
  bind_of_eq_some h _

theorem all_unsubscribe (filter label : String) :
    Step.All (·.onLink) (.unsubscribe filter (some (labelled label))) := by
  refine .intro _ rfl ?_
  rintro _ ⟨⟩
  exact List.forall_mem_nil _

/-- A request, and its acknowledgement. -/
def answered : List Step :=
  [.unsubscribe "t" (some (labelled "first")), .acknowledgeUnsubscribe 1]

/-- A request that is abandoned before it is acknowledged, and another one. -/
def answeredLate : List Step :=
  [.unsubscribe "t" (some (labelled "first")), .disconnect true, .acknowledgeUnsubscribe 1,
    .unsubscribe "t" (some (labelled "second"))]

theorem all_answered : ∀ step ∈ answered, step.All (·.onLink) :=
  List.forall_mem_cons.mpr ⟨all_unsubscribe "t" "first",
    List.forall_mem_singleton.mpr (.intro _ rfl (fun _ hc => by cases hc))⟩

theorem all_answeredLate : ∀ step ∈ answeredLate, step.All (·.onLink) :=
  List.forall_mem_cons.mpr ⟨all_unsubscribe "t" "first",
    List.forall_mem_cons.mpr ⟨.intro _ rfl (fun _ hc => by cases hc),
      List.forall_mem_cons.mpr ⟨.intro _ rfl (fun _ hc => by cases hc),
        List.forall_mem_singleton.mpr (all_unsubscribe "t" "second")⟩⟩⟩

/-- A link whose client has nothing scripted, and nothing on loan. -/
structure Unused (s : Session) : Prop where
  owned : s.owned
  replies : s.client.replies .unsubscribe = []
  queuedIds : s.client.queuedIds = []
  pool : s.client.pool = .fresh
  late : s.client.completesEarly = false
  issueHook : s.client.issueHook = none

theorem performTo_unsubscribe_of_unused {callback : Option Callback} (hs : s.Unused)
    (h : track (performTo 1) 1 callback
      ((({ s with holders := s.holders + 1 } : Session).entering .unsubscribe
        [.topic "t"]).accepting (.unsubscribe "t")) = some (.ok (), t)) :
    performTo 2 (.unsubscribe "t" callback) s =
      some (.id 1, { t.noted (.left .unsubscribe) with holders := t.holders - 1 }) := by
  have hrequest := (request_of_fresh
    (s := ({ s with holders := s.holders + 1 } : Session).entering .unsubscribe [.topic "t"])
    (r := .unsubscribe "t") (performTo 1) callback rfl hs.replies hs.queuedIds hs.pool hs.late
    hs.issueHook).trans (bind_of_eq_some h _)
  have hanswer := answeringRequest_of_eq_some (r := .unsubscribe "t") hrequest
  exact (withLink_of_owned hs.owned _).trans (holding_of_eq_some hanswer)

/-- The span of a call with the settings that a link has by default. -/
def spanByDefault (operation : Operation) (arguments : List Argument) : Occurrence :=
  .entered (.ofCall operation arguments default)

/-- One request waits. -/
def oneWaiting : Session :=
  { opened default (.ascending _) with
    client := { (opened default (.ascending _)).client with
      pool := ⟨1, ∅⟩
      record := [.unsubscribe "t", .setSink true] }
    ledger := (({} : Ledger Callback).track 1 (some (labelled "first"))).2
    journal := [.left .unsubscribe, .waiting 1, .tracked 1 (some (labelled "first")),
      .issued .unsubscribe 1 0, spanByDefault .unsubscribe [.topic "t"]] }

/-- It has been abandoned. -/
def oneAbandoned : Session :=
  { opened default (.ascending _) with
    client := { oneWaiting.client with
      record := .stopLoop :: .disconnect :: oneWaiting.client.record }
    sweeps := 1
    journal := .sweepEnded :: .left .disconnect ::
      .invoked 1 (labelled "first") .cancelled ⟨{}, ⟨1, ∅⟩⟩ :: .abandoned 1 :: .loopStopped ::
      .disconnecting :: spanByDefault .disconnect [.clear true] :: .sweepBegun ::
      oneWaiting.journal }

/-- It has been acknowledged after that. -/
def oneRemembered : Session :=
  { oneAbandoned with
    client := { oneAbandoned.client with pool := .fresh }
    ledger := (({} : Ledger Callback).settle 1).2
    journal := .deferred 1 :: .unsubscribed 1 :: .acknowledged 1 :: oneAbandoned.journal }

/-- Another request has found that acknowledgement. -/
def oneMistaken : Session :=
  { oneAbandoned with
    client := { oneAbandoned.client with
      record := .unsubscribe "t" :: oneAbandoned.client.record }
    journal := .left .unsubscribe :: .invoked 1 (labelled "second") .completed ⟨{}, ⟨1, ∅⟩⟩ ::
      .foundAcknowledged 1 :: .tracked 1 (some (labelled "second")) :: .issued .unsubscribe 1 0 ::
      spanByDefault .unsubscribe [.topic "t"] :: oneRemembered.journal }

theorem performTo_unsubscribe_opened :
    performTo 2 (.unsubscribe "t" (some (labelled "first"))) (opened {} (.ascending _)) =
      some (.id 1, oneWaiting) :=
  (performTo_unsubscribe_of_unused ⟨rfl, rfl, rfl, rfl, rfl, rfl⟩ rfl).trans rfl

theorem completed_of_acknowledged_answered :
    ∃ s older view between rest, performAll 2 answered (opened {} (.ascending _)) = some ((), s) ∧
      s.journal = .invoked 1 (labelled "first") .completed view :: older ∧
      Latest 1 (some (labelled "first")) between rest older ∧
      (.acknowledged 1 ∈ between ∨ LeftOver 1 rest) := by
  obtain ⟨s, view, hs, hj⟩ : ∃ s view,
      performTo 2 (.acknowledgeUnsubscribe 1) oneWaiting = some (.done, s) ∧
        s.journal = .invoked 1 (labelled "first") .completed view :: .settled 1 ::
          .unsubscribed 1 :: .acknowledged 1 :: oneWaiting.journal := ⟨_, _, rfl, rfl⟩
  have hrun : performAll 2 answered (opened {} (.ascending _)) = some ((), s) :=
    (performAll_cons performTo_unsubscribe_opened).trans (performAll_cons hs)
  have hsol : Solicited s.journal := by
    rw [hj]
    exact ⟨.inl ⟨rfl, rfl⟩, trivial⟩
  obtain ⟨between, rest, hlatest, hdue⟩ := completed_of_acknowledged all_answered hrun hsol [] _ hj
  exact ⟨s, _, view, between, rest, hrun, hj, hlatest, hdue⟩

theorem performAll_answeredLate :
    performAll 2 answeredLate (opened {} (.ascending _)) = some ((), oneMistaken) :=
  have habandoned : performTo 2 (.disconnect true) oneWaiting = some (.done, oneAbandoned) := rfl
  have hremembered : performTo 2 (.acknowledgeUnsubscribe 1) oneAbandoned =
    some (.done, oneRemembered) := rfl
  have hmistaken : performTo 2 (.unsubscribe "t" (some (labelled "second"))) oneRemembered =
      some (.id 1, oneMistaken) :=
    (performTo_unsubscribe_of_unused ⟨rfl, rfl, rfl, rfl, rfl, rfl⟩ rfl).trans rfl
  (performAll_cons performTo_unsubscribe_opened).trans <| (performAll_cons habandoned).trans <|
    (performAll_cons hremembered).trans (performAll_cons hmistaken)

/-- The second callback is called, and its request has not been acknowledged. -/
theorem completed_of_leftOver : (∀ step ∈ answeredLate, step.All (·.onLink)) ∧
    ∃ s newer older view, performAll 2 answeredLate (opened {} (.ascending _)) = some ((), s) ∧
      Solicited s.journal ∧
      s.journal = newer ++ .invoked 1 (labelled "second") .completed view :: older ∧
      ∀ between rest, Latest 1 (some (labelled "second")) between rest older →
        .acknowledged 1 ∉ between := by
  have hsol : Solicited oneMistaken.journal := ⟨.inl ⟨rfl, rfl⟩, trivial⟩
  refine ⟨all_answeredLate, oneMistaken, [.left .unsubscribe], _, _, performAll_answeredLate, hsol,
    rfl, ?_⟩
  -- The request was accepted two entries before, and it is the last under its identifier.
  intro between rest hlatest
  obtain ⟨m, heq⟩ := hlatest.accepted
  rcases between with _ | ⟨_, _ | ⟨_, _ | ⟨o, between⟩⟩⟩
  · cases heq
  · cases heq
  · cases heq
    simp
  · obtain ⟨-, heq⟩ := List.cons.inj heq
    obtain ⟨-, heq⟩ := List.cons.inj heq
    obtain ⟨rfl, -⟩ := List.cons.inj heq
    exact absurd (by simp) (hlatest.last .unsubscribe)

end Session

end MqttLink
