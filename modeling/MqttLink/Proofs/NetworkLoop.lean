import MqttLink.Proofs.Law
import MqttLink.Proofs.Upkeep

/-!
The network loop of the client. Connecting starts it, as the last thing that can fail, and five
kinds of calls and events stop it. Main statement: the loop runs just when a connect went well and
nothing has stopped it since, whatever a session does, as long as nobody starts the loop behind its
back.
-/

namespace MqttLink

/-- Whether the network loop runs, by what a journal tells. -/
def loopRuns : List Occurrence → Bool
  | [] => false
  | .connectDone :: _ => true
  | .loopStopped :: _ => false
  | _ :: older => loopRuns older

theorem loopRuns_cons {o : Occurrence} (hc : o ≠ .connectDone) (hs : o ≠ .loopStopped)
    (older : List Occurrence) : loopRuns (o :: older) = loopRuns older := by
  cases o with
  | connectDone => exact absurd rfl hc
  | loopStopped => exact absurd rfl hs
  | _ => rfl

/-- The latest entry that tells of the loop tells that a connect went well. -/
theorem loopRuns_iff {journal : List Occurrence} :
    loopRuns journal ↔
      ∃ later earlier, journal = later ++ .connectDone :: earlier ∧ .loopStopped ∉ later := by
  induction journal with
  | nil => simp [loopRuns]
  | cons o older ih =>
    have hcons (hc : o ≠ .connectDone) (hs : o ≠ .loopStopped) : loopRuns (o :: older) ↔
        ∃ later earlier, o :: older = later ++ .connectDone :: earlier ∧ .loopStopped ∉ later := by
      rw [loopRuns_cons hc hs, ih]
      constructor
      · rintro ⟨later, earlier, rfl, hnone⟩
        exact ⟨o :: later, earlier, rfl, by
          rw [List.mem_cons, not_or]
          exact ⟨Ne.symm hs, hnone⟩⟩
      · rintro ⟨later, earlier, heq, hnone⟩
        cases later with
        | nil => exact absurd (List.cons.inj heq).1 hc
        | cons o' later =>
          exact ⟨later, earlier, (List.cons.inj heq).2, fun h => hnone (List.mem_cons_of_mem _ h)⟩
    cases o with
    | connectDone => exact ⟨fun _ => ⟨[], older, rfl, List.not_mem_nil⟩, fun _ => rfl⟩
    | loopStopped =>
      refine ⟨nofun, ?_⟩
      rintro ⟨later, earlier, heq, hnone⟩
      cases later with
      | nil => cases heq
      | cons o' later =>
        obtain ⟨rfl, -⟩ := List.cons.inj heq
        exact absurd (List.mem_cons_self ..) hnone
    | _ => exact hcons nofun nofun

theorem not_loopRuns_append {later earlier : List Occurrence} (h : .connectDone ∉ later) :
    ¬ loopRuns (later ++ .loopStopped :: earlier) := by
  induction later with
  | nil => exact nofun
  | cons o later ih =>
    rw [List.mem_cons, not_or] at h
    by_cases ho : o = .loopStopped
    · rw [ho]
      exact nofun
    · rw [List.cons_append, loopRuns_cons (Ne.symm h.1) ho]
      exact ih h.2

namespace Client

variable {c d : Client}

theorem looping_startLoop_of_ok (h : c.startLoop = (.ok (), d)) : d.looping := by
  unfold startLoop at h
  split at h
  next =>
    cases h
    rfl
  next => cases h

theorem looping_stopLoop_of_ok (h : c.stopLoop = (.ok (), d)) : d.looping = false := by
  unfold stopLoop at h
  split at h
  next =>
    cases h
    rfl
  next => cases h

theorem replies_takeReply_of_ne {m k : Method} (h : k ≠ m) :
    (c.takeReply m).2.replies k = c.replies k := by
  unfold takeReply
  split
  · rfl
  · exact if_neg h

theorem replies_connect_of_ne {k : Method} (h : k ≠ .connect) (request : ConnectRequest)
    (limit : Option Duration) : (c.connect request limit).2.replies k = c.replies k := by
  simp only [connect]
  split
  · rfl
  · exact replies_takeReply_of_ne h

/-- Only its own replies decide what comes of stopping the loop. -/
theorem stopLoop_fst_congr (h : d.replies .stopLoop = c.replies .stopLoop) :
    d.stopLoop.1 = c.stopLoop.1 := by
  simp only [stopLoop, takeReply, add, h]
  cases c.replies .stopLoop with
  | nil => rfl
  | cons r _ => cases r <;> rfl

end Client

/-- Neither a connect nor a start of the loop behind its back. -/
def Step.lightless (step : Step) : Prop :=
  step ≠ .clientStartLoop ∧ ∀ password, step ≠ .connect password

namespace Session

open Play

variable {α β : Type} {s t u : Session} {c : Client}

/-! ## What runs and what is written down -/

/-- The loop runs just when the journal tells so. -/
def Accounted (s : Session) : Prop :=
  s.client.looping = loopRuns s.journal

theorem accounted_noted (hs : s.Accounted) {o : Occurrence} (hc : o ≠ .connectDone)
    (ht : o ≠ .loopStopped) : (s.noted o).Accounted :=
  hs.trans (loopRuns_cons hc ht s.journal).symm

theorem accounted_starting (h : s.client.startLoop = (.ok (), c)) : (s.starting c).Accounted :=
  Client.looping_startLoop_of_ok h

theorem accounted_stopping (h : s.client.stopLoop = (.ok (), c)) : (s.stopping c).Accounted :=
  Client.looping_stopLoop_of_ok h

theorem upkeep_accounted :
    Upkeep (·.Throughout (· ≠ .clientStartLoop)) (Keeping Accounted) where
  carried _ _ h hc := h.carried hc
  scripted _ h := h.scripted
  noted s o h hs := by
    refine accounted_noted hs ?_ ?_
    · rintro rfl
      cases h
    · rintro rfl
      cases h
  same s t hj _ _ _ _ _ hl hs := by rw [Accounted, hj, hl]; exact hs
  held _ _ h := h
  started _ h := absurd rfl h.own
  connected _ _ _ _ h _ := accounted_starting h
  stopped _ _ h _ := accounted_stopping h
  queued _ _ _ hs := hs
  freed _ _ hs := accounted_noted hs nofun nofun
  given s m id c code h hs := by
    obtain ⟨ids, pool, rfl⟩ := Client.exists_of_takeId h
    refine accounted_noted (s := { s with client := _ }) ?_ nofun nofun
    split <;> exact hs

/-! ## Connecting -/

/-- From `s` to `t` no connect went well, and the loop was not started. -/
structure Unlit (s t : Session) : Prop where
  looping : t.client.looping → s.client.looping
  journal : ∃ news, t.journal = news ++ s.journal ∧ .connectDone ∉ news

instance : IsPreorder Session Unlit where
  refl s := ⟨id, [], rfl, List.not_mem_nil⟩
  trans s t u h k := by
    obtain ⟨news, hn, hnone⟩ := h.journal
    obtain ⟨later, hl, hnone'⟩ := k.journal
    refine ⟨fun hu => h.looping (k.looping hu), later ++ news, ?_, ?_⟩
    · rw [hl, hn, List.append_assoc]
    · rw [List.mem_append, not_or]
      exact ⟨hnone', hnone⟩

theorem unlit_noted (s : Session) {o : Occurrence} (h : o ≠ .connectDone) : Unlit s (s.noted o) :=
  ⟨id, [o], rfl, by
    rw [List.mem_singleton]
    exact Ne.symm h⟩

theorem unlit_entering (s : Session) (operation : Operation) (arguments : List Argument) :
    Unlit s (s.entering operation arguments) :=
  unlit_noted s nofun

theorem unlit_note {o : Occurrence} (h : o ≠ .connectDone) : Within Unlit (note o) :=
  within_note fun s => unlit_noted s h

theorem unlit_onClient {f : Client → α × Client} (h : ∀ c : Client, (f c).2.looping = c.looping) :
    Within Unlit (onClient f) :=
  within_onClient fun s => ⟨fun ht => by rw [← h s.client]; exact ht, [], rfl, List.not_mem_nil⟩

/-- Stopping the loop succeeds, which is written down, or changes nothing. -/
theorem stopLoop_cases {r : Except ClientFault Unit} (h : Play.stopLoop s = some (r, t)) :
    r = .ok () ∧ t.journal = .loopStopped :: s.journal ∧ ¬ t.client.looping ∨
      (∃ f, r = .error f) ∧ t.journal = s.journal ∧ t.client.looping = s.client.looping := by
  match hr : s.client.stopLoop with
  | (.ok (), c) =>
    rw [stopLoop_of_ok hr] at h
    cases h
    have hoff : c.looping = false := Client.looping_stopLoop_of_ok hr
    exact .inl ⟨rfl, rfl, by simp [stopping, hoff]⟩
  | (.error f, c) =>
    rw [stopLoop_of_error hr] at h
    cases h
    exact .inr ⟨⟨f, rfl⟩, rfl, Client.looping_stopLoop_of_error hr⟩

theorem unlit_stopLoop : Within Unlit Play.stopLoop := by
  intro s a t h
  rcases stopLoop_cases h with ⟨-, hj, hoff⟩ | ⟨-, hj, hsame⟩
  · exact ⟨fun hon => absurd hon hoff, [.loopStopped], hj, by simp⟩
  · exact ⟨fun hon => by rw [← hsame]; exact hon, [], hj, List.not_mem_nil⟩

/-- Nothing but a connect writes down that one went well, or starts the loop. -/
theorem upkeep_unlit : Upkeep (·.Throughout Step.lightless) Unlit where
  carried _ _ h hc := h.carried hc
  scripted _ h := h.scripted
  noted s o h := unlit_noted s fun ho => by
    subst ho
    cases h
  same s t hj _ _ _ _ _ hl := ⟨fun hon => by rw [← hl]; exact hon, [], hj, List.not_mem_nil⟩
  held _ _ h := ⟨h.looping, h.journal⟩
  started _ h := absurd rfl h.own.1
  connected _ _ password h _ := absurd rfl (h.own.2 password)
  stopped _ _ h := unlit_stopLoop (stopLoop_of_ok h)
  queued _ _ _ := ⟨id, [], rfl, List.not_mem_nil⟩
  freed _ _ := ⟨id, [_], rfl, by simp⟩
  given s m id c code h := by
    obtain ⟨ids, pool, rfl⟩ := Client.exists_of_takeId h
    refine ⟨fun hon => ?_, [_], rfl, by simp⟩
    rw [giving, noted_client] at hon
    simp only at hon
    split at hon <;> exact hon

theorem unlit_tryStopLoop : Within Unlit tryStopLoop := by
  refine within_bind unlit_stopLoop fun r => ?_
  match r with
  | .error _ => exact unlit_note nofun
  | .ok _ => exact within_pure _

theorem unlit_stopAfterFailure : Within Unlit stopAfterFailure := by
  refine within_bind (unlit_onClient Client.looping_disconnect) fun r => ?_
  match r with
  | .error _ => exact within_bind (unlit_note nofun) fun _ => unlit_tryStopLoop
  | .ok _ => exact unlit_tryStopLoop

theorem unlit_checkCode (operation : Operation) (code : Int) :
    Within Unlit (checkCode operation code) := by
  unfold checkCode
  split
  · exact within_pure _
  · exact within_bind (unlit_note nofun) fun _ => within_pure _

/-- A connect goes well when it has started the loop as the last thing; one that fails has not
started it. -/
theorem connect_cases {password : Option String} {r : Except Fault Unit}
    (h : connect password s = some (r, t)) :
    (r = .ok () ∧ ∃ u c, Unlit s u ∧ u.client.startLoop = (.ok (), c) ∧ t = u.starting c) ∨
      (∃ f, r = .error f) ∧ Unlit s t := by
  rw [connect_apply] at h
  have hasking : Unlit s (s.asking password) :=
    ⟨fun hon => by rw [asking, Client.looping_connect] at hon; exact hon, [_], rfl, by simp⟩
  have hfailed (o : Occurrence) (f : Fault) (ho : o ≠ .connectDone)
      (h : (do note o; stopAfterFailure; return Except.error f) (s.asking password) = some (r, t)) :
      (∃ f, r = .error f) ∧ Unlit s t := by
    obtain ⟨_, v, hv, h⟩ := bind_eq_some_iff.mp h
    obtain ⟨_, w, hw, h⟩ := bind_eq_some_iff.mp h
    cases h
    exact ⟨⟨f, rfl⟩, IsTrans.trans _ _ _ hasking
      (IsTrans.trans _ _ _ (unlit_note ho hv) (unlit_stopAfterFailure hw))⟩
  match hreply : (s.client.connect s.settings.connectRequest
      (some s.settings.connectTimeout)).1 with
  | none =>
    rw [hreply] at h
    exact .inr (hfailed (.connectTimedOut _) (.timedOut .connect) nofun h)
  | some (.error f) =>
    rw [hreply] at h
    exact .inr (hfailed (.connectFailed f) (.client f) nofun h)
  | some (.ok code) =>
    rw [hreply] at h
    obtain ⟨checked, v, hv, h⟩ := bind_eq_some_iff.mp h
    have hchecked : Unlit s v := IsTrans.trans _ _ _ hasking (unlit_checkCode _ _ hv)
    match checked with
    | .error f =>
      cases h
      exact .inr ⟨⟨f, rfl⟩, hchecked⟩
    | .ok _ =>
      simp only at h
      match hr : v.client.startLoop with
      | (.ok (), c) =>
        rw [finishConnect_of_ok hr] at h
        cases h
        exact .inl ⟨rfl, v, c, hchecked, hr, rfl⟩
      | (.error f, c) =>
        rw [finishConnect_of_error hr] at h
        cases h
        have hsame : c.looping = v.client.looping := Client.looping_startLoop_of_error hr
        exact .inr ⟨⟨_, rfl⟩, IsTrans.trans _ _ _ hchecked
          ⟨fun hon => by rw [← hsame]; exact hon, [], rfl, List.not_mem_nil⟩⟩

/-! ## Stopping -/

/-- From `s` to `t` the loop was stopped. -/
def Halted (s t : Session) : Prop :=
  ∃ later earlier, t.journal = later ++ .loopStopped :: (earlier ++ s.journal)

theorem halted_of_grows (h : Grows s t) (k : Halted t u) : Halted s u := by
  obtain ⟨news, hn⟩ := h
  obtain ⟨later, earlier, hl⟩ := k
  exact ⟨later, earlier ++ news, by rw [hl, hn, List.append_assoc]⟩

theorem Halted.grows (h : Halted s t) (k : Grows t u) : Halted s u := by
  obtain ⟨later, earlier, hl⟩ := h
  obtain ⟨news, hn⟩ := k
  exact ⟨news ++ later, earlier, by rw [hn, hl, List.append_assoc]⟩

/-- From `s` to `t` no reply to stopping the loop was taken. -/
structure Unstopped (s t : Session) : Prop where
  grows : Grows s t
  replies : t.client.replies .stopLoop = s.client.replies .stopLoop

instance : IsPreorder Session Unstopped where
  refl s := ⟨refl s, rfl⟩
  trans _ _ _ h k := ⟨IsTrans.trans _ _ _ h.grows k.grows, k.replies.trans h.replies⟩

theorem unstopped_noted (s : Session) (o : Occurrence) : Unstopped s (s.noted o) :=
  ⟨⟨[o], rfl⟩, rfl⟩

theorem unstopped_disconnect (s : Session) :
    Unstopped s { s with client := s.client.disconnect.2 } :=
  ⟨⟨[], rfl⟩, Client.replies_takeReply_of_ne nofun⟩

theorem unstopped_asking (s : Session) (password : Option String) :
    Unstopped s (s.asking password) :=
  ⟨⟨[_], rfl⟩, Client.replies_connect_of_ne (by simp) _ _⟩

/-- Stopping the loop succeeds if the reply that waits for it says so. -/
theorem halted_of_stopLoop {f : Except ClientFault Unit → Play β} {b : β}
    (hs : s.client.stopLoop.1 = .ok ()) (h : Unstopped s u) (hf : ∀ r, Within Grows (f r))
    (ht : (Play.stopLoop >>= f) u = some (b, t)) : Halted s t := by
  obtain ⟨r, v, hv, ht⟩ := bind_eq_some_iff.mp ht
  have hu : u.client.stopLoop = (.ok (), u.client.stopLoop.2) :=
    Prod.ext ((Client.stopLoop_fst_congr h.replies).trans hs) rfl
  rw [stopLoop_of_ok hu] at hv
  cases hv
  have hstopped : Halted u (u.stopping u.client.stopLoop.2) := ⟨[], [], rfl⟩
  exact halted_of_grows h.grows (hstopped.grows (hf _ ht))

section

variable {run : Runner} {clear : Bool} {code n : Int} {r : Except Fault Unit}

theorem halted_disconnect (hs : s.client.stopLoop.1 = .ok ())
    (hrun : ∀ step, Within Grows (run step)) (h : disconnect run clear s = some (r, t)) :
    Halted s t := by
  rw [disconnect_eq, bind_of_eq_some (note_apply _), bind_of_eq_some (onClient_apply _)] at h
  exact halted_of_stopLoop hs
    (IsTrans.trans _ _ _ (unstopped_noted s .disconnecting) (unstopped_disconnect _))
    (fun _ => law_grows.frame.within_afterDisconnect (fun n _ => hrun n) clear _ _) h

theorem halted_shutDown (hs : s.client.stopLoop.1 = .ok ()) (h : shutDown s = some (r, t)) :
    Halted s t := by
  rw [shutDown_eq, bind_of_eq_some get_apply, bind_of_eq_some (note_apply _),
    bind_of_eq_some (changeClient_apply _), bind_of_eq_some (onClient_apply _)] at h
  have hdetached : Unstopped s { s.noted (.shuttingDown s.settings.clientId) with
      client := s.client.setSink false } := ⟨⟨[_], rfl⟩, rfl⟩
  exact halted_of_stopLoop hs (IsTrans.trans _ _ _ hdetached (unstopped_disconnect _))
    (fun _ => law_grows.frame.within_afterShutDown _ _) h

/-- Hanging up stops the loop if disconnecting goes well. -/
theorem halted_hangUp (hs : s.client.stopLoop.1 = .ok ()) (hd : s.client.disconnect.1 = .ok n)
    (h : hangUp s = some (r, t)) : Halted s t := by
  rw [hangUp, bind_of_eq_some (onClient_apply _), hd] at h
  exact halted_of_stopLoop hs (unstopped_disconnect s) (fun _ => within_pure _) h

theorem halted_routeClose_lost (hs : s.client.stopLoop.1 = .ok ())
    (hrun : ∀ step, Within Grows (run step)) (hcode : code ≠ 0) (halive : s.alive)
    (hd : s.client.disconnect.1 = .ok n) (h : routeClose run code s = some (r, t)) :
    Halted s t := by
  rw [routeClose, bind_of_eq_some get_apply, if_pos halive, if_neg hcode] at h
  obtain ⟨u, hu, rfl⟩ := exists_of_holding h
  rw [bind_of_eq_some (note_apply _)] at hu
  obtain ⟨hung, v, hv, hu⟩ := bind_eq_some_iff.mp hu
  have hhung : Halted (({ s with holders := s.holders + 1 } : Session).noted (.lost code)) v :=
    halted_hangUp (n := n) hs hd hv
  have hrest : Grows v u := by
    match hung with
    | .error f =>
      cases hu
      exact refl _
    | .ok _ =>
      exact law_grows.frame.signal (fun n _ => hrun n) (.disconnected (some (.connectionLost code)))
        hu
  have hhalted : Halted s u := (halted_of_grows ⟨[.lost code], rfl⟩ hhung).grows hrest
  exact hhalted

theorem halted_routeClose_orphaned (hs : s.client.stopLoop.1 = .ok ()) (halive : ¬ s.alive)
    (h : routeClose run code s = some (r, t)) : Halted s t := by
  rw [routeClose, bind_of_eq_some get_apply, if_neg halive, bind_of_eq_some (note_apply _)] at h
  exact halted_of_stopLoop hs (unstopped_noted s _) (fun _ => within_pure _) h

theorem grows_cleanup (stopped : Except ClientFault Unit) : Within Grows (match stopped with
    | .error f => note (.cleanupStopFailed f)
    | .ok _ => pure () : Play Unit) := by
  cases stopped with
  | error f => exact grows_note _
  | ok _ => exact within_pure _

theorem halted_stopAfterFailure (hs : s.client.stopLoop.1 = .ok ()) {a : Unit}
    (h : stopAfterFailure s = some (a, t)) : Halted s t := by
  rw [stopAfterFailure, bind_of_eq_some (onClient_apply _)] at h
  cases hd : s.client.disconnect.1 with
  | error f =>
    rw [hd] at h
    simp only at h
    rw [bind_of_eq_some (note_apply _)] at h
    exact halted_of_stopLoop hs
      (IsTrans.trans _ _ _ (unstopped_disconnect s) (unstopped_noted _ _)) grows_cleanup h
  | ok _ =>
    rw [hd] at h
    exact halted_of_stopLoop hs (unstopped_disconnect s) grows_cleanup h

/-- A connect that is not answered in time, or not at all, stops the loop. -/
theorem halted_connect {password : Option String} (hs : s.client.stopLoop.1 = .ok ())
    (hfail : ∀ code, (s.client.connect s.settings.connectRequest
      (some s.settings.connectTimeout)).1 ≠ some (.ok code))
    (h : connect password s = some (r, t)) : Halted s t := by
  rw [connect_apply] at h
  have hfailed (o : Occurrence) (f : Fault)
      (h : (do note o; stopAfterFailure; return Except.error f) (s.asking password) =
        some (r, t)) : Halted s t := by
    rw [bind_of_eq_some (note_apply _)] at h
    obtain ⟨_, u, hu, h⟩ := bind_eq_some_iff.mp h
    cases h
    have hunstopped := IsTrans.trans _ _ _ (unstopped_asking s password) (unstopped_noted _ o)
    exact halted_of_grows hunstopped.grows
      (halted_stopAfterFailure ((Client.stopLoop_fst_congr hunstopped.replies).trans hs) hu)
  match hreply : (s.client.connect s.settings.connectRequest
      (some s.settings.connectTimeout)).1 with
  | none =>
    rw [hreply] at h
    exact hfailed (.connectTimedOut _) (.timedOut .connect) h
  | some (.error f) =>
    rw [hreply] at h
    exact hfailed (.connectFailed f) (.client f) h
  | some (.ok code) => exact absurd hreply (hfail code)

end

/-! ## Steps -/

/-- The step, taken at `s`, stops the loop, unless the client fails to. -/
inductive StopsLoop (s : Session) : Step → Prop
  | disconnect (clear : Bool) (owned : s.owned) : StopsLoop s (.disconnect clear)
  | shutDown (owned : s.owned) : StopsLoop s .shutDown
  | lost (code n : Int) (sink : s.client.sink) (alive : s.alive) (abnormal : code ≠ 0)
      (hungUp : s.client.disconnect.1 = .ok n) : StopsLoop s (.close code)
  | orphaned (code : Int) (sink : s.client.sink) (gone : ¬ s.alive) : StopsLoop s (.close code)
  | connect (password : Option String) (owned : s.owned)
      (failed : ∀ code, (s.client.connect s.settings.connectRequest
        (some s.settings.connectTimeout)).1 ≠ some (.ok code)) : StopsLoop s (.connect password)

theorem halted_withLink {x : Play Answer} {a : Answer} (hs : s.owned)
    (h : withLink x s = some (a, t))
    (hx : ∀ u, x { s with holders := s.holders + 1 } = some (a, u) → Halted s u) : Halted s t := by
  rw [withLink_of_owned hs] at h
  obtain ⟨u, hu, rfl⟩ := exists_of_holding h
  exact hx u hu

theorem halted_spanning {operation : Operation} {arguments : List Argument} {x : Play α} {a : α}
    (h : spanning operation arguments x s = some (a, t))
    (hx : ∀ u, x (s.entering operation arguments) = some (a, u) →
      Halted (s.entering operation arguments) u) : Halted s t := by
  obtain ⟨u, hu, rfl⟩ := exists_of_spanning h
  exact (halted_of_grows ⟨[_], rfl⟩ (hx u hu)).grows ⟨[_], rfl⟩

theorem halted_perform {run : Runner} {step : Step} {a : Answer}
    (hrun : ∀ step, Within Grows (run step)) (hstep : StopsLoop s step)
    (hs : s.client.stopLoop.1 = .ok ()) (h : perform run step s = some (a, t)) : Halted s t := by
  cases hstep with
  | disconnect clear owned =>
    cases clear with
    | false =>
      refine halted_withLink owned h fun u hu => ?_
      obtain ⟨r, hr, -⟩ := exists_of_answering hu
      have hhalted := halted_spanning hr fun _ hv => halted_disconnect hs hrun hv
      exact hhalted
    | true =>
      obtain ⟨_, v, hv, h⟩ := bind_eq_some_iff.mp h
      cases hv
      obtain ⟨_, w, hw, h⟩ := bind_eq_some_iff.mp h
      obtain ⟨_, _, hv, h⟩ := bind_eq_some_iff.mp h
      cases hv
      cases h
      have hbegun : Halted (s.noted .sweepBegun) w := by
        refine halted_withLink owned hw fun u hu => ?_
        obtain ⟨r, hr, -⟩ := exists_of_answering hu
        have hhalted := halted_spanning hr fun _ hv => halted_disconnect hs hrun hv
        exact hhalted
      exact (halted_of_grows ⟨[.sweepBegun], rfl⟩ hbegun).grows ⟨[.sweepEnded], rfl⟩
  | shutDown owned =>
    refine halted_withLink owned h fun u hu => ?_
    obtain ⟨r, hr, -⟩ := exists_of_answering hu
    exact halted_shutDown (s := { s with holders := s.holders + 1 }) hs hr
  | lost code n sink alive abnormal hungUp =>
    obtain ⟨r, hr, -⟩ := exists_of_answering h
    rw [deliver_apply, if_pos sink] at hr
    exact halted_routeClose_lost hs hrun abnormal alive hungUp hr
  | orphaned code sink gone =>
    obtain ⟨r, hr, -⟩ := exists_of_answering h
    rw [deliver_apply, if_pos sink] at hr
    exact halted_routeClose_orphaned hs gone hr
  | connect password owned failed =>
    refine halted_withLink owned h fun u hu => ?_
    obtain ⟨r, hr, -⟩ := exists_of_answering hu
    have hhalted := halted_spanning hr fun _ hv => halted_connect hs failed hv
    exact hhalted

theorem halted_performTo {depth : Nat} {step : Step} {a : Answer} (hstep : StopsLoop s step)
    (hs : s.client.stopLoop.1 = .ok ()) (h : performTo depth step s = some (a, t)) :
    Halted s t := by
  cases depth with
  | zero => cases h
  | succ depth => exact halted_perform (law_grows.within_performTo depth) hstep hs h

/-- What a connect answers, what it writes down, and what it does to the loop. -/
theorem performTo_connect {depth : Nat} {password : Option String} {a : Answer}
    (h : performTo depth (.connect password) s = some (a, t)) :
    ∃ news, .connectDone ∉ news ∧
      (a = .done ∧ t.journal = .left .connect :: .connectDone :: (news ++ s.journal) ∧
          t.client.looping ∨
        a ≠ .done ∧ t.journal = news ++ s.journal ∧ (t.client.looping → s.client.looping)) := by
  cases depth with
  | zero => cases h
  | succ depth =>
    have h : withLink (answering (spanning .connect [.password password] (connect password))) s =
      some (a, t) := h
    by_cases howned : s.owned
    · rw [withLink_of_owned howned] at h
      obtain ⟨u, hu, rfl⟩ := exists_of_holding h
      obtain ⟨r, hr, rfl⟩ := exists_of_answering hu
      obtain ⟨w, hw, rfl⟩ := exists_of_spanning hr
      rcases connect_cases hw with ⟨rfl, v, c, hunlit, hc, rfl⟩ | ⟨⟨f, rfl⟩, hunlit⟩
      · have hentered := IsTrans.trans _ _ _ (unlit_entering _ _ _) hunlit
        obtain ⟨news, hnews, hnone⟩ := hentered.journal
        exact ⟨news, hnone, .inl ⟨rfl, congrArg (_ :: _ :: ·) hnews,
          Client.looping_startLoop_of_ok hc⟩⟩
      · have hleaving : Unlit w (w.noted (.left .connect)) := unlit_noted w nofun
        have hleft := IsTrans.trans _ _ _ (unlit_entering _ _ _)
          (IsTrans.trans _ _ _ hunlit hleaving)
        obtain ⟨news, hnews, hnone⟩ := hleft.journal
        exact ⟨news, hnone, .inr ⟨by simp [Answer.ofResult], hnews, hleft.looping⟩⟩
    · rw [withLink, bind_of_eq_some get_apply, if_neg howned] at h
      cases h
      exact ⟨[], List.not_mem_nil, .inr ⟨by simp, rfl, id⟩⟩

/-! ## Main statement -/

/-- In every run of a new link in which nobody starts the loop directly, the loop runs just when a
connect went well and the loop has not been stopped since; so once it has been stopped, it is off
until a connect goes well again. That it went well is written down by a connect, as the last thing
in its span, when it answers so; a connect with another answer does not start the loop, and neither
does what runs no connect. That the loop was stopped is written down whenever the client has done
it. This is so at the latest when a disconnect, a shutdown, the loss of a connection, the end of a
connection without a link, or a connect without an answer is over, if the client is not to fail. -/
theorem looping_iff {steps : List Step}
    (hsteps : ∀ step ∈ steps, step.Throughout (· ≠ .clientStartLoop)) {settings : Settings}
    {order : VisitOrder Callback} {depth : Nat} {s : Session}
    (h : performAll depth steps (opened settings order) = some ((), s)) :
    (s.client.looping ↔
      ∃ later earlier, s.journal = later ++ .connectDone :: earlier ∧ .loopStopped ∉ later) ∧
    (∀ later earlier, s.journal = later ++ .loopStopped :: earlier → .connectDone ∉ later →
      ¬ s.client.looping) ∧
    (∀ deep password u a t, performTo deep (.connect password) u = some (a, t) →
      ∃ news, .connectDone ∉ news ∧
        (a = .done ∧ t.journal = .left .connect :: .connectDone :: (news ++ u.journal) ∧
            t.client.looping ∨
          a ≠ .done ∧ t.journal = news ++ u.journal ∧ (t.client.looping → u.client.looping))) ∧
    (∀ deep step u a t, step.Throughout Step.lightless → u.Stored (·.Throughout Step.lightless) →
      performTo deep step u = some (a, t) → Unlit u t) ∧
    (∀ u r t, Play.stopLoop u = some (r, t) →
      r = .ok () ∧ t.journal = .loopStopped :: u.journal ∧ ¬ t.client.looping ∨
        (∃ f, r = .error f) ∧ t.journal = u.journal ∧ t.client.looping = u.client.looping) ∧
    (∀ deep step u a t, StopsLoop u step → u.client.stopLoop.1 = .ok () →
      performTo deep step u = some (a, t) → Halted u t) := by
  obtain ⟨-, hkeep⟩ :=
    upkeep_accounted.frame.within_performAll depth hsteps h (stored_opened settings order)
  have hs : s.client.looping = loopRuns s.journal := hkeep rfl
  refine ⟨by rw [hs, loopRuns_iff], fun later earlier hj hnone => ?_,
    fun _ _ _ _ _ => performTo_connect,
    fun deep _ _ _ _ hstep hu h => (upkeep_unlit.frame.within_performTo deep hstep h hu).2,
    fun _ _ _ => stopLoop_cases, fun _ _ _ _ _ => halted_performTo⟩
  rw [hs, hj]
  exact not_loopRuns_append hnone

/-- A connection that is lost takes the loop down. -/
theorem looping_iff_lost :
    ∃ s, performAll 1 [.connect none, .close 1] (opened {} (.ascending _)) = some ((), s) ∧
      ¬ s.client.looping := by
  have hsteps : ∀ step ∈ [Step.connect none, .close 1],
      step.Throughout (· ≠ .clientStartLoop) :=
    List.forall_mem_cons.mpr ⟨.intro _ nofun nofun nofun,
      List.forall_mem_singleton.mpr (.intro _ nofun nofun nofun)⟩
  obtain ⟨s, hrun, hj⟩ : ∃ s,
      performAll 1 [.connect none, .close 1] (opened {} (.ascending _)) = some ((), s) ∧
        ∃ earlier, s.journal = .loopStopped :: earlier := ⟨_, rfl, _, rfl⟩
  obtain ⟨earlier, hj⟩ := hj
  exact ⟨s, hrun, (looping_iff hsteps hrun).2.1 [] earlier hj List.not_mem_nil⟩

end Session

end MqttLink
