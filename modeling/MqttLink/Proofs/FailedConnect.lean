import MqttLink.Proofs.NetworkLoop

/-!
How a connect ends. Main statement: it always comes to an end, with what the client replied to it or
with the failure of the network loop to start. If the client failed to connect or did not reply in
time, it is disconnected and its loop stopped, whatever comes of these two calls. If only the loop
failed to start, neither call is made, and the client stays connected.
-/

namespace MqttLink

namespace Client

variable {c d : Client}

/-- Only its own replies decide what comes of starting the loop. -/
theorem startLoop_fst_congr (h : d.replies .startLoop = c.replies .startLoop) :
    d.startLoop.1 = c.startLoop.1 := by
  simp only [startLoop, takeReply, add, h]
  cases c.replies .startLoop with
  | nil => rfl
  | cons r _ => cases r <;> rfl

end Client

namespace Session

open Play

variable {s t : Session} {r : Except Fault Unit}

/-! ## Cleaning up -/

theorem exists_tryStopLoop (s : Session) : ∃ t, tryStopLoop s = some ((), t) ∧
    t.client.record = .stopLoop :: s.client.record := by
  have hrecord := s.client.record_stopLoop
  match hr : s.client.stopLoop with
  | (.ok (), c) =>
    rw [hr] at hrecord
    exact ⟨_, bind_of_eq_some (stopLoop_of_ok hr) _, hrecord⟩
  | (.error f, c) =>
    rw [hr] at hrecord
    exact ⟨_, bind_of_eq_some (stopLoop_of_error hr) _, hrecord⟩

/-- Both calls are made, whatever comes of them. -/
theorem exists_stopAfterFailure (s : Session) : ∃ t, stopAfterFailure s = some ((), t) ∧
    t.client.record = .stopLoop :: .disconnect :: s.client.record := by
  have hrecord : s.client.disconnect.2.record = .disconnect :: s.client.record :=
    Client.record_of_called rfl
  rw [stopAfterFailure, bind_of_eq_some (onClient_apply _)]
  cases s.client.disconnect.1 with
  | ok _ =>
    rw [← hrecord]
    exact exists_tryStopLoop { s with client := s.client.disconnect.2 }
  | error f =>
    simp only
    rw [bind_of_eq_some (note_apply _), ← hrecord]
    exact exists_tryStopLoop
      (({ s with client := s.client.disconnect.2 } : Session).noted (.cleanupDisconnectFailed f))

/-! ## Connecting -/

/-- What the client replies to a connect, if it does so in time. -/
def connectReply (s : Session) : Option Reply :=
  (s.client.connect s.settings.connectRequest (some s.settings.connectTimeout)).1

/-- How a connect ends at `s`: its result, and the calls that it makes after the client has been
asked to connect, the latest first. -/
inductive ConnectEnds (s : Session) : Except Fault Unit → List Call → Prop
  | timedOut (reply : s.connectReply = none) :
      ConnectEnds s (.error (.timedOut .connect)) [.stopLoop, .disconnect]
  | failed (f : ClientFault) (reply : s.connectReply = some (.error f)) :
      ConnectEnds s (.error (.client f)) [.stopLoop, .disconnect]
  | rejected (code : Int) (reply : s.connectReply = some (.ok code)) (nonzero : code ≠ 0) :
      ConnectEnds s (.error (.rejected .connect code)) []
  | unstarted (f : ClientFault) (reply : s.connectReply = some (.ok 0))
      (start : s.client.startLoop.1 = .error f) : ConnectEnds s (.error (.client f)) [.startLoop]
  | done (reply : s.connectReply = some (.ok 0)) (start : s.client.startLoop.1 = .ok ()) :
      ConnectEnds s (.ok ()) [.startLoop]

theorem record_asking (s : Session) (password : Option String) :
    (s.asking password).client.record = .connect s.settings.connectRequest ::
      .setCredentials s.settings.username password :: s.client.record :=
  Client.record_connect _ _ _

theorem startLoop_asking (s : Session) (password : Option String) :
    (s.asking password).client.startLoop.1 = s.client.startLoop.1 :=
  Client.startLoop_fst_congr (Client.replies_connect_of_ne (by simp) _ _)

/-- The client is stopped after a failure, and the failure comes out. -/
theorem exists_failing (s : Session) (o : Occurrence) (f : Fault) :
    ∃ t, (do note o; stopAfterFailure; return .error f : Play (Except Fault Unit)) s =
        some (.error f, t) ∧ t.client.record = .stopLoop :: .disconnect :: s.client.record := by
  obtain ⟨t, ht, hrecord⟩ := exists_stopAfterFailure (s.noted o)
  refine ⟨t, ?_, hrecord⟩
  rw [bind_of_eq_some (note_apply _), bind_of_eq_some ht]
  rfl

/-- A connect comes to an end for every password, configuration, delay and script of replies. -/
theorem exists_connectEnds (s : Session) (password : Option String) :
    ∃ r t calls, connect password s = some (r, t) ∧ s.ConnectEnds r calls ∧
      t.client.record = calls ++ .connect s.settings.connectRequest ::
        .setCredentials s.settings.username password :: s.client.record := by
  have hconnect : connect password s =
      afterConnect s.settings.connectTimeout s.connectReply (s.asking password) :=
    connect_apply s password
  rw [hconnect, ← s.record_asking password]
  match hreply : s.connectReply with
  | none =>
    obtain ⟨t, ht, hrecord⟩ := exists_failing (s.asking password)
      (.connectTimedOut s.settings.connectTimeout) (.timedOut .connect)
    exact ⟨_, t, _, ht, .timedOut hreply, hrecord⟩
  | some (.error f) =>
    obtain ⟨t, ht, hrecord⟩ := exists_failing (s.asking password) (.connectFailed f) (.client f)
    exact ⟨_, t, _, ht, .failed f hreply, hrecord⟩
  | some (.ok code) =>
    by_cases hcode : code = 0
    · subst hcode
      have hfinish : afterConnect s.settings.connectTimeout (some (.ok 0)) (s.asking password) =
          finishConnect (s.asking password) := rfl
      have hstart := s.startLoop_asking password
      have hrecord := (s.asking password).client.record_startLoop
      rw [hfinish]
      match hr : (s.asking password).client.startLoop with
      | (.ok (), c) =>
        rw [hr] at hstart hrecord
        exact ⟨_, _, _, finishConnect_of_ok hr, .done hreply hstart.symm, hrecord⟩
      | (.error f, c) =>
        rw [hr] at hstart hrecord
        exact ⟨_, _, _, finishConnect_of_error hr, .unstarted f hreply hstart.symm, hrecord⟩
    · exact ⟨_, _, [], bind_of_eq_some (checkCode_of_ne_zero .connect hcode) _,
        .rejected code hreply hcode, rfl⟩

/-- A new link, whose client is about to fail to start its network loop. -/
def unstartable : Session :=
  let link := opened default (.ascending _)
  { link with client := link.client.queueReply .startLoop (.error ⟨"down"⟩) }

/-- The client has connected, and nothing stops it. -/
theorem performTo_connect_unstartable : ∃ t,
    performTo 1 (.connect none) unstartable = some (.fault (.client ⟨"down"⟩), t) ∧
      .disconnect ∉ t.client.record ∧ .stopLoop ∉ t.client.record := by
  obtain ⟨t, ht, hrecord⟩ : ∃ t,
      performTo 1 (.connect none) unstartable = some (.fault (.client ⟨"down"⟩), t) ∧
        t.client.record = [.startLoop, .connect unstartable.settings.connectRequest,
          .setCredentials unstartable.settings.username none, .setSink true] := ⟨_, rfl, rfl⟩
  exact ⟨t, ht, by simp [hrecord], by simp [hrecord]⟩

end Session

end MqttLink
