import MqttLink.Proofs.Accounting
import MqttLink.Proofs.NetworkLoop

/-!
How a disconnect ends. The client is disconnected and its loop stopped, whatever comes of the first
of the two calls. Main statement: the operations in flight are abandoned if both calls went well and
this is asked for, all of them; otherwise they are left as they are, and none of their callbacks is
called.
-/

namespace MqttLink.Session

open Play

variable {s t u : Session} {run : Runner} {depth : Nat} {clear : Bool}

/-- What the client replies to a disconnect. -/
def disconnectReply (s : Session) : Reply :=
  s.client.disconnect.1

/-- What comes of stopping the network loop, which has no code of its own. -/
def stopReply (s : Session) : Except ClientFault Unit :=
  s.client.stopLoop.1

/-- The session whose client has just been disconnected. -/
def parting (s : Session) : Session :=
  { s.noted .disconnecting with client := s.client.disconnect.2 }

/-- The session whose client has been disconnected and has just been asked to stop its loop. -/
def parted (s : Session) : Session :=
  match s.parting.client.stopLoop with
  | (.ok (), c) => s.parting.stopping c
  | (.error _, c) => { s.parting with client := c }

theorem stopLoop_parting (s : Session) : s.parting.client.stopLoop.1 = s.stopReply := by
  refine Client.stopLoop_fst_congr ?_
  simp only [parting, Client.disconnect, Client.takeReply, Client.add]
  split <;> rfl

theorem disconnect_apply (run : Runner) (clear : Bool) (s : Session) :
    disconnect run clear s = afterDisconnect run clear s.disconnectReply s.stopReply s.parted := by
  have hstop : Play.stopLoop s.parting = some (s.stopReply, s.parted) := by
    rw [← stopLoop_parting, parted]
    match hr : s.parting.client.stopLoop with
    | (.ok (), c) => exact stopLoop_of_ok hr
    | (.error f, c) => exact stopLoop_of_error hr
  rw [disconnect_eq, bind_of_eq_some (note_apply _), bind_of_eq_some (onClient_apply _)]
  exact bind_of_eq_some hstop _

/-- Both calls are made, in this order, and no other. -/
theorem record_parted (s : Session) :
    s.parted.client.record = .stopLoop :: .disconnect :: s.client.record := by
  have hrecord : s.parting.client.record = .disconnect :: s.client.record :=
    Client.record_of_called rfl
  have hstop := s.parting.client.record_stopLoop
  rw [hrecord] at hstop
  rw [parted]
  match hr : s.parting.client.stopLoop with
  | (.ok (), c) | (.error _, c) =>
    rw [hr] at hstop
    exact hstop

theorem aside_parted (s : Session) : Aside s s.parted := by
  have hparting : Aside s s.parting :=
    (aside_noted s rfl).trans (aside_client _ s.client.steady_disconnect)
  have hsteady := s.parting.client.steady_stopLoop
  rw [parted]
  match hr : s.parting.client.stopLoop with
  | (.ok (), c) => exact hparting.trans (aside_stopping hr)
  | (.error _, c) =>
    rw [hr] at hsteady
    exact hparting.trans (aside_client _ hsteady)

theorem batch_parted (s : Session) : s.parted.batch = s.batch := by
  rw [parted]
  match s.parting.client.stopLoop with
  | (.ok (), _) | (.error _, _) => rfl

/-! ## Operations that stay -/

/-- How a disconnect ends that leaves the operations alone. -/
inductive Spares (s : Session) : (clear : Bool) → Except Fault Unit → Prop
  | failed {f : ClientFault} (reply : s.disconnectReply = .error f) (clear : Bool) :
      Spares s clear (.error (.client f))
  | unstopped {code : Int} {f : ClientFault} (reply : s.disconnectReply = .ok code)
      (stop : s.stopReply = .error f) (clear : Bool) : Spares s clear (.error (.client f))
  | rejected {code : Int} (reply : s.disconnectReply = .ok code) (stop : s.stopReply = .ok ())
      (nonzero : code ≠ 0) (clear : Bool) :
      Spares s clear (.error (.rejected .disconnect code))
  | kept (reply : s.disconnectReply = .ok 0) (stop : s.stopReply = .ok ()) :
      Spares s false (.ok ())

/-- Then it ends where the client was left, but for an entry in the journal. -/
theorem exists_of_spares (run : Runner) {r : Except Fault Unit} (h : s.Spares clear r) :
    ∃ t, disconnect run clear s = some (r, t) ∧ Aside s.parted t ∧ t.client = s.parted.client := by
  rw [disconnect_apply]
  cases h with
  | failed reply =>
    rw [reply]
    exact ⟨s.parted, rfl, Aside.refl _, rfl⟩
  | unstopped reply stop =>
    rw [reply, stop]
    exact ⟨s.parted, rfl, Aside.refl _, rfl⟩
  | rejected reply stop nonzero =>
    rw [reply, stop]
    exact ⟨_, bind_of_eq_some (checkCode_of_ne_zero .disconnect nonzero) _, aside_noted _ rfl, rfl⟩
  | kept reply stop =>
    rw [reply, stop]
    exact ⟨s.parted, rfl, Aside.refl _, rfl⟩

theorem spares_or (s : Session) (clear : Bool) : (∃ r, s.Spares clear r) ∨
    clear ∧ s.disconnectReply = .ok 0 ∧ s.stopReply = .ok () := by
  match hreply : s.disconnectReply, hstop : s.stopReply with
  | .error _, _ => exact .inl ⟨_, .failed hreply clear⟩
  | .ok _, .error _ => exact .inl ⟨_, .unstopped hreply hstop clear⟩
  | .ok code, .ok () =>
    by_cases hcode : code = 0
    · subst hcode
      cases clear with
      | false => exact .inl ⟨_, .kept hreply hstop⟩
      | true => exact .inr ⟨rfl, rfl, rfl⟩
    · exact .inl ⟨_, .rejected hreply hstop hcode clear⟩

/-! ## Operations that are abandoned -/

theorem disconnect_of_zero (hreply : s.disconnectReply = .ok 0) (hstop : s.stopReply = .ok ()) :
    disconnect run true s = (do
      let r ← abandon run
      return r.mapError Fault.fatal : Play (Except Fault Unit)) s.parted := by
  rw [disconnect_apply, hreply, hstop]
  rfl

theorem disconnect_eq_some_iff (hreply : s.disconnectReply = .ok 0)
    (hstop : s.stopReply = .ok ()) {r : Except Fault Unit} :
    disconnect run true s = some (r, t) ↔
      ∃ q, abandon run s.parted = some (q, t) ∧ r = q.mapError .fatal := by
  rw [disconnect_of_zero hreply hstop, bind_eq_some_iff]
  constructor
  · rintro ⟨q, u, hu, h⟩
    cases h
    exact ⟨q, hu, rfl⟩
  · rintro ⟨q, hu, rfl⟩
    exact ⟨q, t, hu, rfl⟩

/-- The client has no part in what callbacks do that only work on the ledger. -/
theorem exists_abandon_of_ready (hs : s.Ready) (hdepth : s.ledger.weight ≤ depth) :
    ∃ r t, abandon (performTo depth) s = some (r, t) ∧ t.client = s.client := by
  obtain ⟨r, w, hw, -, -⟩ := ends_abandon (obliging_performAbout depth) hs hdepth
  obtain ⟨t, ht, htwin⟩ :=
    accord_twin.accords_abandon (accord_twin.accords_performTo depth) (twin_refl s) hw
  exact ⟨r, t, ht, htwin.right⟩

/-! ## Main statement -/

/-- All operations in flight are told that they are cancelled when a disconnect that went well has
ended with `r` at `t`: their callbacks came back with `told`, and `own` was written down of it. -/
structure Clears (depth : Nat) (s t : Session) (r : Except Fault Unit)
    (told : List (PacketId × Outcome)) (own : List Occurrence) : Prop where
  reported : Reported depth s.parted t (verdict (fatals told)) told own
  result : r = (verdict (fatals told)).mapError .fatal
  /-- No acknowledgement is remembered when the callbacks begin to be called. -/
  forgotten : s.parted.abandoning.ledger = {}
  once : ((own.filterMap (·.invocation?)).map (·.id)).Nodup
  everyone : ∀ x, x ∈ own.filterMap (·.invocation?) ↔
    x.resolution = .cancelled ∧ s.ledger.pending[x.id]? = some (some x.callback)

theorem exists_clears (hreply : s.disconnectReply = .ok 0) (hstop : s.stopReply = .ok ())
    {r : Except Fault Unit} (h : disconnect (performTo depth) true s = some (r, t)) :
    ∃ told own, Clears depth s t r told own := by
  obtain ⟨q, hq, rfl⟩ := (disconnect_eq_some_iff hreply hstop).mp h
  obtain ⟨told, own, hreported⟩ := exists_reported hq
  have hcalled := hreported.called
  rw [batch_parted] at hcalled
  refine ⟨told, own, hreported.result ▸ hreported, hreported.result ▸ rfl, rfl, ?_, ?_⟩
  · rw [hcalled]
    exact s.nodup_calls_batch
  · rintro ⟨id, c, resolution⟩
    rw [hcalled]
    exact mem_calls_batch

/-- A disconnect makes its two calls on the client whatever the script of replies is. Either it
comes to an end without the operations in flight: then both tables are as they were and nobody has
been called. Or both calls went well, and the operations are to be cleared: then all of them are. It
comes to an end in this case too, if the callbacks only work on the ledger or leave it alone. -/
theorem disconnect_spares_or_clears (s : Session) (clear : Bool) (depth : Nat) :
    s.parted.client.record = .stopLoop :: .disconnect :: s.client.record ∧
    ((∃ r t, s.Spares clear r ∧ disconnect (performTo depth) clear s = some (r, t) ∧
        t.client = s.parted.client ∧ t.ledger = s.ledger ∧ t.calls = s.calls) ∨
      clear ∧ s.disconnectReply = .ok 0 ∧ s.stopReply = .ok () ∧
        (∀ r t, disconnect (performTo depth) clear s = some (r, t) →
          ∃ told own, Clears depth s t r told own) ∧
        (s.Ready → s.ledger.weight ≤ depth →
          ∃ r t, disconnect (performTo depth) clear s = some (r, t) ∧
            t.client = s.parted.client) ∧
        (0 < depth → s.ledger.All Reaction.Inert →
          ∃ r t, disconnect (performTo depth) clear s = some (r, t) ∧ t.ledger = {})) := by
  refine ⟨s.record_parted, ?_⟩
  have hparted := s.aside_parted
  rcases s.spares_or clear with ⟨r, hspares⟩ | ⟨rfl, hreply, hstop⟩
  · obtain ⟨t, ht, haside, hclient⟩ := exists_of_spares (performTo depth) hspares
    have hworked := worked_of_aside (hparted.trans haside)
    exact .inl ⟨r, t, hspares, ht, hclient, hworked.ledger, hworked.calls⟩
  · refine .inr ⟨rfl, hreply, hstop, fun r t h => exists_clears hreply hstop h,
      fun hs hdepth => ?_, fun hdepth hinert => ?_⟩
    · have hweight : s.parted.ledger.weight ≤ depth := by
        rw [hparted.ledger]
        exact hdepth
      obtain ⟨q, t, ht, hclient⟩ := exists_abandon_of_ready (ready_of_aside hparted hs) hweight
      exact ⟨_, t, (disconnect_eq_some_iff hreply hstop).mpr ⟨q, ht, rfl⟩, hclient⟩
    · obtain ⟨d, rfl⟩ : ∃ d, depth = d + 1 := ⟨depth - 1, by omega⟩
      have hwaiting : s.parted.ledger.All Reaction.Inert := by
        rw [hparted.ledger]
        exact hinert
      obtain ⟨q, t, ht, hworked⟩ := worked_abandon (serving_performTo d) hwaiting
      exact ⟨_, t, (disconnect_eq_some_iff hreply hstop).mpr ⟨q, ht, rfl⟩, hworked.ledger⟩

/-- The failing callbacks wait, and the client is about to turn a disconnect down. -/
def unwelcome : Session :=
  { failing with client := failing.client.queueReply .disconnect (.ok 4) }

/-- The first fatal fault comes out of a disconnect that clears the operations. If the client turns
it down, the operations stay. -/
theorem disconnect_spares_or_clears_failing :
    (∃ t told own, disconnect (performTo 1) true failing = some (.error (.fatal ⟨"one"⟩), t) ∧
      Clears 1 failing t (.error (.fatal ⟨"one"⟩)) told own ∧ t.ledger = {}) ∧
    ∃ t, disconnect (performTo 1) true unwelcome = some (.error (.rejected .disconnect 4), t) ∧
      t.client.record = .stopLoop :: .disconnect :: unwelcome.client.record ∧
      t.ledger = unwelcome.ledger := by
  have hinert : failing.ledger.All Reaction.Inert := by
    intro id c hc n hn
    rw [steps_failing hc] at hn
    cases hn
  constructor
  · obtain ⟨-, ⟨r, t, hspares, -⟩ | ⟨-, -, -, hclears, -, hends⟩⟩ :=
      disconnect_spares_or_clears failing true 1
    · have hreply : failing.disconnectReply = .ok 0 := rfl
      have hstop : failing.stopReply = .ok () := rfl
      cases hspares with
      | failed reply => cases hreply.symm.trans reply
      | unstopped _ stop => cases hstop.symm.trans stop
      | rejected reply _ nonzero =>
        cases hreply.symm.trans reply
        exact absurd rfl nonzero
    · obtain ⟨r, t, ht, hledger⟩ := hends Nat.one_pos hinert
      obtain ⟨v, hv⟩ : ∃ v, disconnect (performTo 1) true failing =
          some (.error (.fatal ⟨"one"⟩), v) := ⟨_, rfl⟩
      cases ht.symm.trans hv
      obtain ⟨told, own, hown⟩ := hclears _ _ ht
      exact ⟨t, told, own, ht, hown, hledger⟩
  · obtain ⟨hrecord, ⟨r, t, -, ht, hclient, hledger, -⟩ | ⟨-, hreply, -⟩⟩ :=
      disconnect_spares_or_clears unwelcome true 1
    · obtain ⟨v, hv⟩ : ∃ v, disconnect (performTo 1) true unwelcome =
          some (.error (.rejected .disconnect 4), v) := ⟨_, rfl⟩
      cases ht.symm.trans hv
      exact ⟨t, ht, by rw [hclient, hrecord], hledger⟩
    · have hfour : unwelcome.disconnectReply = .ok 4 := rfl
      cases hfour.symm.trans hreply

end MqttLink.Session
