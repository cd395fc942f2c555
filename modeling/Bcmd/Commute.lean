import Bcmd.JoinBodies
import Bcmd.JoinOutcome
import Bcmd.Sweep

/-!
# Requests of different clients commute

What a Join, a Leave or a Disconnect of a client comes to depends on the client's own session and memberships
and on which channels there are, and no request of another client changes these. What it changes of the
stores is the client's own part. So two requests of different clients may change places.
-/

namespace Bcmd
open Server

inductive ClientRequest
  | join (channelId : ChannelId)
  | joinByName (channelName : Bytes)
  | leave (channelId : ChannelId)
  | disconnect

inductive Answer
  | joined (result : VoidResult)
  | joinedByName (result : Result ChannelId)
  | left (result : VoidResult)
  | disconnected (reply : Reply Unit)

def ClientRequest.run (order : BucketOrder) (c : ClientId) : ClientRequest → Task Answer
  | join k => return .joined (← JoinChannel.execute order c k)
  | joinByName name => return .joinedByName (← JoinChannel.executeByName order c name)
  | leave k => return .left (← LeaveChannel.execute c k)
  | disconnect => return .disconnected (← BroadcastService.disconnectClient order c)

/-! ### Effects -/

/-- What becomes of the client: in one channel only, out of one channel, or without a session. -/
inductive Effect
  | nothing
  | enter (channelId : ChannelId)
  | leave (channelId : ChannelId)
  | gone
deriving DecidableEq

namespace Effect

/-- What it does to the channel with the id `k`. -/
def channel (c : ClientId) (k : ChannelId) : Effect → Channel → Channel
  | nothing, ch => ch
  | enter k', ch => if k = k' then ch.with c else ch.without c
  | leave k', ch => if k = k' then ch.without c else ch
  | gone, ch => ch.without c

/-- What it does to the client's session. -/
def session : Effect → ClientSession → Option ClientSession
  | nothing, cs => some cs
  | enter k, cs => some { cs with joinedChannels := {k} }
  | leave k, cs => some (cs.leaveChannel k)
  | gone, _ => none

/-- From `s` to `s'`, the effect took place for `c` and nothing else in the stores and in the table of
streams. -/
structure On (e : Effect) (c : ClientId) (s s' : Server) : Prop where
  channel : ∀ k, s'.channel k = (s.channel k).map (e.channel c k)
  session : ∀ d, s'.session d = if d = c then (s.session d).bind e.session else s.session d
  nameGiven : ∀ d, s'.nameGiven d = s.nameGiven d
  writers : ∀ d, s'.publisher.writers.lookup d =
    if e = .gone ∧ d = c then none else s.publisher.writers.lookup d

end Effect

namespace Channel
variable {c d : ClientId} {ch : Channel}

theorem with_with_comm (ch : Channel) (c d : ClientId) : (ch.with c).with d = (ch.with d).with c := by
  unfold Channel.with
  simp only [Finset.insert_comm]

theorem without_without_comm (ch : Channel) (c d : ClientId) :
    (ch.without c).without d = (ch.without d).without c := by
  unfold Channel.without
  simp only [Finset.erase_right_comm]

theorem without_with_comm (h : c ≠ d) (ch : Channel) : (ch.with c).without d = (ch.without d).with c := by
  unfold Channel.without Channel.with
  simp only [Finset.erase_insert_of_ne h]

theorem mem_without (h : c ≠ d) : c ∈ (ch.without d).members ↔ c ∈ ch.members := by
  unfold Channel.without
  simp [h]

theorem mem_with (h : c ≠ d) : c ∈ (ch.with d).members ↔ c ∈ ch.members := by
  unfold Channel.with
  simp [h]

end Channel

section
variable {c d : ClientId} {k : ChannelId} {ch : Channel} {e f : Effect} {s s₁ s₂ s' : Server}
  {order : BucketOrder}

theorem Effect.channel_comm (h : c ≠ d) (e f : Effect) (k : ChannelId) (ch : Channel) :
    f.channel d k (e.channel c k ch) = e.channel c k (f.channel d k ch) := by
  have hww := Channel.with_with_comm ch c d
  have hoo := Channel.without_without_comm ch c d
  have hwo := Channel.without_with_comm h ch
  have how := Channel.without_with_comm h.symm ch
  rcases e with _ | k₁ | k₁ | _ <;> rcases f with _ | k₂ | k₂ | _ <;> simp only [Effect.channel] <;>
    (try split_ifs) <;> first | rfl | assumption | exact how.symm

theorem Effect.name_channel (e : Effect) (c : ClientId) (k : ChannelId) (ch : Channel) :
    (e.channel c k ch).name = ch.name := by
  rcases e with _ | k₁ | k₁ | _ <;> simp only [Effect.channel] <;> (try split_ifs) <;> rfl

theorem Effect.mem_channel (h : c ≠ d) (e : Effect) (k : ChannelId) (ch : Channel) :
    c ∈ (e.channel d k ch).members ↔ c ∈ ch.members := by
  rcases e with _ | k₁ | k₁ | _ <;> simp only [Effect.channel] <;> (try split_ifs) <;>
    first | rfl | exact Channel.mem_with h | exact Channel.mem_without h

namespace Effect.On

theorem nothing (s : Server) : Effect.nothing.On c s s := by
  constructor
  · intro k
    rw [show Effect.nothing.channel c k = id from rfl, Option.map_id, id]
  · intro d
    split
    · rcases s.session d with _ | cs <;> rfl
    · rfl
  · intro d
    rfl
  · intro d
    simp

theorem nameOf (h : e.On c s s') (k : ChannelId) : s'.nameOf k = s.nameOf k := by
  rw [Server.nameOf, Server.nameOf, h.channel, Option.map_map]
  congr 1
  funext ch
  exact e.name_channel c k ch

theorem joined (h : e.On c s s') (hc : s.session c ≠ none) :
    s'.joined c = match e with
      | .nothing => s.joined c
      | .enter k => {k}
      | .leave k => (s.joined c).erase k
      | .gone => ∅ := by
  obtain ⟨cs, hcs⟩ := Option.ne_none_iff_exists'.1 hc
  have hsession := h.session c
  rw [if_pos rfl, hcs, Option.bind_some] at hsession
  cases e with
  | nothing => rw [joined_of_session hsession, joined_of_session hcs]
  | enter k => rw [joined_of_session hsession]
  | leave k =>
    rw [joined_of_session hsession, joined_of_session hcs]
    rfl
  | gone => rw [joined_of_none hsession]

/-- In either order, the same channels and sessions come out, and the same streams stay in the table. -/
theorem comm (hcd : c ≠ d) {s₁₂ s₂₁ : Server} (h₁ : e.On c s s₁) (h₁₂ : f.On d s₁ s₁₂) (h₂ : f.On d s s₂)
    (h₂₁ : e.On c s₂ s₂₁) :
    (∀ k, s₁₂.channel k = s₂₁.channel k) ∧ (∀ d', s₁₂.session d' = s₂₁.session d') ∧
      (∀ d', s₁₂.nameGiven d' = s₂₁.nameGiven d') ∧ s₁₂.publisher.writers = s₂₁.publisher.writers := by
  refine ⟨fun k => ?_, fun d' => ?_, fun d' => ?_, Finmap.ext_lookup fun d' => ?_⟩
  · rw [h₁₂.channel, h₁.channel, h₂₁.channel, h₂.channel, Option.map_map, Option.map_map]
    congr 1
    funext ch
    exact Effect.channel_comm hcd e f k ch
  · rw [h₁₂.session, h₁.session, h₂₁.session, h₂.session]
    by_cases hc : d' = c
    · subst hc
      simp [hcd]
    · simp [hc]
  · rw [h₁₂.nameGiven, h₁.nameGiven, h₂₁.nameGiven, h₂.nameGiven]
  · rw [h₁₂.writers, h₁.writers, h₂₁.writers, h₂.writers]
    split_ifs <;> rfl

end Effect.On

/-! ### What a request comes to -/

/-- The effect and the answer, from what the request finds out about its own client. -/
def ClientRequest.plan (s : Server) (c : ClientId) : ClientRequest → Effect × Answer
  | join k =>
    match s.session c, s.channel k with
    | none, _ => (.nothing, .joined (.error .clientNotFound))
    | some _, none => (.nothing, .joined (.error .channelNotFound))
    | some _, some _ => (.enter k, .joined (.ok ()))
  | joinByName name =>
    match s.session c, ChannelName.create (trim name) with
    | none, _ => (.nothing, .joinedByName (.error .clientNotFound))
    | some _, none => (.nothing, .joinedByName (.error .invalidChannelName))
    | some _, some validatedName =>
      match s.idOf validatedName.value with
      | none => (.nothing, .joinedByName (.error .channelNotFound))
      | some k => (.enter k, .joinedByName (.ok k))
  | leave k =>
    match s.session c, s.channel k with
    | none, _ => (.nothing, .left (.error .clientNotFound))
    | some _, none => (.nothing, .left (.error .channelNotFound))
    | some _, some ch =>
      if c ∈ ch.members then (.leave k, .left (.ok ())) else (.nothing, .left (.error .notAMember))
  | disconnect =>
    match s.session c with
    | none => (.nothing, .disconnected (.error (errorToStatus .clientNotFound)))
    | some _ => (.gone, .disconnected (.ok ()))

/-- The invariants of the stores that hold between operations. -/
structure Server.Consistent (s : Server) : Prop where
  agree : Agree s
  indexed : s.Indexed
  registered : s.Registered

/-- What another client's request does leaves the plan as it was. -/
theorem Effect.On.plan_eq (hdc : d ≠ c) (h : f.On d s s') (hs : s.Indexed) (hs' : s'.Indexed)
    (r : ClientRequest) : r.plan s' c = r.plan s c := by
  have hsession : s'.session c = s.session c := by rw [h.session, if_neg hdc.symm]
  have hindex : ∀ n, s'.idOf n = s.idOf n := idOf_ext hs' hs h.nameOf
  cases r with
  | join k =>
    simp only [ClientRequest.plan, hsession, h.channel]
    rcases s.session c with _ | cs <;> rcases s.channel k with _ | ch <;> rfl
  | joinByName name => simp only [ClientRequest.plan, hsession, hindex]
  | leave k =>
    simp only [ClientRequest.plan, hsession, h.channel]
    rcases s.session c with _ | cs <;> rcases s.channel k with _ | ch
    all_goals simp only [Option.map_some, Option.map_none, Effect.mem_channel hdc.symm]
  | disconnect => simp only [ClientRequest.plan, hsession]

/-! ### The requests come to their plans -/

theorem Settles.on (h : Settles c k s s') (he : SameElse s s') : (Effect.enter k).On c s s' where
  channel k' := by
    rw [h.channel]
    rfl
  session d := by
    rw [h.session]
    by_cases hd : d = c
    · rcases s.session d with _ | cs <;> simp [hd, Effect.session]
    · simp [hd]
  nameGiven := he.nameGiven
  writers d := by
    rw [he.writers, if_neg]
    nofun

theorem Leaves.on (h : Leaves c {k} s s') (he : SameElse s s') : (Effect.leave k).On c s s' where
  channel k' := by
    rw [h.putOut]
    by_cases hk : k' = k
    · rcases s.channel k' with _ | ch <;> simp [hk, Effect.channel]
    · rcases s.channel k' with _ | ch <;> simp [hk, Effect.channel]
  session d := by
    rw [h.session]
    by_cases hd : d = c
    · rcases s.session d with _ | cs
      · simp
      · simp [hd, Effect.session, ClientSession.leaveAll, ClientSession.leaveChannel,
          Finset.sdiff_singleton_eq_erase]
    · simp [hd]
  nameGiven := he.nameGiven
  writers d := by
    rw [he.writers, if_neg]
    simp

theorem Gone.on (h : Gone {c} s s') : Effect.gone.On c s s' where
  channel k := by
    rw [h.channel]
    rcases s.channel k with _ | ch
    · rfl
    · simp only [Option.map_some, Effect.channel, Channel.without, Finset.sdiff_singleton_eq_erase]
  session d := by
    rw [h.session]
    by_cases hd : d = c
    · rcases s.session d with _ | cs <;> simp [hd, Effect.session]
    · simp [hd]
  nameGiven := h.nameGiven
  writers d := by
    rw [h.writers]
    simp

/-- The request run alone gives the answer, and in the state afterwards its effect has taken place. -/
def ComesTo (order : BucketOrder) (c : ClientId) (r : ClientRequest) (s : Server) : Prop :=
  (ports.exec (r.run order c) s).1 = (r.plan s c).2 ∧
    (r.plan s c).1.On c s (ports.exec (r.run order c) s).2

theorem comesTo_join (hs : Agree s) (order : BucketOrder) (c : ClientId) (k : ChannelId) :
    ComesTo order c (.join k) s := by
  unfold ComesTo
  simp only [ClientRequest.run, ClientRequest.plan, Machine.exec_bind, Prog.pure_eq, Machine.exec_ret]
  rcases hcs : s.session c with _ | cs
  · simp only [JoinChannel.execute, Prog.perform_bind, exec_findSession, hcs]
    exact ⟨rfl, .nothing s⟩
  rcases hch : s.channel k with _ | ch
  · simp only [JoinChannel.execute, Prog.perform_bind, exec_findSession, exec_findChannel, hcs, hch]
    exact ⟨rfl, .nothing s⟩
  · obtain ⟨s', hexec, hsettles⟩ := JoinChannel.settles_execute order hs hcs hch
    have hsame := sameElse_exec (JoinChannel.requesting_execute order c k) s
    rw [hexec] at hsame ⊢
    exact ⟨rfl, hsettles.on hsame⟩

/-- By name it is a join by id, or it finds no such name. -/
theorem comesTo_joinByName (hs : Agree s) (hi : s.Indexed) (order : BucketOrder) (c : ClientId)
    (name : Bytes) : ComesTo order c (.joinByName name) s := by
  unfold ComesTo
  simp only [ClientRequest.run, ClientRequest.plan, Machine.exec_bind, Prog.pure_eq, Machine.exec_ret]
  rcases hcs : s.session c with _ | cs
  · simp only [JoinChannel.executeByName, Prog.perform_bind, exec_findSession, hcs]
    exact ⟨rfl, .nothing s⟩
  rcases hname : ChannelName.create (trim name) with _ | validatedName
  · simp only [JoinChannel.executeByName, Prog.perform_bind, exec_findSession, hcs, hname]
    exact ⟨rfl, .nothing s⟩
  rcases hk : s.idOf validatedName.value with _ | k
  · simp only [JoinChannel.executeByName, Prog.perform_bind, exec_findSession, hcs, hname]
    rw [Machine.exec_call, show ports.handle (.channels (.findByName validatedName)) s =
      (s.channels.findByName validatedName, s) from rfl, findByName_of_none hk]
    simp only [hk]
    exact ⟨rfl, .nothing s⟩
  · obtain ⟨name', hvalue, hstored⟩ := hi.nameOf hk
    obtain ⟨ch, hch, rfl⟩ := channel_of_nameOf hstored
    have htrim : trim name = ch.name.value := by
      unfold ChannelName.create at hname
      split at hname
      · cases hname
        exact hvalue.symm
      · cases hname
    obtain ⟨hexec, -⟩ := JoinChannel.exec_byName order c hi hch htrim
    obtain ⟨s', hjoin, hsettles⟩ := JoinChannel.settles_execute order hs hcs hch
    have hsame := sameElse_exec (JoinChannel.requesting_execute order c k) s
    rw [hjoin] at hsame
    rw [hexec, hjoin]
    simp only [hk]
    exact ⟨rfl, hsettles.on hsame⟩

theorem comesTo_leave (order : BucketOrder) (c : ClientId) (k : ChannelId) (s : Server) :
    ComesTo order c (.leave k) s := by
  unfold ComesTo
  simp only [ClientRequest.run, ClientRequest.plan, Machine.exec_bind, Prog.pure_eq, Machine.exec_ret]
  rcases hcs : s.session c with _ | cs
  · simp only [LeaveChannel.execute, Prog.perform_bind, exec_findSession, hcs]
    exact ⟨rfl, .nothing s⟩
  obtain rfl := id_of_session hcs
  rcases hch : s.channel k with _ | ch
  · simp only [LeaveChannel.execute, removeMemberAndBroadcast, Prog.perform_bind, exec_findSession, hcs,
      Prog.call_bind, exec_findChannel, hch]
    exact ⟨rfl, .nothing s⟩
  by_cases hm : cs.id ∈ ch.members
  · obtain ⟨s', hexec, hleaves⟩ := exec_leaveChannel_mem hcs (by rwa [members_of_channel hch])
    have hsame := sameElse_exec (requesting_leaveChannel cs.id k) s
    rw [hexec] at hsame
    rw [hexec]
    dsimp only
    rw [if_pos hm]
    exact ⟨rfl, hleaves.on hsame⟩
  · have hremove : ch.removeMember cs.id = .error .notAMember := Channel.removeMember_error.2 ⟨hm, rfl⟩
    simp only [LeaveChannel.execute, removeMemberAndBroadcast, Prog.perform_bind, exec_findSession, hcs,
      Prog.call_bind, exec_findChannel, hch, hremove, if_neg hm]
    exact ⟨rfl, .nothing s⟩

theorem comesTo_disconnect (hs : Agree s) (order : BucketOrder) (c : ClientId) :
    ComesTo order c .disconnect s := by
  unfold ComesTo
  simp only [ClientRequest.run, ClientRequest.plan, Machine.exec_bind, Prog.pure_eq, Machine.exec_ret]
  rcases hcs : s.session c with _ | cs
  · simp only [BroadcastService.disconnectClient, Prog.perform_bind, exec_findSession, hcs]
    exact ⟨rfl, .nothing s⟩
  obtain rfl := id_of_session hcs
  have hgone := (gone_expireOne order hs hcs).of_tables (sameTables_disconnect order order hs hcs)
  rcases exec_disconnectClient order (hs.channelsOf_eq cs.id) with hexec | ⟨hok, -⟩
  · -- there is a session to be gone
    rw [hexec] at hgone
    have hnone := hgone.session cs.id
    rw [if_pos (Finset.mem_singleton_self cs.id), hcs] at hnone
    cases hnone
  · exact ⟨by rw [hok], hgone.on⟩

/-- Each request comes to its plan. -/
theorem comesTo (hs : s.Consistent) (order : BucketOrder) (c : ClientId) (r : ClientRequest) :
    ComesTo order c r s := by
  cases r with
  | join k => exact comesTo_join hs.agree order c k
  | joinByName name => exact comesTo_joinByName hs.agree hs.indexed order c name
  | leave k => exact comesTo_leave order c k s
  | disconnect => exact comesTo_disconnect hs.agree order c

/-! ### The invariants hold between them -/

theorem calls_clientRequest {P : Call → Prop} (hreq : ∀ o, Requesting o → P o)
    (hr : ∀ c, P (.clients (.remove c))) (hu : ∀ c, P (.publisher (.unregisterSubscriber c)))
    (order : BucketOrder) (c : ClientId) (r : ClientRequest) : (r.run order c).Calls P := by
  cases r with
  | join k => exact .bind ((JoinChannel.requesting_execute order c k).mono hreq) fun _ => trivial
  | joinByName name =>
    exact .bind ((JoinChannel.requesting_executeByName order c name).mono hreq) fun _ => trivial
  | leave k => exact .bind ((requesting_leaveChannel c k).mono hreq) fun _ => trivial
  | disconnect => exact .bind (calls_disconnectClient order c hreq hr hu) fun _ => trivial

theorem given_clientRequest (order : BucketOrder) (c : ClientId) (r : ClientRequest) :
    SavesGiven ∅ (r.run order c) := by
  cases r with
  | join k => exact (JoinChannel.given_execute order c k).bind fun _ => trivial
  | joinByName name => exact (JoinChannel.given_executeByName order c name).bind fun _ => trivial
  | leave k => exact (given_leaveChannel c k).bind fun _ => trivial
  | disconnect => exact (given_disconnectClient order c).bind fun _ => trivial

theorem Agree.clientRequest (hs : Agree s) (order : BucketOrder) (c : ClientId) (r : ClientRequest) :
    Agree (ports.exec (r.run order c) s).2 := by
  simp only [ClientRequest.run]
  cases r with
  | join k =>
    simp only [Machine.exec_bind]
    exact hs.moves (JoinChannel.exec_execute order c k s)
  | joinByName name =>
    simp only [Machine.exec_bind]
    exact hs.moves (JoinChannel.exec_executeByName order c name s)
  | leave k =>
    simp only [Machine.exec_bind]
    exact hs.leaveChannel c k
  | disconnect =>
    simp only [Machine.exec_bind]
    exact hs.disconnect c

theorem Server.Consistent.clientRequest (hs : s.Consistent) (order : BucketOrder) (c : ClientId)
    (r : ClientRequest) : (ports.exec (r.run order c) s).2.Consistent where
  agree := hs.agree.clientRequest order c r
  indexed := by
    have hknows := (given_clientRequest order c r).knows hs.indexed fun _ hd => absurd hd (Set.notMem_empty _)
    have hcalls := calls_clientRequest (fun _ => Requesting.immediate) (fun _ _ => trivial)
      (fun _ _ => trivial) order c r
    exact (hknows.exec hcalls).indexed hs.indexed
  registered := by
    have hcalls : (r.run order c).Calls fun _ => True :=
      calls_clientRequest (fun _ _ => trivial) (fun _ => trivial) (fun _ => trivial) order c r
    exact Machine.exec_preserves ports (fun o s _ hs => hs.handle o) hcalls hs.registered

end

theorem consistent_reached {uuid : UuidLib} {historyCap : UInt32} {systemNow steadyNow : Int} {host : Host}
    (h : Host.Reached uuid (.initial historyCap systemNow steadyNow) host) : host.server.Consistent :=
  ⟨agree_reached h, indexed_reached h, registered_reached h⟩

/-- In every state that operations lead to, two requests of different clients, with any channels, have the
same answers in either order and leave the same stores and the same table of streams behind, however the
tables are walked. -/
theorem requests_commute {uuid : UuidLib} {historyCap : UInt32} {systemNow steadyNow : Int} {host : Host}
    (h : Host.Reached uuid (.initial historyCap systemNow steadyNow) host) {c d : ClientId} (hcd : c ≠ d)
    (a b : ClientRequest) (first second first' second' : BucketOrder) :
    let aFirst := ports.exec (a.run first c) host.server
    let bSecond := ports.exec (b.run second d) aFirst.2
    let bFirst := ports.exec (b.run first' d) host.server
    let aSecond := ports.exec (a.run second' c) bFirst.2
    aFirst.1 = aSecond.1 ∧ bSecond.1 = bFirst.1 ∧ bSecond.2.channels = aSecond.2.channels ∧
      bSecond.2.clients = aSecond.2.clients ∧
      bSecond.2.publisher.writers = aSecond.2.publisher.writers := by
  intro aFirst bSecond bFirst aSecond
  have hs := consistent_reached h
  have hs₁ : aFirst.2.Consistent := hs.clientRequest first c a
  have hs₂ : bFirst.2.Consistent := hs.clientRequest first' d b
  have hs₁₂ : bSecond.2.Consistent := hs₁.clientRequest second d b
  have hs₂₁ : aSecond.2.Consistent := hs₂.clientRequest second' c a
  obtain ⟨ha, hona⟩ := comesTo hs first c a
  obtain ⟨hb, honb⟩ := comesTo hs first' d b
  obtain ⟨hab, honab⟩ := comesTo hs₁ second d b
  obtain ⟨hba, honba⟩ := comesTo hs₂ second' c a
  -- neither plan is changed by the other request
  rw [hona.plan_eq hcd hs.indexed hs₁.indexed b] at hab honab
  rw [honb.plan_eq hcd.symm hs.indexed hs₂.indexed a] at hba honba
  obtain ⟨hch, hcl, hnames, hwriters⟩ := hona.comm hcd honab honb honba
  exact ⟨ha.trans hba.symm, hab.trans hb.symm, channels_ext hs₁₂.indexed hs₂₁.indexed hch,
    clients_ext hs₁₂.registered hs₂₁.registered hcl hnames, hwriters⟩

/-- Two clients that go to the same channel. -/
theorem requests_commute_sameChannel :
    let annFirst := ports.exec ((ClientRequest.join ⟨1⟩).run .byId ⟨2⟩) twoConnected.server
    let bobFirst := ports.exec ((ClientRequest.joinByName (ascii "general")).run .byId ⟨3⟩) twoConnected.server
    (ports.exec ((ClientRequest.joinByName (ascii "general")).run .byId ⟨3⟩) annFirst.2).2.channels =
      (ports.exec ((ClientRequest.join ⟨1⟩).run .byId ⟨2⟩) bobFirst.2).2.channels :=
  (requests_commute twoConnected_reached (c := ⟨2⟩) (d := ⟨3⟩) (by decide) (.join ⟨1⟩)
    (.joinByName (ascii "general")) .byId .byId .byId .byId).2.2.1

end Bcmd
