import Bcmd.MembershipRequest
import Bcmd.Routing

/-!
# Streams of clients without a session

The chat side unregisters a client wherever its session ends, and lets only members subscribe. The
channel list registers only clients with a session, but no end of a session takes a client out of it.
-/

namespace Bcmd
open Server

/-- Both tables have entries of clients with a session only. -/
structure OnlyLive (s : Server) : Prop where
  channel : ∀ c w, s.publisher.writers.lookup c = some w → s.session c ≠ none
  list : ∀ c w, s.channelList.writers.lookup c = some w → s.session c ≠ none

/-- No session ends whose client has an entry in the channel list. -/
def EndsNoListed (uuid : UuidLib) (host : Host) : Operation → Prop
  | .disconnect clientId =>
    ∀ c, BroadcastService.parseClient uuid clientId = some c → host.server.channelList.writers.lookup c = none
  | .expire deadline =>
    ∀ c cs, host.server.session c = some cs → cs.isExpired deadline →
      host.server.channelList.writers.lookup c = none
  | _ => True

/-! ### Calls that register no stream -/

/-- The call puts no stream into a table. -/
def RegistersNone : Call → Prop
  | .publisher (.registerSubscriber _ _) | .channelList (.registerSubscriberWithSnapshot _ _ _) => False
  | _ => True

/-- Nor does it end a session. -/
def EndsNone : Call → Prop
  | .clients (.remove _) => False
  | o => RegistersNone o

/-- From `s` to `s'` no stream has come into a table, and the streams outside were not written to. -/
structure AddsNoStream (s s' : Server) : Prop where
  channel : ∀ d v, s'.publisher.writers.lookup d = some v → s.publisher.writers.lookup d = some v
  list : ∀ d v, s'.channelList.writers.lookup d = some v → s.channelList.writers.lookup d = some v
  channelDeaf : ∀ v, (∀ d, s.publisher.writers.lookup d ≠ some v) →
    s'.publisher.written v = s.publisher.written v
  listDeaf : ∀ v, (∀ d, s.channelList.writers.lookup d ≠ some v) →
    s'.channelList.written v = s.channelList.written v

section
variable {Event : Type} {p : Subscribers Event} {c d : ClientId} {v : StreamId} {event : Event}

theorem Subscribers.lookup_of_erase (h : (p.unregisterSubscriber c).writers.lookup d = some v) :
    d ≠ c ∧ p.writers.lookup d = some v := by
  rw [writers_unregister] at h
  by_cases hd : d = c
  · rw [hd, Finmap.lookup_erase] at h
    cases h
  · rw [Finmap.lookup_erase_ne hd] at h
    exact ⟨hd, h⟩

theorem Subscribers.writeTo_deaf (h : ∀ d, p.writers.lookup d ≠ some v) :
    (p.writeTo c event).written v = p.written v := by
  rw [written_writeTo, if_neg (h c)]

theorem Subscribers.writeWhere_deaf (h : ∀ d, p.writers.lookup d ≠ some v) (wanted : ClientId → Bool) :
    (p.writeWhere wanted event).written v = p.written v := by
  have hnone : (p.writers.keys.filter fun id => wanted id ∧ p.writers.lookup id = some v) = ∅ :=
    Finset.filter_eq_empty_iff.2 fun d _ hd => h d hd.2
  simp only [writeWhere, hnone, Finset.card_empty, List.replicate_zero, List.append_nil]

end

namespace AddsNoStream
variable {s s₁ s' : Server} {o : Call}

theorem refl (s : Server) : AddsNoStream s s :=
  ⟨fun _ _ h => h, fun _ _ h => h, fun _ _ => rfl, fun _ _ => rfl⟩

theorem trans (h : AddsNoStream s s₁) (h' : AddsNoStream s₁ s') : AddsNoStream s s' := by
  refine ⟨fun d v hd => h.channel d v (h'.channel d v hd), fun d v hd => h.list d v (h'.list d v hd),
    fun v hv => ?_, fun v hv => ?_⟩
  · rw [h'.channelDeaf v fun d hd => hv d (h.channel d v hd), h.channelDeaf v hv]
  · rw [h'.listDeaf v fun d hd => hv d (h.list d v hd), h.listDeaf v hv]

theorem same (hp : s'.publisher = s.publisher) (hl : s'.channelList = s.channelList) : AddsNoStream s s' := by
  refine ⟨fun d v hd => ?_, fun d v hd => ?_, fun _ _ => by rw [hp], fun _ _ => by rw [hl]⟩
  · rwa [hp] at hd
  · rwa [hl] at hd

theorem call (ho : RegistersNone o) (s : Server) : AddsNoStream s (handle o s).2 := by
  rcases o with o | o | o | (_ | c | ⟨c, m⟩ | _ | _) | (_ | c | ch | _) | _ | _
  case channels => exact .same (handle_channels_publisher s o) (handle_channels_channelList s o)
  case clients => exact .same (handle_clients_publisher s o) (handle_clients_channelList s o)
  case messages => exact .same (handle_messages_publisher s o) (handle_messages_channelList s o)
  case publisher.registerSubscriber => exact ho.elim
  case channelList.registerSubscriberWithSnapshot => exact ho.elim
  case publisher.unregisterSubscriber =>
    exact ⟨fun d v hd => (Subscribers.lookup_of_erase hd).2, fun _ _ h => h, fun _ _ => rfl, fun _ _ => rfl⟩
  case channelList.unregisterSubscriber =>
    exact ⟨fun _ _ h => h, fun d v hd => (Subscribers.lookup_of_erase hd).2, fun _ _ => rfl, fun _ _ => rfl⟩
  case publisher.publish =>
    refine ⟨fun d v hd => ?_, fun _ _ h => h, fun v hv => Subscribers.writeTo_deaf hv, fun _ _ => rfl⟩
    rwa [show (handle (.publisher (.publish c m)) s).2.publisher.writers = s.publisher.writers from
      Subscribers.writers_writeTo ..] at hd
  case publisher.broadcastMemberJoined =>
    exact ⟨fun _ _ h => h, fun _ _ h => h, fun v hv => Subscribers.writeWhere_deaf hv _, fun _ _ => rfl⟩
  case publisher.broadcastMemberLeft =>
    exact ⟨fun _ _ h => h, fun _ _ h => h, fun v hv => Subscribers.writeWhere_deaf hv _, fun _ _ => rfl⟩
  case channelList.publishChannelCreated =>
    exact ⟨fun _ _ h => h, fun _ _ h => h, fun _ _ => rfl, fun v hv => Subscribers.writeWhere_deaf hv _⟩
  case channelList.publishMemberCountChanged =>
    exact ⟨fun _ _ h => h, fun _ _ h => h, fun _ _ => rfl, fun v hv => Subscribers.writeWhere_deaf hv _⟩
  all_goals exact .same rfl rfl

theorem exec {α : Type} {task : Task α} (h : task.Calls RegistersNone) (s : Server) :
    AddsNoStream s (ports.exec task s).2 :=
  Machine.exec_preserves ports (I := AddsNoStream s) (fun _ _ ho hs => hs.trans (call ho _)) h (.refl s)

end AddsNoStream

theorem EndsNone.registersNone {o : Call} (h : EndsNone o) : RegistersNone o := by
  rcases o with _ | (_ | _ | _ | _ | _ | _ | _ | _) | _ | _ | _ | _ | _
  all_goals first | exact h | trivial

/-- Only a removal ends a session. -/
theorem session_ne_none {o : Call} {c : ClientId} {s : Server} (ho : ∀ d, o ≠ .clients (.remove d))
    (h : s.session c ≠ none) : (handle o s).2.session c ≠ none := by
  by_cases hr : ∃ name, o = .clients (.registerClient name)
  · obtain ⟨name, rfl⟩ := hr
    rcases InMemoryClientRegistry.registerClient_cases s.clients
      ⟨s.nextUuid⟩ s.steadyNow name with hsame | ⟨-, hnew⟩
    · exact (congrArg (·.2.clientsById.find c) hsame).trans_ne h
    · exact ((hnew c).trans (if_neg fun hc => h hc.2)).trans_ne h
  · have hplain : Plain o := by
      rcases o with _ | (_ | _ | _ | _ | _ | _ | _ | _) | _ | _ | _ | _ | _
      case clients.remove => exact absurd rfl (ho _)
      case clients.registerClient => exact absurd ⟨_, rfl⟩ hr
      all_goals trivial
    exact fun hnone => h ((session_eq_none_iff hplain s c).1 hnone)

theorem OnlyLive.handle {o : Call} {s : Server} (h : OnlyLive s) (ho : EndsNone o) :
    OnlyLive (handle o s).2 := by
  have hshrinks := AddsNoStream.call ho.registersNone s
  have hsession : ∀ c, s.session c ≠ none → (Server.handle o s).2.session c ≠ none := fun c =>
    session_ne_none (by rintro d rfl; exact ho)
  exact ⟨fun c w hw => hsession c (h.channel c w (hshrinks.channel c w hw)),
    fun c w hw => hsession c (h.list c w (hshrinks.list c w hw))⟩

theorem OnlyLive.exec {α : Type} {task : Task α} {s : Server} (h : OnlyLive s) (htask : task.Calls EndsNone) :
    OnlyLive (ports.exec task s).2 :=
  Machine.exec_preserves ports (fun _ _ ho hs => hs.handle ho) htask h

/-! ### The operations -/

section
variable {uuid : UuidLib} {order : BucketOrder} {host host' : Host} {s : Server} {c : ClientId}
  {k : ChannelId}
  {w : StreamId}
open BroadcastService

theorem Quiet.endsNone {o : Call} (h : Quiet o) : EndsNone o := by
  rcases o with _ | (_ | _ | _ | _ | _ | _ | _ | _) | _ | _ | _ | _ | _
  all_goals trivial

theorem Requesting.endsNone {o : Call} (h : Requesting o) : EndsNone o := by
  rcases o with _ | (_ | _ | _ | _ | _ | _ | _ | _) | _ | (_ | _ | _ | _ | _) | (_ | _ | _ | _) | _ | _
  all_goals trivial

/-- The requests that neither open a stream nor end a session. -/
theorem exec_endsNone {P : Server → Prop} (hP : ∀ {α : Type} {task : Task α}, task.Calls EndsNone →
      P (ports.exec task host.server).2) (op : Operation)
    (hop : match op with
      | .disconnect _ | .expire _ | .subscribeToChannel _ _ | .subscribeToChannelList _ | .endChannelStream _
      | .endListStream _ => False
      | _ => True) : P (host.step uuid order op).server := by
  cases op with
  | connect name => exact hP ((quiet_connect name).mono fun _ => Quiet.endsNone)
  | listChannels => exact hP ⟨trivial, fun _ => trivial⟩
  | createChannel clientId name =>
    exact hP (calls_rpc_createChannel uuid (fun _ => trivial) (fun _ => trivial)
      (fun _ => trivial) clientId name)
  | joinChannel clientId channelId =>
    exact hP ((requesting_joinRequest order uuid clientId channelId).mono fun _ => Requesting.endsNone)
  | leaveChannel clientId channelId =>
    exact hP ((requesting_leaveRequest uuid clientId channelId).mono fun _ => Requesting.endsNone)
  | sendMessage clientId channelId content =>
    exact hP (calls_rpc_sendMessage uuid order (fun _ => trivial) (fun _ => trivial) (fun _ _ _ => trivial)
      (fun _ => trivial) (fun _ _ => trivial) clientId channelId content)
  | listMessages clientId channelId before limit =>
    exact hP ((quiet_listMessages uuid clientId channelId before limit).mono fun _ => Quiet.endsNone)
  | heartbeat clientId => exact hP ((quiet_heartbeat uuid clientId).mono fun _ => Quiet.endsNone)
  | _ => exact hop.elim

/-- The end of a session, on both sides: the chat table loses the client, and the channel list did not
have it. -/
theorem OnlyLive.removed (h : OnlyLive s) (hnone : s.channelList.writers.lookup c = none) :
    OnlyLive (Server.handle (.publisher (.unregisterSubscriber c))
      (Server.handle (.clients (.remove c)) s).2).2 := by
  have hsession : ∀ d, d ≠ c → s.session d ≠ none →
      (Server.handle (.clients (.remove c)) s).2.session d ≠ none := by
    intro d hd hs
    rwa [session_remove, if_neg hd]
  refine ⟨fun d w hw => ?_, fun d w hw => ?_⟩
  · obtain ⟨hd, hw⟩ := Subscribers.lookup_of_erase (p := s.publisher) hw
    exact hsession d hd (h.channel d w hw)
  · have hw' : s.channelList.writers.lookup d = some w := hw
    have hd : d ≠ c := by
      rintro rfl
      rw [hnone] at hw'
      cases hw'
    exact hsession d hd (h.list d w hw')

theorem OnlyLive.disconnect (h : OnlyLive s) (order : BucketOrder)
    (hnone : s.channelList.writers.lookup c = none) :
    OnlyLive (ports.exec (disconnectClient order c) s).2 := by
  simp only [disconnectClient, Prog.perform_bind, Prog.pure_eq, exec_findSession]
  rcases s.session c with _ | cs
  · exact h
  simp only [Machine.exec_bind, Machine.exec_call]
  have hcalls := (requesting_leaveEach c (order.channels.enum cs.joinedChannels)).mono fun _ =>
    Requesting.endsNone
  have hleft := h.exec hcalls
  have hlist := AddsNoStream.exec (hcalls.mono fun _ => EndsNone.registersNone) s
  generalize (ports.exec (leaveEach c _) s).2 = s₁ at hleft hlist ⊢
  have hnone₁ : s₁.channelList.writers.lookup c = none := by
    rcases hw : s₁.channelList.writers.lookup c with _ | w
    · rfl
    · exact (hlist.list c w hw).symm.trans hnone
  rcases hr : (ports.handle (.clients (.remove c)) s₁).1 with e | _
  · -- there is no session to remove, and nothing happens
    have hgone : s₁.session c = none := by
      by_contra hs
      have hok : (ports.handle (.clients (.remove c)) s₁).1 = (.ok () : VoidResult) :=
        (fst_remove s₁ c).trans (if_neg hs)
      rw [hok] at hr
      cases hr
    have hsame : (s₁.clients.remove c).2 = s₁.clients := by
      unfold InMemoryClientRegistry.remove
      rw [show s₁.clients.clientsById.find c = none from hgone]
    show OnlyLive { s₁ with clients := (s₁.clients.remove c).2 }
    rw [hsame]
    exact hleft
  · exact hleft.removed hnone₁

theorem OnlyLive.expireEach (h : OnlyLive s) (order : BucketOrder) (count : Nat)
    {expired : List ClientSession} (hnone : ∀ cs ∈ expired, s.channelList.writers.lookup cs.id = none) :
    OnlyLive (ports.exec (ExpireInactiveClients.expireEach order count expired) s).2 := by
  induction expired generalizing s count with
  | nil => exact h
  | cons cs expired ih =>
    have hcalls := (requesting_removeFromEach cs (order.channels.enum cs.joinedChannels)).mono
      fun _ => Requesting.endsNone
    have hout := h.exec hcalls
    have hlist := AddsNoStream.exec (hcalls.mono fun _ => EndsNone.registersNone) s
    simp only [ExpireInactiveClients.expireEach, Machine.exec_bind, Machine.exec_perform]
    generalize (ports.exec (ExpireInactiveClients.removeFromEach cs _) s).2 = s₁ at hout hlist ⊢
    have hnone₁ : ∀ cs' ∈ cs :: expired, s₁.channelList.writers.lookup cs'.id = none := by
      intro cs' hcs'
      rcases hw : s₁.channelList.writers.lookup cs'.id with _ | w
      · rfl
      · exact (hlist.list _ w hw).symm.trans (hnone cs' hcs')
    exact ih (hout.removed (hnone₁ cs (List.mem_cons_self ..))) (count + 1)
      fun cs' hcs' => hnone₁ cs' (List.mem_cons_of_mem cs hcs')

/-- A stream is registered for a member, and a member has a session. -/
theorem OnlyLive.beginChannel (h : OnlyLive host.server) (hagree : Agree host.server) (c : ClientId)
    (k : ChannelId) :
    OnlyLive (host.beginChannel c k).server := by
  have hsame : (host.beginChannel c k).server.channelList = host.server.channelList ∧
      (host.beginChannel c k).server.clients = host.server.clients := by
    rw [server_beginChannel]
    exact ⟨rfl, rfl⟩
  refine ⟨fun d w hw => ?_, fun d w hw => ?_⟩
  · show (host.beginChannel c k).server.clients.clientsById.find d ≠ none
    rw [hsame.2]
    rcases lookup_beginChannel hw with ⟨rfl, -, hm⟩ | ⟨-, hw⟩
    · obtain ⟨cs, hcs, -⟩ := mem_joined.1 ((hagree.mem_iff d k).1 hm)
      exact (congrArg (· ≠ none) hcs).mpr (Option.some_ne_none cs)
    · exact h.channel d w hw
  · show (host.beginChannel c k).server.clients.clientsById.find d ≠ none
    rw [hsame.2]
    rw [hsame.1] at hw
    exact h.list d w hw

/-- A list stream is registered after its client's session is found. -/
theorem server_beginList (order : BucketOrder) (host : Host) (c : ClientId) :
    host.server.session c = none ∧ (host.beginList order c).server = host.server ∧
        (host.beginList order c).listStreams = host.listStreams ∨
      host.server.session c ≠ none ∧ (host.beginList order c).server = { host.server with
        channelList := GrpcChannelListPublisher.registerSubscriberWithSnapshot host.server.channelList
          host.server.channels order.channels c host.nextStream } ∧
        (host.beginList order c).listStreams = host.listStreams.insert host.nextStream c := by
  unfold Host.beginList
  simp only [beginListStream, SubscribeToChannelList.execute, Prog.perform_bind, Prog.pure_eq, Prog.call_bind,
    exec_findSession]
  rcases hcs : host.server.session c with _ | cs
  · exact .inl ⟨rfl, rfl, rfl⟩
  · exact .inr ⟨nofun, rfl, rfl⟩

theorem OnlyLive.beginList (h : OnlyLive host.server) (order : BucketOrder) (c : ClientId) :
    OnlyLive (host.beginList order c).server := by
  rcases server_beginList order host c with ⟨-, hs, -⟩ | ⟨hc, hs, -⟩
  · rw [hs]
    exact h
  · rw [hs]
    refine ⟨h.channel, fun d w hw => ?_⟩
    have hw' : (host.server.channelList.writers.insert c host.nextStream).lookup d = some w := hw
    by_cases hd : d = c
    · subst hd
      exact hc
    · rw [Finmap.lookup_insert_of_ne _ hd] at hw'
      exact h.list d w hw'

theorem onlyLive_step (h : OnlyLive host.server) (hagree : Agree host.server) (order : BucketOrder)
    (op : Operation) (hop : EndsNoListed uuid host op) : OnlyLive (host.step uuid order op).server := by
  cases op with
  | disconnect clientId =>
    show OnlyLive (ports.exec (Disconnect uuid order clientId) host.server).2
    unfold Disconnect
    rcases hc : parseClient uuid clientId with _ | c
    · exact h
    · exact h.disconnect order (hop c hc)
  | expire deadline =>
    refine h.expireEach order 0 fun cs hcs => ?_
    obtain ⟨hcs, hexpired⟩ := InMemoryClientRegistry.mem_collectExpired.1 hcs
    exact hop cs.id cs hcs (decide_eq_true hexpired)
  | subscribeToChannel clientId channelId =>
    unfold Host.step
    dsimp only
    split
    · exact h.beginChannel hagree _ _
    · exact h
  | subscribeToChannelList clientId =>
    unfold Host.step
    dsimp only
    split
    · exact h.beginList order _
    · exact h
  | endChannelStream w =>
    unfold Host.step
    dsimp only
    split
    · exact h
    · exact ⟨fun d v hv => h.channel d v (Subscribers.lookup_of_erase
        (p := host.server.publisher) hv).2, h.list⟩
  | endListStream w =>
    unfold Host.step
    dsimp only
    split
    · exact h
    · exact ⟨h.channel, fun d v hv => h.list d v
        (Subscribers.lookup_of_erase (p := host.server.channelList) hv).2⟩
  | _ => exact exec_endsNone (fun htask => h.exec htask) _ trivial

def Operation.Subscribes : Operation → Prop
  | .subscribeToChannel _ _ | .subscribeToChannelList _ => True
  | _ => False

theorem addsNoStream_step (order : BucketOrder) (host : Host) {op : Operation} (hop : ¬ op.Subscribes) :
    AddsNoStream host.server (host.step uuid order op).server := by
  cases op with
  | disconnect clientId =>
    show AddsNoStream host.server (ports.exec (Disconnect uuid order clientId) host.server).2
    unfold Disconnect
    rcases parseClient uuid clientId with _ | c
    · exact .refl _
    have hcalls := @calls_disconnectClient order c RegistersNone
      (fun _ ho => (Requesting.endsNone ho).registersNone) (fun _ => trivial) fun _ => trivial
    exact .exec hcalls _
  | expire deadline =>
    have hcalls := @calls_expire order RegistersNone (fun _ ho => (Requesting.endsNone ho).registersNone)
      (fun _ _ => trivial) (fun _ => trivial) (fun _ => trivial) deadline
    exact .exec hcalls _
  | endChannelStream w =>
    unfold Host.step
    dsimp only
    split
    · exact .refl _
    · rename_i c _
      have hcancelled : AddsNoStream host.server (host.cancel w).server := .same rfl rfl
      exact hcancelled.trans (@AddsNoStream.call (.publisher (.unregisterSubscriber c)) trivial _)
  | endListStream w =>
    unfold Host.step
    dsimp only
    split
    · exact .refl _
    · rename_i c _
      have hcancelled : AddsNoStream host.server (host.cancel w).server := .same rfl rfl
      exact hcancelled.trans (@AddsNoStream.call (.channelList (.unregisterSubscriber c)) trivial _)
  | subscribeToChannel _ _ => exact absurd trivial hop
  | subscribeToChannelList _ => exact absurd trivial hop
  | _ =>
    refine exec_endsNone (P := AddsNoStream host.server) (fun htask => ?_) _ trivial
    exact .exec (htask.mono fun _ => EndsNone.registersNone) _

/-! ### Whose a stream is -/

/-- An entry of a table is the stream of an open handler of the same client. -/
structure Host.Owned (host : Host) : Prop where
  channel : ∀ d w, host.server.publisher.writers.lookup d = some w → host.channelStreams.lookup w = some d
  list : ∀ d w, host.server.channelList.writers.lookup d = some w → host.listStreams.lookup w = some d
  channelUsed : ∀ d w, host.channelStreams.lookup w = some d → w < host.nextStream
  listUsed : ∀ d w, host.listStreams.lookup w = some d → w < host.nextStream

theorem Host.Owned.of_addsNoStream (h : host.Owned) (hadds : AddsNoStream host.server host'.server)
    (hc : host'.channelStreams = host.channelStreams) (hl : host'.listStreams = host.listStreams)
    (hn : host'.nextStream = host.nextStream) : host'.Owned := by
  refine ⟨fun d w hw => ?_, fun d w hw => ?_, fun d w hw => ?_, fun d w hw => ?_⟩
  · rw [hc]
    exact h.channel d w (hadds.channel d w hw)
  · rw [hl]
    exact h.list d w (hadds.list d w hw)
  · rw [hc] at hw
    rw [hn]
    exact h.channelUsed d w hw
  · rw [hl] at hw
    rw [hn]
    exact h.listUsed d w hw

/-- The end of a handler erases the entry of its client, and no other entry is its stream. -/
theorem erase_owned {writers : Finmap fun _ : ClientId => StreamId}
    {streams : Finmap fun _ : StreamId => ClientId}
    (h : ∀ d v, writers.lookup d = some v → streams.lookup v = some d) (hw : streams.lookup w = some c) :
    ∀ d v, (writers.erase c).lookup d = some v → (streams.erase w).lookup v = some d := by
  intro d v hv
  have hd : d ≠ c := by
    rintro rfl
    rw [Finmap.lookup_erase] at hv
    cases hv
  rw [Finmap.lookup_erase_ne hd] at hv
  have hvw : v ≠ w := by
    rintro rfl
    exact hd (Option.some.inj ((h d v hv).symm.trans hw))
  rw [Finmap.lookup_erase_ne hvw]
  exact h d v hv

theorem used_erase {n : StreamId} {streams : Finmap fun _ : StreamId => ClientId}
    (h : ∀ d v, streams.lookup v = some d → v < n) : ∀ d v, (streams.erase w).lookup v = some d → v < n := by
  intro d v hv
  have hvw : v ≠ w := by
    rintro rfl
    rw [Finmap.lookup_erase] at hv
    cases hv
  rw [Finmap.lookup_erase_ne hvw] at hv
  exact h d v hv

theorem used_insert {n : StreamId} {streams : Finmap fun _ : StreamId => ClientId}
    (h : ∀ d v, streams.lookup v = some d → v < n) : ∀ d v, (streams.insert n c).lookup v = some d →
    v < n + 1 := by
  intro d v hv
  by_cases hvn : v = n
  · rw [hvn]
    exact Nat.lt_succ_self n
  · rw [Finmap.lookup_insert_of_ne _ hvn] at hv
    exact (h d v hv).trans (Nat.lt_succ_self n)

theorem Host.Owned.beginChannel (h : host.Owned) (c : ClientId) (k : ChannelId) :
    (host.beginChannel c k).Owned := by
  have hlist := listStreams_beginChannel host c k
  have hstreams := channelStreams_beginChannel host c k
  refine ⟨fun d w hw => ?_, fun d w hw => ?_, ?_, fun d w hw => ?_⟩
  · rw [hstreams]
    rcases lookup_beginChannel hw with ⟨rfl, rfl, hm⟩ | ⟨-, hw⟩
    · rw [if_pos hm]
      exact Finmap.lookup_insert _
    · have hold := h.channel d w hw
      split
      · rw [Finmap.lookup_insert_of_ne _ (h.channelUsed d w hold).ne]
        exact hold
      · exact hold
  · rw [server_beginChannel] at hw
    rw [hlist]
    exact h.list d w hw
  · rw [nextStream_beginChannel, hstreams]
    split
    · exact used_insert h.channelUsed
    · exact fun d w hw => (h.channelUsed d w hw).trans (Nat.lt_succ_self _)
  · rw [nextStream_beginChannel]
    rw [hlist] at hw
    exact (h.listUsed d w hw).trans (Nat.lt_succ_self _)

theorem Host.Owned.beginList (h : host.Owned) (order : BucketOrder) (c : ClientId) :
    (host.beginList order c).Owned := by
  have hchannel : (host.beginList order c).channelStreams = host.channelStreams := by
    unfold Host.beginList
    dsimp only
    split <;> rfl
  have hnext : (host.beginList order c).nextStream = host.nextStream + 1 := by
    unfold Host.beginList
    dsimp only
    split <;> rfl
  rcases server_beginList order host c with ⟨-, hs, hl⟩ | ⟨-, hs, hl⟩
  · refine ⟨fun d w hw => ?_, fun d w hw => ?_, fun d w hw => ?_, fun d w hw => ?_⟩
    · rw [hs] at hw
      rw [hchannel]
      exact h.channel d w hw
    · rw [hs] at hw
      rw [hl]
      exact h.list d w hw
    · rw [hchannel] at hw
      rw [hnext]
      exact (h.channelUsed d w hw).trans (Nat.lt_succ_self _)
    · rw [hl] at hw
      rw [hnext]
      exact (h.listUsed d w hw).trans (Nat.lt_succ_self _)
  · refine ⟨fun d w hw => ?_, fun d w hw => ?_, fun d w hw => ?_, ?_⟩
    · rw [hs] at hw
      rw [hchannel]
      exact h.channel d w hw
    · rw [hs] at hw
      rw [hl]
      have hw' : (host.server.channelList.writers.insert c host.nextStream).lookup d = some w := hw
      by_cases hd : d = c
      · rw [hd, Finmap.lookup_insert] at hw'
        rw [hd, ← Option.some.inj hw']
        exact Finmap.lookup_insert _
      · rw [Finmap.lookup_insert_of_ne _ hd] at hw'
        have hold := h.list d w hw'
        rw [Finmap.lookup_insert_of_ne _ (h.listUsed d w hold).ne]
        exact hold
    · rw [hchannel] at hw
      rw [hnext]
      exact (h.channelUsed d w hw).trans (Nat.lt_succ_self _)
    · rw [hnext, hl]
      exact used_insert h.listUsed

theorem owned_step (h : host.Owned) (order : BucketOrder) (op : Operation) :
    (host.step uuid order op).Owned := by
  cases op with
  | subscribeToChannel clientId channelId =>
    unfold Host.step
    dsimp only
    split
    · exact h.beginChannel _ _
    · exact h
  | subscribeToChannelList clientId =>
    unfold Host.step
    dsimp only
    split
    · exact h.beginList order _
    · exact h
  | endChannelStream w =>
    unfold Host.step
    dsimp only
    split
    · exact h
    · exact ⟨erase_owned h.channel ‹_›, h.list, used_erase h.channelUsed, h.listUsed⟩
  | endListStream w =>
    unfold Host.step
    dsimp only
    split
    · exact h
    · exact ⟨h.channel, erase_owned h.list ‹_›, h.channelUsed, used_erase h.listUsed⟩
  | _ => exact h.of_addsNoStream (addsNoStream_step order host id) rfl rfl rfl

/-! ### Runs -/

/-- A channel stream that is not in the table is never in it again, and gets nothing more. -/
theorem channel_deaf_step (order : BucketOrder) (op : Operation) (hused : w < host.nextStream)
    (hdeaf : ∀ d, host.server.publisher.writers.lookup d ≠ some w) :
    (∀ d, (host.step uuid order op).server.publisher.writers.lookup d ≠ some w) ∧
      (host.step uuid order op).server.publisher.written w = host.server.publisher.written w := by
  by_cases hop : op.Subscribes
  swap
  · have hadds := @addsNoStream_step uuid order host op hop
    exact ⟨fun d hd => hdeaf d (hadds.channel d w hd), hadds.channelDeaf w hdeaf⟩
  cases op with
  | subscribeToChannel clientId channelId =>
    unfold Host.step
    dsimp only
    split
    · refine ⟨fun d hd => ?_, by rw [written_beginChannel]⟩
      rcases lookup_beginChannel hd with ⟨-, rfl, -⟩ | ⟨-, hd⟩
      · exact lt_irrefl _ hused
      · exact hdeaf d hd
    · exact ⟨hdeaf, rfl⟩
  | subscribeToChannelList clientId =>
    unfold Host.step
    dsimp only
    split
    · rcases server_beginList order host ‹_› with ⟨-, hs, -⟩ | ⟨-, hs, -⟩
      · rw [hs]
        exact ⟨hdeaf, rfl⟩
      · rw [hs]
        exact ⟨hdeaf, rfl⟩
    · exact ⟨hdeaf, rfl⟩
  | _ => exact hop.elim

theorem list_deaf_step (order : BucketOrder) (op : Operation) (hused : w < host.nextStream)
    (hdeaf : ∀ d, host.server.channelList.writers.lookup d ≠ some w) :
    (∀ d, (host.step uuid order op).server.channelList.writers.lookup d ≠ some w) ∧
      (host.step uuid order op).server.channelList.written w = host.server.channelList.written w := by
  by_cases hop : op.Subscribes
  swap
  · have hadds := @addsNoStream_step uuid order host op hop
    exact ⟨fun d hd => hdeaf d (hadds.list d w hd), hadds.listDeaf w hdeaf⟩
  cases op with
  | subscribeToChannel clientId channelId =>
    unfold Host.step
    dsimp only
    split
    · rw [server_beginChannel]
      exact ⟨hdeaf, rfl⟩
    · exact ⟨hdeaf, rfl⟩
  | subscribeToChannelList clientId =>
    unfold Host.step
    dsimp only
    split
    · rename_i c _
      rcases server_beginList order host c with ⟨-, hs, -⟩ | ⟨-, hs, -⟩
      · rw [hs]
        exact ⟨hdeaf, rfl⟩
      · rw [hs]
        refine ⟨fun d hd => ?_, ?_⟩
        · have hd' : (host.server.channelList.writers.insert c host.nextStream).lookup d = some w := hd
          by_cases hdc : d = c
          · rw [hdc, Finmap.lookup_insert] at hd'
            exact hused.ne (Option.some.inj hd').symm
          · rw [Finmap.lookup_insert_of_ne _ hdc] at hd'
            exact hdeaf d hd'
        · show ((host.server.channelList.registerSubscriber c host.nextStream).write host.nextStream
            _).written w = _
          rw [Subscribers.written_write, if_neg hused.ne, Subscribers.written_register]
    · exact ⟨hdeaf, rfl⟩
  | _ => exact hop.elim

/-- The same over a run, for either table of subscribers. -/
theorem deaf_run {ε : Type} (table : Server → Subscribers ε)
    (henv : ∀ {s s' : Server}, Env s s' → table s' = table s)
    (hstep : ∀ {host : Host} (order : BucketOrder) (op : Operation), w < host.nextStream →
      (∀ d, (table host.server).writers.lookup d ≠ some w) →
      (∀ d, (table (host.step uuid order op).server).writers.lookup d ≠ some w) ∧
        (table (host.step uuid order op).server).written w = (table host.server).written w)
    (h : Host.Reached uuid host host') (hused : w < host.nextStream)
    (hdeaf : ∀ d, (table host.server).writers.lookup d ≠ some w) :
    (table host'.server).written w = (table host.server).written w := by
  have hrun : w < host'.nextStream ∧ (∀ d, (table host'.server).writers.lookup d ≠ some w) ∧
      (table host'.server).written w = (table host.server).written w := by
    induction h with
    | refl => exact ⟨hused, hdeaf, rfl⟩
    | env _ he ih =>
      dsimp only
      rw [henv he]
      exact ih
    | step order op _ ih =>
      obtain ⟨hused, hdeaf, hwritten⟩ := ih
      obtain ⟨hdeaf', hwritten'⟩ := hstep order op hused hdeaf
      exact ⟨hused.trans_le (nextStream_step op), hdeaf', hwritten'.trans hwritten⟩
  exact hrun.2.2

/-- What the runs of the condition keep. -/
theorem onlyLive_run {historyCap : UInt32} {systemNow steadyNow : Int}
    (h : Host.ReachedBy uuid (EndsNoListed uuid) (.initial historyCap systemNow steadyNow) host) :
    OnlyLive host.server ∧ Agree host.server ∧ host.Owned := by
  induction h with
  | refl =>
    have hp := Host.initial_publisher historyCap systemNow steadyNow
    have hl := Host.initial_channelList historyCap systemNow steadyNow
    have hnone : ∀ (d : ClientId) (w : StreamId), (∅ : Finmap fun _ : ClientId => StreamId).lookup d ≠
        some w :=
      fun d w hd => by cases (Finmap.lookup_empty d).symm.trans hd
    refine ⟨⟨fun c w hw => ?_, fun c w hw => ?_⟩, agree_initial historyCap systemNow steadyNow,
      fun d w hw => ?_, fun d w hw => ?_, fun d w hw => ?_, fun d w hw => ?_⟩
    · rw [hp] at hw
      exact absurd hw (hnone c w)
    · rw [hl] at hw
      exact absurd hw (hnone c w)
    · rw [hp] at hw
      exact absurd hw (hnone d w)
    · rw [hl] at hw
      exact absurd hw (hnone d w)
    · cases (Finmap.lookup_empty w).symm.trans hw
    · cases (Finmap.lookup_empty w).symm.trans hw
  | env _ he ih =>
    obtain ⟨⟨hchannel, hlist⟩, hagree, howned⟩ := ih
    refine ⟨⟨fun c w hw => ?_, fun c w hw => ?_⟩, hagree.of_same he.channels he.clients, fun d w hw => ?_,
      fun d w hw => ?_, howned.channelUsed, howned.listUsed⟩
    all_goals dsimp only [Server.session] at hw ⊢
    · rw [he.publisher] at hw
      rw [he.clients]
      exact hchannel c w hw
    · rw [he.channelList] at hw
      rw [he.clients]
      exact hlist c w hw
    · rw [he.publisher] at hw
      exact howned.channel d w hw
    · rw [he.channelList] at hw
      exact howned.list d w hw
  | step order op _ hp ih =>
    obtain ⟨hlive, hagree, howned⟩ := ih
    exact ⟨onlyLive_step hlive hagree order op hp, agree_step order hagree op, owned_step howned order op⟩

/-- In a run in which no session ends that has an entry in the channel list, only clients with a session
have entries, and the streams that a client without a session has open get nothing more, whatever
follows. -/
theorem only_live_subscribed {historyCap : UInt32} {systemNow steadyNow : Int}
    (h : Host.ReachedBy uuid (EndsNoListed uuid) (.initial historyCap systemNow steadyNow) host) :
    (∀ c w, host.server.publisher.writers.lookup c = some w → ∃ cs, host.server.session c = some cs) ∧
      (∀ c w, host.server.channelList.writers.lookup c = some w → ∃ cs, host.server.session c = some cs) ∧
      ∀ c, host.server.session c = none → ∀ host', Host.Reached uuid host host' → ∀ w,
        (host.channelStreams.lookup w = some c →
          host'.server.publisher.written w = host.server.publisher.written w) ∧
        (host.listStreams.lookup w = some c →
          host'.server.channelList.written w = host.server.channelList.written w) := by
  obtain ⟨hlive, -, howned⟩ := onlyLive_run h
  refine ⟨fun c w hw => Option.ne_none_iff_exists'.1 (hlive.channel c w hw),
    fun c w hw => Option.ne_none_iff_exists'.1 (hlive.list c w hw), fun c hgone host' hrun w =>
      ⟨fun hw => ?_, fun hw => ?_⟩⟩
  · refine deaf_run Server.publisher Env.publisher channel_deaf_step hrun (howned.channelUsed c w hw)
      fun d hd => ?_
    -- an entry with the stream would be one of its client
    obtain rfl := Option.some.inj (hw.symm.trans (howned.channel d w hd))
    exact hlive.channel c w hd hgone
  · refine deaf_run Server.channelList Env.channelList list_deaf_step hrun (howned.listUsed c w hw)
      fun d hd => ?_
    obtain rfl := Option.some.inj (hw.symm.trans (howned.list d w hd))
    exact hlive.list c w hd hgone

end

/-! Client `2` opens a list stream. Then client `3` disconnects, or client `2` itself does. -/

def watching : Host :=
  twoConnected.step .canonical .byId (.subscribeToChannelList (ascii "00000000-0000-0000-0000-000000000002"))

def disconnectOf (c : String) : Operation := .disconnect (ascii c)

def othersGone : Host :=
  watching.step .canonical .byId (disconnectOf "00000000-0000-0000-0000-000000000003")

def watcherGone : Host :=
  watching.step .canonical .byId (disconnectOf "00000000-0000-0000-0000-000000000002")

theorem only_live_subscribed_othersGone :
    othersGone.server.channelList.writers.lookup ⟨2⟩ = some 0 ∧
      ∃ cs, othersGone.server.session ⟨2⟩ = some cs := by
  have hconnected : Host.ReachedBy .canonical (EndsNoListed .canonical) (.initial 200 0 0) oneConnected :=
    .step .byId (.connect (ascii "ann")) .refl trivial
  have htwo : Host.ReachedBy .canonical (EndsNoListed .canonical) (.initial 200 0 0) twoConnected :=
    hconnected.step .byId (.connect (ascii "bob")) trivial
  have hwatching : Host.ReachedBy .canonical (EndsNoListed .canonical) (.initial 200 0 0) watching :=
    htwo.step .byId (.subscribeToChannelList _) trivial
  have hends : EndsNoListed .canonical watching (disconnectOf "00000000-0000-0000-0000-000000000003") := by
    intro c hc
    have hthree : c = ⟨3⟩ := by
      have hparse : BroadcastService.parseClient .canonical
          (ascii "00000000-0000-0000-0000-000000000003") = some ⟨3⟩ := by
        decide +kernel
      exact Option.some.inj (hc.symm.trans hparse)
    rw [hthree]
    decide +kernel
  have hentry : othersGone.server.channelList.writers.lookup ⟨2⟩ = some 0 := by decide +kernel
  exact ⟨hentry, (only_live_subscribed (hwatching.step .byId _ hends)).2.1 ⟨2⟩ 0 hentry⟩

/-- The client has no session any more, and its list stream is still in the table. -/
theorem gone_client_subscribed : ¬ ∀ (uuid : UuidLib) (host : Host),
    Host.Reached uuid (.initial 200 0 0) host →
    (∀ c w, host.server.publisher.writers.lookup c = some w → ∃ cs, host.server.session c = some cs) ∧
      ∀ c w, host.server.channelList.writers.lookup c = some w → ∃ cs, host.server.session c = some cs := by
  intro hall
  have hreached : Host.Reached .canonical (.initial 200 0 0) watcherGone :=
    (twoConnected_reached.step .byId _).step .byId _
  obtain ⟨cs, hcs⟩ := (hall _ _ hreached).2 ⟨2⟩ 0 (by decide +kernel)
  have hgone : watcherGone.server.session ⟨2⟩ = none := by decide +kernel
  rw [hgone] at hcs
  cases hcs

end Bcmd
