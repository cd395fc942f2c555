import Bcmd.ClientSession
import Bcmd.Commute

/-!
# The active channel of the terminal client

The session remembers the channel that it has joined, the server the one that the client is in. A join sets
the first when the server has set the second. A leave clears it before the server is asked, so that the two
part when the request is lost.
-/

namespace Bcmd.Cli
open Server

theorem remote_bind {α β : Type} (p : Gateway α) (f : α → Gateway β) :
    remote (p >>= f) = remote p >>= fun a => remote (f a) := by
  induction p with
  | ret a => rfl
  | call request k ih =>
    simp only [Prog.call_bind, remote, ih]

/-- Between two requests: the server is in order, the client has its session, and the texts of the channels'
ids are read back as these ids. -/
structure Linked (uuid : UuidLib) (write : Nat → Bytes) (c : ClientId) (s : Server) : Prop where
  consistent : s.Consistent
  connected : s.session c ≠ none
  readable : ∀ k, s.channel k ≠ none →
    write k.value ≠ [] ∧ BroadcastService.parseChannel uuid (write k.value) = some k

/-- What others do leaves this client's session as it is. -/
def Fate.Others (uuid : UuidLib) (write : Nat → Bytes) (c : ClientId) : Fate → Prop
  | lost => True
  | processed _ meanwhile => ∀ s, Linked uuid write c s →
    Linked uuid write c (meanwhile s) ∧ (meanwhile s).session c = s.session c

structure Link.Ok (uuid : UuidLib) (write : Nat → Bytes) (c : ClientId) (link : Link) : Prop where
  linked : Linked uuid write c link.server
  others : ∀ fate ∈ link.fates, fate.Others uuid write c

/-- The session's channel is the client's one channel on the server, or there is none on either side. -/
def ActiveAgrees (write : Nat → Bytes) (c : ClientId) (session : ClientSession) (s : Server) : Prop :=
  session.activeChannelId = [] ∧ s.joined c = ∅ ∨
    ∃ k, session.activeChannelId = write k.value ∧ s.joined c = {k}

section
variable {uuid : UuidLib} {write : Nat → Bytes} {c d : ClientId} {k : ChannelId} {s s' : Server} {e : Effect}
  {link : Link} {session : ClientSession} {clientId channelId : Bytes} {order : BucketOrder}

/-! ### What the server does -/

/-- The client's own requests but the last keep the link. -/
theorem Linked.on (h : Linked uuid write c s) (hcons : s'.Consistent) (hon : e.On c s s') (he : e ≠ .gone) :
    Linked uuid write c s' where
  consistent := hcons
  connected := by
    obtain ⟨cs, hcs⟩ := Option.ne_none_iff_exists'.1 h.connected
    rw [hon.session, if_pos rfl, hcs, Option.bind_some]
    cases e with
    | gone => exact absurd rfl he
    | nothing | enter | leave => nofun
  readable k hk := by
    refine h.readable k fun hnone => hk ?_
    rw [hon.channel, hnone]
    rfl

/-- A request of another client is one of the things that others do. -/
theorem others_request (hcd : c ≠ d) (order served : BucketOrder) (request : ClientRequest) :
    (Fate.processed order fun s => (ports.exec (request.run served d) s).2).Others uuid write c := by
  intro s h
  obtain ⟨-, hon⟩ := comesTo h.consistent served d request
  have hsession : (ports.exec (request.run served d) s).2.session c = s.session c := by
    rw [hon.session, if_neg hcd]
  refine ⟨⟨h.consistent.clientRequest served d request, by rw [hsession]; exact h.connected, fun k hk => ?_⟩,
    hsession⟩
  refine h.readable k fun hnone => hk ?_
  rw [hon.channel, hnone]
  rfl

theorem channel_of_mem (h : c ∈ s.members k) : s.channel k ≠ none := by
  intro hnone
  rw [members_of_none hnone] at h
  exact Finset.notMem_empty c h

theorem serve_listChannels (uuid : UuidLib) (order : BucketOrder) (s : Server) :
    ports.exec (Rpc.listChannels.serve uuid order) s =
      (.ok ((s.channels.listAll order.channels).map populateChannelSummary), s) := rfl

/-- A join of a channel that is there succeeds, and the client is in this channel only. -/
theorem serve_joinChannel (h : Linked uuid write c s)
    (hc : BroadcastService.parseClient uuid clientId = some c)
    (hk : BroadcastService.parseChannel uuid channelId = some k) (order : BucketOrder) :
    let r := ports.exec ((Rpc.joinChannel clientId channelId).serve uuid order) s
    Linked uuid write c r.2 ∧
      (r.1 = .ok () ∧ r.2.joined c = {k} ∨
        r.1 = .error (errorToStatus .channelNotFound) ∧ r.2.joined c = s.joined c) := by
  have hserve : ports.exec ((Rpc.joinChannel clientId channelId).serve uuid order) s =
      (toReply (ports.exec (JoinChannel.execute order c k) s).1,
        (ports.exec (JoinChannel.execute order c k) s).2) := by
    simp only [Rpc.serve, BroadcastService.JoinChannel, hc, hk, Machine.exec_bind, Prog.pure_eq,
      Machine.exec_ret]
  have hrun : ports.exec ((ClientRequest.join k).run order c) s =
      (.joined (ports.exec (JoinChannel.execute order c k) s).1,
        (ports.exec (JoinChannel.execute order c k) s).2) := by
    simp only [ClientRequest.run, Machine.exec_bind, Prog.pure_eq, Machine.exec_ret]
  obtain ⟨hanswer, hon⟩ := comesTo h.consistent order c (.join k)
  have hcons := h.consistent.clientRequest order c (.join k)
  rw [hrun] at hanswer hon hcons
  intro r
  rw [show r = _ from hserve]
  obtain ⟨cs, hcs⟩ := Option.ne_none_iff_exists'.1 h.connected
  simp only [ClientRequest.plan, hcs] at hanswer hon
  rcases hch : s.channel k with _ | ch
  · simp only [hch] at hanswer hon
    injection hanswer with hanswer
    exact ⟨h.on hcons hon (by simp), .inr ⟨by rw [hanswer]; rfl, hon.joined h.connected⟩⟩
  · simp only [hch] at hanswer hon
    injection hanswer with hanswer
    exact ⟨h.on hcons hon (by simp), .inl ⟨by rw [hanswer]; rfl, hon.joined h.connected⟩⟩

/-- A leave of the one channel that the client is in leaves none. -/
theorem serve_leaveChannel (h : Linked uuid write c s)
    (hc : BroadcastService.parseClient uuid clientId = some c)
    (hk : BroadcastService.parseChannel uuid channelId = some k) (hjoined : s.joined c = {k})
    (order : BucketOrder) :
    let r := ports.exec ((Rpc.leaveChannel clientId channelId).serve uuid order) s
    Linked uuid write c r.2 ∧ r.1 = .ok () ∧ r.2.joined c = ∅ := by
  have hserve : ports.exec ((Rpc.leaveChannel clientId channelId).serve uuid order) s =
      (toReply (ports.exec (LeaveChannel.execute c k) s).1, (ports.exec (LeaveChannel.execute c k) s).2) := by
    simp only [Rpc.serve, BroadcastService.LeaveChannel, hc, hk, Machine.exec_bind, Prog.pure_eq,
      Machine.exec_ret]
  have hrun : ports.exec ((ClientRequest.leave k).run order c) s =
      (.left (ports.exec (LeaveChannel.execute c k) s).1, (ports.exec (LeaveChannel.execute c k) s).2) := by
    simp only [ClientRequest.run, Machine.exec_bind, Prog.pure_eq, Machine.exec_ret]
  obtain ⟨hanswer, hon⟩ := comesTo h.consistent order c (.leave k)
  have hcons := h.consistent.clientRequest order c (.leave k)
  rw [hrun] at hanswer hon hcons
  intro r
  rw [show r = _ from hserve]
  obtain ⟨cs, hcs⟩ := Option.ne_none_iff_exists'.1 h.connected
  have hmember : c ∈ s.members k := by
    rw [h.consistent.agree.mem_iff, hjoined]
    exact Finset.mem_singleton_self k
  obtain ⟨ch, hch⟩ := Option.ne_none_iff_exists'.1 (channel_of_mem hmember)
  rw [members_of_channel hch] at hmember
  simp only [ClientRequest.plan, hcs, hch, if_pos hmember] at hanswer hon
  injection hanswer with hanswer
  refine ⟨h.on hcons hon (by simp), by rw [hanswer]; rfl, ?_⟩
  rw [hon.joined h.connected, hjoined]
  simp

/-! ### What the client sees -/

/-- An RPC is lost and nothing has changed, or it is served after what others have done. -/
theorem rpc_cases (h : link.Ok uuid write c) (request : Rpc) :
    (∀ fate ∈ (link.rpc uuid request).2.fates, fate.Others uuid write c) ∧
      ((link.rpc uuid request).1 = .error .unavailable ∧ (link.rpc uuid request).2.server = link.server ∨
        ∃ order s', Linked uuid write c s' ∧ s'.session c = link.server.session c ∧
          (link.rpc uuid request).1 = received (ports.exec (request.serve uuid order) s').1 ∧
          (link.rpc uuid request).2.server = (ports.exec (request.serve uuid order) s').2) := by
  obtain ⟨s, fates⟩ := link
  rcases fates with _ | ⟨fate, fates⟩
  · exact ⟨h.others, .inl ⟨rfl, rfl⟩⟩
  · have hothers : ∀ fate ∈ fates, fate.Others uuid write c :=
      fun fate hfate => h.others fate (List.mem_cons_of_mem _ hfate)
    cases fate with
    | lost => exact ⟨hothers, .inl ⟨rfl, rfl⟩⟩
    | processed order meanwhile =>
      obtain ⟨hlinked, hsession⟩ := h.others _ (List.mem_cons_self ..) s h.linked
      exact ⟨hothers, .inr ⟨order, meanwhile s, hlinked, hsession, rfl, rfl⟩⟩

theorem exec_remote_call {α : Type} (request : Rpc) (k : request.Res → Gateway α) (link : Link) :
    (network uuid).exec (remote (Prog.call request k)) link =
      (network uuid).exec (remote (k (link.rpc uuid request).1)) (link.rpc uuid request).2 := rfl

/-- The list that arrives has channels with readable ids only. -/
theorem exec_listChannels (h : link.Ok uuid write c) :
    let r := (network uuid).exec (remote (GrpcServerGateway.listChannels write)) link
    r.2.Ok uuid write c ∧ r.2.server.session c = link.server.session c ∧
      (∀ e, r.1 = .error e → e = .networkError) ∧
      ∀ channels, r.1 = .ok channels → ∀ channel ∈ channels, ∃ k : ChannelId,
        channel.id = write k.value ∧ BroadcastService.parseChannel uuid (write k.value) = some k := by
  have hexec : (network uuid).exec (remote (GrpcServerGateway.listChannels write)) link =
      (match (link.rpc uuid .listChannels).1 with
        | .error status => .error (statusToError status)
        | .ok channels => .ok (channels.map (GrpcServerGateway.toChannelInfo write)),
        (link.rpc uuid .listChannels).2) := by
    unfold GrpcServerGateway.listChannels Stub.ListChannels
    rw [Prog.perform_bind, exec_remote_call]
    rcases (link.rpc uuid .listChannels).1 with status | channels <;> rfl
  intro r
  rw [show r = _ from hexec]
  obtain ⟨hothers, ⟨hreply, hserver⟩ | ⟨order, s', hlinked, hsession, hreply, hserver⟩⟩ :=
    rpc_cases h .listChannels
  · rw [hreply]
    refine ⟨⟨by rw [hserver]; exact h.linked, hothers⟩, by rw [hserver], ?_, nofun⟩
    rintro e ⟨⟩
    rfl
  · rw [serve_listChannels] at hreply hserver
    rw [hreply]
    refine ⟨⟨by rw [hserver]; exact hlinked, hothers⟩, by rw [hserver]; exact hsession, nofun, ?_⟩
    rintro channels ⟨⟩ channel hchannel
    simp only [List.map_map, List.mem_map, Function.comp_apply] at hchannel
    obtain ⟨ch, hch, rfl⟩ := hchannel
    have hstored : s'.channel ch.id = some ch := Keyed.mem_values.1 hch
    exact ⟨ch.id, rfl, (hlinked.readable ch.id (by rw [hstored]; nofun)).2⟩

theorem exec_joinChannel (clientId channelId : Bytes) (link : Link) :
    (network uuid).exec (remote (GrpcServerGateway.joinChannel clientId channelId)) link =
      (fromReply (link.rpc uuid (.joinChannel (trim clientId) (trim channelId))).1,
        (link.rpc uuid (.joinChannel (trim clientId) (trim channelId))).2) := rfl

theorem exec_leaveChannel (clientId channelId : Bytes) (link : Link) :
    (network uuid).exec (remote (GrpcServerGateway.leaveChannel clientId channelId)) link =
      (fromReply (link.rpc uuid (.leaveChannel (trim clientId) (trim channelId))).1,
        (link.rpc uuid (.leaveChannel (trim clientId) (trim channelId))).2) := rfl

/-- A status with this code is never taken for `AlreadyMember`. -/
theorem notFound_ne_alreadyMember (message : String) :
    statusToError (.answered ⟨.notFound, message⟩) ≠ .alreadyMember := by
  unfold statusToError
  dsimp only
  split_ifs <;> nofun

/-- The join fails and the client is where it was, or it is in the channel whose id is returned. -/
theorem exec_joinChannelByName (h : link.Ok uuid write c)
    (hc : BroadcastService.parseClient uuid clientId = some c) (name : Bytes) :
    let r := (network uuid).exec (remote (GrpcServerGateway.joinChannelByName write clientId name)) link
    r.2.Ok uuid write c ∧
      ((∃ e, r.1 = .error e ∧ e ≠ .alreadyMember) ∧ r.2.server.joined c = link.server.joined c ∨
        ∃ k : ChannelId, r.1 = .ok (write k.value) ∧ r.2.server.joined c = {k}) := by
  intro r
  obtain ⟨hok, hsession, herror, hlist⟩ := exec_listChannels h
  have hstart : r =
      (network uuid).exec (remote (GrpcServerGateway.joinChannelByName write clientId name)) link := rfl
  unfold GrpcServerGateway.joinChannelByName at hstart
  rw [remote_bind, Machine.exec_bind] at hstart
  generalize (network uuid).exec (remote (GrpcServerGateway.listChannels write)) link = listed at *
  obtain ⟨answer, link₁⟩ := listed
  dsimp only at hok hsession herror hlist hstart
  rcases answer with e | channels
  · obtain rfl := herror e rfl
    rw [hstart]
    exact ⟨hok, .inl ⟨⟨_, rfl, nofun⟩, joined_congr hsession⟩⟩
  dsimp only at hstart
  rcases hfind : channels.find? (·.name = trim name) with _ | channel
  · rw [hfind] at hstart
    rw [hstart]
    exact ⟨hok, .inl ⟨⟨_, rfl, nofun⟩, joined_congr hsession⟩⟩
  rw [hfind] at hstart
  dsimp only at hstart
  rw [remote_bind, Machine.exec_bind, exec_joinChannel] at hstart
  obtain ⟨k, hid, hk⟩ := hlist channels rfl channel (List.mem_of_find?_eq_some hfind)
  obtain ⟨hothers, hcase⟩ := rpc_cases hok (.joinChannel (trim clientId) (trim channel.id))
  generalize link₁.rpc uuid (.joinChannel (trim clientId) (trim channel.id)) = answered at *
  obtain ⟨reply, link₂⟩ := answered
  dsimp only at hothers hcase
  rcases hcase with ⟨rfl, hserver⟩ | ⟨order, s', hlinked, hsession', hreply, hserver⟩
  · replace hstart : r = (.error .networkError, link₂) := hstart
    rw [hstart]
    refine ⟨⟨?_, hothers⟩, .inl ⟨⟨_, rfl, nofun⟩, ?_⟩⟩
    · rw [hserver]
      exact hok.linked
    · rw [hserver, joined_congr hsession]
  · have hclient : BroadcastService.parseClient uuid (trim clientId) = some c := by
      rw [← hc, BroadcastService.parseClient, BroadcastService.parseClient, trim_trim]
    have hchannel : BroadcastService.parseChannel uuid (trim channel.id) = some k := by
      rw [hid, ← hk, BroadcastService.parseChannel, BroadcastService.parseChannel, trim_trim]
    obtain ⟨hlinked', hserved⟩ := serve_joinChannel hlinked hclient hchannel order
    have hok' : link₂.Ok uuid write c := ⟨by rw [hserver]; exact hlinked', hothers⟩
    rcases hserved with ⟨hanswer, hjoined⟩ | ⟨hanswer, hjoined⟩
    · rw [hanswer] at hreply
      subst hreply
      replace hstart : r = (.ok channel.id, link₂) := hstart
      rw [hstart, hid]
      exact ⟨hok', .inr ⟨k, rfl, by rw [hserver, hjoined]⟩⟩
    · rw [hanswer] at hreply
      subst hreply
      replace hstart : r =
        (.error (statusToError (.answered (errorToStatus .channelNotFound))), link₂) := hstart
      rw [hstart]
      refine ⟨hok', .inl ⟨⟨_, rfl, notFound_ne_alreadyMember _⟩, ?_⟩⟩
      rw [hserver, hjoined, joined_congr hsession', joined_congr hsession]

/-! ### The commands -/

theorem ActiveAgrees.congr (h : ActiveAgrees write c session s) (hjoined : s'.joined c = s.joined c) :
    ActiveAgrees write c session s' := by
  unfold ActiveAgrees
  rw [hjoined]
  exact h

theorem exec_refresh (h : link.Ok uuid write c) :
    let r := (network uuid).exec (ClientSession.listChannels write) link
    r.2.Ok uuid write c ∧ r.2.server.session c = link.server.session c := by
  obtain ⟨hok, hsession, -⟩ := exec_listChannels h
  unfold ClientSession.listChannels
  rw [Machine.exec_bind]
  generalize (network uuid).exec (remote (GrpcServerGateway.listChannels write)) link = listed at *
  obtain ⟨answer, link₁⟩ := listed
  rcases answer with e | channels <;> exact ⟨hok, hsession⟩

theorem exec_activate (h : link.Ok uuid write c) (session : ClientSession) (trimmed channelId : Bytes) :
    let r := (network uuid).exec (session.activate write trimmed channelId) link
    r.1 = { session with activeChannelId := channelId } ∧ r.2.Ok uuid write c ∧
      r.2.server.session c = link.server.session c := by
  obtain ⟨hok, hsession⟩ := exec_refresh h
  unfold ClientSession.activate
  dsimp only
  split
  · rw [Machine.exec_bind]
    exact ⟨rfl, hok, hsession⟩
  · simp only [Prog.perform_bind, Machine.exec_call, Machine.exec_bind]
    exact ⟨rfl, hok, hsession⟩

/-- A join keeps the agreement, whatever becomes of its RPCs. -/
theorem exec_join (h : link.Ok uuid write c) (hc : BroadcastService.parseClient uuid session.clientId = some c)
    (hagrees : ActiveAgrees write c session link.server) (name : Bytes) :
    let r := (network uuid).exec (session.joinChannel write name) link
    r.1.clientId = session.clientId ∧ Linked uuid write c r.2.server ∧
      ActiveAgrees write c r.1 r.2.server := by
  unfold ClientSession.joinChannel
  dsimp only
  split
  · exact ⟨rfl, h.linked, hagrees⟩
  rw [Machine.exec_bind]
  obtain ⟨hok, hcase⟩ := exec_joinChannelByName h hc (trim name)
  generalize (network uuid).exec
    (remote (GrpcServerGateway.joinChannelByName write session.clientId (trim name)))
    link = joined at *
  obtain ⟨answer, link₁⟩ := joined
  dsimp only at hok hcase
  rcases hcase with ⟨⟨e, rfl, he⟩, hjoined⟩ | ⟨k, rfl, hjoined⟩
  · dsimp only
    rw [if_neg he]
    exact ⟨rfl, hok.linked, hagrees.congr hjoined⟩
  · obtain ⟨hsession, hok', hserver⟩ := exec_activate hok session (trim name) (write k.value)
    dsimp only
    rw [Machine.exec_bind]
    have hclient := congrArg ClientSession.clientId hsession
    have hactive := congrArg ClientSession.activeChannelId hsession
    exact ⟨hclient, hok'.linked, .inr ⟨k, hactive, (joined_congr hserver).trans hjoined⟩⟩

/-- The RPC of a leave is answered, if there is one. -/
def LeaveAnswered (session : ClientSession) (fates : List Fate) : Prop :=
  session.activeChannelId ≠ [] → ∃ order meanwhile rest, fates = .processed order meanwhile :: rest

/-- A session without a channel does not agree with a server that has the client in one. -/
theorem not_activeAgrees (h : Linked uuid write c s) (hactive : session.activeChannelId = [])
    (hjoined : s.joined c = {k}) : ¬ ActiveAgrees write c session s := by
  rintro (⟨-, hempty⟩ | ⟨k', hid, hjoined'⟩)
  · rw [hjoined] at hempty
    exact Finset.singleton_ne_empty k hempty
  · have hmember : c ∈ s.members k' := by
      rw [h.consistent.agree.mem_iff, hjoined']
      exact Finset.mem_singleton_self k'
    rw [hactive] at hid
    exact (h.readable k' (channel_of_mem hmember)).1 hid.symm

/-- A leave keeps the agreement exactly when its RPC is answered. -/
theorem exec_leave (h : link.Ok uuid write c)
    (hc : BroadcastService.parseClient uuid session.clientId = some c)
    (hagrees : ActiveAgrees write c session link.server) :
    let r := (network uuid).exec session.leaveChannel link
    r.1.clientId = session.clientId ∧ Linked uuid write c r.2.server ∧
      (ActiveAgrees write c r.1 r.2.server ↔ LeaveAnswered session link.fates) := by
  obtain ⟨clientId, activeChannelId⟩ := session
  unfold ClientSession.leaveChannel LeaveAnswered
  dsimp only at hc ⊢
  rcases hagrees with ⟨hnone, hjoined⟩ | ⟨k, hid, hjoined⟩
  · dsimp only at hnone
    subst hnone
    exact ⟨rfl, h.linked, fun _ hne => absurd rfl hne, fun _ => .inl ⟨rfl, hjoined⟩⟩
  dsimp only at hid
  have hmember : c ∈ link.server.members k := by
    rw [h.linked.consistent.agree.mem_iff, hjoined]
    exact Finset.mem_singleton_self k
  obtain ⟨hne, hk⟩ := h.linked.readable k (channel_of_mem hmember)
  rw [← hid] at hne
  rw [if_neg hne, Machine.exec_bind, exec_leaveChannel]
  obtain ⟨s, fates⟩ := link
  have hlost : ¬ ActiveAgrees write c ⟨clientId, []⟩ s := not_activeAgrees h.linked rfl hjoined
  rcases fates with _ | ⟨_ | ⟨order, meanwhile⟩, fates⟩
  · exact ⟨rfl, h.linked, iff_of_false hlost fun hanswered => absurd (hanswered hne) nofun⟩
  · exact ⟨rfl, h.linked, iff_of_false hlost fun hanswered => absurd (hanswered hne) nofun⟩
  · obtain ⟨hlinked, hsession⟩ := h.others _ (List.mem_cons_self ..) s h.linked
    have hclient : BroadcastService.parseClient uuid (trim clientId) = some c := by
      rw [← hc, BroadcastService.parseClient, BroadcastService.parseClient, trim_trim]
    have hchannel : BroadcastService.parseChannel uuid (trim activeChannelId) = some k := by
      rw [hid, ← hk, BroadcastService.parseChannel, BroadcastService.parseChannel, trim_trim]
    obtain ⟨hlinked', hanswer, hempty⟩ :=
      serve_leaveChannel hlinked hclient hchannel ((joined_congr hsession).trans hjoined) order
    have hrpc : (Link.mk s (.processed order meanwhile :: fates)).rpc uuid
        (.leaveChannel (trim clientId) (trim activeChannelId)) =
          (.ok (), ⟨(ports.exec ((Rpc.leaveChannel (trim clientId) (trim activeChannelId)).serve uuid order)
            (meanwhile s)).2, fates⟩) := by
      show (received _, _) = _
      rw [hanswer]
      rfl
    rw [hrpc]
    exact ⟨rfl, hlinked', fun _ _ => ⟨order, meanwhile, fates, rfl⟩, fun _ => .inl ⟨rfl, hempty⟩⟩

/-! ### Runs -/

/-- Of this command, every RPC of a leave is answered. -/
def SessionCommand.Answered (session : ClientSession) (fates : List Fate) : SessionCommand → Prop
  | joinChannel _ => True
  | leaveChannel => LeaveAnswered session fates

theorem run_command (h : Linked uuid write c s)
    (hc : BroadcastService.parseClient uuid session.clientId = some c)
    (hagrees : ActiveAgrees write c session s) (command : SessionCommand) {fates : List Fate}
    (hfates : ∀ fate ∈ fates, fate.Others uuid write c) :
    let r := command.run uuid write fates session s
    r.1.clientId = session.clientId ∧ Linked uuid write c r.2 ∧
      (ActiveAgrees write c r.1 r.2 ↔ command.Answered session fates) := by
  have hok : (Link.mk s fates).Ok uuid write c := ⟨h, hfates⟩
  cases command with
  | joinChannel name =>
    obtain ⟨hclient, hlinked, hagrees'⟩ := exec_join hok hc hagrees name
    exact ⟨hclient, hlinked, iff_of_true hagrees' trivial⟩
  | leaveChannel => exact exec_leave hok hc hagrees

end

/-- After each of the commands the session and the server agree. -/
def AgreesAfterEach (uuid : UuidLib) (write : Nat → Bytes) (c : ClientId) (session : ClientSession)
    (s : Server) :
    List (SessionCommand × List Fate) → Prop
  | [] => True
  | (command, fates) :: commands =>
    let r := command.run uuid write fates session s
    ActiveAgrees write c r.1 r.2 ∧ AgreesAfterEach uuid write c r.1 r.2 commands

/-- Each of the commands is answered where it has to be. -/
def AnsweredEach (uuid : UuidLib) (write : Nat → Bytes) (session : ClientSession) (s : Server) :
    List (SessionCommand × List Fate) → Prop
  | [] => True
  | (command, fates) :: commands =>
    let r := command.run uuid write fates session s
    command.Answered session fates ∧ AnsweredEach uuid write r.1 r.2 commands

/-- For every sequence of joins and leaves of a client that keeps its session, whatever becomes of their RPCs
and whatever others do in between: after every command the active channel is the one the server has the client
in, or none, exactly when no leave of an active channel loses its RPC. -/
theorem active_agrees_iff {uuid : UuidLib} {write : Nat → Bytes} {c : ClientId} {s : Server}
    {session : ClientSession} (h : Linked uuid write c s)
    (hclient : BroadcastService.parseClient uuid session.clientId = some c)
    (hagrees : ActiveAgrees write c session s) (commands : List (SessionCommand × List Fate))
    (hothers : ∀ command ∈ commands, ∀ fate ∈ command.2, fate.Others uuid write c) :
    AgreesAfterEach uuid write c session s commands ↔ AnsweredEach uuid write session s commands := by
  induction commands generalizing session s with
  | nil => exact Iff.rfl
  | cons command commands ih =>
    obtain ⟨command, fates⟩ := command
    obtain ⟨hclient', hlinked, hiff⟩ := run_command h hclient hagrees command
      (hothers (command, fates) (List.mem_cons_self ..))
    rw [← hclient'] at hclient
    have hrest := fun hagrees' => ih hlinked hclient hagrees' fun command hcommand =>
      hothers command (List.mem_cons_of_mem _ hcommand)
    constructor
    · exact fun ⟨hone, hall⟩ => ⟨hiff.1 hone, (hrest hone).1 hall⟩
    · exact fun ⟨hone, hall⟩ => ⟨hiff.2 hone, (hrest (hiff.2 hone)).2 hall⟩

def annOnline : ClientSession := ⟨writeSmall 2, []⟩

theorem annLinked : Linked .canonical writeSmall ⟨2⟩ twoConnected.server where
  consistent := consistent_reached twoConnected_reached
  connected := by decide
  readable k hk := by
    have hall : ∀ k ∈ twoConnected.server.channels.channelsById.map.keys,
        writeSmall k.value ≠ [] ∧ BroadcastService.parseChannel .canonical (writeSmall k.value) = some k := by
      decide
    obtain ⟨ch, hch⟩ := Option.ne_none_iff_exists'.1 hk
    exact hall k (Finmap.mem_keys.2 (Finmap.mem_of_lookup_eq_some hch))

/-- A join and a leave, with another client's join in between. -/
theorem active_agrees_iff_joinLeave :
    AgreesAfterEach .canonical writeSmall ⟨2⟩ annOnline twoConnected.server
      [(.joinChannel (ascii "general"), [.processed .byId id, .processed .byId fun s =>
          (ports.exec ((ClientRequest.join ⟨1⟩).run .byId ⟨3⟩) s).2]),
        (.leaveChannel, [.processed .byId id])] := by
  have hid : (Fate.processed .byId id).Others .canonical writeSmall ⟨2⟩ := fun s h => ⟨h, rfl⟩
  have hbob : (Fate.processed .byId fun s =>
      (ports.exec ((ClientRequest.join ⟨1⟩).run .byId ⟨3⟩) s).2).Others .canonical writeSmall ⟨2⟩ :=
    others_request (by decide) .byId .byId (.join ⟨1⟩)
  refine (active_agrees_iff annLinked (by decide) (.inl ⟨rfl, by decide⟩) _ ?_).2 ?_
  · simp only [List.forall_mem_cons, List.not_mem_nil, false_implies, implies_true, and_true]
    exact ⟨⟨hid, hbob⟩, hid⟩
  · exact ⟨trivial, fun _ => ⟨_, _, _, rfl⟩, trivial⟩

/-- The RPC of the leave is lost: the session has no channel, the server still has the client in it. -/
theorem active_lost :
    let joined := (SessionCommand.joinChannel (ascii "general")).run .canonical writeSmall
      [.processed .byId id, .processed .byId id] annOnline twoConnected.server
    let left := SessionCommand.leaveChannel.run .canonical writeSmall [.lost] joined.1 joined.2
    joined.1.activeChannelId = writeSmall 1 ∧ joined.2.joined ⟨2⟩ = {⟨1⟩} ∧
      left.1.activeChannelId = [] ∧ left.2.joined ⟨2⟩ = {⟨1⟩} := by
  decide

end Bcmd.Cli
