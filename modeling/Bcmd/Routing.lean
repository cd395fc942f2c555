import Bcmd.Agreement

/-!
# What is written to a channel stream

The publisher finds a stream by its client alone, and does not know for which channel it was opened. So
a stream carries the events of whatever channels its client is in while the stream is in the table.
-/

namespace Bcmd
open Server

/-- The channel that an event is of. -/
def ChannelEvent.channelId : ChannelEvent → ChannelId
  | message m => m.channelId
  | memberJoined k _ _ => k
  | memberLeft k _ _ => k

/-- From `s` to `s'` no stream was registered, only the clients of `N` entered channels, and what was
written to a stream is of channels that its client was in or entered. -/
structure Routes (N : ClientId → ChannelId → Prop) (s s' : Server) : Prop where
  members : ∀ d k, d ∈ s'.members k → d ∈ s.members k ∨ N d k
  writers : ∀ d v, s'.publisher.writers.lookup d = some v → s.publisher.writers.lookup d = some v
  written : ∀ v e, e ∈ s'.publisher.written v → e ∈ s.publisher.written v ∨
    ∃ d, s.publisher.writers.lookup d = some v ∧ (d ∈ s.members e.channelId ∨ N d e.channelId)

namespace Routes
variable {N : ClientId → ChannelId → Prop} {s s₁ s' : Server} {k : ChannelId}

theorem refl (s : Server) : Routes N s s := ⟨fun _ _ => .inl, fun _ _ h => h, fun _ _ => .inl⟩

theorem trans (h : Routes N s s₁) (h' : Routes N s₁ s') : Routes N s s' := by
  refine ⟨fun d k hd => ?_, fun d v hv => h.writers d v (h'.writers d v hv), fun v e he => ?_⟩
  · rcases h'.members d k hd with hd | hN
    · exact h.members d k hd
    · exact .inr hN
  · rcases h'.written v e he with he | ⟨d, hv, hd | hN⟩
    · exact h.written v e he
    · exact .inr ⟨d, h.writers d v hv, h.members d _ hd⟩
    · exact .inr ⟨d, h.writers d v hv, .inr hN⟩

/-- The members and the publisher are as they were. -/
theorem same (hm : ∀ k, s'.members k = s.members k) (hp : s'.publisher = s.publisher) : Routes N s s' := by
  refine ⟨fun d k hd => .inl (by rwa [← hm k]), fun d v hv => ?_, fun v e he => ?_⟩
  · rwa [hp] at hv
  · rw [hp] at he
    exact .inl he

theorem other {o : Call} (hs : ∀ ch, o ≠ .channels (.save ch)) (hp : ∀ o', o ≠ .publisher o') :
    Routes N s (handle o s).2 :=
  same (members_handle o hs s) (publisher_handle s hp)

theorem save {ch : Channel} (h : ∀ d ∈ ch.members, d ∈ s.members ch.id ∨ N d ch.id) :
    Routes N s (handle (.channels (.save ch)) s).2 := by
  refine ⟨fun d k hd => ?_, fun _ _ hv => hv, fun _ _ => .inl⟩
  rw [members_save] at hd
  split at hd
  · subst ‹k = ch.id›
    exact h d hd
  · exact .inl hd

theorem unregister (c : ClientId) : Routes N s (handle (.publisher (.unregisterSubscriber c)) s).2 := by
  refine ⟨fun _ _ => .inl, fun d v hv => ?_, fun _ _ => .inl⟩
  have hv' : (s.publisher.writers.erase c).lookup d = some v := hv
  by_cases hd : d = c
  · rw [hd, Finmap.lookup_erase] at hv'
    cases hv'
  · rwa [Finmap.lookup_erase_ne hd] at hv'

theorem publish {c : ClientId} {m : Message} (h : c ∈ s.members m.channelId) :
    Routes N s (handle (.publisher (.publish c m)) s).2 := by
  refine ⟨fun _ _ => .inl, fun d v hv => ?_, fun v e he => ?_⟩
  · have hwriters : (handle (.publisher (.publish c m)) s).2.publisher.writers = s.publisher.writers :=
      Subscribers.writers_writeTo ..
    rwa [hwriters] at hv
  · have he' : e ∈ (s.publisher.writeTo c (.message (messageToEvent s.clients m))).written v := he
    rw [Subscribers.written_writeTo] at he'
    split at he'
    · rcases List.mem_append.1 he' with he' | he'
      · exact .inl he'
      · rw [List.mem_singleton.1 he']
        exact .inr ⟨c, ‹_›, .inl h⟩
    · exact .inl he'

/-- A broadcast about the channel `k` to clients that are in it. -/
theorem broadcast {recipients : Finset ClientId} {event : ChannelEvent}
    (h : ∀ d ∈ recipients, d ∈ s.members event.channelId ∨ N d event.channelId) :
    Routes N s { s with publisher := s.publisher.writeWhere (GrpcClientPublisher.isTarget recipients) event } := by
  refine ⟨fun _ _ => .inl, fun _ _ hv => hv, fun v e he => ?_⟩
  rcases (Subscribers.mem_written_writeWhere ..).1 he with he | ⟨rfl, d, hd, hv⟩
  · exact .inl he
  · exact .inr ⟨d, hv, h d (of_decide_eq_true hd).2⟩

end Routes

/-! ### The use cases run alone -/

section
variable {N : ClientId → ChannelId → Prop} {s : Server} {c : ClientId} {k : ChannelId} {ch : Channel}

theorem routes_removeMember (cs : ClientSession) (k : ChannelId) (s : Server) :
    Routes N s (ports.exec (removeMemberAndBroadcast cs k) s).2 := by
  simp only [removeMemberAndBroadcast, Prog.perform_bind, Prog.pure_eq, exec_findChannel]
  rcases hch : s.channel k with _ | ch
  · exact .refl s
  rcases hr : ch.removeMember cs.id with e | ch'
  · simp only [hr]
    exact .refl s
  simp only [hr]
  obtain ⟨-, rfl⟩ := Channel.removeMember_ok.1 hr
  obtain rfl := id_of_channel hch
  have hsub : ∀ d ∈ ch.members.erase cs.id, d ∈ s.members ch.id := fun d hd => by
    rw [members_of_channel hch]
    exact Finset.mem_of_mem_erase hd
  have hsave : Routes N s (handle (.channels (.save { ch with members := ch.members.erase cs.id })) s).2 :=
    .save fun d hd => .inl (hsub d hd)
  refine hsave.trans (.broadcast fun d hd => .inl ?_)
  show d ∈ (handle (.channels (.save { ch with members := ch.members.erase cs.id })) s).2.members ch.id
  rw [members_save, if_pos rfl]
  exact hd

namespace JoinChannel

theorem routes_publishCountIfStored (k : ChannelId) (s : Server) :
    Routes N s (ports.exec (publishCountIfStored k) s).2 := by
  rw [exec_publishCountIfStored]
  rcases s.channel k with _ | ch
  · exact .refl s
  · exact .other (o := .channelList _) nofun nofun

theorem routes_leaveEach (cs : ClientSession) (ks : List ChannelId) (s : Server) :
    Routes N s (ports.exec (leaveEach cs ks) s).2 := by
  induction ks generalizing s with
  | nil => exact .refl s
  | cons k ks ih =>
    have hremoved := @routes_removeMember N cs k s
    simp only [leaveEach, Machine.exec_bind]
    rcases tolerate [.notAMember, .channelNotFound]
      (ports.exec (removeMemberAndBroadcast cs k) s).1 with e | _
    · exact hremoved
    generalize (ports.exec (removeMemberAndBroadcast cs k) s).2 = s₁ at hremoved ⊢
    have hleft : Routes N s₁ (handle (.clients (.leaveChannelAtomic cs.id k)) s₁).2 := .other (by simp) (by simp)
    dsimp only
    simp only [Machine.exec_bind, Machine.exec_perform]
    rcases tolerate [.clientNotFound] (ports.handle (.clients (.leaveChannelAtomic cs.id k)) s₁).1 with e | _
    · exact hremoved.trans hleft
    · simp only [Machine.exec_bind]
      exact ((hremoved.trans hleft).trans (routes_publishCountIfStored k _)).trans (ih _)

theorem routes_joinFound (order : BucketOrder) {cs : ClientSession} (hcs : s.session c = some cs)
    (hch : s.channel k = some ch) (hN : N c k) : Routes N s (ports.exec (joinFound order c cs k ch) s).2 := by
  have hleft := @routes_leaveEach N cs ((order.channels.enum cs.joinedChannels).filter (· ≠ k)) s
  obtain ⟨s₁, hexec, hleaves⟩ := exec_leaveOtherChannels order cs k s
  rw [show ports.exec (leaveEach cs _) s = _ from hexec] at hleft
  rw [id_of_session hcs] at hleaves
  have hch₁ : s₁.channel k = some ch := by
    rw [hleaves.putOut k, if_neg (Finset.notMem_erase k _), hch]
  simp only [joinFound, Machine.exec_bind, hexec]
  refine hleft.trans ?_
  by_cases hm : c ∈ ch.members
  · simp only [Channel.hasMember_iff.2 hm, if_true, Prog.pure_eq, Machine.exec_ret, Machine.exec_bind,
      Machine.exec_perform]
    have hjoin : Routes N s₁ (handle (.clients (.joinChannelAtomic c k)) s₁).2 := .other (by simp) (by simp)
    rcases (ports.handle (.clients (.joinChannelAtomic c k)) s₁).1 with e | _ <;> exact hjoin
  · have hadd : ch.addMember c = .ok (ch.with c) := Channel.addMember_ok.2 ⟨hm, rfl⟩
    have hno : ch.hasMember c = false := by simpa [Channel.hasMember] using hm
    have hid : (ch.with c).id = k := (id_of_channel hch : ch.id = k)
    have hmem : ∀ d ∈ (ch.with c).members, d ∈ s₁.members k ∨ N d k := by
      intro d hd
      rcases Finset.mem_insert.1 hd with rfl | hd
      · exact .inr hN
      · rw [members_of_channel hch₁]
        exact .inl hd
    have hsaved : (ports.handle (.channels (.save (ch.with c))) s₁).1 = (.ok () : VoidResult) := rfl
    have hsave : Routes N s₁ (handle (.channels (.save (ch.with c))) s₁).2 := .save (by rwa [hid])
    have hjoin : Routes N s₁ (ports.handle (.clients (.joinChannelAtomic c k))
        (ports.handle (.channels (.save (ch.with c))) s₁).2).2 := hsave.trans (.other (by simp) (by simp))
    have hstored : (ports.handle (.clients (.joinChannelAtomic c k))
        (ports.handle (.channels (.save (ch.with c))) s₁).2).2.members k = (ch.with c).members := by
      refine (members_handle (.clients (.joinChannelAtomic c k)) (by simp) _ k).trans ?_
      exact (members_save s₁ (ch.with c) k).trans (if_pos hid.symm)
    simp only [hno, addAndSave, hadd, Prog.pure_eq, Machine.exec_perform, Machine.exec_bind,
      Machine.exec_ret, hsaved, Bool.false_eq_true, if_false]
    generalize (ports.handle (.clients (.joinChannelAtomic c k))
      (ports.handle (.channels (.save (ch.with c))) s₁).2).2 = s₂ at hjoin hstored ⊢
    rcases (ports.handle (.clients (.joinChannelAtomic c k))
      (ports.handle (.channels (.save (ch.with c))) s₁).2).1
      with e | _
    · exact hjoin
    have hjoined : Routes N s₂ (handle (.publisher
        (.broadcastMemberJoined (ch.with c).id (ch.with c).members c cs.username)) s₂).2 := by
      refine .broadcast fun d hd => .inl ?_
      show d ∈ s₂.members (ch.with c).id
      rwa [hid, hstored]
    exact (hjoin.trans hjoined).trans (.other (o := .channelList _) (by simp) (by simp))

theorem routes_execute (order : BucketOrder) (hN : s.channel k ≠ none → N c k) :
    Routes N s (ports.exec (execute order c k) s).2 := by
  simp only [execute, Prog.perform_bind, Prog.pure_eq, exec_findSession, exec_findChannel]
  rcases hcs : s.session c with _ | cs
  · exact .refl s
  rcases hch : s.channel k with _ | ch
  · exact .refl s
  · exact routes_joinFound order hcs hch (hN (by rw [hch]; simp))

theorem routes_executeByName (order : BucketOrder) {name : Bytes}
    (hN : ∀ validatedName ch, ChannelName.create (trim name) = some validatedName →
      s.channels.findByName validatedName = .ok ch → N c ch.id) :
    Routes N s (ports.exec (executeByName order c name) s).2 := by
  simp only [executeByName, Prog.perform_bind, Prog.pure_eq, exec_findSession]
  rcases hcs : s.session c with _ | cs
  · exact .refl s
  rcases hname : ChannelName.create (trim name) with _ | validatedName
  · exact .refl s
  dsimp only
  rw [Machine.exec_call, show ports.handle (.channels (.findByName validatedName)) s =
    (s.channels.findByName validatedName, s) from rfl]
  rcases hr : s.channels.findByName validatedName with e | ch
  · exact .refl s
  have hjoined := routes_joinFound order hcs (InMemoryChannelRepository.findByName_ok hr)
    (hN validatedName ch hname hr)
  simp only [Machine.exec_bind]
  rcases (ports.exec (joinFound order c cs ch.id ch) s).1 with e | _ <;> exact hjoined

end JoinChannel

theorem routes_leaveChannel (c : ClientId) (k : ChannelId) (s : Server) :
    Routes N s (ports.exec (LeaveChannel.execute c k) s).2 := by
  simp only [LeaveChannel.execute, Prog.perform_bind, Prog.pure_eq, exec_findSession]
  rcases s.session c with _ | cs
  · exact .refl s
  have hremoved := @routes_removeMember N cs k s
  simp only [Machine.exec_bind]
  rcases (ports.exec (removeMemberAndBroadcast cs k) s).1 with e | _
  · exact hremoved
  generalize (ports.exec (removeMemberAndBroadcast cs k) s).2 = s₁ at hremoved ⊢
  have hleft : Routes N s (handle (.clients (.leaveChannelAtomic c k)) s₁).2 :=
    hremoved.trans (.other (by simp) (by simp))
  dsimp only
  rw [Machine.exec_call]
  rcases tolerate [.clientNotFound] (ports.handle (.clients (.leaveChannelAtomic c k)) s₁).1 with e | _
  · exact hleft
  dsimp only
  rw [exec_findChannel]
  rcases (ports.handle (.clients (.leaveChannelAtomic c k)) s₁).2.channel k with _ | ch
  · exact hleft
  · exact hleft.trans (.other (o := .channelList _) (by simp) (by simp))

theorem routes_publishEach {m : Message} {recipients : List ClientId}
    (h : ∀ d ∈ recipients, d ∈ s.members m.channelId) :
    Routes N s (ports.exec (SendMessage.publishEach m recipients) s).2 := by
  induction recipients generalizing s with
  | nil => exact .refl s
  | cons d ds ih =>
    have hpublish : Routes N s (handle (.publisher (.publish d m)) s).2 :=
      .publish (h d (List.mem_cons_self ..))
    simp only [SendMessage.publishEach, Prog.perform_bind, Machine.exec_call]
    exact hpublish.trans (ih fun d' hd' => h d' (List.mem_cons_of_mem d hd'))

theorem routes_sendMessage (order : BucketOrder) (c : ClientId) (k : ChannelId) (content : Bytes)
    (echoPolicy : EchoPolicy) (s : Server) :
    Routes N s (ports.exec (SendMessage.execute order c k content echoPolicy) s).2 := by
  simp only [SendMessage.execute, Prog.perform_bind, Prog.pure_eq, exec_findSession, exec_findChannel]
  rcases s.session c with _ | cs
  · exact .refl s
  rcases hch : s.channel k with _ | ch
  · exact .refl s
  dsimp only
  split
  · exact .refl s
  rcases MessageContent.create content with e | validated
  · exact .refl s
  dsimp only
  rw [Machine.exec_call]
  generalize hm : ((ports.handle (.newMessage c k validated) s).1 : Message) = m
  have hmk : m.channelId = k := by rw [← hm]; rfl
  have hsaved : Routes N s (handle (.messages (.save m)) (handle (.newMessage c k validated) s).2).2 :=
    .trans (.other (o := .newMessage c k validated) (by simp) (by simp))
      (.other (o := .messages (.save m)) (by simp) (by simp))
  have hrecipients : ∀ d ∈ recipientsFor order.clients ch m echoPolicy,
      d ∈ (handle (.messages (.save m)) (handle (.newMessage c k validated) s).2).2.members m.channelId := by
    intro d hd
    have hmem : d ∈ s.members k := by
      rw [members_of_channel hch]
      simpa using (List.mem_filter.1 hd).1
    rw [hmk]
    exact hmem
  rw [Machine.exec_call, show (ports.handle (.messages (.save m))
    (ports.handle (.newMessage c k validated) s).2).1 =
    (.ok () : VoidResult) from rfl]
  simp only [Machine.exec_bind, Machine.exec_ret]
  exact hsaved.trans (routes_publishEach hrecipients)

theorem routes_disconnect (order : BucketOrder) (c : ClientId) (s : Server) :
    Routes N s (ports.exec (BroadcastService.disconnectClient order c) s).2 := by
  have hleave : ∀ ks s, Routes N s (ports.exec (BroadcastService.leaveEach c ks) s).2 := by
    intro ks
    induction ks with
    | nil => exact .refl
    | cons k ks ih =>
      intro s
      simp only [BroadcastService.leaveEach, Machine.exec_bind]
      exact (routes_leaveChannel c k s).trans (ih _)
  simp only [BroadcastService.disconnectClient, Prog.perform_bind, Prog.pure_eq, exec_findSession]
  rcases s.session c with _ | cs
  · exact .refl s
  simp only [Machine.exec_bind, Machine.exec_call]
  have hleft := hleave (order.channels.enum cs.joinedChannels) s
  generalize (ports.exec (BroadcastService.leaveEach c _) s).2 = s₁ at hleft ⊢
  have hremoved : Routes N s (handle (.clients (.remove c)) s₁).2 := hleft.trans (.other (by simp) (by simp))
  rcases (ports.handle (.clients (.remove c)) s₁).1 with e | _
  · exact hremoved
  · exact hremoved.trans (.unregister c)

namespace ExpireInactiveClients

theorem routes_removeFromEach (cs : ClientSession) (ks : List ChannelId) (s : Server) :
    Routes N s (ports.exec (removeFromEach cs ks) s).2 := by
  induction ks generalizing s with
  | nil => exact .refl s
  | cons k ks ih =>
    simp only [removeFromEach, Machine.exec_bind]
    exact (routes_removeMember cs k s).trans (ih _)

theorem routes_expireEach (order : BucketOrder) (count : Nat) (expired : List ClientSession) (s : Server) :
    Routes N s (ports.exec (expireEach order count expired) s).2 := by
  induction expired generalizing s count with
  | nil => exact .refl s
  | cons cs expired ih =>
    have hout := @routes_removeFromEach N cs (order.channels.enum cs.joinedChannels) s
    simp only [expireEach, Machine.exec_bind, Machine.exec_perform]
    generalize (ports.exec (removeFromEach cs _) s).2 = s₁ at hout ⊢
    have hremoved : Routes N s (handle (.clients (.remove cs.id)) s₁).2 := hout.trans (.other (by simp) (by simp))
    exact (hremoved.trans (.unregister cs.id)).trans (ih _ _)

end ExpireInactiveClients

end

/-! ### The operations -/

/-- The stored channel that the field of a Join names. -/
def joinTarget (uuid : UuidLib) (s : Server) (channelId : Bytes) : Option ChannelId :=
  match BroadcastService.parseChannel uuid channelId with
  | some k => (s.channel k).map fun _ => k
  | none =>
    match ChannelName.create (trim (trim channelId)) with
    | none => none
    | some name =>
      match s.channels.findByName name with
      | .error _ => none
      | .ok channel => some channel.id

/-- The operation is a Join of the client to the channel. -/
def Enters (uuid : UuidLib) (s : Server) : Operation → ClientId → ChannelId → Prop
  | .joinChannel clientId channelId, c, k =>
    BroadcastService.parseClient uuid clientId = some c ∧ joinTarget uuid s channelId = some k
  | _, _, _ => False

section
variable {uuid : UuidLib} {order : BucketOrder} {host host' : Host} {c : ClientId} {k : ChannelId}
  {w : StreamId}
open BroadcastService

theorem routes_calls {N : ClientId → ChannelId → Prop} {α : Type} {task : Task α} {s : Server}
    (h : task.Calls fun o => (∀ ch, o ≠ .channels (.save ch)) ∧ ∀ o', o ≠ .publisher o') :
    Routes N s (ports.exec task s).2 :=
  Machine.exec_preserves ports (I := Routes N s) (fun _ _ ho hs => hs.trans (.other ho.1 ho.2)) h (.refl s)

theorem routes_quiet {N : ClientId → ChannelId → Prop} {α : Type} {task : Task α} {s : Server}
    (h : task.Calls Quiet) : Routes N s (ports.exec task s).2 :=
  routes_calls (h.mono fun o ho => ⟨by rintro ch rfl; exact ho, by rintro o' rfl; exact ho⟩)

/-- No operation but a subscription registers a channel stream. -/
theorem routes_step (op : Operation)
    (hop : ∀ clientId channelId, op ≠ .subscribeToChannel clientId channelId) :
    Routes (Enters uuid host.server op) host.server (host.step uuid order op).server := by
  cases op with
  | subscribeToChannel clientId channelId => exact absurd rfl (hop clientId channelId)
  | connect name => exact routes_quiet (quiet_connect name)
  | disconnect clientId =>
    show Routes _ host.server (ports.exec (Disconnect uuid order clientId) host.server).2
    unfold Disconnect
    rcases parseClient uuid clientId with _ | c
    · exact .refl _
    · exact routes_disconnect order c _
  | listChannels => exact .refl _
  | createChannel clientId name =>
    refine routes_calls (calls_rpc_createChannel uuid ?_ ?_ ?_ clientId name)
    all_goals exact fun _ => ⟨nofun, nofun⟩
  | joinChannel clientId channelId =>
    show Routes _ host.server (ports.exec (BroadcastService.JoinChannel uuid order clientId channelId)
      host.server).2
    unfold BroadcastService.JoinChannel
    rcases hc : parseClient uuid clientId with _ | c
    · exact .refl _
    rcases hk : parseChannel uuid channelId with _ | k
    · have hN : ∀ name ch, ChannelName.create (trim (trim channelId)) = some name →
          host.server.channels.findByName name = .ok ch →
          Enters uuid host.server (.joinChannel clientId channelId) c ch.id := by
        intro name ch hname hr
        refine ⟨hc, ?_⟩
        simp only [joinTarget, hk, hname, hr]
      have hj := JoinChannel.routes_executeByName order hN
      simp only [Machine.exec_bind]
      rcases (ports.exec (JoinChannel.executeByName order c (trim channelId)) host.server).1 with e |
        _ <;> exact hj
    · simp only [Machine.exec_bind]
      refine JoinChannel.routes_execute order fun hne => ⟨hc, ?_⟩
      obtain ⟨ch, hch⟩ := Option.ne_none_iff_exists'.1 hne
      simp only [joinTarget, hk, hch, Option.map_some]
  | leaveChannel clientId channelId =>
    show Routes _ host.server (ports.exec (BroadcastService.LeaveChannel uuid clientId channelId)
      host.server).2
    unfold BroadcastService.LeaveChannel
    rcases parseClient uuid clientId with _ | c
    · exact .refl _
    rcases parseChannel uuid channelId with _ | k
    · exact .refl _
    · simp only [Machine.exec_bind]
      exact routes_leaveChannel c k _
  | sendMessage clientId channelId content =>
    show Routes _ host.server (ports.exec (BroadcastService.SendMessage uuid order clientId channelId
      content) host.server).2
    unfold BroadcastService.SendMessage
    rcases parseClient uuid clientId with _ | c
    · exact .refl _
    rcases parseChannel uuid channelId with _ | k
    · exact .refl _
    · simp only [Machine.exec_bind]
      exact routes_sendMessage order c k _ _ _
  | listMessages clientId channelId before limit =>
    exact routes_quiet (quiet_listMessages uuid clientId channelId before limit)
  | heartbeat clientId => exact routes_quiet (quiet_heartbeat uuid clientId)
  | endChannelStream stream =>
    unfold Host.step
    dsimp only
    split
    · exact .refl _
    · rename_i c _
      have hcancelled : Routes (Enters uuid host.server (.endChannelStream stream)) host.server
          (host.cancel stream).server := .same (fun _ => rfl) rfl
      exact hcancelled.trans (.unregister c)
  | subscribeToChannelList clientId =>
    unfold Host.step
    dsimp only
    split
    · rename_i c _
      have hbegun : Routes (Enters uuid host.server (.subscribeToChannelList clientId)) host.server
          (ports.exec (beginListStream order c host.nextStream) host.server).2 :=
        routes_calls (calls_beginListStream order (fun _ => ⟨nofun, nofun⟩) (fun _ _ _ => ⟨nofun, nofun⟩) c _)
      unfold Host.beginList
      dsimp only
      split <;> exact hbegun
    · exact .refl _
  | endListStream stream =>
    unfold Host.step
    dsimp only
    split
    · exact .refl _
    · exact .same (fun _ => rfl) rfl
  | expire deadline => exact ExpireInactiveClients.routes_expireEach order 0 _ _

theorem nextStream_step (op : Operation) : host.nextStream ≤ (host.step uuid order op).nextStream := by
  cases op with
  | subscribeToChannel clientId channelId =>
    unfold Host.step Host.beginChannel
    dsimp only
    split
    · split <;> exact Nat.le_succ _
    · exact le_refl _
  | subscribeToChannelList clientId =>
    unfold Host.step Host.beginList
    dsimp only
    split
    · split <;> exact Nat.le_succ _
    · exact le_refl _
  | endChannelStream stream =>
    unfold Host.step
    dsimp only
    split <;> exact le_refl _
  | endListStream stream =>
    unfold Host.step
    dsimp only
    split <;> exact le_refl _
  | _ => exact le_refl _

/-- A subscription puts the new stream into the table, and takes the client out of it if it is refused. -/
theorem beginChannel_eq (host : Host) (c : ClientId) (k : ChannelId) : host.beginChannel c k = { host with
    server := { host.server with
      publisher :=
        if c ∈ host.server.members k then host.server.publisher.registerSubscriber c host.nextStream
        else (host.server.publisher.registerSubscriber c host.nextStream).unregisterSubscriber c }
    channelStreams :=
      if c ∈ host.server.members k then host.channelStreams.insert host.nextStream c else host.channelStreams
    nextStream := host.nextStream + 1 } := by
  unfold Host.beginChannel
  by_cases hm : c ∈ host.server.members k
  · simp only [exec_beginChannelStream_mem host.nextStream hm, if_pos hm]
  · obtain ⟨status, hexec⟩ := exec_beginChannelStream_notMem host.nextStream hm
    simp only [hexec, if_neg hm]

theorem server_beginChannel (host : Host) (c : ClientId) (k : ChannelId) :
    (host.beginChannel c k).server = { host.server with
      publisher :=
        if c ∈ host.server.members k then host.server.publisher.registerSubscriber c host.nextStream
        else (host.server.publisher.registerSubscriber c host.nextStream).unregisterSubscriber c } := by
  rw [beginChannel_eq]

theorem channelStreams_beginChannel (host : Host) (c : ClientId) (k : ChannelId) :
    (host.beginChannel c k).channelStreams =
      if c ∈ host.server.members k then host.channelStreams.insert host.nextStream c
      else host.channelStreams := by
  rw [beginChannel_eq]

theorem listStreams_beginChannel (host : Host) (c : ClientId) (k : ChannelId) :
    (host.beginChannel c k).listStreams = host.listStreams := by
  rw [beginChannel_eq]

/-- The entries after a subscription are the new one, for a member of the channel, and old ones of other
clients. -/
theorem lookup_beginChannel {d : ClientId} {v : StreamId}
    (h : (host.beginChannel c k).server.publisher.writers.lookup d = some v) :
    d = c ∧ v = host.nextStream ∧ c ∈ host.server.members k ∨
      d ≠ c ∧ host.server.publisher.writers.lookup d = some v := by
  rw [server_beginChannel] at h
  dsimp only at h
  by_cases hd : d = c
  · subst hd
    split at h
    · rw [Subscribers.writers_register, Finmap.lookup_insert] at h
      exact .inl ⟨rfl, (Option.some.inj h).symm, ‹_›⟩
    · rw [Subscribers.writers_unregister, Finmap.lookup_erase] at h
      cases h
  · refine .inr ⟨hd, ?_⟩
    split at h
    · rwa [Subscribers.writers_register, Finmap.lookup_insert_of_ne _ hd] at h
    · rwa [Subscribers.writers_unregister, Finmap.lookup_erase_ne hd, Subscribers.writers_register,
        Finmap.lookup_insert_of_ne _ hd] at h

theorem written_beginChannel (host : Host) (c : ClientId) (k : ChannelId) :
    (host.beginChannel c k).server.publisher.written = host.server.publisher.written := by
  rw [server_beginChannel]
  dsimp only
  split <;> rfl

theorem nextStream_beginChannel (host : Host) (c : ClientId) (k : ChannelId) :
    (host.beginChannel c k).nextStream = host.nextStream + 1 := by
  rw [beginChannel_eq]

/-! ### One stream in a run -/

/-- Nothing is known yet of the streams to come. -/
def Host.FreshStreams (host : Host) : Prop :=
  ∀ v, host.nextStream ≤ v → host.server.publisher.written v = [] ∧
    ∀ d, host.server.publisher.writers.lookup d ≠ some v

theorem Host.FreshStreams.step (h : host.FreshStreams) (op : Operation) :
    (host.step uuid order op).FreshStreams := by
  by_cases hop : ∃ clientId channelId, op = .subscribeToChannel clientId channelId
  · obtain ⟨clientId, channelId, rfl⟩ := hop
    unfold Host.step
    dsimp only
    split
    · intro v hv
      rw [nextStream_beginChannel] at hv
      obtain ⟨hwritten, hnone⟩ := h v (Nat.le_of_succ_le hv)
      refine ⟨by rwa [written_beginChannel], fun d hd => ?_⟩
      rcases lookup_beginChannel hd with ⟨-, rfl, -⟩ | ⟨-, hd⟩
      · exact absurd hv (Nat.not_succ_le_self _)
      · exact hnone d hd
    · exact h
  · have hroutes := @routes_step uuid order host op fun clientId channelId hop' => hop
      ⟨clientId, channelId, hop'⟩
    intro v hv
    obtain ⟨hwritten, hnone⟩ := h v ((nextStream_step op).trans hv)
    refine ⟨List.eq_nil_iff_forall_not_mem.2 fun e he => ?_, fun d hd => hnone d (hroutes.writers d v hd)⟩
    rcases hroutes.written v e he with he | ⟨d, hd, -⟩
    · rw [hwritten] at he
      cases he
    · exact hnone d hd

theorem freshStreams_reached {historyCap : UInt32} {systemNow steadyNow : Int}
    (h : Host.Reached uuid (.initial historyCap systemNow steadyNow) host) : host.FreshStreams := by
  induction h with
  | refl =>
    intro v _
    rw [Host.initial_publisher]
    exact ⟨rfl, fun d hd => by cases (Finmap.lookup_empty d).symm.trans hd⟩
  | env _ he ih =>
    intro v hv
    dsimp only
    rw [he.publisher]
    exact ih v hv
  | step order op _ ih => exact ih.step op

/-- While the stream is in the table, the operation is no Join of its client to another channel. -/
def StaysIn (uuid : UuidLib) (c : ClientId) (k : ChannelId) (w : StreamId) (host : Host)
    (op : Operation) : Prop :=
  host.server.publisher.writers.lookup c = some w → ∀ k', Enters uuid host.server op c k' → k' = k

/-- Only `c` can have the stream, it is then in no channel but `k`, and the stream has carried events of
`k` alone. -/
structure Host.Isolated (c : ClientId) (k : ChannelId) (w : StreamId) (host : Host) : Prop where
  used : w < host.nextStream
  owner : ∀ d, host.server.publisher.writers.lookup d = some w →
    d = c ∧ ∀ k', c ∈ host.server.members k' → k' = k
  written : ∀ e ∈ host.server.publisher.written w, e.channelId = k

theorem Host.Isolated.step (h : host.Isolated c k w) (op : Operation) (hop : StaysIn uuid c k w host op) :
    (host.step uuid order op).Isolated c k w := by
  by_cases hsub : ∃ clientId channelId, op = .subscribeToChannel clientId channelId
  · obtain ⟨clientId, channelId, rfl⟩ := hsub
    unfold Host.step
    dsimp only
    split
    · refine ⟨?_, fun d hd => ?_, fun e he => ?_⟩
      · rw [nextStream_beginChannel]
        exact h.used.trans (Nat.lt_succ_self _)
      · rcases lookup_beginChannel hd with ⟨-, rfl, -⟩ | ⟨-, hd⟩
        · exact absurd h.used (lt_irrefl _)
        · rw [server_beginChannel]
          exact h.owner d hd
      · rw [written_beginChannel] at he
        exact h.written e he
    · exact h
  · have hroutes := @routes_step uuid order host op fun clientId channelId hop' => hsub
      ⟨clientId, channelId, hop'⟩
    -- whoever has the stream is in no other channel, and enters none
    have hstays : ∀ d k', host.server.publisher.writers.lookup d = some w →
        d ∈ host.server.members k' ∨ Enters uuid host.server op d k' → k' = k := by
      intro d k' hd hk'
      obtain ⟨rfl, honly⟩ := h.owner d hd
      rcases hk' with hk' | hk'
      · exact honly k' hk'
      · exact hop hd k' hk'
    refine ⟨h.used.trans_le (nextStream_step op), fun d hd => ?_, fun e he => ?_⟩
    · have hd' := hroutes.writers d w hd
      obtain ⟨rfl, -⟩ := h.owner d hd'
      exact ⟨rfl, fun k' hk' => hstays d k' hd' (hroutes.members d k' hk')⟩
    · rcases hroutes.written w e he with he | ⟨d, hd, hk'⟩
      · exact h.written e he
      · exact hstays d _ hd hk'

/-- In a run in which its client enters no other channel while the stream is in the table, every event
of a stream is of the channel that the stream was opened for. -/
theorem stream_isolated {historyCap : UInt32} {systemNow steadyNow : Int}
    (hstart : Host.Reached uuid (.initial historyCap systemNow steadyNow) host) {clientId channelId : Bytes}
    (hc : parseClient uuid clientId = some c) (hk : parseChannel uuid channelId = some k)
    (hrun : Host.ReachedBy uuid (StaysIn uuid c k host.nextStream)
      (host.step uuid order (.subscribeToChannel clientId channelId)) host') :
    ∀ e ∈ host'.server.publisher.written host.nextStream, e.channelId = k := by
  have hopened : (host.step uuid order (.subscribeToChannel clientId channelId)).Isolated c k
      host.nextStream := by
    obtain ⟨hwritten, hnone⟩ := freshStreams_reached hstart host.nextStream (le_refl _)
    have hagree := agree_reached hstart
    unfold Host.step
    simp only [hc, hk]
    refine ⟨?_, fun d hd => ?_, fun e he => ?_⟩
    · rw [nextStream_beginChannel]
      exact Nat.lt_succ_self _
    · rcases lookup_beginChannel hd with ⟨rfl, -, hm⟩ | ⟨-, hd⟩
      · refine ⟨rfl, fun k' hk' => ?_⟩
        rw [server_beginChannel] at hk'
        exact Finset.card_le_one.1 (hagree.one d) k' ((hagree.mem_iff d k').1 hk') k
          ((hagree.mem_iff d k).1 hm)
      · exact absurd hd (hnone d)
    · rw [written_beginChannel, hwritten] at he
      cases he
  have hfinal : host'.Isolated c k host.nextStream := by
    induction hrun with
    | refl => exact hopened
    | env _ he ih =>
      obtain ⟨hused, howner, hwritten⟩ := ih
      refine ⟨hused, fun d hd => ?_, fun e hmem => ?_⟩
      · dsimp only at hd
        rw [he.publisher] at hd
        obtain ⟨hdc, honly⟩ := howner d hd
        refine ⟨hdc, fun k' hk' => honly k' ?_⟩
        rwa [Server.members_congr (show _ = _ from congrArg (·.channelsById.find k') he.channels)] at hk'
      · dsimp only at hmem
        rw [he.publisher] at hmem
        exact hwritten e hmem
    | step order op _ hp ih => exact ih.step op hp
  exact hfinal.written

end

/-! Client `2`, in the channel `1`, opens a stream of it; then client `3` joins the channel, or client
`2` moves to another. -/

def opening : Operation :=
  .subscribeToChannel (ascii "00000000-0000-0000-0000-000000000002")
    (ascii "00000000-0000-0000-0000-000000000001")

def opened : Host := oneJoined.step .canonical .byId opening

def joiningBeside : Operation := .joinChannel (ascii "00000000-0000-0000-0000-000000000003") (ascii "general")

def joinedBeside : Host :=
  (opened.step .canonical .byId (.connect (ascii "bob"))).step .canonical .byId joiningBeside

def movedOn : Host :=
  opened.run .canonical .byId
    [.createChannel (ascii "00000000-0000-0000-0000-000000000002") (ascii "other"),
      .joinChannel (ascii "00000000-0000-0000-0000-000000000002") (ascii "other")]

theorem stream_isolated_joinedBeside :
    (joinedBeside.server.publisher.written 0).length = 1 ∧
      ∀ e ∈ joinedBeside.server.publisher.written 0, e.channelId = ⟨1⟩ := by
  have hstays : ∀ w host, StaysIn .canonical ⟨2⟩ ⟨1⟩ w host joiningBeside := by
    rintro w host - k' ⟨hc, -⟩
    exact absurd hc (by decide +kernel)
  have hconnected : Host.ReachedBy .canonical (StaysIn .canonical ⟨2⟩ ⟨1⟩ oneJoined.nextStream)
      (oneJoined.step .canonical .byId opening) (opened.step .canonical .byId (.connect (ascii "bob"))) :=
    .step .byId (.connect (ascii "bob")) .refl fun _ _ h => h.elim
  have hrun : Host.ReachedBy .canonical (StaysIn .canonical ⟨2⟩ ⟨1⟩ oneJoined.nextStream)
      (oneJoined.step .canonical .byId opening) joinedBeside :=
        hconnected.step .byId joiningBeside (hstays _ _)
  have hnext : oneJoined.nextStream = 0 := by decide +kernel
  have hown := stream_isolated oneJoined_reached (by decide +kernel) (by decide +kernel) hrun
  rw [hnext] at hown
  exact ⟨by decide +kernel, hown⟩

/-- The stream of the channel `1` gets the events of the channel that its client has moved to. -/
theorem stream_leaks : ¬ ∀ (uuid : UuidLib) (order : BucketOrder) (host host' : Host)
    (clientId channelId : Bytes) (c : ClientId) (k : ChannelId),
    Host.Reached uuid (.initial 200 0 0) host →
    BroadcastService.parseClient uuid clientId = some c →
    BroadcastService.parseChannel uuid channelId = some k →
    Host.Reached uuid (host.step uuid order (.subscribeToChannel clientId channelId)) host' →
    ∀ e ∈ host'.server.publisher.written host.nextStream, e.channelId = k := by
  intro hall
  have hreached : Host.Reached .canonical opened movedOn := Host.reached_run .byId _ .refl
  have hown := hall _ .byId oneJoined movedOn _ _ ⟨2⟩ ⟨1⟩ oneJoined_reached (by decide +kernel)
    (by decide +kernel) hreached
  exact absurd hown (by decide +kernel)

end Bcmd
