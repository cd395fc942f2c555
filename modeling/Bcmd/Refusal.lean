import Bcmd.MembershipRequest
import Bcmd.Sequential
import Bcmd.Streams

/-!
# Requests that are refused

A unary request that is answered with an error has changed nothing but the supply of ids. A refused
`SubscribeToChannel` is another matter: its stream is registered before it is authorised, and the way back
takes out whatever stream the client had.
-/

namespace Bcmd
open Server

/-- All that the server stores, and all that it has written, is as it was. -/
structure Unchanged (s s' : Server) : Prop where
  channels : s'.channels = s.channels
  clients : s'.clients = s.clients
  messages : s'.messages = s.messages
  publisher : s'.publisher = s.publisher
  channelList : s'.channelList = s.channelList

/-- Whatever the state it is run in, the program has changed nothing if its result is an error. -/
def AllOrNothing {ε α : Type} (task : Task (Except ε α)) : Prop :=
  ∀ s e, (ports.exec task s).1 = .error e → Unchanged s (ports.exec task s).2

/-- The calls that change nothing whatever they answer. -/
def Reads : Call → Prop
  | .channels (.findById _) | .channels (.findByName _) | .channels (.listAll _) | .clients (.findById _)
  | .clients (.lookupUsername _) | .clients (.collectExpired _ _) | .messages (.recent _ _)
  | .messages (.listBefore _ _ _) | .newMessage _ _ _ => True
  | _ => False

theorem Unchanged.refl (s : Server) : Unchanged s s := ⟨rfl, rfl, rfl, rfl, rfl⟩

theorem Unchanged.trans {s s₁ s' : Server} (h : Unchanged s s₁) (h' : Unchanged s₁ s') : Unchanged s s' where
  channels := h'.channels.trans h.channels
  clients := h'.clients.trans h.clients
  messages := h'.messages.trans h.messages
  publisher := h'.publisher.trans h.publisher
  channelList := h'.channelList.trans h.channelList

theorem Reads.unchanged {o : Call} (h : Reads o) (s : Server) : Unchanged s (handle o s).2 := by
  rcases o with (_ | _ | _ | _ | _) | (_ | _ | _ | _ | _ | _ | _ | _) | (_ | _ | _) | _ | _ | _ | _
  all_goals first | exact h.elim | exact ⟨rfl, rfl, rfl, rfl, rfl⟩

namespace AllOrNothing
variable {ε ε' α β : Type}

theorem ret (r : Except ε α) : AllOrNothing (.ret r : Task (Except ε α)) := fun s _ _ => .refl s

theorem read {o : Call} {k : o.Res → Task (Except ε α)} (ho : Reads o) (hk : ∀ r, AllOrNothing (k r)) :
    AllOrNothing (.call o k) :=
  fun s e h => (ho.unchanged s).trans (hk _ _ e h)

theorem of_reads {task : Task (Except ε α)} (h : task.Calls Reads) : AllOrNothing task := by
  induction task with
  | ret r => exact ret r
  | call o k ih => exact read h.1 fun r => ih r (h.2 r)

/-- What follows a program that is all or nothing may end in an error only if the program has. -/
theorem reply {p : Task (Except ε α)} (hp : AllOrNothing p) {f : Except ε α → Task (Except ε' β)}
    (hf : ∀ a s e, (ports.exec (f (.ok a)) s).1 ≠ .error e)
    (hf' : ∀ e, ∃ r, f (.error e) = .ret r := by exact fun _ => ⟨_, rfl⟩) :
    AllOrNothing (p >>= f) := by
  intro s e h
  simp only [Machine.exec_bind] at h ⊢
  rcases hr : (ports.exec p s).1 with e' | a
  · obtain ⟨r, hret⟩ := hf' e'
    rw [hret]
    exact hp s e' hr
  · rw [hr] at h
    exact absurd h (hf a _ e)

end AllOrNothing

/-! ### The use cases -/

section
variable (order : BucketOrder) (c : ClientId)

theorem allOrNothing_registerClient (username : Username) :
    AllOrNothing (clients.registerClient username) := by
  intro s e h
  rcases InMemoryClientRegistry.registerClient_cases s.clients
    ⟨s.nextUuid⟩ s.steadyNow username with hr | ⟨hr, -⟩
  · exact ⟨rfl, congrArg Prod.snd hr, rfl, rfl, rfl⟩
  · have hok : (handle (.clients (.registerClient username)) s).1 = (.error e : Result ClientSession) := h
    rw [show (handle (.clients (.registerClient username)) s).1 = _ from hr] at hok
    cases hok

theorem allOrNothing_touchHeartbeat : AllOrNothing (clients.touchHeartbeat c) := by
  intro s e h
  have hfst : (handle (.clients (.touchHeartbeat c)) s).1 = (.error e : VoidResult) := h
  rw [fst_touchHeartbeat] at hfst
  split at hfst
  · refine ⟨rfl, ?_, rfl, rfl, rfl⟩
    show (s.clients.modify c _).2 = s.clients
    unfold InMemoryClientRegistry.modify
    rw [show s.clients.clientsById.find c = none from ‹s.session c = none›]
  · cases hfst

theorem allOrNothing_createChannel (name : Bytes) : AllOrNothing (CreateChannel.execute c name) := by
  simp only [CreateChannel.execute, Prog.perform_bind, Prog.pure_eq]
  refine .read trivial fun r => ?_
  rcases r with e | cs
  · exact .ret _
  rcases ChannelName.create (trim name) with _ | validatedName
  · exact .ret _
  intro s e h
  have hcreate := InMemoryChannelRepository.create_cases s.channels ⟨s.nextUuid⟩ validatedName
  rw [Machine.exec_call] at h ⊢
  rcases hcreate with hexists | ⟨hok, -⟩
  · have hres : (ports.handle (.channels (.create validatedName)) s).1 =
        (.error .channelAlreadyExists : Result Channel) :=
      congrArg Prod.fst hexists
    rw [hres]
    exact ⟨congrArg Prod.snd hexists, rfl, rfl, rfl, rfl⟩
  · have hres : (ports.handle (.channels (.create validatedName)) s).1 =
        (.ok (.new ⟨s.nextUuid⟩ validatedName) : Result Channel) := hok
    rw [hres] at h
    cases h

theorem allOrNothing_joinChannel (k : ChannelId) : AllOrNothing (JoinChannel.execute order c k) := by
  intro s e
  simp only [JoinChannel.execute, Prog.perform_bind, Prog.pure_eq, exec_findSession, exec_findChannel]
  rcases hcs : s.session c with _ | cs
  · exact fun _ => .refl s
  rcases hch : s.channel k with _ | ch
  · exact fun _ => .refl s
  intro h
  obtain ⟨s₁, s', hexec, -⟩ := JoinChannel.exec_joinFound order hcs hch
  simp only [hexec] at h
  cases h

theorem allOrNothing_joinChannelByName (name : Bytes) :
    AllOrNothing (JoinChannel.executeByName order c name) := by
  intro s e
  simp only [JoinChannel.executeByName, Prog.perform_bind, Prog.pure_eq, exec_findSession]
  rcases hcs : s.session c with _ | cs
  · exact fun _ => .refl s
  rcases ChannelName.create (trim name) with _ | validatedName
  · exact fun _ => .refl s
  dsimp only
  rcases @exec_findByName _ s validatedName _ with ⟨e', he⟩ | ⟨ch, hch, he⟩
  · rw [he]
    exact fun _ => .refl s
  · intro h
    obtain ⟨s₁, s', hexec, -⟩ := JoinChannel.exec_joinFound order hcs hch
    rw [he, Machine.exec_bind, hexec] at h
    cases h

theorem allOrNothing_leaveChannel (k : ChannelId) : AllOrNothing (LeaveChannel.execute c k) := by
  intro s e h
  by_cases hm : (∃ cs, s.session c = some cs) ∧ c ∈ s.members k
  · obtain ⟨⟨cs, hcs⟩, hm⟩ := hm
    obtain ⟨s', hexec, -⟩ := exec_leaveChannel_mem hcs hm
    rw [hexec] at h
    cases h
  · obtain ⟨e', hexec⟩ := exec_leaveChannel_of_not (c := c) (k := k) (s := s) fun cs hcs hk => hm
      ⟨⟨cs, hcs⟩, hk⟩
    rw [hexec]
    exact .refl s

theorem allOrNothing_sendMessage (k : ChannelId) (content : Bytes) (echoPolicy : EchoPolicy) :
    AllOrNothing (SendMessage.execute order c k content echoPolicy) := by
  simp only [SendMessage.execute, Prog.perform_bind, Prog.pure_eq]
  refine .read trivial fun r => ?_
  rcases r with e | cs
  · exact .ret _
  refine .read trivial fun r => ?_
  rcases r with e | ch
  · exact .ret _
  dsimp only
  split
  · exact .ret _
  rcases MessageContent.create content with e | validated
  · exact .ret _
  refine .read trivial fun m => fun s e h => ?_
  -- from here on the message is saved and every recipient gets it
  have hsaved : (ports.handle (.messages (.save m)) s).1 = (.ok () : VoidResult) := rfl
  rw [Machine.exec_call, hsaved] at h
  simp only [Machine.exec_bind, Machine.exec_ret] at h
  cases h

theorem reads_listMessages (k : ChannelId) (before : Option MessageId) (limit : UInt32) :
    (ListMessages.execute c k before limit).Calls Reads :=
  calls_listMessages trivial (fun _ => trivial) (fun _ _ => trivial) c before limit

/-- The leaves keep the session, so that it is there to be removed. -/
theorem allOrNothing_disconnectClient : AllOrNothing (BroadcastService.disconnectClient order c) := by
  intro s status
  simp only [BroadcastService.disconnectClient, Prog.perform_bind, Prog.pure_eq, exec_findSession]
  rcases hcs : s.session c with _ | cs
  · exact fun _ => .refl s
  intro h
  have hsome : (ports.exec (BroadcastService.leaveEach c (order.channels.enum cs.joinedChannels))
      s).2.session c ≠ none :=
    Machine.exec_preserves ports (I := fun s => s.session c ≠ none)
      (fun o s ho hs hnone => hs ((session_eq_none_iff ho.plain s c).1 hnone)) (requesting_leaveEach c _)
      (by rw [hcs]; simp)
  simp only [Machine.exec_bind, Machine.exec_call] at h
  generalize (ports.exec (BroadcastService.leaveEach c _) s).2 = s₁ at hsome h
  have hremoved : (ports.handle (.clients (.remove c)) s₁).1 = (.ok () : VoidResult) :=
    (fst_remove s₁ c).trans (if_neg hsome)
  simp only [hremoved] at h
  cases h

end

/-! ### The requests -/

section
open BroadcastService
variable (uuid : UuidLib) (order : BucketOrder)

/-- A unary request that is answered with an error changes nothing and writes nothing to any stream. -/
theorem unary_all_or_nothing :
    (∀ username, AllOrNothing (Connect username)) ∧
    (∀ clientId, AllOrNothing (Disconnect uuid order clientId)) ∧
    (∀ clientId channelName, AllOrNothing (BroadcastService.CreateChannel uuid clientId channelName)) ∧
    (∀ clientId channelId, AllOrNothing (BroadcastService.JoinChannel uuid order clientId channelId)) ∧
    (∀ clientId channelId, AllOrNothing (BroadcastService.LeaveChannel uuid clientId channelId)) ∧
    (∀ clientId channelId content, AllOrNothing
      (BroadcastService.SendMessage uuid order clientId channelId content)) ∧
    (∀ clientId channelId before limit,
      AllOrNothing (BroadcastService.ListMessages uuid clientId channelId before limit)) ∧
    ∀ clientId, AllOrNothing (Heartbeat uuid clientId) := by
  refine ⟨fun username => ?connect, fun clientId => ?disconnect, fun clientId channelName => ?createChannel,
    fun clientId channelId => ?joinChannel, fun clientId channelId => ?leaveChannel,
    fun clientId channelId content => ?sendMessage, fun clientId channelId before limit => ?listMessages,
    fun clientId => ?heartbeat⟩
  case connect =>
    unfold Connect
    rcases Username.create (trim username) with _ | name
    · exact .ret _
    · exact (allOrNothing_registerClient name).reply fun _ => nofun
  case disconnect =>
    unfold Disconnect
    rcases parseClient uuid clientId with _ | c
    · exact .ret _
    · exact allOrNothing_disconnectClient order c
  case createChannel =>
    unfold BroadcastService.CreateChannel
    rcases parseClient uuid clientId with _ | c
    · exact .ret _
    · exact (allOrNothing_createChannel c (trim channelName)).reply fun _ => nofun
  case joinChannel =>
    unfold BroadcastService.JoinChannel
    rcases parseClient uuid clientId with _ | c
    · exact .ret _
    rcases parseChannel uuid channelId with _ | k
    · exact (allOrNothing_joinChannelByName order c (trim channelId)).reply fun _ => nofun
    · exact (allOrNothing_joinChannel order c k).reply fun _ => nofun
  case leaveChannel =>
    unfold BroadcastService.LeaveChannel
    rcases parseClient uuid clientId with _ | c
    · exact .ret _
    rcases parseChannel uuid channelId with _ | k
    · exact .ret _
    · exact (allOrNothing_leaveChannel c k).reply fun _ => nofun
  case sendMessage =>
    unfold BroadcastService.SendMessage
    rcases parseClient uuid clientId with _ | c
    · exact .ret _
    rcases parseChannel uuid channelId with _ | k
    · exact .ret _
    · exact (allOrNothing_sendMessage order c k (trim content) .includeSender).reply fun _ => nofun
  case listMessages =>
    unfold BroadcastService.ListMessages
    rcases parseClient uuid clientId with _ | c
    · exact .ret _
    rcases parseChannel uuid channelId with _ | k
    · exact .ret _
    rcases parseCursor uuid before with _ | cursor
    · exact .ret _
    refine .of_reads (.bind (reads_listMessages c k cursor limit) fun r => ?_)
    rcases r with e | page
    · trivial
    · exact .bind (calls_fillMessages (fun _ => trivial) page.messages) fun _ => trivial
  case heartbeat =>
    unfold Heartbeat
    rcases parseClient uuid clientId with _ | c
    · exact .ret _
    · exact (allOrNothing_touchHeartbeat c).reply fun _ => nofun

/-! ### Subscriptions -/

/-- The table is as it was, and so a stream that is in it goes on to get what is published to its client. -/
structure TableKept (s s' : Server) : Prop where
  writers : s'.publisher.writers = s.publisher.writers
  subscribed : ∀ c w, s.publisher.writers.lookup c = some w → Subscribed .channel c w s'

variable {uuid}

theorem tableKept_of_writers {s s' : Server} (h : s'.publisher.writers = s.publisher.writers) :
    TableKept s s' := by
  refine ⟨h, fun c w hw => subscribed_of_lookup ?_⟩
  show s'.publisher.writers.lookup c = some w
  rw [h, hw]

theorem exec_subscribeToChannel_error {c : ClientId} {k : ChannelId} {w : StreamId} {s : Server}
    {status : Status} (h : (ports.exec (subscribeToChannel c k w) s).1 = .error status) :
    (ports.exec (subscribeToChannel c k w) s).2 =
      { s with publisher := (s.publisher.registerSubscriber c w).unregisterSubscriber c } := by
  by_cases hm : c ∈ s.members k
  · simp only [subscribeToChannel, Machine.exec_bind, exec_beginChannelStream_mem w hm] at h
    cases h
  · obtain ⟨status', hexec⟩ := exec_beginChannelStream_notMem w hm
    simp only [subscribeToChannel, Machine.exec_bind, hexec]
    rfl

/-- Taking the new entry out again gives the old table back just if the client had no entry. -/
theorem erase_insert_eq_iff (writers : Finmap fun _ : ClientId => StreamId) (c : ClientId) (w : StreamId) :
    (writers.insert c w).erase c = writers ↔ writers.lookup c = none := by
  constructor
  · intro h
    rw [← h, Finmap.lookup_erase]
  · intro h
    refine Finmap.ext_lookup fun d => ?_
    by_cases hd : d = c
    · rw [hd, Finmap.lookup_erase, h]
    · rw [Finmap.lookup_erase_ne hd, Finmap.lookup_insert_of_ne _ hd]

/-- A refused subscription keeps the table if and only if it is refused for its ids, or its client had
no stream. -/
theorem refused_keeps_table_iff {clientId channelId : Bytes} {w : StreamId} {s : Server} {status : Status}
    (h : (ports.exec (BroadcastService.SubscribeToChannel uuid clientId channelId w) s).1 = .error status) :
    TableKept s (ports.exec (BroadcastService.SubscribeToChannel uuid clientId channelId w) s).2 ↔
      ∀ c k, parseClient uuid clientId = some c → parseChannel uuid channelId = some k →
        s.publisher.writers.lookup c = none := by
  unfold BroadcastService.SubscribeToChannel at h ⊢
  rcases hc : parseClient uuid clientId with _ | c
  · exact iff_of_true (tableKept_of_writers rfl) nofun
  rcases hk : parseChannel uuid channelId with _ | k
  · exact iff_of_true (tableKept_of_writers rfl) nofun
  rw [hc, hk] at h
  dsimp only at h ⊢
  rw [exec_subscribeToChannel_error h]
  constructor
  · rintro ⟨hkept, -⟩ c' k' hc' -
    obtain rfl := Option.some.inj hc'
    exact (erase_insert_eq_iff s.publisher.writers c w).1 hkept
  · intro hnone
    exact tableKept_of_writers ((erase_insert_eq_iff s.publisher.writers c w).2 (hnone c k rfl rfl))

end

/-! Client `2` asks for the channel `9`, which does not exist: without a stream, and with one of channel
`1`. -/

def subscribeToNine : Task (Reply Unit) :=
  BroadcastService.SubscribeToChannel .canonical (ascii "00000000-0000-0000-0000-000000000002")
    (ascii "00000000-0000-0000-0000-000000000009") 7

theorem refused_keeps_table_iff_oneJoined :
    TableKept oneJoined.server (ports.exec subscribeToNine oneJoined.server).2 := by
  have hrefused : (ports.exec subscribeToNine oneJoined.server).1 = .error
      (errorToStatus .channelNotFound) := by
    decide +kernel
  have hempty : oneJoined.server.publisher.writers = ∅ := by decide +kernel
  refine (refused_keeps_table_iff hrefused).2 fun c _ _ _ => ?_
  rw [hempty, Finmap.lookup_empty]

/-- The refusal takes the client's stream of channel `1` out of the table. -/
theorem refused_stream_lost : ¬ ∀ (uuid : UuidLib) (host : Host),
    Host.Reached uuid (.initial 200 0 0) host →
    ∀ clientId channelId w status,
      (ports.exec (BroadcastService.SubscribeToChannel uuid clientId channelId w) host.server).1 =
        .error status →
      TableKept host.server
        (ports.exec (BroadcastService.SubscribeToChannel uuid clientId channelId w) host.server).2 := by
  intro hall
  have hrefused : (ports.exec subscribeToNine listening.server).1 = .error
      (errorToStatus .channelNotFound) := by
    decide +kernel
  have hkept : TableKept listening.server (ports.exec subscribeToNine listening.server).2 :=
    hall _ _ listening_reached _ _ _ _ hrefused
  have hbefore : listening.server.publisher.writers.lookup ⟨2⟩ = some 0 := by decide +kernel
  have hafter : (ports.exec subscribeToNine listening.server).2.publisher.writers.lookup ⟨2⟩ = none := by
    decide +kernel
  rw [hkept.writers, hbefore] at hafter
  cases hafter

end Bcmd
