import Bcmd.Rooms
import Bcmd.SendOnce

/-!
# The server refines the chat

The server in any sequential run, with everything that it answers, against `Rooms.plan`. `Depicts` relates the
stores to the chat: the two membership tables say where each client is, the name tables who it is, and the
buffers hold the end of what was said.
-/

namespace Bcmd
open Server BroadcastService

/-! ### What the clients see of a run -/

namespace Host
variable (uuid : UuidLib) (order : BucketOrder) (host : Host)

/-- The answer to an operation; for a stream that is opened, that it was. -/
def answer : Operation → Response
  | .connect username => .connected (ports.exec (Connect username) host.server).1
  | .disconnect clientId => .status (ports.exec (Disconnect uuid order clientId) host.server).1
  | .listChannels => .channels (ports.exec (ListChannels order) host.server).1
  | .createChannel clientId channelName =>
    .created (ports.exec (BroadcastService.CreateChannel uuid clientId channelName) host.server).1
  | .joinChannel clientId channelId =>
    .status (ports.exec (BroadcastService.JoinChannel uuid order clientId channelId) host.server).1
  | .leaveChannel clientId channelId =>
    .status (ports.exec (BroadcastService.LeaveChannel uuid clientId channelId) host.server).1
  | .sendMessage clientId channelId content =>
    .sent (ports.exec (BroadcastService.SendMessage uuid order clientId channelId content) host.server).1
  | .listMessages clientId channelId before limit =>
    .listed (ports.exec (BroadcastService.ListMessages uuid clientId channelId before limit) host.server).1
  | .heartbeat clientId => .status (ports.exec (Heartbeat uuid clientId) host.server).1
  | .subscribeToChannel clientId channelId =>
    match parseClient uuid clientId, parseChannel uuid channelId with
    | none, _ => .status (.error (errorToStatus .clientNotFound))
    | some _, none => .status (.error (errorToStatus .channelNotFound))
    | some clientId, some channelId =>
      .status (ports.exec (beginChannelStream clientId channelId host.nextStream) host.server).1
  | .subscribeToChannelList clientId =>
    match parseClient uuid clientId with
    | none => .status (.error (errorToStatus .clientNotFound))
    | some clientId => .status (ports.exec (beginListStream order clientId host.nextStream) host.server).1
  | .endChannelStream _ | .endListStream _ => .status (.ok ())
  | .expire deadline => .expired (ports.exec (ExpireInactiveClients.run order deadline) host.server).1

/-- The server as a system: time passes and streams are cancelled, and operations are run and answered. -/
def system : Labelled Host (Operation × Response) where
  silent host host' := ∃ s', Env host.server s' ∧ host' = { host with server := s' }
  step host label host' := ∃ order, label.2 = host.answer uuid order label.1 ∧
    host' = host.step uuid order label.1

variable {uuid host}

theorem reached_of_run {start : Host} {labels : List (Operation × Response)}
    (h : (system uuid).Run start labels host) : Reached uuid start host := by
  induction h with
  | refl => exact .refl
  | silent _ hs ih =>
    obtain ⟨s', he, rfl⟩ := hs
    exact ih.env he
  | @step _ _ label _ _ hs ih =>
    obtain ⟨order, -, rfl⟩ := hs
    exact ih.step order label.1

end Host

/-! ### The stores and the chat -/

/-- The session that is kept for a guest. -/
def sessionOf (c : ClientId) (g : Guest ChannelId Username) : ClientSession :=
  ⟨c, g.name, g.room.toFinset, g.heard⟩

structure Depicts (cap : Nat) (rooms : Rooms) (s : Server) : Prop where
  session : ∀ c, s.session c = (rooms.guest c).map (sessionOf c)
  nameOf : ∀ k, s.nameOf k = rooms.title k
  nameGiven : ∀ c, s.nameGiven c = rooms.knownAs c
  buffer : ∀ k, s.messages.buffer k = rooms.kept cap k
  cap : s.messages.cap.toNat = cap
  drawn : ∀ k, ∀ m ∈ rooms.said k, m.id.value < s.nextUuid
  clock : s.steadyNow = rooms.clock

/-- The answer is one that may be given, and the stores are those of the chat afterwards. -/
def Meets (cap : Nat) (rooms : Rooms) (reaction : Reaction) (response : Response) (s' : Server) : Prop :=
  response ∈ reaction.2 ∧ Depicts cap (rooms.after reaction.1) s'

section
variable {uuid : UuidLib} {cap : Nat} {rooms : Rooms} {s s' : Server} {c : ClientId} {k : ChannelId}
  {ch : Channel} {host : Host} {order : BucketOrder}

namespace Depicts

theorem guest_of_session {cs : ClientSession} (h : Depicts cap rooms s) (hcs : s.session c = some cs) :
    ∃ g, rooms.guest c = some g ∧ cs = sessionOf c g := by
  rw [h.session, Option.map_eq_some_iff] at hcs
  obtain ⟨g, hg, rfl⟩ := hcs
  exact ⟨g, hg, rfl⟩

theorem guest_of_none (h : Depicts cap rooms s) (hcs : s.session c = none) : rooms.guest c = none := by
  rwa [h.session, Option.map_eq_none_iff] at hcs

theorem session_of_guest {g : Guest ChannelId Username} (h : Depicts cap rooms s)
    (hg : rooms.guest c = some g) : s.session c = some (sessionOf c g) := by
  rw [h.session, hg, Option.map_some]

theorem title_of_channel (h : Depicts cap rooms s) (hch : s.channel k = some ch) :
    rooms.title k = some ch.name := by
  rw [← h.nameOf, nameOf_of_channel hch]

theorem title_of_none (h : Depicts cap rooms s) (hch : s.channel k = none) : rooms.title k = none := by
  rw [← h.nameOf, nameOf_eq_none, hch]

theorem joined (h : Depicts cap rooms s) (c : ClientId) : s.joined c = (rooms.roomOf c).toFinset := by
  rcases hg : rooms.guest c with _ | g
  · rw [joined_of_none (by rw [h.session, hg, Option.map_none]), Chat.roomOf, hg]
    rfl
  · rw [joined_of_session (h.session_of_guest hg), Chat.roomOf_of_guest hg]
    rfl

theorem mem_members (h : Depicts cap rooms s) (hs : Agree s) :
    c ∈ s.members k ↔ rooms.roomOf c = some k := by
  rw [hs.mem_iff, h.joined, Option.mem_toFinset, Option.mem_def]

theorem titled (h : Depicts cap rooms s) (hi : s.Indexed) (name : ChannelName) :
    rooms.titled name = s.idOf name.value := by
  rcases hid : s.idOf name.value with _ | k
  · refine Rooms.titled_eq_none.2 fun k hk => ?_
    rw [← h.nameOf] at hk
    rw [hi.idOf hk] at hid
    cases hid
  · rcases htitled : rooms.titled name with _ | l
    · obtain ⟨name', hvalue, hname'⟩ := hi.nameOf hid
      rw [h.nameOf] at hname'
      have hsame : name' = name := by
        cases name'
        cases name
        cases hvalue
        rfl
      exact absurd (hsame ▸ hname') (Rooms.titled_eq_none.1 htitled k)
    · have hl := Rooms.title_of_titled htitled
      rw [← h.nameOf] at hl
      rw [hi.idOf hl] at hid
      exact hid

/-- What has been drawn is in use nowhere. -/
theorem unused (h : Depicts cap rooms s) (hs : s.Consistent) : rooms.Unused s.nextUuid := by
  refine ⟨?_, ?_, fun k m hm hid => ?_⟩
  · by_contra hknown
    rw [← h.nameGiven] at hknown
    exact Nat.lt_irrefl _ (hs.registered.fresh hknown)
  · by_contra htitle
    rw [← h.nameOf] at htitle
    have hch : s.channel ⟨s.nextUuid⟩ ≠ none := fun hch => htitle (nameOf_eq_none.2 hch)
    exact Nat.lt_irrefl _ (hs.indexed.fresh hch)
  · have hlt := h.drawn k m hm
    rw [hid] at hlt
    exact Nat.lt_irrefl _ hlt

theorem env (h : Depicts cap rooms s) (he : Env s s') : Depicts cap (rooms.pass s'.steadyNow) s' where
  session c := by
    rw [Server.session, he.clients]
    exact h.session c
  nameOf k := by
    rw [Server.nameOf, Server.channel, he.channels]
    exact h.nameOf k
  nameGiven c := by
    rw [Server.nameGiven, he.clients]
    exact h.nameGiven c
  buffer k := by
    rw [he.messages]
    exact h.buffer k
  cap := by
    rw [he.messages]
    exact h.cap
  drawn k m hm := (h.drawn k m hm).trans_le he.nextUuid
  clock := rfl

/-- What is said is as it was, and the other stores are as the chat says. -/
theorem beside {rooms' : Rooms} (h : Depicts cap rooms s)
    (hsession : ∀ c, s'.session c = (rooms'.guest c).map (sessionOf c))
    (hname : ∀ k, s'.nameOf k = rooms'.title k) (hgiven : ∀ c, s'.nameGiven c = rooms'.knownAs c)
    (hsaid : rooms'.said = rooms.said) (hclock : rooms'.clock = rooms.clock)
    (hmessages : s'.messages = s.messages) (hid : s.nextUuid ≤ s'.nextUuid)
    (hnow : s'.steadyNow = s.steadyNow) : Depicts cap rooms' s' where
  session := hsession
  nameOf := hname
  nameGiven := hgiven
  buffer k := by
    rw [hmessages, h.buffer, Rooms.kept, Rooms.kept, hsaid]
  cap := by rw [hmessages, h.cap]
  drawn k m hm := by
    rw [hsaid] at hm
    exact (h.drawn k m hm).trans_le hid
  clock := by rw [hnow, h.clock, hclock]

theorem congr (h : Depicts cap rooms s) (hsession : ∀ c, s'.session c = s.session c)
    (hname : ∀ k, s'.nameOf k = s.nameOf k) (hgiven : ∀ c, s'.nameGiven c = s.nameGiven c)
    (hmessages : s'.messages = s.messages) (hid : s.nextUuid ≤ s'.nextUuid)
    (hnow : s'.steadyNow = s.steadyNow) : Depicts cap rooms s' :=
  h.beside (fun c => (hsession c).trans (h.session c)) (fun k => (hname k).trans (h.nameOf k))
    (fun c => (hgiven c).trans (h.nameGiven c)) rfl rfl hmessages hid hnow

end Depicts

/-! ### Refusals and reads -/

theorem Meets.deny {α : Type} (h : Depicts cap rooms s) (wrap : Reply α → Response) (e : Error) :
    Meets cap rooms (.deny wrap e) (wrap (.error (errorToStatus e))) s := ⟨rfl, h⟩

theorem Meets.only (h : Depicts cap rooms s) (response : Response) :
    Meets cap rooms (.only response) response s := ⟨rfl, h⟩

/-- Every channel is listed, with the number of its members. -/
theorem lists_channels (h : Depicts cap rooms s) (hs : Agree s) (order : BucketOrder) :
    rooms.Lists ((s.channels.listAll order.channels).map populateChannelSummary) := by
  have hids : ((s.channels.listAll order.channels).map populateChannelSummary).map ChannelSummary.id =
      (s.channels.listAll order.channels).map Channel.id := by
    rw [List.map_map]
    rfl
  refine ⟨hids ▸ Keyed.nodup_map_values s.channels.channelsById order.channels, fun summary => ?_⟩
  have hcount : ∀ ch : Channel, s.channel ch.id = some ch →
      Set.ncard {c | rooms.roomOf c = some ch.id} = ch.members.card := by
    intro ch hch
    rw [← Set.ncard_coe_finset]
    congr 1
    ext c
    rw [Set.mem_ofPred_eq, ← h.mem_members hs, members_of_channel hch, Finset.mem_coe]
  rw [List.mem_map]
  constructor
  · rintro ⟨ch, hmem, rfl⟩
    have hch : s.channel ch.id = some ch := Keyed.mem_values.1 hmem
    refine ⟨ch.name, h.title_of_channel hch, rfl, ?_⟩
    show toInt32 ch.members.card = toInt32 (Set.ncard {c | rooms.roomOf c = some ch.id})
    rw [hcount ch hch]
  · rintro ⟨name, htitle, hname, hmembers⟩
    rw [← h.nameOf] at htitle
    obtain ⟨ch, hch, rfl⟩ := channel_of_nameOf htitle
    have hid := id_of_channel hch
    rw [← hid] at hch
    refine ⟨ch, Keyed.mem_values.2 hch, ?_⟩
    rw [← hid, hcount ch hch] at hmembers
    cases summary
    cases hid
    cases hname
    cases hmembers
    rfl

theorem page_messages (h : Depicts cap rooms s) (k : ChannelId) (cursor : Option MessageId)
    (limit : UInt32) : (s.messages.page k cursor limit).messages = (rooms.page cap k cursor limit).messages := by
  rcases cursor with _ | before
  · simp only [InMemoryMessageRepository.page, Rooms.page, InMemoryMessageRepository.recent_eq, h.buffer,
      List.rtake]
  · simp only [InMemoryMessageRepository.page, Rooms.page, InMemoryMessageRepository.listBefore_eq, h.buffer]

/-- There is more where something is kept before the page's first. -/
theorem page_more (repo : InMemoryMessageRepository) (k : ChannelId) (cursor : Option MessageId)
    (limit : UInt32) : (repo.page k cursor limit).hasMore = (repo.page k cursor limit).messages.head?.any
      fun front => Window.before Message.id front.id 1 (repo.buffer k) ≠ [] := by
  rcases cursor with _ | before <;> simp only [InMemoryMessageRepository.page]
  · rcases repo.recent k (min limit ListMessages.kServerMaxLimit) with _ | ⟨front, page⟩
    · rfl
    · simp only [InMemoryMessageRepository.listBefore_eq, List.isEmpty_iff]
      rfl
  · rcases repo.listBefore k before (min limit ListMessages.kServerMaxLimit) with _ | ⟨front, page⟩
    · rfl
    · simp only [InMemoryMessageRepository.listBefore_eq, List.isEmpty_iff]
      rfl

theorem page_eq (h : Depicts cap rooms s) (k : ChannelId) (cursor : Option MessageId) (limit : UInt32) :
    s.messages.page k cursor limit = rooms.page cap k cursor limit := by
  have hmessages := page_messages h k cursor limit
  have hmore := page_more s.messages k cursor limit
  rw [hmessages, h.buffer] at hmore
  calc s.messages.page k cursor limit
    _ = ⟨(s.messages.page k cursor limit).messages, (s.messages.page k cursor limit).hasMore⟩ := rfl
    _ = rooms.page cap k cursor limit := by
      rw [hmessages, hmore]
      rfl

theorem event_eq (h : Depicts cap rooms s) : messageToEvent s.clients = rooms.event := by
  funext m
  simp only [messageToEvent, Rooms.event, InMemoryClientRegistry.lookupUsername]
  rw [← h.nameGiven, Server.nameGiven]
  rcases s.clients.historicalUsernames.lookup m.senderId with _ | name <;> rfl

/-! ### Operations -/

theorem session_fresh (hr : s.Registered) : s.session ⟨s.nextUuid⟩ = none := by
  rcases hcs : s.session ⟨s.nextUuid⟩ with _ | cs
  · rfl
  · have hgiven := hr.named hcs
    exact absurd (hr.fresh (c := ⟨s.nextUuid⟩) (by rw [hgiven]; simp)) (Nat.lt_irrefl _)

theorem taken_iff (h : Depicts cap rooms s) (hr : s.Registered) (name : Username) :
    rooms.Taken name ↔ s.ownerOf name.value ≠ none := by
  constructor
  · rintro ⟨c, g, hg, rfl⟩
    have howner : s.ownerOf g.name.value = some c := hr.owner.2 ⟨_, h.session_of_guest hg, rfl⟩
    rw [howner]
    simp
  · intro howner
    obtain ⟨c, hc⟩ := Option.ne_none_iff_exists'.1 howner
    obtain ⟨cs, hcs, hvalue⟩ := hr.owner.1 hc
    obtain ⟨g, hg, rfl⟩ := h.guest_of_session hcs
    exact ⟨c, g, hg, username_injective hvalue⟩

/-- An id is drawn for nothing. -/
theorem Depicts.draw (h : Depicts cap rooms s) : Depicts cap rooms { s with nextUuid := s.nextUuid + 1 } :=
  h.beside h.session h.nameOf h.nameGiven rfl rfl rfl (Nat.le_succ _) rfl

theorem meets_connect (h : Depicts cap rooms s) (hs : s.Consistent) (username : Bytes) :
    Meets cap rooms (rooms.connect s.nextUuid username) (.connected (ports.exec (Connect username) s).1)
      (ports.exec (Connect username) s).2 := by
  unfold Connect Rooms.connect
  rcases Username.create (trim username) with _ | name
  · exact .deny h .connected .invalidUsername
  simp only [Prog.perform_bind, Machine.exec_call]
  rcases register_name s name with ⟨c, howner, hresult, hstate⟩ | ⟨hfree, hresult, hsession, -, hgiven⟩
  · have htaken := (taken_iff h hs.registered name).2 (by rw [howner]; simp)
    rw [if_pos htaken]
    simp only [ports, hresult, hstate]
    exact .deny h.draw .connected .clientAlreadyExists
  · have hnot : ¬ rooms.Taken name := fun htaken => (taken_iff h hs.registered name).1 htaken hfree
    rw [if_neg hnot]
    simp only [ports, hresult]
    refine ⟨rfl, h.beside (fun c => ?_) (fun k => ?_) (fun c => ?_) rfl rfl ?_ (nextUuid_handle _ s) ?_⟩
    · refine (hsession c).trans ?_
      by_cases hc : c = ⟨s.nextUuid⟩
      · subst hc
        simp only [session_fresh hs.registered, and_self, if_true, Chat.after, Function.update_self,
          Option.map_some, h.clock]
        rfl
      · simp only [hc, false_and, if_false, Chat.after, Function.update_of_ne hc, h.session]
    · exact h.nameOf k
    · refine (hgiven c).trans ?_
      by_cases hc : c = ⟨s.nextUuid⟩
      · simp [hc, Chat.after]
      · simp only [if_neg hc, Chat.after, Function.update_of_ne hc, h.nameGiven]
    · exact handle_clients_messages s (.registerClient name)
    · exact handle_steadyNow s _

theorem meets_createChannel (h : Depicts cap rooms s) (hs : s.Consistent) (clientId channelName : Bytes) :
    Meets cap rooms (rooms.createChannel uuid s.nextUuid clientId channelName)
      (.created (ports.exec (BroadcastService.CreateChannel uuid clientId channelName) s).1)
      (ports.exec (BroadcastService.CreateChannel uuid clientId channelName) s).2 := by
  unfold BroadcastService.CreateChannel Rooms.createChannel
  rcases parseClient uuid clientId with _ | c
  · exact .deny h .created .clientNotFound
  simp only [Machine.exec_bind, CreateChannel.execute, Prog.perform_bind, exec_findSession, trim_trim]
  rcases hcs : s.session c with _ | cs
  · rw [h.guest_of_none hcs]
    exact .deny h .created .clientNotFound
  obtain ⟨g, hg, -⟩ := h.guest_of_session hcs
  rw [hg]
  rcases hname : ChannelName.create (trim channelName) with _ | name
  · exact .deny h .created .invalidChannelName
  simp only [Machine.exec_call, h.titled hs.indexed]
  rcases create_name s name with ⟨k, hid, hresult, hstate⟩ | ⟨hfree, hresult, hchannel, -⟩
  · rw [hid]
    simp only [ports, hresult, hstate]
    exact .deny h.draw .created .channelAlreadyExists
  · rw [hfree]
    simp only [ports, hresult]
    refine ⟨rfl, h.beside (fun c => ?_) (fun k => ?_) (fun c => ?_) rfl rfl ?_ (nextUuid_handle _ s) ?_⟩
    · exact (congrFun (congrArg (fun reg => reg.clientsById.find)
        (handle_channels_clients s (.create name))) c).trans (h.session c)
    · show ((handle (.channels (.create name)) s).2.channel k).map Channel.name = _
      rw [hchannel]
      have hnone : s.channel ⟨s.nextUuid⟩ = none := by
        by_contra hsome
        exact Nat.lt_irrefl _ (hs.indexed.fresh hsome)
      by_cases hk : k = ⟨s.nextUuid⟩
      · subst hk
        rw [if_pos ⟨rfl, hnone⟩]
        simp only [Chat.after, Function.update_self]
        rfl
      · rw [if_neg fun hboth => hk hboth.1]
        simp only [Chat.after, Function.update_of_ne hk]
        exact h.nameOf k
    · exact (congrArg (fun reg => reg.historicalUsernames.lookup c)
        (handle_channels_clients s (.create name))).trans (h.nameGiven c)
    · exact handle_channels_messages s (.create name)
    · exact handle_steadyNow s _

theorem meets_heartbeat (h : Depicts cap rooms s) (clientId : Bytes) :
    Meets cap rooms (rooms.heartbeat uuid clientId) (.status (ports.exec (Heartbeat uuid clientId) s).1)
      (ports.exec (Heartbeat uuid clientId) s).2 := by
  unfold Heartbeat Rooms.heartbeat
  rcases parseClient uuid clientId with _ | c
  · exact .deny h .status .clientNotFound
  have hfst : (handle (.clients (.touchHeartbeat c)) s).1 =
      if s.session c = none then .error .clientNotFound else .ok () :=
    InMemoryClientRegistry.modify_fst ..
  have hkept : ∀ d, (handle (.clients (.touchHeartbeat c)) s).2.nameGiven d = s.nameGiven d :=
    (names_handle (fun _ hn => by cases hn) (fun _ hn => by cases hn) s).2.1
  simp only [Prog.perform_bind, Machine.exec_call]
  rcases hcs : s.session c with _ | cs
  · rw [h.guest_of_none hcs]
    rw [hcs, if_pos rfl] at hfst
    simp only [ports, hfst]
    have hsame : Depicts cap rooms (handle (.clients (.touchHeartbeat c)) s).2 := by
      refine h.congr (fun d => ?_) (fun _ => rfl) hkept rfl (le_refl _) rfl
      refine (session_touchHeartbeat s d c).trans ?_
      split
      · subst ‹d = c›
        rw [hcs, Option.map_none]
      · rfl
    exact .deny hsame .status .clientNotFound
  · obtain ⟨g, hg, -⟩ := h.guest_of_session hcs
    rw [hg]
    rw [hcs, if_neg (by simp)] at hfst
    simp only [ports, hfst]
    refine ⟨rfl, h.beside (fun d => ?_) h.nameOf (fun d => (hkept d).trans (h.nameGiven d)) rfl rfl rfl
      (le_refl _) rfl⟩
    refine (session_touchHeartbeat s d c).trans ?_
    by_cases hd : d = c
    · subst hd
      simp only [if_true, Chat.after, Function.update_self, h.session, Option.map_map, h.clock]
      rfl
    · simp only [if_neg hd, Chat.after, Function.update_of_ne hd, h.session]

theorem steadyNow_exec {α : Type} (p : Task α) (s : Server) : (ports.exec p s).2.steadyNow = s.steadyNow := by
  induction p generalizing s with
  | ret a => rfl
  | call o f ih => exact (ih _ _).trans (handle_steadyNow s o)

theorem messages_exec {α : Type} {p : Task α} (hp : p.Calls SavesNone) (s : Server) :
    (ports.exec p s).2.messages = s.messages :=
  Machine.exec_preserves ports (fun o s' ho hs => (messages_handle o ho s').trans hs) hp rfl

theorem Requesting.savesNone {o : Call} (ho : Requesting o) : SavesNone o := by
  rintro m rfl
  exact ho

/-- What becomes of the chat when a request of a client takes effect. -/
def Effect.move (c : ClientId) : Effect → Chat.Move ClientId ChannelId Username ChannelName Message
  | nothing => .stay
  | enter k => .place c (some k)
  | leave _ => .place c none
  | gone => .depart {c}

/-- The effect of a request shows in the chat. A channel that is left is the one the client was in. -/
theorem Depicts.on {e : Effect} (h : Depicts cap rooms s) (hon : e.On c s s')
    (hleave : ∀ k, e = .leave k → rooms.roomOf c = some k) (hmessages : s'.messages = s.messages)
    (hid : s.nextUuid ≤ s'.nextUuid) (hnow : s'.steadyNow = s.steadyNow) :
    Depicts cap (rooms.after (e.move c)) s' := by
  have hname : ∀ k, s'.nameOf k = rooms.title k := fun k => (hon.nameOf k).trans (h.nameOf k)
  have hgiven : ∀ d, s'.nameGiven d = rooms.knownAs d := fun d => (hon.nameGiven d).trans (h.nameGiven d)
  have hother : ∀ d, d ≠ c → s'.session d = (rooms.guest d).map (sessionOf d) := by
    intro d hd
    rw [hon.session, if_neg hd, h.session]
  cases e with
  | nothing =>
    refine h.congr (fun d => ?_) hon.nameOf hon.nameGiven hmessages hid hnow
    rw [hon.session]
    split
    · rcases s.session d with _ | cs <;> rfl
    · rfl
  | enter k =>
    refine h.beside (fun d => ?_) hname hgiven rfl rfl hmessages hid hnow
    by_cases hd : d = c
    · subst hd
      rw [hon.session, if_pos rfl, h.session]
      simp only [Effect.move, Chat.after, Function.update_self]
      rcases rooms.guest d with _ | g <;> rfl
    · simp only [Effect.move, Chat.after, Function.update_of_ne hd, hother d hd]
  | leave k =>
    refine h.beside (fun d => ?_) hname hgiven rfl rfl hmessages hid hnow
    by_cases hd : d = c
    · subst hd
      rw [hon.session, if_pos rfl, h.session]
      simp only [Effect.move, Chat.after, Function.update_self]
      rcases hg : rooms.guest d with _ | g
      · rfl
      · have hroom := hleave k rfl
        rw [Chat.roomOf_of_guest hg] at hroom
        simp [Effect.session, sessionOf, ClientSession.leaveChannel, hroom]
    · simp only [Effect.move, Chat.after, Function.update_of_ne hd, hother d hd]
  | gone =>
    refine h.beside (fun d => ?_) hname hgiven rfl rfl hmessages hid hnow
    by_cases hd : d = c
    · subst hd
      rw [hon.session, if_pos rfl]
      simp only [Effect.move, Chat.after, Set.mem_singleton_iff, if_true, Option.map_none]
      rcases s.session d with _ | cs <;> rfl
    · simp only [Effect.move, Chat.after, Set.mem_singleton_iff, if_neg hd, hother d hd]

/-- The answer as the RPC gives it. -/
def Answer.response : Answer → Response
  | joined result | left result => .status (toReply result)
  | joinedByName result => .status (toReply (result.map fun _ => ()))
  | disconnected reply => .status reply

/-- What a request comes to, as a reaction of the chat. -/
def ClientRequest.reaction (s : Server) (c : ClientId) (r : ClientRequest) : Reaction :=
  ((r.plan s c).1.move c, {(r.plan s c).2.response})

theorem meets_request (h : Depicts cap rooms s) (hs : s.Consistent) (order : BucketOrder) (c : ClientId)
    (r : ClientRequest) (hleave : ∀ k, (r.plan s c).1 = .leave k → rooms.roomOf c = some k) :
    Meets cap rooms (r.reaction s c) (ports.exec (r.run order c) s).1.response
      (ports.exec (r.run order c) s).2 := by
  obtain ⟨hanswer, hon⟩ := comesTo hs order c r
  have hcalls : (r.run order c).Calls SavesNone :=
    calls_clientRequest (fun _ => Requesting.savesNone) (fun _ _ hm => by cases hm) (fun _ _ hm => by cases hm)
      order c r
  refine ⟨?_, h.on hon hleave (messages_exec hcalls s) (nextUuid_exec _ s) (steadyNow_exec _ s)⟩
  rw [hanswer]
  exact Set.mem_singleton _

theorem meets_disconnect (h : Depicts cap rooms s) (hs : s.Consistent) (order : BucketOrder)
    (clientId : Bytes) : Meets cap rooms (rooms.disconnect uuid clientId)
      (.status (ports.exec (Disconnect uuid order clientId) s).1)
      (ports.exec (Disconnect uuid order clientId) s).2 := by
  unfold Disconnect
  rcases hparse : parseClient uuid clientId with _ | c
  · simp only [Rooms.disconnect, hparse]
    exact .deny h .status .clientNotFound
  have hreaction : ClientRequest.disconnect.reaction s c = rooms.disconnect uuid clientId := by
    simp only [ClientRequest.reaction, ClientRequest.plan, Rooms.disconnect, hparse]
    rcases hcs : s.session c with _ | cs
    · rw [h.guest_of_none hcs]
      rfl
    · obtain ⟨g, hg, -⟩ := h.guest_of_session hcs
      rw [hg]
      rfl
  have hmeets := meets_request h hs order c .disconnect fun k hk => by
    simp only [ClientRequest.plan] at hk
    split at hk <;> cases hk
  rw [hreaction] at hmeets
  simp only [ClientRequest.run, Machine.exec_bind, Prog.pure_eq, Machine.exec_ret] at hmeets
  exact hmeets

theorem meets_leaveChannel (h : Depicts cap rooms s) (hs : s.Consistent) (clientId channelId : Bytes) :
    Meets cap rooms (rooms.leaveChannel uuid clientId channelId)
      (.status (ports.exec (BroadcastService.LeaveChannel uuid clientId channelId) s).1)
      (ports.exec (BroadcastService.LeaveChannel uuid clientId channelId) s).2 := by
  unfold BroadcastService.LeaveChannel
  rcases hclient : parseClient uuid clientId with _ | c
  · simp only [Rooms.leaveChannel, hclient]
    exact .deny h .status .clientNotFound
  rcases hchannel : parseChannel uuid channelId with _ | k
  · simp only [Rooms.leaveChannel, hclient, hchannel]
    exact .deny h .status .channelNotFound
  have hreaction : (ClientRequest.leave k).reaction s c = rooms.leaveChannel uuid clientId channelId ∧
      ∀ l, ((ClientRequest.leave k).plan s c).1 = .leave l → rooms.roomOf c = some l := by
    simp only [ClientRequest.reaction, ClientRequest.plan, Rooms.leaveChannel, hclient, hchannel]
    rcases hcs : s.session c with _ | cs
    · rw [h.guest_of_none hcs]
      exact ⟨rfl, fun l hl => by cases hl⟩
    obtain ⟨g, hg, -⟩ := h.guest_of_session hcs
    rw [hg]
    rcases hch : s.channel k with _ | ch
    · rw [h.title_of_none hch]
      exact ⟨rfl, fun l hl => by cases hl⟩
    rw [h.title_of_channel hch, Chat.roomOf_of_guest hg]
    have hmem : c ∈ ch.members ↔ g.room = some k := by
      rw [← members_of_channel hch, h.mem_members hs.agree, Chat.roomOf_of_guest hg]
    by_cases hroom : g.room = some k
    · simp only [if_pos (hmem.2 hroom), if_pos hroom]
      refine ⟨rfl, fun l hl => ?_⟩
      cases hl
      exact hroom
    · simp only [if_neg fun hin => hroom (hmem.1 hin), if_neg hroom]
      exact ⟨rfl, fun l hl => by cases hl⟩
  have hmeets := meets_request h hs .byId c (.leave k) hreaction.2
  rw [hreaction.1] at hmeets
  simp only [ClientRequest.run, Machine.exec_bind, Prog.pure_eq, Machine.exec_ret] at hmeets
  simp only [Machine.exec_bind, Prog.pure_eq, Machine.exec_ret]
  exact hmeets

theorem meets_joinChannel (h : Depicts cap rooms s) (hs : s.Consistent) (order : BucketOrder)
    (clientId channelId : Bytes) : Meets cap rooms (rooms.joinChannel uuid clientId channelId)
      (.status (ports.exec (BroadcastService.JoinChannel uuid order clientId channelId) s).1)
      (ports.exec (BroadcastService.JoinChannel uuid order clientId channelId) s).2 := by
  unfold BroadcastService.JoinChannel
  rcases hclient : parseClient uuid clientId with _ | c
  · simp only [Rooms.joinChannel, hclient]
    exact .deny h .status .clientNotFound
  rcases hparse : parseChannel uuid channelId with _ | k
  · -- the field is a name
    have hreaction : (ClientRequest.joinByName (trim channelId)).reaction s c =
        rooms.joinChannel uuid clientId channelId := by
      simp only [ClientRequest.reaction, ClientRequest.plan, Rooms.joinChannel, Rooms.meant, Rooms.named,
        trim_trim, hclient, hparse]
      rcases hcs : s.session c with _ | cs
      · rw [h.guest_of_none hcs]
        rfl
      obtain ⟨g, hg, -⟩ := h.guest_of_session hcs
      rw [hg]
      rcases ChannelName.create (trim channelId) with _ | name
      · rfl
      simp only [h.titled hs.indexed]
      rcases s.idOf name.value with _ | k <;> rfl
    have hmeets := meets_request h hs order c (.joinByName (trim channelId)) fun l hl => by
      simp only [ClientRequest.plan] at hl
      split at hl
      · cases hl
      · cases hl
      · split at hl <;> cases hl
    rw [hreaction] at hmeets
    simp only [ClientRequest.run, Machine.exec_bind, Prog.pure_eq, Machine.exec_ret] at hmeets
    simp only [Machine.exec_bind, Prog.pure_eq]
    rcases hresult : (ports.exec (JoinChannel.executeByName order c (trim channelId)) s).1 with e | k
    · rw [hresult] at hmeets
      exact hmeets
    · rw [hresult] at hmeets
      exact hmeets
  · have hreaction : (ClientRequest.join k).reaction s c = rooms.joinChannel uuid clientId channelId := by
      simp only [ClientRequest.reaction, ClientRequest.plan, Rooms.joinChannel, Rooms.meant, hclient, hparse]
      rcases hcs : s.session c with _ | cs
      · rw [h.guest_of_none hcs]
        rfl
      obtain ⟨g, hg, -⟩ := h.guest_of_session hcs
      rw [hg]
      rcases hch : s.channel k with _ | ch
      · rw [h.title_of_none hch]
        rfl
      · rw [h.title_of_channel hch]
        rfl
    have hmeets := meets_request h hs order c (.join k) fun l hl => by
      simp only [ClientRequest.plan] at hl
      split at hl <;> cases hl
    rw [hreaction] at hmeets
    simp only [ClientRequest.run, Machine.exec_bind, Prog.pure_eq, Machine.exec_ret] at hmeets
    simp only [Machine.exec_bind, Prog.pure_eq, Machine.exec_ret]
    exact hmeets

/-- What is said is the newest of what is kept. -/
theorem Depicts.say (h : Depicts cap rooms s) {m : Message} (hk : m.channelId = k)
    (hid : m.id.value = s.nextUuid) (hchannels : s'.channels = s.channels) (hclients : s'.clients = s.clients)
    (hmessages : s'.messages = (s.messages.save m).2) (hnext : s'.nextUuid = s.nextUuid + 1)
    (hnow : s'.steadyNow = s.steadyNow) : Depicts cap (rooms.after (.say k m)) s' where
  session c := by
    rw [Server.session, hclients]
    exact h.session c
  nameOf k := by
    rw [Server.nameOf, Server.channel, hchannels]
    exact h.nameOf k
  nameGiven c := by
    rw [Server.nameGiven, hclients]
    exact h.nameGiven c
  buffer l := by
    rw [hmessages, InMemoryMessageRepository.buffer_save, h.cap, h.buffer, hk]
    by_cases hl : l = k
    · subst hl
      simp only [if_true, popFrontWhileOver_eq, Rooms.kept, Chat.after, Function.update_self]
      exact Window.drop_rtake_append ..
    · simp only [if_neg hl, Rooms.kept, Chat.after, Function.update_of_ne hl]
  cap := by
    rw [hmessages]
    exact h.cap
  drawn l m' hm' := by
    rw [hnext]
    by_cases hl : l = k
    · subst hl
      simp only [Chat.after, Function.update_self, List.mem_append, List.mem_singleton] at hm'
      rcases hm' with hm' | rfl
      · exact (h.drawn _ m' hm').trans (Nat.lt_succ_self _)
      · omega
    · simp only [Chat.after, Function.update_of_ne hl] at hm'
      exact (h.drawn l m' hm').trans (Nat.lt_succ_self _)
  clock := hnow.trans h.clock

theorem meets_sendMessage (h : Depicts cap rooms s) (hs : s.Consistent) (order : BucketOrder)
    (clientId channelId content : Bytes) :
    Meets cap rooms (rooms.sendMessage uuid s.nextUuid s.systemNow clientId channelId content)
      (.sent (ports.exec (BroadcastService.SendMessage uuid order clientId channelId content) s).1)
      (ports.exec (BroadcastService.SendMessage uuid order clientId channelId content) s).2 := by
  unfold BroadcastService.SendMessage Rooms.sendMessage
  rcases parseClient uuid clientId with _ | c
  · exact .deny h .sent .clientNotFound
  rcases parseChannel uuid channelId with _ | k
  · exact .deny h .sent .channelNotFound
  simp only [Machine.exec_bind, Prog.pure_eq, Machine.exec_ret]
  rcases exec_send order c k (trim content) .includeSender s with ⟨e, hexec, hnot⟩ |
    ⟨ch, validated, hsession, hch, hm, hcontent, hexec⟩
  · -- the reason is the first that applies
    rw [hexec]
    simp only [SendMessage.execute, Prog.perform_bind, Prog.pure_eq, exec_findSession,
      exec_findChannel] at hexec
    rcases hcs : s.session c with _ | cs
    · rw [h.guest_of_none hcs]
      simp only [hcs, Machine.exec_ret, Prod.mk.injEq, Except.error.injEq, and_true] at hexec
      subst hexec
      exact .deny h .sent .clientNotFound
    obtain ⟨g, hg, -⟩ := h.guest_of_session hcs
    rw [hg]
    rcases hch : s.channel k with _ | ch
    · rw [h.title_of_none hch]
      simp only [hcs, hch, Machine.exec_ret, Prod.mk.injEq, Except.error.injEq, and_true] at hexec
      subst hexec
      exact .deny h .sent .channelNotFound
    rw [h.title_of_channel hch]
    have hmem : c ∈ ch.members ↔ g.room = some k := by
      rw [← members_of_channel hch, h.mem_members hs.agree, Chat.roomOf_of_guest hg]
    by_cases hroom : g.room = some k
    · rcases hcreate : MessageContent.create (trim content) with e' | validated
      · have hmember : ch.hasMember c = true := Channel.hasMember_iff.2 (hmem.2 hroom)
        simp only [hcs, hch, hmember, not_true_eq_false, if_false, hcreate, Machine.exec_ret, Prod.mk.injEq,
          Except.error.injEq, and_true] at hexec
        subst hexec
        simp only [if_pos hroom]
        exact .deny h .sent e'
      · refine absurd ⟨by rw [hcs]; simp, by rw [hch]; simp, ?_, validated, hcreate⟩ hnot
        rw [members_of_channel hch]
        exact hmem.2 hroom
    · have hmember : ch.hasMember c = false := by
        rw [Bool.eq_false_iff, ne_eq, Channel.hasMember_iff]
        exact fun hin => hroom (hmem.1 hin)
      simp only [hcs, hch, hmember, Bool.false_eq_true, not_false_eq_true, if_true, Machine.exec_ret,
        Prod.mk.injEq, Except.error.injEq, and_true] at hexec
      subst hexec
      simp only [if_neg hroom]
      exact .deny h .sent .notAMember
  · rw [hexec]
    obtain ⟨cs, hcs⟩ := Option.ne_none_iff_exists'.1 hsession
    obtain ⟨g, hg, -⟩ := h.guest_of_session hcs
    have hroom : g.room = some k := by
      rw [← Chat.roomOf_of_guest hg, ← h.mem_members hs.agree]
      exact hm
    rw [hg, h.title_of_channel hch]
    simp only [if_pos hroom, hcontent]
    have hsaid : Depicts cap (rooms.after (.say k (s.drafted c k validated)))
        (s.afterSend order ch (s.drafted c k validated) .includeSender) := h.say rfl rfl rfl rfl rfl rfl rfl
    exact ⟨rfl, hsaid⟩

theorem meets_listMessages (h : Depicts cap rooms s) (hs : Agree s)
    (clientId channelId before : Bytes) (limit : UInt32) :
    Meets cap rooms (rooms.listMessages uuid cap clientId channelId before limit)
      (.listed (ports.exec (BroadcastService.ListMessages uuid clientId channelId before limit) s).1)
      (ports.exec (BroadcastService.ListMessages uuid clientId channelId before limit) s).2 := by
  unfold BroadcastService.ListMessages Rooms.listMessages
  rcases parseClient uuid clientId with _ | c
  · exact .deny h .listed .clientNotFound
  rcases parseChannel uuid channelId with _ | k
  · exact .deny h .listed .channelNotFound
  rcases parseCursor uuid before with _ | cursor
  · exact .deny h .listed .invalidArgument
  simp only [Machine.exec_bind]
  by_cases hm : c ∈ s.members k
  · have hroom := (h.mem_members hs).1 hm
    rw [exec_listMessages cursor limit hm]
    simp only [Machine.exec_bind, exec_fillMessages, page_eq h, event_eq h]
    rcases hch : s.channel k with _ | ch
    · rw [members_of_none hch] at hm
      exact absurd hm (Finset.notMem_empty c)
    · rw [h.title_of_channel hch]
      simp only [if_pos hroom]
      exact .only h _
  · have hroom : ¬ rooms.roomOf c = some k := fun hroom => hm ((h.mem_members hs).2 hroom)
    simp only [ListMessages.execute, Prog.perform_bind, exec_findChannel]
    rcases hch : s.channel k with _ | ch
    · rw [h.title_of_none hch]
      exact .deny h .listed .channelNotFound
    · rw [h.title_of_channel hch]
      rw [members_of_channel hch] at hm
      have hmember : ch.hasMember c = false := by
        rw [Bool.eq_false_iff, ne_eq, Channel.hasMember_iff]
        exact hm
      simp only [hmember, Bool.false_eq_true, not_false_eq_true, if_true, if_neg hroom]
      exact .deny h .listed .notAMember

/-- The streams and their tables are no part of the chat. -/
theorem Depicts.streams (h : Depicts cap rooms s) (publisher : GrpcClientPublisher)
    (channelList : GrpcChannelListPublisher) (cancelled : Finset StreamId) : Depicts cap rooms
      { s with publisher := publisher, channelList := channelList, cancelled := cancelled } :=
  h.beside h.session h.nameOf h.nameGiven rfl rfl rfl (le_refl _) rfl

theorem beginChannelStream_fst (c : ClientId) (k : ChannelId) (w : StreamId) (s : Server) :
    (ports.exec (beginChannelStream c k w) s).1 = match s.channel k with
      | none => .error (errorToStatus .channelNotFound)
      | some ch => if c ∈ ch.members then .ok () else .error (errorToStatus .notAMember) := by
  simp only [beginChannelStream, SubscribeToChannel.execute, Prog.perform_bind, Prog.call_bind]
  rw [Machine.exec_call, exec_findChannel,
    show (ports.handle (.publisher (.registerSubscriber c w)) s).2.channel k = s.channel k from rfl]
  rcases s.channel k with _ | ch
  · rfl
  by_cases hm : c ∈ ch.members
  · simp only [Channel.hasMember_iff.2 hm, if_pos hm]
    rfl
  · have hmember : ch.hasMember c = false := by
      rw [Bool.eq_false_iff, ne_eq, Channel.hasMember_iff]
      exact hm
    simp only [hmember, if_neg hm]
    rfl

theorem meets_subscribeToChannel (h : Depicts cap rooms host.server) (hs : Agree host.server)
    (order : BucketOrder) (clientId channelId : Bytes) :
    Meets cap rooms (rooms.subscribeToChannel uuid clientId channelId)
      (host.answer uuid order (.subscribeToChannel clientId channelId))
      (host.step uuid order (.subscribeToChannel clientId channelId)).server := by
  simp only [Host.answer, Host.step, Rooms.subscribeToChannel]
  rcases parseClient uuid clientId with _ | c
  · exact .deny h .status .clientNotFound
  rcases parseChannel uuid channelId with _ | k
  · exact .deny h .status .channelNotFound
  have hserver : (host.beginChannel c k).server =
      (ports.exec (beginChannelStream c k host.nextStream) host.server).2 := by
    unfold Host.beginChannel
    dsimp only
    split <;> rfl
  have hstate : Depicts cap rooms (ports.exec (beginChannelStream c k host.nextStream) host.server).2 := by
    by_cases hm : c ∈ host.server.members k
    · rw [exec_beginChannelStream_mem _ hm]
      exact h.streams ..
    · obtain ⟨status, hexec⟩ := exec_beginChannelStream_notMem host.nextStream hm
      rw [hexec]
      exact h.streams ..
  simp only [hserver, beginChannelStream_fst]
  rcases hch : host.server.channel k with _ | ch
  · rw [h.title_of_none hch]
    exact .deny hstate .status .channelNotFound
  rw [h.title_of_channel hch]
  have hmem : c ∈ ch.members ↔ rooms.roomOf c = some k := by
    rw [← members_of_channel hch, h.mem_members hs]
  by_cases hroom : rooms.roomOf c = some k
  · simp only [if_pos (hmem.2 hroom), if_pos hroom]
    exact .only hstate _
  · simp only [if_neg fun hin => hroom (hmem.1 hin), if_neg hroom]
    exact .deny hstate .status .notAMember

theorem meets_subscribeToChannelList (h : Depicts cap rooms host.server) (order : BucketOrder)
    (clientId : Bytes) : Meets cap rooms (rooms.subscribeToChannelList uuid clientId)
      (host.answer uuid order (.subscribeToChannelList clientId))
      (host.step uuid order (.subscribeToChannelList clientId)).server := by
  simp only [Host.answer, Host.step, Rooms.subscribeToChannelList]
  rcases parseClient uuid clientId with _ | c
  · exact .deny h .status .clientNotFound
  have hserver : (host.beginList order c).server =
      (ports.exec (beginListStream order c host.nextStream) host.server).2 := by
    unfold Host.beginList
    dsimp only
    split <;> rfl
  simp only [hserver, beginListStream, SubscribeToChannelList.execute, Machine.exec_bind, Prog.perform_bind,
    exec_findSession]
  rcases hcs : host.server.session c with _ | cs
  · rw [h.guest_of_none hcs]
    exact .deny h .status .clientNotFound
  · obtain ⟨g, hg, -⟩ := h.guest_of_session hcs
    rw [hg]
    exact .only (h.streams ..) _

theorem meets_expire (h : Depicts cap rooms host.server) (hs : Agree host.server) (order : BucketOrder)
    (deadline : Int) :
    Meets cap rooms (.depart (rooms.silentSince deadline), {.expired (Set.ncard (rooms.silentSince deadline))})
      (host.answer uuid order (.expire deadline)) (host.step uuid order (.expire deadline)).server := by
  have hmessages : (host.step uuid order (.expire deadline)).server.messages = host.server.messages :=
    messages_step order host fun _ _ _ hop => by cases hop
  simp only [Host.answer]
  let expired := host.server.clients.collectExpired order.clients deadline
  have hcur : ∀ cs ∈ expired, host.server.session cs.id = some cs := fun cs hcs =>
    (InMemoryClientRegistry.mem_collectExpired.1 hcs).1
  have hnd : (expired.map ClientSession.id).Nodup :=
    (Keyed.nodup_map_values host.server.clients.clientsById order.clients).sublist (List.filter_sublist.map _)
  have hgone : Gone (expired.map ClientSession.id).toFinset host.server
      (host.step uuid order (.expire deadline)).server := gone_expireEach order hs 0 hcur hnd
  have hmem : ∀ c, c ∈ rooms.silentSince deadline ↔ c ∈ (expired.map ClientSession.id).toFinset := by
    intro c
    rw [List.mem_toFinset, List.mem_map]
    constructor
    · rintro ⟨g, hg, hheard⟩
      have hcs := h.session_of_guest hg
      exact ⟨sessionOf c g, InMemoryClientRegistry.mem_collectExpired.2 ⟨hcs, hheard⟩, rfl⟩
    · rintro ⟨cs, hcs, rfl⟩
      obtain ⟨hfind, hheard⟩ := InMemoryClientRegistry.mem_collectExpired.1 hcs
      obtain ⟨g, hg, heq⟩ := h.guest_of_session hfind
      rw [heq] at hheard
      exact ⟨g, hg, hheard⟩
  have hcount : Set.ncard (rooms.silentSince deadline) = expired.length := by
    rw [show rooms.silentSince deadline = ((expired.map ClientSession.id).toFinset : Set ClientId) from
      Set.ext fun c => (hmem c).trans Finset.mem_coe.symm, Set.ncard_coe_finset,
      List.toFinset_card_of_nodup hnd, List.length_map]
  have hanswer : (ports.exec (ExpireInactiveClients.run order deadline) host.server).1 = expired.length :=
    (exec_expireEach_fst order expired 0 host.server).trans (Nat.zero_add _)
  refine ⟨?_, h.beside (fun c => ?_) (fun k => ?_) (fun c => ?_) rfl rfl hmessages ?_ ?_⟩
  · rw [hanswer, hcount]
    exact Set.mem_singleton _
  · rw [hgone.session, h.session]
    simp only [Chat.after]
    by_cases hc : c ∈ rooms.silentSince deadline
    · rw [if_pos ((hmem c).1 hc), if_pos hc]
      rfl
    · rw [if_neg fun hin => hc ((hmem c).2 hin), if_neg hc]
  · rw [Server.nameOf, hgone.channel, Option.map_map]
    exact h.nameOf k
  · rw [hgone.nameGiven]
    exact h.nameGiven c
  · exact nextUuid_exec _ host.server
  · exact steadyNow_exec _ host.server

/-! ### Runs -/

theorem meets_step (h : Depicts cap rooms host.server) (hs : host.server.Consistent) (order : BucketOrder)
    (op : Operation) : Meets cap rooms (rooms.plan uuid cap host.server.nextUuid host.server.systemNow op)
      (host.answer uuid order op) (host.step uuid order op).server := by
  cases op with
  | connect username => exact meets_connect h hs username
  | disconnect clientId => exact meets_disconnect h hs order clientId
  | listChannels => exact ⟨⟨_, rfl, lists_channels h hs.agree order⟩, h⟩
  | createChannel clientId channelName => exact meets_createChannel h hs clientId channelName
  | joinChannel clientId channelId => exact meets_joinChannel h hs order clientId channelId
  | leaveChannel clientId channelId => exact meets_leaveChannel h hs clientId channelId
  | sendMessage clientId channelId content => exact meets_sendMessage h hs order clientId channelId content
  | listMessages clientId channelId before limit =>
    exact meets_listMessages h hs.agree clientId channelId before limit
  | heartbeat clientId => exact meets_heartbeat h clientId
  | subscribeToChannel clientId channelId => exact meets_subscribeToChannel h hs.agree order clientId channelId
  | endChannelStream stream =>
    refine ⟨rfl, ?_⟩
    simp only [Host.step]
    split
    · exact h
    · exact h.streams ..
  | subscribeToChannelList clientId => exact meets_subscribeToChannelList h order clientId
  | endListStream stream =>
    refine ⟨rfl, ?_⟩
    simp only [Host.step]
    split
    · exact h
    · exact h.streams ..
  | expire deadline => exact meets_expire h hs.agree order deadline

variable {historyCap : UInt32} {systemNow steadyNow : Int}

/-- The name of the seeded channel. -/
def general : ChannelName := ⟨ascii "general", by decide⟩

/-- How many messages of a channel are kept. -/
def keptOf (historyCap : UInt32) : Nat := (InMemoryMessageRepository.new historyCap).cap.toNat

theorem depicts_initial (historyCap : UInt32) (systemNow steadyNow : Int) :
    Depicts (keptOf historyCap) (.start 1 general steadyNow)
      (Host.initial historyCap systemNow steadyNow).server := by
  let s : Server := ⟨.empty, .empty, .new historyCap, .empty, .empty, ∅, systemNow, steadyNow, 1⟩
  show Depicts (keptOf historyCap) (.start 1 general steadyNow) (handle (.channels (.create general)) s).2
  have hchannel : ∀ k, s.channel k = none := fun _ => rfl
  rcases create_name s general with ⟨k, hid, -⟩ | ⟨-, -, hcreated, -⟩
  · cases hid
  refine ⟨fun c => rfl, fun k => ?_, fun c => rfl, fun k => ?_, rfl, fun k m hm => ?_, rfl⟩
  · rw [Server.nameOf, hcreated]
    by_cases hk : k = ⟨1⟩
    · subst hk
      rw [if_pos ⟨rfl, rfl⟩]
      simp [Rooms.start, Chat.after, Channel.new]
    · rw [if_neg fun hboth => hk hboth.1, hchannel]
      simp [Rooms.start, Chat.after, Function.update_of_ne hk, Chat.empty]
  · rw [handle_channels_messages, InMemoryMessageRepository.buffer_new]
    simp [Rooms.kept, Rooms.start, Chat.after, Chat.empty]
  · simp [Rooms.start, Chat.after, Chat.empty] at hm

/-- Every move of the server is followed by the chat. -/
theorem follows_rooms (cap : Nat) : Labelled.Follows
    (fun host rooms => Depicts cap rooms host.server ∧ host.server.Consistent ∧
      Host.Reached uuid (.initial historyCap systemNow steadyNow) host)
    (Host.system uuid) (Rooms.system uuid cap) where
  silent := by
    rintro host _ rooms ⟨h, -, hreached⟩ ⟨s', he, rfl⟩
    have hclock : rooms.clock ≤ s'.steadyNow := by
      rw [← h.clock]
      exact he.steadyNow
    exact ⟨_, .single ⟨_, hclock, rfl⟩, h.env he, consistent_reached (hreached.env he), hreached.env he⟩
  step := by
    rintro host ⟨op, response⟩ _ rooms ⟨h, hs, hreached⟩ ⟨order, hresponse, rfl⟩
    obtain ⟨hmay, hdepicts⟩ := meets_step h hs order op
    have hreached' := hreached.step order op
    refine ⟨_, ⟨host.server.nextUuid, host.server.systemNow, h.unused hs, ?_, rfl⟩, hdepicts,
      consistent_reached hreached', hreached'⟩
    rw [hresponse]
    exact hmay

/-- In every sequential run of the server the clients get answers that the chat gives in a run of its own, and
the stores are those of the chat. -/
theorem rooms_refined {labels : List (Operation × Response)}
    (h : (Host.system uuid).Run (.initial historyCap systemNow steadyNow) labels host) :
    ∃ rooms, (Rooms.system uuid (keptOf historyCap)).Run (.start 1 general steadyNow) labels rooms ∧
      Depicts (keptOf historyCap) rooms host.server ∧ rooms.Sound := by
  have hreached : Host.Reached uuid (.initial historyCap systemNow steadyNow)
      (.initial historyCap systemNow steadyNow) := .refl
  obtain ⟨rooms, hrun, hdepicts, -⟩ := (follows_rooms (keptOf historyCap)).run
    ⟨depicts_initial historyCap systemNow steadyNow, consistent_reached hreached, hreached⟩ h
  exact ⟨rooms, hrun, hdepicts, Rooms.sound_run hrun (Rooms.sound_start 1 general steadyNow)⟩

/-- The first client comes, and joins the seeded channel by its name. -/
theorem rooms_refined_oneJoined : ∃ rooms, (Rooms.system .canonical 200).Run (.start 1 general 0)
    [(.connect (ascii "ann"), .connected (.ok ⟨2⟩)),
      (.joinChannel (ascii "00000000-0000-0000-0000-000000000002") (ascii "general"), .status (.ok ()))] rooms ∧
      Depicts 200 rooms oneJoined.server ∧ rooms.Sound := by
  have hconnect : (Host.system .canonical).step (.initial 200 0 0)
      (.connect (ascii "ann"), .connected (.ok ⟨2⟩)) oneConnected := ⟨.byId, by rfl, by rfl⟩
  have hjoin : (Host.system .canonical).step oneConnected
      (.joinChannel (ascii "00000000-0000-0000-0000-000000000002") (ascii "general"), .status (.ok ()))
      oneJoined := ⟨.byId, by rfl, by rfl⟩
  have hcap : keptOf 200 = 200 := by decide
  have hrefined := rooms_refined ((Labelled.Run.refl.step hconnect).step hjoin)
  rwa [hcap] at hrefined

end

end Bcmd
