import Bcmd.NameIndex

/-!
# Requests in any interleaving

Every RPC, with its fields, and the sweep, as the programs that a pool interleaves. In any such pool the
channels' names and ids stay in one-to-one correspondence and no channel is ever lost.
-/

namespace Bcmd
open Server

/-- A streaming request comes with the stream that was opened for it. -/
inductive Request
  | connect (username : Bytes)
  | disconnect (clientId : Bytes)
  | listChannels
  | createChannel (clientId channelName : Bytes)
  | joinChannel (clientId channelId : Bytes)
  | leaveChannel (clientId channelId : Bytes)
  | sendMessage (clientId channelId content : Bytes)
  | listMessages (clientId channelId beforeMessageId : Bytes) (limit : UInt32)
  | heartbeat (clientId : Bytes)
  | subscribeToChannel (clientId channelId : Bytes) (writer : StreamId)
  | subscribeToChannelList (clientId : Bytes) (writer : StreamId)
  | expire (deadline : Int)

inductive Response
  | connected (reply : Reply ClientId)
  | status (reply : Reply Unit)
  | channels (all : List ChannelSummary)
  | created (reply : Reply (ChannelId × Bytes))
  | sent (reply : Reply MessageId)
  | listed (reply : Reply (List MessageEvent × Bool))
  | expired (count : Nat)

def Request.run (uuid : UuidLib) (order : BucketOrder) : Request → Task Response
  | connect username => return .connected (← BroadcastService.Connect username)
  | disconnect clientId => return .status (← BroadcastService.Disconnect uuid order clientId)
  | listChannels => return .channels (← BroadcastService.ListChannels order)
  | createChannel clientId channelName =>
    return .created (← BroadcastService.CreateChannel uuid clientId channelName)
  | joinChannel clientId channelId =>
    return .status (← BroadcastService.JoinChannel uuid order clientId channelId)
  | leaveChannel clientId channelId =>
    return .status (← BroadcastService.LeaveChannel uuid clientId channelId)
  | sendMessage clientId channelId content =>
    return .sent (← BroadcastService.SendMessage uuid order clientId channelId content)
  | listMessages clientId channelId before limit =>
    return .listed (← BroadcastService.ListMessages uuid clientId channelId before limit)
  | heartbeat clientId => return .status (← BroadcastService.Heartbeat uuid clientId)
  | subscribeToChannel clientId channelId writer =>
    return .status (← BroadcastService.SubscribeToChannel uuid clientId channelId writer)
  | subscribeToChannelList clientId writer =>
    return .status (← BroadcastService.SubscribeToChannelList uuid order clientId writer)
  | expire deadline => return .expired (← ExpireInactiveClients.run order deadline)

/-- All the requests at once, each walking the tables in its own way. -/
def serving {ι : Type} (uuid : UuidLib) (order : ι → BucketOrder) (requests : ι → Request) (s : Server) :
    Config Server ι Call Call.Res Response :=
  ⟨s, fun i => (requests i).run uuid (order i)⟩

section
variable (uuid : UuidLib) (order : BucketOrder)
open BroadcastService

theorem harmless_subscribeToChannel (clientId channelId : Bytes) (w : StreamId) :
    (BroadcastService.SubscribeToChannel uuid clientId channelId w).Calls Harmless := by
  unfold BroadcastService.SubscribeToChannel
  rcases parseClient uuid clientId with _ | c
  · trivial
  rcases parseChannel uuid channelId with _ | k
  · trivial
  refine .bind ((calm_beginChannelStream c k w).mono fun _ => Calm.harmless) fun r => ?_
  rcases r with e | _
  · trivial
  · exact ⟨trivial, fun _ => ⟨trivial, fun _ => trivial⟩⟩

theorem harmless_subscribeToChannelList (clientId : Bytes) (w : StreamId) :
    (BroadcastService.SubscribeToChannelList uuid order clientId w).Calls Harmless := by
  unfold BroadcastService.SubscribeToChannelList
  rcases parseClient uuid clientId with _ | c
  · trivial
  refine .bind (harmless_beginListStream order c w) fun r => ?_
  rcases r with e | _
  · trivial
  · exact ⟨trivial, fun _ => ⟨trivial, fun _ => trivial⟩⟩

/-- Every request saves only channels that it has found itself. -/
theorem given_request (r : Request) : SavesGiven ∅ (r.run uuid order) := by
  have hharmless : ∀ {α : Type} {p : Task α}, p.Calls Harmless → SavesGiven ∅ p :=
    fun h => .of_calls (fun _ => id) h
  have hquiet : ∀ {α : Type} {p : Task α}, p.Calls Quiet → SavesGiven ∅ p :=
    fun h => .of_calls (fun _ => id) h
  cases r with
  | connect username => exact (hquiet (quiet_connect username)).bind fun _ => trivial
  | disconnect clientId => exact (given_disconnectRequest uuid order clientId).bind fun _ => trivial
  | listChannels =>
    have hcalls : (BroadcastService.ListChannels order).Calls Harmless := ⟨trivial, fun _ => trivial⟩
    exact (hharmless hcalls).bind fun _ => trivial
  | createChannel clientId name =>
    exact (hharmless (harmless_createChannel uuid clientId name)).bind fun _ => trivial
  | joinChannel clientId channelId =>
    exact (given_joinRequest uuid order clientId channelId).bind fun _ => trivial
  | leaveChannel clientId channelId =>
    exact (given_leaveRequest uuid clientId channelId).bind fun _ => trivial
  | sendMessage clientId channelId content =>
    exact (hharmless ((calm_sendMessage uuid order clientId channelId content).mono fun _ =>
      Calm.harmless)).bind
      fun _ => trivial
  | listMessages clientId channelId before limit =>
    exact (hquiet (quiet_listMessages uuid clientId channelId before limit)).bind fun _ => trivial
  | heartbeat clientId => exact (hquiet (quiet_heartbeat uuid clientId)).bind fun _ => trivial
  | subscribeToChannel clientId channelId w =>
    exact (hharmless (harmless_subscribeToChannel uuid clientId channelId w)).bind fun _ => trivial
  | subscribeToChannelList clientId w =>
    exact (hharmless (harmless_subscribeToChannelList uuid order clientId w)).bind fun _ => trivial
  | expire deadline => exact (given_expire order deadline).bind fun _ => trivial

end

/-! ### Which request makes which call -/

/-- The calls that the request may make. -/
def Request.May (uuid : UuidLib) (r : Request) : Call → Prop
  | .clients (.registerClient _) => ∃ username, r = .connect username
  | .channels (.create _) => ∃ clientId channelName, r = .createChannel clientId channelName
  | .newMessage _ _ _ | .messages (.save _) | .publisher (.publish _ _) =>
    ∃ clientId channelId content, r = .sendMessage clientId channelId content
  | .messages (.recent k _) | .messages (.listBefore k _ _) =>
    ∃ clientId channelId before limit, r = .listMessages clientId channelId before limit ∧
      BroadcastService.parseChannel uuid channelId = some k
  | .clients (.touchHeartbeat _) => ∃ clientId, r = .heartbeat clientId
  | .publisher (.registerSubscriber c w) =>
    ∃ clientId channelId, r = .subscribeToChannel clientId channelId w ∧
      BroadcastService.parseClient uuid clientId = some c
  | .channelList (.registerSubscriberWithSnapshot _ c w) =>
    ∃ clientId, r = .subscribeToChannelList clientId w ∧ BroadcastService.parseClient uuid clientId = some c
  | _ => True

theorem Requesting.mayRequest {o : Call} (h : Requesting o) (uuid : UuidLib) (r : Request) :
    r.May uuid o := by
  rcases o with (_ | _ | _ | _ | _) | (_ | _ | _ | _ | _ | _ | _ | _) | _ | (_ | _ | _ | _ | _) |
    (_ | _ | _ | _) | _ | _
  all_goals first | exact h.elim | trivial

theorem may_request (uuid : UuidLib) (order : BucketOrder) (r : Request) :
    (r.run uuid order).Calls (r.May uuid) := by
  cases r with
  | connect username =>
    refine .bind ?_ fun _ => trivial
    unfold BroadcastService.Connect
    rcases Username.create (trim username) with _ | name
    · trivial
    refine ⟨⟨username, rfl⟩, fun r => ?_⟩
    rcases r with e | cs <;> trivial
  | disconnect clientId =>
    refine .bind ?_ fun _ => trivial
    unfold BroadcastService.Disconnect
    rcases BroadcastService.parseClient uuid clientId with _ | c
    · trivial
    · exact calls_disconnectClient order c (fun _ ho => ho.mayRequest uuid _) (fun _ => trivial)
        fun _ => trivial
  | listChannels => exact .bind ⟨trivial, fun _ => trivial⟩ fun _ => trivial
  | createChannel clientId channelName =>
    exact .bind (calls_rpc_createChannel uuid (fun _ => trivial) (fun _ => ⟨clientId, channelName, rfl⟩)
      (fun _ => trivial) clientId channelName) fun _ => trivial
  | joinChannel clientId channelId =>
    exact .bind ((requesting_joinRequest order uuid clientId channelId).mono fun _ ho => ho.mayRequest uuid _)
      fun _ => trivial
  | leaveChannel clientId channelId =>
    exact .bind ((requesting_leaveRequest uuid clientId channelId).mono fun _ ho => ho.mayRequest uuid _)
      fun _ => trivial
  | sendMessage clientId channelId content =>
    exact .bind (calls_rpc_sendMessage uuid order (fun _ => trivial) (fun _ => trivial)
      (fun _ _ _ => ⟨_, _, _, rfl⟩)
      (fun _ => ⟨_, _, _, rfl⟩) (fun _ _ => ⟨_, _, _, rfl⟩) clientId channelId content) fun _ => trivial
  | listMessages clientId channelId before limit =>
    exact .bind (calls_rpc_listMessages uuid (fun _ => trivial)
      (fun _ _ hk => ⟨_, _, _, _, rfl, hk⟩) (fun _ _ _ hk => ⟨_, _, _, _, rfl, hk⟩)
        (fun _ => trivial) clientId before
      limit) fun _ => trivial
  | heartbeat clientId =>
    refine .bind ?_ fun _ => trivial
    unfold BroadcastService.Heartbeat
    rcases BroadcastService.parseClient uuid clientId with _ | c
    · trivial
    · exact ⟨⟨clientId, rfl⟩, fun _ => trivial⟩
  | subscribeToChannel clientId channelId w =>
    refine .bind ?_ fun _ => trivial
    unfold BroadcastService.SubscribeToChannel
    rcases hc : BroadcastService.parseClient uuid clientId with _ | c
    · trivial
    rcases BroadcastService.parseChannel uuid channelId with _ | k
    · trivial
    have hbegin : (BroadcastService.beginChannelStream c k w).Calls
        ((Request.subscribeToChannel clientId channelId w).May uuid) := by
      simp only [BroadcastService.beginChannelStream, Prog.perform_bind]
      refine ⟨⟨clientId, channelId, rfl, hc⟩, fun _ => .bind ?_ fun r => ?_⟩
      · refine ⟨trivial, fun r => ?_⟩
        rcases r with e | ch
        · trivial
        · simp only [Prog.bind]
          split <;> trivial
      · rcases r with e | _
        · exact ⟨trivial, fun _ => trivial⟩
        · trivial
    refine .bind hbegin fun r => ?_
    rcases r with e | _
    · trivial
    · exact ⟨trivial, fun _ => ⟨trivial, fun _ => trivial⟩⟩
  | subscribeToChannelList clientId w =>
    refine .bind ?_ fun _ => trivial
    unfold BroadcastService.SubscribeToChannelList
    rcases hc : BroadcastService.parseClient uuid clientId with _ | c
    · trivial
    refine .bind ?_ fun r => ?_
    · refine .bind ⟨trivial, fun r => ?_⟩ fun _ => trivial
      rcases r with e | cs
      · trivial
      · exact ⟨⟨clientId, rfl, hc⟩, fun _ => trivial⟩
    · rcases r with e | _
      · trivial
      · exact ⟨trivial, fun _ => ⟨trivial, fun _ => trivial⟩⟩
  | expire deadline =>
    exact .bind (calls_expire order (fun _ ho => ho.mayRequest uuid _) (fun _ _ => trivial) (fun _ => trivial)
      (fun _ => trivial) deadline) fun _ => trivial

/-! ### The channels of a pool -/

section
variable {s s' : Server} {k : ChannelId} {ch : Channel}

/-- A stored channel is found for ever after, by its id and by its name. -/
theorem channel_stays (hs : s.Indexed) (hkeep : KeepsNames s s') (hk : s.channel k = some ch) :
    ∃ ch', s'.channels.findById k = .ok ch' ∧ ch'.name = ch.name ∧
      s'.channels.findByName ch.name = .ok ch' := by
  have hname := hkeep.nameOf hs (nameOf_of_channel hk)
  obtain ⟨ch', hk', hname'⟩ := channel_of_nameOf hname
  exact ⟨ch', InMemoryChannelRepository.findById_ok.2 hk', hname',
    findByName_of_some ((hkeep.indexed hs).idOf hname) hk'⟩

/-- A creation succeeds exactly when no stored channel has the name, and else changes no channel. -/
theorem create_succeeds_iff (hs : s.Indexed) (name : ChannelName) :
    ((∃ ch, (handle (.channels (.create name)) s).1 = .ok ch) ↔ ∀ k ch, s.channel k = some ch →
      ch.name ≠ name) ∧
      ((∃ k ch, s.channel k = some ch ∧ ch.name = name) →
        (handle (.channels (.create name)) s).1 = .error .channelAlreadyExists ∧
          (handle (.channels (.create name)) s).2.channels = s.channels) := by
  have hfree : (∀ k ch, s.channel k = some ch → ch.name ≠ name) ↔ s.idOf name.value = none := by
    constructor
    · intro hno
      rcases hid : s.idOf name.value with _ | k
      · rfl
      · obtain ⟨name', hvalue, hnamed⟩ := hs.nameOf hid
        obtain ⟨ch, hk, rfl⟩ := channel_of_nameOf hnamed
        have hsame : ch.name = name := by
          cases hn : ch.name
          cases name
          simp only [hn] at hvalue
          simp [hvalue]
        exact absurd hsame (hno k ch hk)
    · rintro hnone k ch hk rfl
      rw [hs.idOf (nameOf_of_channel hk)] at hnone
      cases hnone
  rw [hfree]
  rcases create_name s name with ⟨k, hid, herr, hsame⟩ | ⟨hnone, hok, -⟩
  · refine ⟨by rw [herr, hid]; simp, fun _ => ⟨herr, by rw [hsame]⟩⟩
  · refine ⟨by rw [hok, hnone]; simp, ?_⟩
    rintro ⟨k, ch, hk, hname⟩
    exact absurd hname (hfree.2 hnone k ch hk)

/-- The repository in any interleaving of programs that save what they were given: its two maps are
inverse to each other, no name is stored twice, a creation succeeds exactly when its name is not stored
and else changes nothing, and what is stored stays findable by id and by name, under its name. -/
theorem channels_kept {ι α : Type} [DecidableEq ι] {start m : Config Server ι Call Call.Res α}
    {tr : List (Event Server ι Call Call.Res α)} (h : Run ports Env start tr m)
    (hempty : start.state.channels = .empty) (hsaves : ∀ i, SavesGiven ∅ (start.threads i)) :
    (∀ k name, m.state.nameOf k = some name → m.state.idOf name.value = some k) ∧
      (∀ n k, m.state.idOf n = some k → ∃ name, name.value = n ∧ m.state.nameOf k = some name) ∧
      (∀ k k' ch ch', m.state.channel k = some ch → m.state.channel k' = some ch' → ch.name = ch'.name →
        k = k') ∧
      (∀ name, ((∃ ch, (handle (.channels (.create name)) m.state).1 = .ok ch) ↔
          ∀ k ch, m.state.channel k = some ch → ch.name ≠ name) ∧
        ((∃ k ch, m.state.channel k = some ch ∧ ch.name = name) →
          (handle (.channels (.create name)) m.state).1 = .error .channelAlreadyExists ∧
            (handle (.channels (.create name)) m.state).2.channels = m.state.channels)) ∧
      ∀ tr' final, Run ports Env m tr' final → ∀ k ch, m.state.channel k = some ch →
        ∃ ch', final.state.channels.findById k = .ok ch' ∧ ch'.name = ch.name ∧
          final.state.channels.findByName ch.name = .ok ch' := by
  have hs := indexed_of_empty hempty
  obtain ⟨hkeep, hknows⟩ := names_run h fun i => (hsaves i).knows hs fun _ hd => absurd hd
    (Set.notMem_empty _)
  have hm := hkeep.indexed hs
  refine ⟨fun k name => hm.idOf, fun n k => hm.nameOf, fun k k' ch ch' hk hk' hname => ?_,
    create_succeeds_iff hm, fun tr' final h' k ch hk => channel_stays hm (names_run h' hknows).1 hk⟩
  have hid := hm.idOf (nameOf_of_channel hk)
  rw [hname, hm.idOf (nameOf_of_channel hk')] at hid
  exact (Option.some.inj hid).symm

end

/-! The default channel as `main.cpp` creates it, and a client's attempt at another one of its name. -/

def creators : Bool → Task Response
  | false => do
    match ChannelName.create (ascii "general") with
    | none => return .channels []
    | some defaultName =>
      let _ ← channels.create defaultName
      return .channels []
  | true => (Request.createChannel (ascii "00000000-0000-0000-0000-000000000002") (ascii "general")).run
    .canonical .byId

def creatingTwice : List (Event Server Bool Call Call.Res Response) ×
    Config Server Bool Call Call.Res Response :=
  schedule ports ⟨⟨.empty, .empty, .new 200, .empty, .empty, ∅, 0, 0, 1⟩, creators⟩ [false, true, true, true]

theorem channels_kept_creatingTwice :
    ∃ name, name.value = ascii "general" ∧ creatingTwice.2.state.nameOf ⟨1⟩ = some name := by
  have hsaves : ∀ i, SavesGiven ∅ (creators i) := by
    intro i
    cases i
    · unfold creators
      rcases ChannelName.create (ascii "general") with _ | name
      · trivial
      · exact .call nofun fun _ => trivial
    · exact given_request .canonical .byId (.createChannel _ _)
  exact (channels_kept (run_schedule (E := Env) ..) rfl hsaves).2.1 _ ⟨1⟩ (by decide +kernel)

end Bcmd
