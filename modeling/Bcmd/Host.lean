import Bcmd.Service

/-!
# The server as it starts and runs

`Server.initial` is what `main.cpp` builds: one channel and no sessions. A `Host` is a server with
its open streams, and runs operations one after the other, each to its end (`Reached`).
-/

namespace Bcmd

/-- `main.cpp`: the repositories with the configured history cap, and the seeded default channel. -/
def Server.initial (historyCap : UInt32) (systemNow steadyNow : Int) : Server :=
  let s : Server := ⟨.empty, .empty, .new historyCap, .empty, .empty, ∅, systemNow, steadyNow, 1⟩
  match ChannelName.create (ascii "general") with
  | none => s
  | some defaultName => (s.handleChannels (.create defaultName)).2

/-- Every table walked by increasing id. -/
def BucketOrder.byId : BucketOrder :=
  ⟨.byRank StrongId.value StrongId.value_injective, .byRank StrongId.value StrongId.value_injective⟩

structure Host where
  server : Server
  /-- The handlers of `SubscribeToChannel` that wait for their cancellation, and whose they are. -/
  channelStreams : Finmap fun _ : StreamId => ClientId
  listStreams : Finmap fun _ : StreamId => ClientId
  nextStream : StreamId

/-- The RPCs with the fields of their requests, the ends of streams and the expiry sweep. -/
inductive Operation
  | connect (username : Bytes)
  | disconnect (clientId : Bytes)
  | listChannels
  | createChannel (clientId channelName : Bytes)
  | joinChannel (clientId channelId : Bytes)
  | leaveChannel (clientId channelId : Bytes)
  | sendMessage (clientId channelId content : Bytes)
  | listMessages (clientId channelId beforeMessageId : Bytes) (limit : UInt32)
  | heartbeat (clientId : Bytes)
  | subscribeToChannel (clientId channelId : Bytes)
  | endChannelStream (stream : StreamId)
  | subscribeToChannelList (clientId : Bytes)
  | endListStream (stream : StreamId)
  | expire (deadline : Int)

namespace Host
open BroadcastService

def initial (historyCap : UInt32) (systemNow steadyNow : Int) : Host :=
  ⟨.initial historyCap systemNow steadyNow, ∅, ∅, 0⟩

section
variable (historyCap : UInt32) (systemNow steadyNow : Int)

@[simp] theorem initial_clients : (initial historyCap systemNow steadyNow).server.clients = .empty := by
  unfold initial Server.initial
  dsimp only
  split <;> rfl

@[simp] theorem initial_messages : (initial historyCap systemNow steadyNow).server.messages =
    .new historyCap := by
  unfold initial Server.initial
  dsimp only
  split <;> rfl

@[simp] theorem initial_publisher : (initial historyCap systemNow steadyNow).server.publisher = .empty := by
  unfold initial Server.initial
  dsimp only
  split <;> rfl

@[simp] theorem initial_channelList : (initial historyCap systemNow steadyNow).server.channelList =
    .empty := by
  unfold initial Server.initial
  dsimp only
  split <;> rfl

end

/-- Run a piece of code alone. -/
def call {α : Type} (host : Host) (task : Task α) : Host :=
  { host with server := (ports.exec task host.server).2 }

def cancel (host : Host) (stream : StreamId) : Host :=
  { host with server := { host.server with cancelled := insert stream host.server.cancelled } }

def beginChannel (host : Host) (clientId : ClientId) (channelId : ChannelId) : Host :=
  let r := ports.exec (beginChannelStream clientId channelId host.nextStream) host.server
  match r.1 with
  | .error _ => { host with server := r.2, nextStream := host.nextStream + 1 }
  | .ok () => { host with
      server := r.2
      channelStreams := host.channelStreams.insert host.nextStream clientId
      nextStream := host.nextStream + 1 }

def beginList (order : BucketOrder) (host : Host) (clientId : ClientId) : Host :=
  let r := ports.exec (beginListStream order clientId host.nextStream) host.server
  match r.1 with
  | .error _ => { host with server := r.2, nextStream := host.nextStream + 1 }
  | .ok () => { host with
      server := r.2
      listStreams := host.listStreams.insert host.nextStream clientId
      nextStream := host.nextStream + 1 }

def step (uuid : UuidLib) (order : BucketOrder) (host : Host) : Operation → Host
  | .connect username => host.call (Connect username)
  | .disconnect clientId => host.call (Disconnect uuid order clientId)
  | .listChannels => host.call (ListChannels order)
  | .createChannel clientId channelName => host.call (CreateChannel uuid clientId channelName)
  | .joinChannel clientId channelId => host.call (JoinChannel uuid order clientId channelId)
  | .leaveChannel clientId channelId => host.call (LeaveChannel uuid clientId channelId)
  | .sendMessage clientId channelId content => host.call (SendMessage uuid order clientId channelId content)
  | .listMessages clientId channelId before limit =>
    host.call (ListMessages uuid clientId channelId before limit)
  | .heartbeat clientId => host.call (Heartbeat uuid clientId)
  | .subscribeToChannel clientId channelId =>
    match parseClient uuid clientId, parseChannel uuid channelId with
    | some clientId, some channelId => host.beginChannel clientId channelId
    | _, _ => host
  | .endChannelStream stream =>
    match host.channelStreams.lookup stream with
    | none => host
    | some clientId =>
      { (host.cancel stream).call (endChannelStream clientId) with
        channelStreams := host.channelStreams.erase stream }
  | .subscribeToChannelList clientId =>
    match parseClient uuid clientId with
    | some clientId => host.beginList order clientId
    | none => host
  | .endListStream stream =>
    match host.listStreams.lookup stream with
    | none => host
    | some clientId =>
      { (host.cancel stream).call (endListStream clientId) with listStreams := host.listStreams.erase stream }
  | .expire deadline => host.call (ExpireInactiveClients.run order deadline)

/-- `host'` is reached from `host` by operations run one after the other. -/
inductive Reached (uuid : UuidLib) (host : Host) : Host → Prop
  | refl : Reached uuid host host
  | env {host' s'} (h : Reached uuid host host') (he : Server.Env host'.server s') :
      Reached uuid host { host' with server := s' }
  | step {host'} (order : BucketOrder) (op : Operation) (h : Reached uuid host host') :
      Reached uuid host (host'.step uuid order op)

/-- The same, by operations that meet `P` in the state they are run in. -/
inductive ReachedBy (uuid : UuidLib) (P : Host → Operation → Prop) (host : Host) : Host → Prop
  | refl : ReachedBy uuid P host host
  | env {host' s'} (h : ReachedBy uuid P host host') (he : Server.Env host'.server s') :
      ReachedBy uuid P host { host' with server := s' }
  | step {host'} (order : BucketOrder) (op : Operation) (h : ReachedBy uuid P host host') (hp : P host' op) :
      ReachedBy uuid P host (host'.step uuid order op)

/-- The same, in states that all satisfy `Q`. -/
inductive ReachedIn (uuid : UuidLib) (Q : Host → Prop) (host : Host) : Host → Prop
  | refl (hq : Q host) : ReachedIn uuid Q host host
  | env {host' s'} (h : ReachedIn uuid Q host host') (he : Server.Env host'.server s')
      (hq : Q { host' with server := s' }) : ReachedIn uuid Q host { host' with server := s' }
  | step {host'} (order : BucketOrder) (op : Operation) (h : ReachedIn uuid Q host host')
      (hq : Q (host'.step uuid order op)) : ReachedIn uuid Q host (host'.step uuid order op)

theorem ReachedIn.reached {uuid : UuidLib} {Q : Host → Prop} {start host host' : Host}
    (h : ReachedIn uuid Q host host') (hstart : Reached uuid start host) :
    Reached uuid start host' ∧ Q host' := by
  induction h with
  | refl hq => exact ⟨hstart, hq⟩
  | env _ he hq ih => exact ⟨ih.1.env he, hq⟩
  | step order op _ hq ih => exact ⟨ih.1.step order op, hq⟩

/-- A list of operations, all with one way of walking the tables. -/
def run (uuid : UuidLib) (order : BucketOrder) (host : Host) (ops : List Operation) : Host :=
  ops.foldl (step uuid order) host

theorem reached_run {uuid : UuidLib} {start host : Host} (order : BucketOrder) (ops : List Operation)
    (h : Reached uuid start host) : Reached uuid start (host.run uuid order ops) := by
  induction ops generalizing host with
  | nil => exact h
  | cons op ops ih => exact ih (h.step order op)

end Host

/-! ### Small servers

Runs are tried on them. The channel is `1` and called `general`, and the clients are `2` and `3`. -/

/-- The texts of small ids. -/
def writeSmall (uuid : Nat) : Bytes := ascii "00000000-0000-0000-0000-00000000000" ++ [UInt8.ofNat (48 + uuid)]

def oneConnected : Host := (Host.initial 200 0 0).run .canonical .byId [.connect (ascii "ann")]

def oneJoined : Host :=
  oneConnected.run .canonical .byId
    [.joinChannel (ascii "00000000-0000-0000-0000-000000000002") (ascii "general")]

def twoConnected : Host := oneConnected.run .canonical .byId [.connect (ascii "bob")]

/-- The second client is not in the channel of the first. -/
def visitor : Host := oneJoined.run .canonical .byId [.connect (ascii "bob")]

/-- The channel `3` is called `other`, and nobody is in it. -/
def twoChannels : Host :=
  oneConnected.run .canonical .byId
    [.createChannel (ascii "00000000-0000-0000-0000-000000000002") (ascii "other")]

/-- The one client listens to the channel with stream `0`. -/
def listening : Host :=
  oneJoined.run .canonical .byId [.subscribeToChannel (ascii "00000000-0000-0000-0000-000000000002")
    (ascii "00000000-0000-0000-0000-000000000001")]

/-- Both clients are in the channel, and nobody is in the channel `4`, called `other`. -/
def twoJoined : Host :=
  twoConnected.run .canonical .byId
    [.joinChannel (ascii "00000000-0000-0000-0000-000000000002") (ascii "general"),
      .joinChannel (ascii "00000000-0000-0000-0000-000000000003") (ascii "general"),
      .createChannel (ascii "00000000-0000-0000-0000-000000000002") (ascii "other")]

theorem oneConnected_reached : Host.Reached .canonical (.initial 200 0 0) oneConnected :=
  Host.reached_run .byId _ .refl

theorem oneJoined_reached : Host.Reached .canonical (.initial 200 0 0) oneJoined :=
  Host.reached_run .byId _ oneConnected_reached

theorem twoConnected_reached : Host.Reached .canonical (.initial 200 0 0) twoConnected :=
  Host.reached_run .byId _ oneConnected_reached

theorem visitor_reached : Host.Reached .canonical (.initial 200 0 0) visitor :=
  Host.reached_run .byId _ oneJoined_reached

theorem twoChannels_reached : Host.Reached .canonical (.initial 200 0 0) twoChannels :=
  Host.reached_run .byId _ oneConnected_reached

theorem listening_reached : Host.Reached .canonical (.initial 200 0 0) listening :=
  Host.reached_run .byId _ oneJoined_reached

theorem twoJoined_reached : Host.Reached .canonical (.initial 200 0 0) twoJoined :=
  Host.reached_run .byId _ twoConnected_reached

end Bcmd
