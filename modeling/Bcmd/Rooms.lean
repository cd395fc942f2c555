import Bcmd.Commute
import Bcmd.Lib.Chat
import Bcmd.Lib.Refines
import Bcmd.MessageLog
import Bcmd.Requests
import Mathlib.Data.Set.Card

/-!
# What the server is for

The server as its clients are to see it: a chat, in which everybody is in one channel at most and nothing that
was said is lost, though only the last `cap` messages of a channel are still shown. `Rooms.plan` says of each
operation what becomes of the chat and which answers may be given, from the chat alone.
-/

namespace Bcmd
open Server BroadcastService

abbrev Rooms := Chat ClientId ChannelId Username ChannelName Message

/-- What becomes of the chat, and the answers that may be given. -/
abbrev Reaction := Chat.Move ClientId ChannelId Username ChannelName Message × Set Response

namespace Reaction

/-- Nothing happens but that the answer is given. -/
def only (response : Response) : Reaction := (.stay, {response})

def deny {α : Type} (wrap : Reply α → Response) (e : Error) : Reaction := only (wrap (.error (errorToStatus e)))

end Reaction

namespace Rooms
variable (uuid : UuidLib) (cap : Nat) (rooms : Rooms)

/-- The channel that bears the name. -/
noncomputable def titled (name : ChannelName) : Option ChannelId :=
  open scoped Classical in if h : ∃ k, rooms.title k = some name then some h.choose else none

noncomputable def named (channelName : Bytes) : Result ChannelId :=
  match ChannelName.create (trim channelName) with
  | none => .error .invalidChannelName
  | some name =>
    match rooms.titled name with
    | none => .error .channelNotFound
    | some k => .ok k

/-- The channel that a field means: an id if it reads as one, and a name otherwise. -/
noncomputable def meant (channelId : Bytes) : Result ChannelId :=
  match parseChannel uuid channelId with
  | none => rooms.named channelId
  | some k =>
    match rooms.title k with
    | none => .error .channelNotFound
    | some _ => .ok k

/-- The messages of a channel that are still shown. -/
def kept (k : ChannelId) : List Message := (rooms.said k).rtake cap

def page (k : ChannelId) (cursor : Option MessageId) (limit : UInt32) : ListMessages.Page :=
  let count := (min limit ListMessages.kServerMaxLimit).toNat
  let page := match cursor with
    | none => (rooms.kept cap k).rtake count
    | some before => Window.before Message.id before count (rooms.kept cap k)
  ⟨page, page.head?.any fun front => Window.before Message.id front.id 1 (rooms.kept cap k) ≠ []⟩

/-- A message as it is shown, under the name that its sender is known by. -/
def event (m : Message) : MessageEvent where
  messageId := m.id
  channelId := m.channelId
  senderId := m.senderId
  senderName :=
    match rooms.knownAs m.senderId with
    | some name => name.value
    | none => []
  content := m.content.value
  sentAtMs := toEpochMs m.sentAt

/-- A list of all channels, in any order, each with the number of those who are in it. -/
def Lists (all : List ChannelSummary) : Prop :=
  (all.map ChannelSummary.id).Nodup ∧ ∀ summary, summary ∈ all ↔
    ∃ name, rooms.title summary.id = some name ∧ summary.name = name.value ∧
      summary.memberCount = toInt32 (Set.ncard {c | rooms.roomOf c = some summary.id})

noncomputable def connect (fresh : Nat) (username : Bytes) : Reaction :=
  match Username.create (trim username) with
  | none => .deny .connected .invalidUsername
  | some name =>
    open scoped Classical in
    if rooms.Taken name then .deny .connected .clientAlreadyExists
    else (.arrive ⟨fresh⟩ name, {.connected (.ok ⟨fresh⟩)})

def disconnect (clientId : Bytes) : Reaction :=
  match parseClient uuid clientId with
  | none => .deny .status .clientNotFound
  | some c =>
    match rooms.guest c with
    | none => .deny .status .clientNotFound
    | some _ => (.depart {c}, {.status (.ok ())})

noncomputable def createChannel (fresh : Nat) (clientId channelName : Bytes) : Reaction :=
  match parseClient uuid clientId with
  | none => .deny .created .clientNotFound
  | some c =>
    match rooms.guest c, ChannelName.create (trim channelName) with
    | none, _ => .deny .created .clientNotFound
    | some _, none => .deny .created .invalidChannelName
    | some _, some name =>
      match rooms.titled name with
      | some _ => .deny .created .channelAlreadyExists
      | none => (.found ⟨fresh⟩ name, {.created (.ok (⟨fresh⟩, trim channelName))})

noncomputable def joinChannel (clientId channelId : Bytes) : Reaction :=
  match parseClient uuid clientId with
  | none => .deny .status .clientNotFound
  | some c =>
    match rooms.guest c, rooms.meant uuid channelId with
    | none, _ => .deny .status .clientNotFound
    | some _, .error e => .deny .status e
    | some _, .ok k => (.place c (some k), {.status (.ok ())})

def leaveChannel (clientId channelId : Bytes) : Reaction :=
  match parseClient uuid clientId, parseChannel uuid channelId with
  | none, _ => .deny .status .clientNotFound
  | some _, none => .deny .status .channelNotFound
  | some c, some k =>
    match rooms.guest c, rooms.title k with
    | none, _ => .deny .status .clientNotFound
    | some _, none => .deny .status .channelNotFound
    | some guest, some _ =>
      if guest.room = some k then (.place c none, {.status (.ok ())}) else .deny .status .notAMember

def sendMessage (fresh : Nat) (systemNow : Int) (clientId channelId content : Bytes) : Reaction :=
  match parseClient uuid clientId, parseChannel uuid channelId with
  | none, _ => .deny .sent .clientNotFound
  | some _, none => .deny .sent .channelNotFound
  | some c, some k =>
    match rooms.guest c, rooms.title k with
    | none, _ => .deny .sent .clientNotFound
    | some _, none => .deny .sent .channelNotFound
    | some guest, some _ =>
      if guest.room = some k then
        match MessageContent.create (trim content) with
        | .error e => .deny .sent e
        | .ok content => (.say k ⟨⟨fresh⟩, c, k, content, systemNow⟩, {.sent (.ok ⟨fresh⟩)})
      else .deny .sent .notAMember

def listMessages (clientId channelId beforeMessageId : Bytes) (limit : UInt32) : Reaction :=
  match parseClient uuid clientId, parseChannel uuid channelId, parseCursor uuid beforeMessageId with
  | none, _, _ => .deny .listed .clientNotFound
  | some _, none, _ => .deny .listed .channelNotFound
  | some _, some _, none => .deny .listed .invalidArgument
  | some c, some k, some cursor =>
    match rooms.title k with
    | none => .deny .listed .channelNotFound
    | some _ =>
      if rooms.roomOf c = some k then
        let page := rooms.page cap k cursor limit
        .only (.listed (.ok (page.messages.map rooms.event, page.hasMore)))
      else .deny .listed .notAMember

def heartbeat (clientId : Bytes) : Reaction :=
  match parseClient uuid clientId with
  | none => .deny .status .clientNotFound
  | some c =>
    match rooms.guest c with
    | none => .deny .status .clientNotFound
    | some _ => (.hear c, {.status (.ok ())})

def subscribeToChannel (clientId channelId : Bytes) : Reaction :=
  match parseClient uuid clientId, parseChannel uuid channelId with
  | none, _ => .deny .status .clientNotFound
  | some _, none => .deny .status .channelNotFound
  | some c, some k =>
    match rooms.title k with
    | none => .deny .status .channelNotFound
    | some _ => if rooms.roomOf c = some k then .only (.status (.ok ())) else .deny .status .notAMember

def subscribeToChannelList (clientId : Bytes) : Reaction :=
  match parseClient uuid clientId with
  | none => .deny .status .clientNotFound
  | some c =>
    match rooms.guest c with
    | none => .deny .status .clientNotFound
    | some _ => .only (.status (.ok ()))

/-- Those who were last heard of before the deadline. -/
def silentSince (deadline : Int) : Set ClientId := {c | ∃ g, rooms.guest c = some g ∧ g.heard < deadline}

/-- What an operation comes to, with the id that is drawn for it and the time of day. -/
noncomputable def plan (fresh : Nat) (systemNow : Int) : Operation → Reaction
  | .connect username => rooms.connect fresh username
  | .disconnect clientId => rooms.disconnect uuid clientId
  | .listChannels => (.stay, {response | ∃ all, response = .channels all ∧ rooms.Lists all})
  | .createChannel clientId channelName => rooms.createChannel uuid fresh clientId channelName
  | .joinChannel clientId channelId => rooms.joinChannel uuid clientId channelId
  | .leaveChannel clientId channelId => rooms.leaveChannel uuid clientId channelId
  | .sendMessage clientId channelId content => rooms.sendMessage uuid fresh systemNow clientId channelId content
  | .listMessages clientId channelId before limit => rooms.listMessages uuid cap clientId channelId before limit
  | .heartbeat clientId => rooms.heartbeat uuid clientId
  | .subscribeToChannel clientId channelId => rooms.subscribeToChannel uuid clientId channelId
  | .endChannelStream _ | .endListStream _ => .only (.status (.ok ()))
  | .subscribeToChannelList clientId => rooms.subscribeToChannelList uuid clientId
  | .expire deadline =>
    (.depart (rooms.silentSince deadline), {.expired (Set.ncard (rooms.silentSince deadline))})

/-- The id has not been used for anything. -/
def Unused (fresh : Nat) : Prop :=
  rooms.knownAs ⟨fresh⟩ = none ∧ rooms.title ⟨fresh⟩ = none ∧ ∀ k, ∀ m ∈ rooms.said k, m.id ≠ ⟨fresh⟩

/-- The chat as a system: time passes, and operations are answered as planned. -/
def system : Labelled Rooms (Operation × Response) where
  silent rooms rooms' := ∃ clock, rooms.clock ≤ clock ∧ rooms' = rooms.pass clock
  step rooms label rooms' := ∃ fresh systemNow, rooms.Unused fresh ∧
    label.2 ∈ (rooms.plan uuid cap fresh systemNow label.1).2 ∧
    rooms' = rooms.after (rooms.plan uuid cap fresh systemNow label.1).1

/-- One channel, and nobody there. -/
noncomputable def start (seeded : Nat) (name : ChannelName) (clock : Int) : Rooms :=
  (Chat.empty clock).after (.found ⟨seeded⟩ name)

variable {uuid cap rooms}

theorem title_of_titled {name : ChannelName} {k : ChannelId} (h : rooms.titled name = some k) :
    rooms.title k = some name := by
  unfold titled at h
  split at h
  · cases h
    exact Exists.choose_spec ‹∃ k, rooms.title k = some name›
  · cases h

theorem titled_eq_none {name : ChannelName} : rooms.titled name = none ↔ ∀ k, rooms.title k ≠ some name := by
  unfold titled
  split
  · rename_i h
    obtain ⟨k, hk⟩ := h
    exact ⟨fun hnone => absurd hnone (by simp), fun hall => absurd hk (hall k)⟩
  · rename_i h
    exact ⟨fun _ k hk => h ⟨k, hk⟩, fun _ => rfl⟩

theorem title_of_meant {channelId : Bytes} {k : ChannelId} (h : rooms.meant uuid channelId = .ok k) :
    rooms.title k ≠ none := by
  unfold meant named at h
  split at h
  · split at h
    · cases h
    · split at h
      · cases h
      · cases h
        rename_i htitled
        simp [title_of_titled htitled]
  · split at h
    · cases h
    · cases h
      rename_i htitle
      simp [htitle]

/-- What is planned makes sense. -/
theorem allowed_plan {fresh : Nat} (hfresh : rooms.Unused fresh) (systemNow : Int) (op : Operation) :
    rooms.Allowed (rooms.plan uuid cap fresh systemNow op).1 := by
  cases op with
  | connect username =>
    simp only [plan, connect]
    split
    · trivial
    split
    · trivial
    · exact ⟨hfresh.1, ‹¬ _›⟩
  | createChannel clientId channelName =>
    simp only [plan, createChannel]
    split
    · trivial
    split
    · trivial
    · trivial
    split
    · trivial
    · rename_i hfree
      exact ⟨hfresh.2.1, titled_eq_none.1 hfree⟩
  | joinChannel clientId channelId =>
    simp only [plan, joinChannel]
    split
    · trivial
    split
    · trivial
    · trivial
    · rename_i k hmeant
      rintro _ ⟨⟩
      exact title_of_meant hmeant
  | leaveChannel clientId channelId =>
    simp only [plan, leaveChannel]
    split
    · trivial
    · trivial
    split
    · trivial
    · trivial
    split
    · exact fun k hk => by cases hk
    · trivial
  | sendMessage clientId channelId content =>
    simp only [plan, sendMessage]
    split
    · trivial
    · trivial
    split
    · trivial
    · trivial
    rename_i htitle
    split
    · split
      · trivial
      · show rooms.title _ ≠ none
        simp [htitle]
    · trivial
  | disconnect clientId =>
    simp only [plan, disconnect]
    split
    · trivial
    split <;> trivial
  | listMessages clientId channelId before limit =>
    simp only [plan, listMessages]
    split
    · trivial
    · trivial
    · trivial
    split
    · trivial
    split <;> trivial
  | heartbeat clientId =>
    simp only [plan, heartbeat]
    split
    · trivial
    split <;> trivial
  | subscribeToChannel clientId channelId =>
    simp only [plan, subscribeToChannel]
    split
    · trivial
    · trivial
    split
    · trivial
    split <;> trivial
  | subscribeToChannelList clientId =>
    simp only [plan, subscribeToChannelList]
    split
    · trivial
    split <;> trivial
  | listChannels | endChannelStream _ | endListStream _ | expire _ => trivial

variable {rooms' : Rooms} {labels : List (Operation × Response)}

theorem sound_start (seeded : Nat) (name : ChannelName) (clock : Int) : (start seeded name clock).Sound := by
  have hempty : (Chat.empty clock : Rooms).Sound := .empty clock
  exact hempty.found (fun l => by simp [Chat.empty]) ⟨seeded⟩

theorem sound_run (h : (system uuid cap).Run rooms labels rooms') (hrooms : rooms.Sound) : rooms'.Sound := by
  refine h.inv ?_ ?_ hrooms
  · rintro _ _ ⟨clock, hclock, rfl⟩ hs
    exact hs.pass hclock
  · rintro _ ⟨op, response⟩ _ ⟨fresh, systemNow, hfresh, -, rfl⟩ hs
    exact hs.after (allowed_plan hfresh systemNow op)

end Rooms

end Bcmd
