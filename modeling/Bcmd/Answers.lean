import Bcmd.RoomsRefined

/-!
# What the answers say of one another

The answers to the reads follow from the answers given before, whatever the server keeps inside: a history is
made of the messages that were accepted, in order and under the names that their senders came with, and the list
of channels is made of those whose creation was confirmed. Both are facts about the chat, and the server gives
the answers of the chat.
-/

namespace Bcmd
open Server BroadcastService

/-- An operation with its answer, which is all that a client sees. -/
abbrev Label := Operation × Response

/-- A message, from the request that sent it and the answer to that. -/
structure Accepted where
  id : MessageId
  channelId : ChannelId
  senderId : ClientId
  content : Bytes

def acceptedIn (uuid : UuidLib) (k : ChannelId) : Label → Option Accepted
  | (.sendMessage clientId channelId content, .sent (.ok id)) =>
    match parseClient uuid clientId, parseChannel uuid channelId with
    | some c, some k' => if k' = k then some ⟨id, k, c, trim content⟩ else none
    | _, _ => none
  | _ => none

/-- The name that the client came with, where the label is that of its coming. -/
def connectedAs (c : ClientId) : Label → Option Bytes
  | (.connect username, .connected (.ok c')) => if c' = c then some (trim username) else none
  | _ => none

/-- A message as it is shown, but for the time. -/
structure Shown where
  message : Accepted
  senderName : Bytes

def Shown.of (e : MessageEvent) : Shown := ⟨⟨e.messageId, e.channelId, e.senderId, e.content⟩, e.senderName⟩

/-- An accepted message, with the name from the labels. -/
def Shown.from (labels : List Label) (a : Accepted) : Shown :=
  ⟨a, (labels.findSome? (connectedAs a.senderId)).getD []⟩

/-- A page of the last `cap` messages, and whether there is more before it. -/
def pageOf (cap : Nat) (cursor : Option MessageId) (limit : UInt32) (accepted : List Accepted) :
    List Accepted × Bool :=
  let count := (min limit ListMessages.kServerMaxLimit).toNat
  let page := match cursor with
    | none => (accepted.rtake cap).rtake count
    | some before => Window.before Accepted.id before count (accepted.rtake cap)
  (page, page.head?.any fun front => ¬ (Window.before Accepted.id front.id 1 (accepted.rtake cap)).isEmpty)

def Accepted.of (m : Message) : Accepted := ⟨m.id, m.channelId, m.senderId, m.content.value⟩

/-- A channel whose creation the label confirms. -/
def createdIn : Label → Option (ChannelId × Bytes)
  | (.createChannel _ _, .created (.ok (k, name))) => some (k, name)
  | _ => none

namespace Rooms
variable {uuid : UuidLib} {cap fresh : Nat} {systemNow : Int} {rooms rooms' : Rooms} {labels : List Label}
  {k : ChannelId} {c : ClientId}

/-! ### What one operation adds -/

/-- Nothing is said, nobody comes and no channel is created. -/
structure AddsNone (uuid : UuidLib) (rooms : Rooms) (label : Label) (rooms' : Rooms) : Prop where
  said : rooms'.said = rooms.said
  knownAs : rooms'.knownAs = rooms.knownAs
  title : rooms'.title = rooms.title
  accepted : ∀ k, acceptedIn uuid k label = none
  connected : ∀ c, connectedAs c label = none
  created : createdIn label = none

/-- What an operation adds, by its answer: nothing, a message, a client or a channel. -/
inductive Adds (uuid : UuidLib) (fresh : Nat) (rooms : Rooms) : Label → Rooms → Prop
  | none {label rooms'} (h : AddsNone uuid rooms label rooms') : Adds uuid fresh rooms label rooms'
  | message {clientId channelId content c k} (m : Message) (hclient : parseClient uuid clientId = some c)
      (hchannel : parseChannel uuid channelId = some k)
      (hm : Accepted.of m = ⟨⟨fresh⟩, k, c, trim content⟩) :
      Adds uuid fresh rooms (.sendMessage clientId channelId content, .sent (.ok ⟨fresh⟩))
        (rooms.after (.say k m))
  | client {username} (name : Username) (hname : name.value = trim username) :
      Adds uuid fresh rooms (.connect username, .connected (.ok ⟨fresh⟩)) (rooms.after (.arrive ⟨fresh⟩ name))
  | channel {clientId channelName} (name : ChannelName) (hname : name.value = trim channelName) :
      Adds uuid fresh rooms (.createChannel clientId channelName, .created (.ok (⟨fresh⟩, trim channelName)))
        (rooms.after (.found ⟨fresh⟩ name))

theorem adds_sendMessage {clientId channelId content : Bytes} {response : Response}
    (hresponse : response ∈ (rooms.sendMessage uuid fresh systemNow clientId channelId content).2) :
    Adds uuid fresh rooms (.sendMessage clientId channelId content, response)
      (rooms.after (rooms.sendMessage uuid fresh systemNow clientId channelId content).1) := by
  have hdeny : ∀ {e}, response ∈ (Reaction.deny .sent e).2 →
      Adds uuid fresh rooms (.sendMessage clientId channelId content, response) rooms := by
    rintro e ⟨⟩
    exact .none ⟨rfl, rfl, rfl, fun _ => rfl, fun _ => rfl, rfl⟩
  unfold sendMessage at hresponse ⊢
  rcases hclient : parseClient uuid clientId with _ | c
  · rw [hclient] at hresponse
    exact hdeny hresponse
  rcases hchannel : parseChannel uuid channelId with _ | k
  · rw [hclient, hchannel] at hresponse
    exact hdeny hresponse
  simp only [hclient, hchannel] at hresponse
  dsimp only
  rcases hguest : rooms.guest c with _ | g
  · rw [hguest] at hresponse
    exact hdeny hresponse
  rcases htitle : rooms.title k with _ | title
  · rw [hguest, htitle] at hresponse
    exact hdeny hresponse
  simp only [hguest, htitle] at hresponse
  dsimp only
  by_cases hroom : g.room = some k
  · simp only [if_pos hroom] at hresponse ⊢
    rcases hcontent : MessageContent.create (trim content) with e | validated
    · rw [hcontent] at hresponse
      exact hdeny hresponse
    · simp only [hcontent] at hresponse
      obtain rfl : response = .sent (.ok ⟨fresh⟩) := hresponse
      have hvalue : validated.value = trim content :=
        (MessageContent.create_ok hcontent).trans (MessageContent.trim_trim content)
      refine .message ⟨⟨fresh⟩, c, k, validated, systemNow⟩ hclient hchannel ?_
      rw [Accepted.of, hvalue]
  · simp only [if_neg hroom] at hresponse ⊢
    exact hdeny hresponse

theorem adds_connect {username : Bytes} {response : Response}
    (hresponse : response ∈ (rooms.connect fresh username).2) :
    Adds uuid fresh rooms (.connect username, response) (rooms.after (rooms.connect fresh username).1) := by
  have hdeny : ∀ {e}, response ∈ (Reaction.deny .connected e).2 →
      Adds uuid fresh rooms (.connect username, response) rooms := by
    rintro e ⟨⟩
    exact .none ⟨rfl, rfl, rfl, fun _ => rfl, fun _ => rfl, rfl⟩
  unfold connect Username.create at hresponse ⊢
  by_cases hvalid : Username.Valid (trim username)
  · simp only [dif_pos hvalid] at hresponse ⊢
    split
    · rw [if_pos ‹_›] at hresponse
      exact hdeny hresponse
    · rw [if_neg ‹_›] at hresponse
      obtain rfl : response = .connected (.ok ⟨fresh⟩) := hresponse
      exact .client _ rfl
  · simp only [dif_neg hvalid] at hresponse ⊢
    exact hdeny hresponse

theorem adds_createChannel {clientId channelName : Bytes} {response : Response}
    (hresponse : response ∈ (rooms.createChannel uuid fresh clientId channelName).2) :
    Adds uuid fresh rooms (.createChannel clientId channelName, response)
      (rooms.after (rooms.createChannel uuid fresh clientId channelName).1) := by
  have hdeny : ∀ {e}, response ∈ (Reaction.deny .created e).2 →
      Adds uuid fresh rooms (.createChannel clientId channelName, response) rooms := by
    rintro e ⟨⟩
    exact .none ⟨rfl, rfl, rfl, fun _ => rfl, fun _ => rfl, rfl⟩
  unfold createChannel ChannelName.create at hresponse ⊢
  rcases hclient : parseClient uuid clientId with _ | c
  · rw [hclient] at hresponse
    exact hdeny hresponse
  simp only [hclient] at hresponse
  dsimp only
  rcases hguest : rooms.guest c with _ | g
  · rw [hguest] at hresponse
    exact hdeny hresponse
  simp only [hguest] at hresponse
  by_cases hvalid : ChannelName.Valid (trim channelName)
  · simp only [dif_pos hvalid] at hresponse ⊢
    rcases htitled : rooms.titled ⟨trim channelName, hvalid⟩ with _ | k
    · rw [htitled] at hresponse
      obtain rfl : response = .created (.ok (⟨fresh⟩, trim channelName)) := hresponse
      exact .channel _ rfl
    · rw [htitled] at hresponse
      exact hdeny hresponse
  · simp only [dif_neg hvalid] at hresponse ⊢
    exact hdeny hresponse

/-- Only the three operations do more than a plain move. -/
theorem plain_plan {op : Operation} (hconnect : ∀ username, op ≠ .connect username)
    (hcreate : ∀ clientId name, op ≠ .createChannel clientId name)
    (hsend : ∀ clientId channelId content, op ≠ .sendMessage clientId channelId content) :
    (rooms.plan uuid cap fresh systemNow op).1.Plain := by
  cases op with
  | connect username => exact absurd rfl (hconnect username)
  | createChannel clientId name => exact absurd rfl (hcreate clientId name)
  | sendMessage clientId channelId content => exact absurd rfl (hsend clientId channelId content)
  | disconnect _ => simp only [plan, disconnect]; (repeat' split) <;> trivial
  | joinChannel _ _ => simp only [plan, joinChannel]; (repeat' split) <;> trivial
  | leaveChannel _ _ => simp only [plan, leaveChannel]; (repeat' split) <;> trivial
  | listMessages _ _ _ _ => simp only [plan, listMessages]; (repeat' split) <;> trivial
  | heartbeat _ => simp only [plan, heartbeat]; (repeat' split) <;> trivial
  | subscribeToChannel _ _ => simp only [plan, subscribeToChannel]; (repeat' split) <;> trivial
  | subscribeToChannelList _ => simp only [plan, subscribeToChannelList]; (repeat' split) <;> trivial
  | listChannels | endChannelStream _ | endListStream _ | expire _ => trivial

theorem adds_plan {op : Operation} {response : Response}
    (hresponse : response ∈ (rooms.plan uuid cap fresh systemNow op).2) : Adds uuid fresh rooms (op, response)
      (rooms.after (rooms.plan uuid cap fresh systemNow op).1) := by
  by_cases hsend : ∃ clientId channelId content, op = .sendMessage clientId channelId content
  · obtain ⟨clientId, channelId, content, rfl⟩ := hsend
    exact adds_sendMessage hresponse
  by_cases hconnect : ∃ username, op = .connect username
  · obtain ⟨username, rfl⟩ := hconnect
    exact adds_connect hresponse
  by_cases hcreate : ∃ clientId name, op = .createChannel clientId name
  · obtain ⟨clientId, name, rfl⟩ := hcreate
    exact adds_createChannel hresponse
  push Not at hsend hconnect hcreate
  have hplain : (rooms.plan uuid cap fresh systemNow op).1.Plain := plain_plan hconnect hcreate hsend
  obtain ⟨hsaid, hknown, htitle⟩ := Chat.after_plain rooms hplain
  refine .none ⟨hsaid, hknown, htitle, fun k => ?_, fun c => ?_, ?_⟩
  · cases op <;> first | rfl | exact absurd rfl (hsend _ _ _)
  · cases op <;> first | rfl | exact absurd rfl (hconnect _)
  · cases op <;> first | rfl | exact absurd rfl (hcreate _ _)

/-! ### What a run has added -/

/-- The chat after a run from the start, read off from the labels. -/
structure Recorded (uuid : UuidLib) (seeded : Nat) (name : ChannelName) (labels : List Label) (rooms : Rooms) :
    Prop where
  said : ∀ k, (rooms.said k).map Accepted.of = labels.filterMap (acceptedIn uuid k)
  knownAs : ∀ c, (rooms.knownAs c).map Username.value = labels.findSome? (connectedAs c)
  title : ∀ k n, (rooms.title k).map ChannelName.value = some n ↔
    (k, n) = (⟨seeded⟩, name.value) ∨ (k, n) ∈ labels.filterMap createdIn

variable {seeded : Nat} {name : ChannelName} {clock : Int} {label : Label}

theorem recorded_start : Recorded uuid seeded name [] (start seeded name clock) where
  said k := rfl
  knownAs c := rfl
  title k n := by
    by_cases hk : k = ⟨seeded⟩
    · subst hk
      simp [start, Chat.after, eq_comm]
    · simp [start, Chat.after, Chat.empty, hk]

theorem Recorded.pass (h : Recorded uuid seeded name labels rooms) (clock : Int) :
    Recorded uuid seeded name labels (rooms.pass clock) := ⟨h.said, h.knownAs, h.title⟩

theorem Recorded.none (h : Recorded uuid seeded name labels rooms) (hnone : AddsNone uuid rooms label rooms') :
    Recorded uuid seeded name (labels ++ [label]) rooms' where
  said k := by rw [hnone.said, h.said, List.filterMap_append]; simp [hnone.accepted]
  knownAs c := by rw [hnone.knownAs, h.knownAs, List.findSome?_append]; simp [hnone.connected]
  title k n := by rw [hnone.title, h.title, List.filterMap_append]; simp [hnone.created]

/-- An operation that creates no channel. -/
theorem Recorded.title_same (h : Recorded uuid seeded name labels rooms) (htitle : rooms'.title = rooms.title)
    (hcreated : createdIn label = Option.none) (k : ChannelId) (n : Bytes) :
    (rooms'.title k).map ChannelName.value = some n ↔
      (k, n) = (⟨seeded⟩, name.value) ∨ (k, n) ∈ (labels ++ [label]).filterMap createdIn := by
  rw [htitle, h.title, List.filterMap_append]
  simp [hcreated]

theorem Recorded.message (h : Recorded uuid seeded name labels rooms) {clientId channelId content : Bytes}
    {m : Message} {id : MessageId} (hclient : parseClient uuid clientId = some c)
    (hchannel : parseChannel uuid channelId = some k) (hm : Accepted.of m = ⟨id, k, c, trim content⟩) :
    Recorded uuid seeded name (labels ++ [(.sendMessage clientId channelId content, .sent (.ok id))])
      (rooms.after (.say k m)) := by
  refine ⟨fun l => ?_, fun d => ?_, h.title_same rfl rfl⟩
  · rw [List.filterMap_append, ← h.said]
    by_cases hl : l = k
    · subst hl
      simp [Chat.after, acceptedIn, hclient, hchannel, hm]
    · simp [Chat.after, Function.update_of_ne hl, acceptedIn, hclient, hchannel, Ne.symm hl]
  · rw [List.findSome?_append, ← h.knownAs]
    simp [Chat.after, connectedAs]

theorem Recorded.client (h : Recorded uuid seeded name labels rooms) {username : Bytes} {n : Username}
    (hnew : rooms.knownAs c = Option.none) (hname : n.value = trim username) :
    Recorded uuid seeded name (labels ++ [(.connect username, .connected (.ok c))])
      (rooms.after (.arrive c n)) := by
  refine ⟨fun l => ?_, fun d => ?_, h.title_same rfl rfl⟩
  · rw [List.filterMap_append, ← h.said]
    simp [Chat.after, acceptedIn]
  · rw [List.findSome?_append, ← h.knownAs]
    by_cases hd : d = c
    · subst hd
      simp [Chat.after, connectedAs, hnew, hname]
    · simp [Chat.after, Function.update_of_ne hd, connectedAs, Ne.symm hd]

theorem Recorded.channel (h : Recorded uuid seeded name labels rooms) {clientId channelName : Bytes}
    {n : ChannelName} (hnew : rooms.title k = Option.none) (hname : n.value = trim channelName) :
    Recorded uuid seeded name
      (labels ++ [(.createChannel clientId channelName, .created (.ok (k, trim channelName)))])
      (rooms.after (.found k n)) := by
  refine ⟨fun l => ?_, fun d => ?_, fun l bytes => ?_⟩
  · rw [List.filterMap_append, ← h.said]
    simp [Chat.after, acceptedIn]
  · rw [List.findSome?_append, ← h.knownAs]
    simp [Chat.after, connectedAs]
  · have hold := h.title l bytes
    rw [List.filterMap_append, List.mem_append]
    have hadded : (l, bytes) ∈ [((.createChannel clientId channelName,
        .created (.ok (k, trim channelName))) : Label)].filterMap createdIn ↔
          l = k ∧ bytes = trim channelName := by
      simp [createdIn]
    rw [hadded]
    by_cases hl : l = k
    · subst hl
      rw [hnew] at hold
      have hnone : ¬ ((l, bytes) = (⟨seeded⟩, name.value) ∨ (l, bytes) ∈ labels.filterMap createdIn) := by
        intro hin
        simpa using hold.2 hin
      simp only [Chat.after, Function.update_self, Option.map_some, Option.some.injEq, hname, true_and]
      tauto
    · simp only [Chat.after, Function.update_of_ne hl]
      tauto

theorem Recorded.adds (h : Recorded uuid seeded name labels rooms) (hfresh : rooms.Unused fresh)
    (hadds : Adds uuid fresh rooms label rooms') : Recorded uuid seeded name (labels ++ [label]) rooms' := by
  cases hadds with
  | none hnone => exact h.none hnone
  | message m hclient hchannel hm => exact h.message hclient hchannel hm
  | client n hname => exact h.client hfresh.1 hname
  | channel n hname => exact h.channel hfresh.2.1 hname

theorem recorded_run (h : (system uuid cap).Run (start seeded name clock) labels rooms) :
    Recorded uuid seeded name labels rooms := by
  induction h with
  | refl => exact recorded_start
  | silent _ hs ih =>
    obtain ⟨clock, -, rfl⟩ := hs
    exact ih.pass clock
  | @step _ _ label _ _ hs ih =>
    obtain ⟨op, response⟩ := label
    obtain ⟨fresh, systemNow, hfresh, hresponse, rfl⟩ := hs
    exact ih.adds hfresh (adds_plan hresponse)

/-! ### Pages -/

theorem map_rtake {α β : Type} (f : α → β) (l : List α) (n : Nat) : (l.rtake n).map f = (l.map f).rtake n := by
  simp [List.rtake]

theorem before_kept (x : MessageId) (n : Nat) : Window.before Accepted.id x n
    (((rooms.said k).map Accepted.of).rtake cap) =
      (Window.before Message.id x n (rooms.kept cap k)).map Accepted.of := by
  rw [← map_rtake, Window.before_map]
  rfl

/-- A page of the chat, message by message. -/
theorem page_accepted (cap : Nat) (rooms : Rooms) (k : ChannelId) (cursor : Option MessageId)
    (limit : UInt32) :
    ((rooms.page cap k cursor limit).messages.map Accepted.of, (rooms.page cap k cursor limit).hasMore) =
      pageOf cap cursor limit ((rooms.said k).map Accepted.of) := by
  have hpage : (rooms.page cap k cursor limit).messages.map Accepted.of =
      (pageOf cap cursor limit ((rooms.said k).map Accepted.of)).1 := by
    rcases cursor with _ | x
    · simp only [page, pageOf, map_rtake, kept]
    · simp only [page, pageOf, before_kept]
  refine Prod.ext hpage ?_
  show ((rooms.page cap k cursor limit).messages.head?.any fun front =>
      Window.before Message.id front.id 1 (rooms.kept cap k) ≠ []) =
    ((pageOf cap cursor limit ((rooms.said k).map Accepted.of)).1.head?.any fun front =>
      ¬ (Window.before Accepted.id front.id 1 (((rooms.said k).map Accepted.of).rtake cap)).isEmpty)
  rw [← hpage, List.head?_map]
  rcases (rooms.page cap k cursor limit).messages.head? with _ | front
  · rfl
  · simp only [Option.map_some, Option.any_some, before_kept, List.isEmpty_iff, List.map_eq_nil_iff]
    rfl

theorem shown_event (h : Recorded uuid seeded name labels rooms) (m : Message) :
    Shown.of (rooms.event m) = Shown.from labels (Accepted.of m) := by
  have hname := h.knownAs m.senderId
  simp only [Shown.of, Shown.from, event, Accepted.of, ← hname]
  rcases rooms.knownAs m.senderId with _ | n <;> rfl

end Rooms

section
variable {uuid : UuidLib} {historyCap : UInt32} {systemNow steadyNow : Int} {host : Host} {labels : List Label}

/-- The chat before the last operation of a run of the server, and the answer as one of the planned ones. -/
theorem chat_before {op : Operation} {response : Response}
    (h : (Host.system uuid).Run (.initial historyCap systemNow steadyNow) (labels ++ [(op, response)]) host) :
    ∃ rooms fresh now, Rooms.Recorded uuid 1 general labels rooms ∧
      response ∈ (Rooms.plan uuid (keptOf historyCap) rooms fresh now op).2 := by
  obtain ⟨rooms', hrun, -⟩ := rooms_refined h
  obtain ⟨rooms, _, hbefore, fresh, now, -, hresponse, -⟩ := hrun.last
  exact ⟨rooms, fresh, now, Rooms.recorded_run hbefore, hresponse⟩

/-- A page of a history, whatever the server keeps inside: it is cut out of the messages that were accepted for
the channel, in the order of their acceptance, each with its sender, its text and the name that the sender came
with, and it says whether more of them are left. -/
theorem listed_from_answers {clientId channelId before : Bytes} {limit : UInt32} {events : List MessageEvent}
    {more : Bool} (h : (Host.system uuid).Run (.initial historyCap systemNow steadyNow)
      (labels ++ [(.listMessages clientId channelId before limit, .listed (.ok (events, more)))]) host) :
    ∃ k cursor, parseChannel uuid channelId = some k ∧ parseCursor uuid before = some cursor ∧
      events.map Shown.of = (pageOf (keptOf historyCap) cursor limit
        (labels.filterMap (acceptedIn uuid k))).1.map (Shown.from labels) ∧
      more = (pageOf (keptOf historyCap) cursor limit (labels.filterMap (acceptedIn uuid k))).2 := by
  obtain ⟨rooms, fresh, now, hrecorded, hresponse⟩ := chat_before h
  simp only [Rooms.plan, Rooms.listMessages] at hresponse
  rcases hclient : parseClient uuid clientId with _ | c
  · rw [hclient] at hresponse
    cases hresponse
  rcases hchannel : parseChannel uuid channelId with _ | k
  · rw [hclient, hchannel] at hresponse
    cases hresponse
  rcases hcursor : parseCursor uuid before with _ | cursor
  · rw [hclient, hchannel, hcursor] at hresponse
    cases hresponse
  simp only [hclient, hchannel, hcursor] at hresponse
  split at hresponse
  · cases hresponse
  split at hresponse
  · cases hresponse
    refine ⟨k, cursor, rfl, rfl, ?_⟩
    have hpage := Rooms.page_accepted (keptOf historyCap) rooms k cursor limit
    rw [hrecorded.said] at hpage
    rw [← hpage, List.map_map, List.map_map]
    exact ⟨List.map_congr_left fun m _ => Rooms.shown_event hrecorded m, rfl⟩
  · cases hresponse

/-- A list of the channels: the seeded one and those whose creation was confirmed, under the names that the
confirmations gave. -/
theorem channels_from_answers {all : List ChannelSummary}
    (h : (Host.system uuid).Run (.initial historyCap systemNow steadyNow)
      (labels ++ [(.listChannels, .channels all)]) host) :
    (all.map ChannelSummary.id).Nodup ∧ ∀ k name, (∃ summary ∈ all, summary.id = k ∧ summary.name = name) ↔
      (k, name) = (⟨1⟩, ascii "general") ∨ (k, name) ∈ labels.filterMap createdIn := by
  obtain ⟨rooms, fresh, now, hrecorded, all', hall, hnodup, hmem⟩ := chat_before h
  cases hall
  refine ⟨hnodup, fun k name => ?_⟩
  have htitle := hrecorded.title k name
  rw [show general.value = ascii "general" from rfl] at htitle
  rw [← htitle, Option.map_eq_some_iff]
  constructor
  · rintro ⟨summary, hin, rfl, rfl⟩
    obtain ⟨title, hk, hname, -⟩ := (hmem summary).1 hin
    exact ⟨title, hk, hname.symm⟩
  · rintro ⟨title, hk, rfl⟩
    exact ⟨⟨k, title.value, toInt32 (Set.ncard {c | rooms.roomOf c = some k})⟩,
      (hmem _).2 ⟨title, hk, rfl, rfl⟩, rfl, rfl⟩

end

/-! A client comes, joins and says something. -/

def firstWords : List Label :=
  [(.connect (ascii "ann"), .connected (.ok ⟨2⟩)),
    (.joinChannel (ascii "00000000-0000-0000-0000-000000000002") (ascii "general"), .status (.ok ())),
    (.sendMessage (ascii "00000000-0000-0000-0000-000000000002")
      (ascii "00000000-0000-0000-0000-000000000001") (ascii " hi "), .sent (.ok ⟨3⟩))]

theorem firstWords_run : ∃ host, (Host.system .canonical).Run (.initial 200 0 0) firstWords host ∧
    host.answer .canonical .byId (.listMessages (ascii "00000000-0000-0000-0000-000000000002")
      (ascii "00000000-0000-0000-0000-000000000001") [] 10) =
        .listed (.ok ([⟨⟨3⟩, ⟨1⟩, ⟨2⟩, ascii "ann", ascii "hi", 0⟩], false)) ∧
    host.answer .canonical .byId .listChannels = .channels [⟨⟨1⟩, ascii "general", 1⟩] := by
  have hconnect : (Host.system .canonical).step (.initial 200 0 0)
      (.connect (ascii "ann"), .connected (.ok ⟨2⟩)) oneConnected := ⟨.byId, by rfl, by rfl⟩
  have hjoin : (Host.system .canonical).step oneConnected
      (.joinChannel (ascii "00000000-0000-0000-0000-000000000002") (ascii "general"), .status (.ok ()))
      oneJoined := ⟨.byId, by rfl, by rfl⟩
  have hsend : (Host.system .canonical).step oneJoined
      (.sendMessage (ascii "00000000-0000-0000-0000-000000000002")
        (ascii "00000000-0000-0000-0000-000000000001") (ascii " hi "), .sent (.ok ⟨3⟩)) _ :=
    ⟨.byId, by rfl, rfl⟩
  exact ⟨_, ((Labelled.Run.refl.step hconnect).step hjoin).step hsend, by rfl, by rfl⟩

theorem listed_from_answers_firstWords :
    [Shown.of ⟨⟨3⟩, ⟨1⟩, ⟨2⟩, ascii "ann", ascii "hi", 0⟩] = (pageOf 200 none 10
      (firstWords.filterMap (acceptedIn .canonical ⟨1⟩))).1.map (Shown.from firstWords) := by
  obtain ⟨host, hrun, hlisted, -⟩ := firstWords_run
  obtain ⟨k, cursor, hk, hcursor, hevents, -⟩ := listed_from_answers (hrun.step ⟨.byId, hlisted.symm, rfl⟩)
  have hk1 : k = ⟨1⟩ := (Option.some.inj hk).symm
  have hnone : cursor = none := (Option.some.inj hcursor).symm
  have hcap : keptOf 200 = 200 := by decide
  rwa [hk1, hnone, hcap] at hevents

theorem channels_from_answers_firstWords :
    ∃ summary ∈ [(⟨⟨1⟩, ascii "general", 1⟩ : ChannelSummary)],
      summary.id = ⟨1⟩ ∧ summary.name = ascii "general" := by
  obtain ⟨host, hrun, -, hlisted⟩ := firstWords_run
  exact ((channels_from_answers (hrun.step ⟨.byId, hlisted.symm, rfl⟩)).2 ⟨1⟩ (ascii "general")).2 (.inl rfl)

end Bcmd
