import Bcmd.Answers

/-!
# What the answers say of the answers to come

A ledger that is kept from the operations and their answers alone: the channels, and of everybody who is
connected the name and the channel. As long as no sweep takes anybody it is right about the server, so it says
of each operation beforehand whether it will succeed.
-/

namespace Bcmd
open Server BroadcastService

def Response.isOk : Response → Bool
  | .connected reply => reply.isOk
  | .status reply => reply.isOk
  | .created reply => reply.isOk
  | .sent reply => reply.isOk
  | .listed reply => reply.isOk
  | .channels _ | .expired _ => true

structure Presence where
  name : Bytes
  room : Option ChannelId

structure Ledger where
  channels : List (ChannelId × Bytes)
  present : ClientId → Option Presence

namespace Ledger
variable (uuid : UuidLib) (ledger : Ledger)

/-- The seeded channel, and nobody there. -/
def start : Ledger := ⟨[(⟨1⟩, general.value)], fun _ => none⟩

def place (c : ClientId) (room : Option ChannelId) : Ledger :=
  { ledger with
    present := Function.update ledger.present c ((ledger.present c).map ({ · with room := room })) }

/-- The channel that a field means: an id if it reads as one, and a name otherwise. -/
def meant (channelId : Bytes) : Option ChannelId :=
  match parseChannel uuid channelId with
  | some k => (ledger.channels.find? fun channel => channel.1 = k).map Prod.fst
  | none => (ledger.channels.find? fun channel => channel.2 = trim channelId).map Prod.fst

def record : Label → Ledger
  | (.connect username, .connected (.ok c)) =>
    { ledger with present := Function.update ledger.present c (some ⟨trim username, none⟩) }
  | (.createChannel _ _, .created (.ok channel)) => { ledger with channels := ledger.channels ++ [channel] }
  | (.disconnect clientId, .status (.ok ())) =>
    (parseClient uuid clientId).elim ledger fun c =>
      { ledger with present := Function.update ledger.present c none }
  | (.joinChannel clientId channelId, .status (.ok ())) =>
    (parseClient uuid clientId).elim ledger fun c => ledger.place c (ledger.meant uuid channelId)
  | (.leaveChannel clientId _, .status (.ok ())) =>
    (parseClient uuid clientId).elim ledger fun c => ledger.place c none
  | _ => ledger

/-- The ledger of a run. -/
def of (labels : List Label) : Ledger := labels.foldl (record uuid) start

/-- The field names somebody who is connected. -/
def Known (clientId : Bytes) : Prop := ∃ c, parseClient uuid clientId = some c ∧ ledger.present c ≠ none

/-- The client is in the channel. -/
def In (clientId channelId : Bytes) : Prop :=
  ∃ c k p, parseClient uuid clientId = some c ∧ parseChannel uuid channelId = some k ∧
    ledger.present c = some p ∧ p.room = some k

/-- When an operation succeeds. -/
def Admits : Operation → Prop
  | .connect username =>
    Username.Valid (trim username) ∧ ∀ c p, ledger.present c = some p → p.name ≠ trim username
  | .createChannel clientId channelName =>
    ledger.Known uuid clientId ∧ ChannelName.Valid (trim channelName) ∧
      ∀ channel ∈ ledger.channels, channel.2 ≠ trim channelName
  | .joinChannel clientId channelId => ledger.Known uuid clientId ∧ ledger.meant uuid channelId ≠ none
  | .leaveChannel clientId channelId | .subscribeToChannel clientId channelId =>
    ledger.In uuid clientId channelId
  | .sendMessage clientId channelId content =>
    ledger.In uuid clientId channelId ∧ ∃ validated, MessageContent.create (trim content) = .ok validated
  | .listMessages clientId channelId before _ =>
    ledger.In uuid clientId channelId ∧ parseCursor uuid before ≠ none
  | .disconnect clientId | .heartbeat clientId | .subscribeToChannelList clientId =>
    ledger.Known uuid clientId
  | .listChannels | .endChannelStream _ | .endListStream _ | .expire _ => True

/-- The ledger is right about the chat. -/
structure Keeps (rooms : Rooms) : Prop where
  present : ∀ c, ledger.present c = (rooms.guest c).map fun g => ⟨g.name.value, g.room⟩
  channels : ∀ k n, (k, n) ∈ ledger.channels ↔ (rooms.title k).map ChannelName.value = some n
  finite : {c | rooms.guest c ≠ none}.Finite

/-- The ledger knew the answer, and is right afterwards. -/
def Answers (op : Operation) (response : Response) (rooms : Rooms) : Prop :=
  (response.isOk = true ↔ ledger.Admits uuid op) ∧ (ledger.record uuid (op, response)).Keeps rooms

variable {uuid ledger}
variable {rooms : Rooms} {op : Operation} {response : Response} {c : ClientId} {k : ChannelId}
  {clientId channelId : Bytes}

namespace Keeps

/-! ### Moves -/

theorem start (clock : Int) : Ledger.start.Keeps (.start 1 general clock) where
  present c := rfl
  channels k n := by
    by_cases hk : k = ⟨1⟩
    · subst hk
      simp [Ledger.start, Rooms.start, Chat.after, eq_comm]
    · simp [Ledger.start, Rooms.start, Chat.after, Chat.empty, hk]
  finite := by
    have hnone : {c | (Rooms.start 1 general clock).guest c ≠ none} = ∅ := by
      simp [Rooms.start, Chat.after, Chat.empty]
    rw [hnone]
    exact Set.finite_empty

theorem pass (h : ledger.Keeps rooms) (clock : Int) : ledger.Keeps (rooms.pass clock) :=
  ⟨h.present, h.channels, h.finite⟩

theorem arrive (h : ledger.Keeps rooms) (c : ClientId) (name : Username) :
    Keeps { ledger with present := Function.update ledger.present c (some ⟨name.value, none⟩) }
      (rooms.after (.arrive c name)) where
  present d := by
    by_cases hd : d = c
    · subst hd
      simp [Chat.after]
    · simp [Chat.after, Function.update_of_ne hd, h.present]
  channels := h.channels
  finite := by
    refine (h.finite.insert c).subset fun d hd => ?_
    by_cases hdc : d = c
    · exact .inl hdc
    · simp only [Chat.after, Set.mem_ofPred_eq, Function.update_of_ne hdc] at hd
      exact .inr hd

theorem depart (h : ledger.Keeps rooms) (c : ClientId) :
    Keeps { ledger with present := Function.update ledger.present c none } (rooms.after (.depart {c})) where
  present d := by
    by_cases hd : d = c
    · subst hd
      simp [Chat.after]
    · simp [Chat.after, h.present, hd]
  channels := h.channels
  finite := by
    refine h.finite.subset fun d hd hnone => hd ?_
    simp [Chat.after, hnone]

/-- Nobody goes where nobody has been silent. -/
theorem depart_none (h : ledger.Keeps rooms) {gone : Set ClientId} (hgone : ∀ c ∈ gone, rooms.guest c ≠ none)
    (hcard : gone.ncard = 0) : ledger.Keeps (rooms.after (.depart gone)) := by
  have hempty : gone = ∅ := (Set.ncard_eq_zero (h.finite.subset hgone)).1 hcard
  subst hempty
  exact ⟨fun d => by simp [Chat.after, h.present], h.channels, by simpa [Chat.after] using h.finite⟩

theorem place (h : ledger.Keeps rooms) (c : ClientId) (room : Option ChannelId) :
    (ledger.place c room).Keeps (rooms.after (.place c room)) where
  present d := by
    by_cases hd : d = c
    · subst hd
      simp only [Ledger.place, Chat.after, Function.update_self, h.present, Option.map_map]
      rfl
    · simp [Ledger.place, Chat.after, Function.update_of_ne hd, h.present]
  channels := h.channels
  finite := by
    refine h.finite.subset fun d hd hnone => hd ?_
    by_cases hdc : d = c
    · subst hdc
      simp [Chat.after, hnone]
    · simp [Chat.after, Function.update_of_ne hdc, hnone]

theorem hear (h : ledger.Keeps rooms) (c : ClientId) : ledger.Keeps (rooms.after (.hear c)) where
  present d := by
    by_cases hd : d = c
    · subst hd
      simp only [Chat.after, Function.update_self, h.present, Option.map_map]
      rfl
    · simp [Chat.after, Function.update_of_ne hd, h.present]
  channels := h.channels
  finite := by
    refine h.finite.subset fun d hd hnone => hd ?_
    by_cases hdc : d = c
    · subst hdc
      simp [Chat.after, hnone]
    · simp [Chat.after, Function.update_of_ne hdc, hnone]

theorem found (h : ledger.Keeps rooms) (hnew : rooms.title k = none) (name : ChannelName) :
    Keeps { ledger with channels := ledger.channels ++ [(k, name.value)] } (rooms.after (.found k name)) where
  present := h.present
  channels l n := by
    rw [List.mem_append, h.channels, List.mem_singleton, Prod.mk.injEq]
    by_cases hl : l = k
    · subst hl
      simp [Chat.after, hnew, eq_comm]
    · simp [Chat.after, hl]
  finite := h.finite

theorem say (h : ledger.Keeps rooms) (k : ChannelId) (m : Message) : ledger.Keeps (rooms.after (.say k m)) :=
  ⟨h.present, h.channels, h.finite⟩

/-! ### What the ledger knows -/

theorem known_iff (h : ledger.Keeps rooms) :
    ledger.Known uuid clientId ↔ ∃ c, parseClient uuid clientId = some c ∧ rooms.guest c ≠ none := by
  simp only [Known, h.present, ne_eq, Option.map_eq_none_iff]

theorem in_iff (h : ledger.Keeps rooms) : ledger.In uuid clientId channelId ↔
    ∃ c k, parseClient uuid clientId = some c ∧ parseChannel uuid channelId = some k ∧
      rooms.roomOf c = some k := by
  constructor
  · rintro ⟨c, k, p, hc, hk, hp, hroom⟩
    rw [h.present, Option.map_eq_some_iff] at hp
    obtain ⟨g, hg, rfl⟩ := hp
    exact ⟨c, k, hc, hk, Chat.roomOf_eq_some.2 ⟨g, hg, hroom⟩⟩
  · rintro ⟨c, k, hc, hk, hroom⟩
    obtain ⟨g, hg, hin⟩ := Chat.roomOf_eq_some.1 hroom
    exact ⟨c, k, _, hc, hk, by rw [h.present, hg, Option.map_some], hin⟩

theorem titled (h : ledger.Keeps rooms) {n : Bytes} (hmem : (k, n) ∈ ledger.channels) :
    ∃ name, rooms.title k = some name ∧ name.value = n :=
  Option.map_eq_some_iff.1 ((h.channels k n).1 hmem)

theorem mem_of_title (h : ledger.Keeps rooms) {name : ChannelName} (htitle : rooms.title k = some name) :
    (k, name.value) ∈ ledger.channels := (h.channels k _).2 (by rw [htitle, Option.map_some])

theorem find_eq {channels : List (ChannelId × Bytes)} {p : ChannelId × Bytes → Bool}
    {channel : ChannelId × Bytes} (hmem : channel ∈ channels) (hp : p channel = true)
    (hunique : ∀ other ∈ channels, p other = true → other.1 = channel.1) :
    (channels.find? p).map Prod.fst = some channel.1 := by
  rcases hfind : channels.find? p with _ | other
  · exact absurd hp (List.find?_eq_none.1 hfind channel hmem)
  · rw [Option.map_some, hunique other (List.mem_of_find?_eq_some hfind) (List.find?_some hfind)]

theorem meant_ok (h : ledger.Keeps rooms) (hsound : rooms.Sound)
    (hmeant : rooms.meant uuid channelId = .ok k) : ledger.meant uuid channelId = some k := by
  unfold Rooms.meant at hmeant
  unfold Ledger.meant
  rcases hparse : parseChannel uuid channelId with _ | l
  · -- a name
    simp only [hparse, Rooms.named, ChannelName.create] at hmeant
    split at hmeant
    · cases hmeant
    rename_i name hname
    split at hname
    · cases hname
      rcases htitled : rooms.titled ⟨trim channelId, _⟩ with _ | l
      · rw [htitled] at hmeant
        cases hmeant
      rw [htitled] at hmeant
      cases hmeant
      have htitle := Rooms.title_of_titled htitled
      refine find_eq (h.mem_of_title htitle) (by simp) fun other hother hn => ?_
      obtain ⟨name, hl, hvalue⟩ := h.titled (k := other.1) (n := other.2) hother
      have hsame : name = ⟨trim channelId, ‹_›⟩ := by
        cases name
        simp only [decide_eq_true_eq] at hn
        simp only at hvalue
        simp only [hvalue, hn]
      exact hsound.titles (hsame ▸ hl) htitle
    · cases hname
  · -- an id
    simp only [hparse] at hmeant
    rcases htitle : rooms.title l with _ | name
    · rw [htitle] at hmeant
      cases hmeant
    · rw [htitle] at hmeant
      cases hmeant
      exact find_eq (h.mem_of_title htitle) (by simp) fun other _ hl => by simpa using hl

theorem meant_error (h : ledger.Keeps rooms) {e : Error} (hmeant : rooms.meant uuid channelId = .error e) :
    ledger.meant uuid channelId = none := by
  unfold Rooms.meant at hmeant
  unfold Ledger.meant
  rcases hparse : parseChannel uuid channelId with _ | l
  · simp only [hparse, Rooms.named, ChannelName.create] at hmeant
    rw [Option.map_eq_none_iff, List.find?_eq_none]
    rintro ⟨l, n⟩ hmem hn
    obtain ⟨name, htitle, rfl⟩ := h.titled hmem
    simp only [decide_eq_true_eq] at hn
    have hvalid : ChannelName.Valid (trim channelId) := hn ▸ name.valid
    have hsame : name = ⟨trim channelId, hvalid⟩ := by
      cases name
      simp only at hn
      simp only [hn]
    rw [dif_pos hvalid] at hmeant
    rcases htitled : rooms.titled ⟨trim channelId, hvalid⟩ with _ | l'
    · exact Rooms.titled_eq_none.1 htitled l (hsame ▸ htitle)
    · simp only [htitled] at hmeant
      cases hmeant
  · simp only [hparse] at hmeant
    rw [Option.map_eq_none_iff, List.find?_eq_none]
    rintro ⟨l', n⟩ hmem hl
    simp only [decide_eq_true_eq] at hl
    obtain ⟨name, htitle, -⟩ := h.titled hmem
    rw [hl] at htitle
    simp only [htitle] at hmeant
    cases hmeant

end Keeps

/-! ### Operations -/

section
variable {fresh cap : Nat} {systemNow : Int}

/-- The ledger knew of the refusal. -/
theorem Keeps.denied (h : ledger.Keeps rooms) {α : Type} {wrap : Reply α → Response} {e : Error}
    (hresponse : response ∈ (Reaction.deny wrap e).2)
    (hwrap : (wrap (.error (errorToStatus e))).isOk = false)
    (hrecord : ledger.record uuid (op, wrap (.error (errorToStatus e))) = ledger)
    (hnot : ¬ ledger.Admits uuid op) : ledger.Answers uuid op response rooms := by
  obtain rfl : response = wrap (.error (errorToStatus e)) := hresponse
  refine ⟨⟨fun hok => ?_, fun hadmits => absurd hadmits hnot⟩, by rwa [hrecord]⟩
  rw [hwrap] at hok
  cases hok

theorem not_known_of_parse (hclient : parseClient uuid clientId = none) : ¬ ledger.Known uuid clientId := by
  rintro ⟨c, hc, -⟩
  cases hclient.symm.trans hc

theorem Keeps.not_known (h : ledger.Keeps rooms) (hclient : parseClient uuid clientId = some c)
    (hguest : rooms.guest c = none) : ¬ ledger.Known uuid clientId := by
  rw [h.known_iff]
  rintro ⟨d, hd, hpresent⟩
  cases hclient.symm.trans hd
  exact hpresent hguest

theorem Keeps.not_in (h : ledger.Keeps rooms) (hclient : parseClient uuid clientId = some c)
    (hchannel : parseChannel uuid channelId = some k) (hroom : rooms.roomOf c ≠ some k) :
    ¬ ledger.In uuid clientId channelId := by
  rw [h.in_iff]
  rintro ⟨d, l, hd, hl, hin⟩
  cases hclient.symm.trans hd
  cases hchannel.symm.trans hl
  exact hroom hin

theorem not_in_of_client (hclient : parseClient uuid clientId = none) :
    ¬ ledger.In uuid clientId channelId := by
  rintro ⟨c, _, _, hc, -⟩
  cases hclient.symm.trans hc

theorem not_in_of_channel (hchannel : parseChannel uuid channelId = none) :
    ¬ ledger.In uuid clientId channelId := by
  rintro ⟨_, k, _, -, hk, -⟩
  cases hchannel.symm.trans hk

theorem answers_connect (h : ledger.Keeps rooms) {username : Bytes}
    (hresponse : response ∈ (rooms.connect fresh username).2) :
    ledger.Answers uuid (.connect username) response (rooms.after (rooms.connect fresh username).1) := by
  unfold Rooms.connect Username.create at hresponse ⊢
  by_cases hvalid : Username.Valid (trim username)
  · simp only [dif_pos hvalid] at hresponse ⊢
    by_cases htaken : rooms.Taken ⟨trim username, hvalid⟩
    · rw [if_pos htaken] at hresponse ⊢
      obtain ⟨c, g, hg, hname⟩ := htaken
      refine h.denied hresponse rfl rfl fun hadmits => hadmits.2 c ⟨g.name.value, g.room⟩ ?_ ?_
      · rw [h.present, hg, Option.map_some]
      · rw [hname]
    · rw [if_neg htaken] at hresponse ⊢
      obtain rfl : response = .connected (.ok ⟨fresh⟩) := hresponse
      refine ⟨iff_of_true rfl ⟨hvalid, fun c p hp hname => htaken ?_⟩, h.arrive ⟨fresh⟩ ⟨_, hvalid⟩⟩
      rw [h.present, Option.map_eq_some_iff] at hp
      obtain ⟨g, hg, rfl⟩ := hp
      exact ⟨c, g, hg, username_injective hname⟩
  · simp only [dif_neg hvalid] at hresponse ⊢
    exact h.denied hresponse rfl rfl fun hadmits => hvalid hadmits.1

theorem answers_disconnect (h : ledger.Keeps rooms)
    (hresponse : response ∈ (rooms.disconnect uuid clientId).2) :
    ledger.Answers uuid (.disconnect clientId) response (rooms.after (rooms.disconnect uuid clientId).1) := by
  unfold Rooms.disconnect at hresponse ⊢
  rcases hclient : parseClient uuid clientId with _ | c
  · rw [hclient] at hresponse
    exact h.denied hresponse rfl rfl (not_known_of_parse hclient)
  simp only [hclient] at hresponse
  dsimp only
  rcases hguest : rooms.guest c with _ | g
  · rw [hguest] at hresponse
    exact h.denied hresponse rfl rfl (h.not_known hclient hguest)
  rw [hguest] at hresponse
  obtain rfl : response = .status (.ok ()) := hresponse
  refine ⟨iff_of_true rfl (h.known_iff.2 ⟨c, hclient, by simp [hguest]⟩), ?_⟩
  simp only [record, hclient, Option.elim_some]
  exact h.depart c

theorem answers_createChannel (h : ledger.Keeps rooms) (hfresh : rooms.title ⟨fresh⟩ = none)
    {channelName : Bytes} (hresponse : response ∈ (rooms.createChannel uuid fresh clientId channelName).2) :
    ledger.Answers uuid (.createChannel clientId channelName) response
      (rooms.after (rooms.createChannel uuid fresh clientId channelName).1) := by
  unfold Rooms.createChannel ChannelName.create at hresponse ⊢
  rcases hclient : parseClient uuid clientId with _ | c
  · rw [hclient] at hresponse
    exact h.denied hresponse rfl rfl fun hadmits => not_known_of_parse hclient hadmits.1
  simp only [hclient] at hresponse
  dsimp only
  rcases hguest : rooms.guest c with _ | g
  · rw [hguest] at hresponse
    exact h.denied hresponse rfl rfl fun hadmits => h.not_known hclient hguest hadmits.1
  simp only [hguest] at hresponse
  by_cases hvalid : ChannelName.Valid (trim channelName)
  · simp only [dif_pos hvalid] at hresponse ⊢
    rcases htitled : rooms.titled ⟨trim channelName, hvalid⟩ with _ | l
    · rw [htitled] at hresponse
      obtain rfl : response = .created (.ok (⟨fresh⟩, trim channelName)) := hresponse
      have hknown : ledger.Known uuid clientId := h.known_iff.2 ⟨c, hclient, by simp [hguest]⟩
      refine ⟨iff_of_true rfl ⟨hknown, hvalid, ?_⟩, h.found hfresh ⟨_, hvalid⟩⟩
      rintro ⟨l, n⟩ hmem rfl
      obtain ⟨name, htitle, hname⟩ := h.titled hmem
      have hsame : name = ⟨trim channelName, hvalid⟩ := by
        cases name
        simp only at hname
        simp only [hname]
      exact Rooms.titled_eq_none.1 htitled l (hsame ▸ htitle)
    · rw [htitled] at hresponse
      refine h.denied hresponse rfl rfl fun hadmits => ?_
      exact hadmits.2.2 _ (h.mem_of_title (Rooms.title_of_titled htitled)) rfl
  · simp only [dif_neg hvalid] at hresponse ⊢
    exact h.denied hresponse rfl rfl fun hadmits => hvalid hadmits.2.1

theorem answers_joinChannel (h : ledger.Keeps rooms) (hsound : rooms.Sound)
    (hresponse : response ∈ (rooms.joinChannel uuid clientId channelId).2) :
    ledger.Answers uuid (.joinChannel clientId channelId) response
      (rooms.after (rooms.joinChannel uuid clientId channelId).1) := by
  unfold Rooms.joinChannel at hresponse ⊢
  rcases hclient : parseClient uuid clientId with _ | c
  · rw [hclient] at hresponse
    exact h.denied hresponse rfl rfl fun hadmits => not_known_of_parse hclient hadmits.1
  simp only [hclient] at hresponse
  dsimp only
  rcases hguest : rooms.guest c with _ | g
  · rw [hguest] at hresponse
    exact h.denied hresponse rfl rfl fun hadmits => h.not_known hclient hguest hadmits.1
  rcases hmeant : rooms.meant uuid channelId with e | k
  · rw [hguest, hmeant] at hresponse
    exact h.denied hresponse rfl rfl fun hadmits => hadmits.2 (h.meant_error hmeant)
  simp only [hguest, hmeant] at hresponse
  obtain rfl : response = .status (.ok ()) := hresponse
  have hknown : ledger.Known uuid clientId := h.known_iff.2 ⟨c, hclient, by simp [hguest]⟩
  have hk := h.meant_ok hsound hmeant
  refine ⟨iff_of_true rfl ⟨hknown, by simp [hk]⟩, ?_⟩
  simp only [record, hclient, hk, Option.elim_some]
  exact h.place c (some k)

theorem answers_leaveChannel (h : ledger.Keeps rooms) (hsound : rooms.Sound)
    (hresponse : response ∈ (rooms.leaveChannel uuid clientId channelId).2) :
    ledger.Answers uuid (.leaveChannel clientId channelId) response
      (rooms.after (rooms.leaveChannel uuid clientId channelId).1) := by
  unfold Rooms.leaveChannel at hresponse ⊢
  rcases hclient : parseClient uuid clientId with _ | c
  · rw [hclient] at hresponse
    exact h.denied hresponse rfl rfl (not_in_of_client hclient)
  rcases hchannel : parseChannel uuid channelId with _ | k
  · rw [hclient, hchannel] at hresponse
    exact h.denied hresponse rfl rfl (not_in_of_channel hchannel)
  simp only [hclient, hchannel] at hresponse
  dsimp only
  rcases hguest : rooms.guest c with _ | g
  · rw [hguest] at hresponse
    exact h.denied hresponse rfl rfl (h.not_in hclient hchannel (by simp [Chat.roomOf, hguest]))
  rcases htitle : rooms.title k with _ | title
  · rw [hguest, htitle] at hresponse
    exact h.denied hresponse rfl rfl (h.not_in hclient hchannel fun hroom => hsound.rooms hroom htitle)
  simp only [hguest, htitle] at hresponse
  dsimp only
  by_cases hroom : g.room = some k
  · simp only [if_pos hroom] at hresponse ⊢
    obtain rfl : response = .status (.ok ()) := hresponse
    refine ⟨iff_of_true rfl (h.in_iff.2 ⟨c, k, hclient, hchannel, ?_⟩), ?_⟩
    · rw [Chat.roomOf_of_guest hguest, hroom]
    · simp only [record, hclient, Option.elim_some]
      exact h.place c none
  · simp only [if_neg hroom] at hresponse ⊢
    exact h.denied hresponse rfl rfl
      (h.not_in hclient hchannel (by rwa [Chat.roomOf_of_guest hguest]))

theorem answers_sendMessage (h : ledger.Keeps rooms) (hsound : rooms.Sound) {content : Bytes}
    (hresponse : response ∈ (rooms.sendMessage uuid fresh systemNow clientId channelId content).2) :
    ledger.Answers uuid (.sendMessage clientId channelId content) response
      (rooms.after (rooms.sendMessage uuid fresh systemNow clientId channelId content).1) := by
  unfold Rooms.sendMessage at hresponse ⊢
  rcases hclient : parseClient uuid clientId with _ | c
  · rw [hclient] at hresponse
    exact h.denied hresponse rfl rfl fun hadmits => not_in_of_client hclient hadmits.1
  rcases hchannel : parseChannel uuid channelId with _ | k
  · rw [hclient, hchannel] at hresponse
    exact h.denied hresponse rfl rfl fun hadmits => not_in_of_channel hchannel hadmits.1
  simp only [hclient, hchannel] at hresponse
  dsimp only
  rcases hguest : rooms.guest c with _ | g
  · rw [hguest] at hresponse
    exact h.denied hresponse rfl rfl fun hadmits =>
      h.not_in hclient hchannel (by simp [Chat.roomOf, hguest]) hadmits.1
  rcases htitle : rooms.title k with _ | title
  · rw [hguest, htitle] at hresponse
    exact h.denied hresponse rfl rfl fun hadmits =>
      h.not_in hclient hchannel (fun hroom => hsound.rooms hroom htitle) hadmits.1
  simp only [hguest, htitle] at hresponse
  dsimp only
  by_cases hroom : g.room = some k
  · simp only [if_pos hroom] at hresponse ⊢
    rcases hcontent : MessageContent.create (trim content) with e | validated
    · rw [hcontent] at hresponse
      refine h.denied hresponse rfl rfl ?_
      rintro ⟨-, validated, hok⟩
      cases hcontent.symm.trans hok
    · simp only [hcontent] at hresponse
      obtain rfl : response = .sent (.ok ⟨fresh⟩) := hresponse
      have hin : ledger.In uuid clientId channelId :=
        h.in_iff.2 ⟨c, k, hclient, hchannel, by rw [Chat.roomOf_of_guest hguest, hroom]⟩
      exact ⟨iff_of_true rfl ⟨hin, validated, hcontent⟩, h.say k _⟩
  · simp only [if_neg hroom] at hresponse ⊢
    exact h.denied hresponse rfl rfl fun hadmits =>
      h.not_in hclient hchannel (by rwa [Chat.roomOf_of_guest hguest]) hadmits.1

theorem answers_listMessages (h : ledger.Keeps rooms) (hsound : rooms.Sound) {before : Bytes} {limit : UInt32}
    (hresponse : response ∈ (rooms.listMessages uuid cap clientId channelId before limit).2) :
    ledger.Answers uuid (.listMessages clientId channelId before limit) response
      (rooms.after (rooms.listMessages uuid cap clientId channelId before limit).1) := by
  unfold Rooms.listMessages at hresponse ⊢
  rcases hclient : parseClient uuid clientId with _ | c
  · rw [hclient] at hresponse
    exact h.denied hresponse rfl rfl fun hadmits => not_in_of_client hclient hadmits.1
  rcases hchannel : parseChannel uuid channelId with _ | k
  · rw [hclient, hchannel] at hresponse
    exact h.denied hresponse rfl rfl fun hadmits => not_in_of_channel hchannel hadmits.1
  rcases hcursor : parseCursor uuid before with _ | cursor
  · rw [hclient, hchannel, hcursor] at hresponse
    exact h.denied hresponse rfl rfl fun hadmits => hadmits.2 hcursor
  simp only [hclient, hchannel, hcursor] at hresponse
  dsimp only
  rcases htitle : rooms.title k with _ | title
  · rw [htitle] at hresponse
    exact h.denied hresponse rfl rfl fun hadmits =>
      h.not_in hclient hchannel (fun hroom => hsound.rooms hroom htitle) hadmits.1
  simp only [htitle] at hresponse
  dsimp only
  by_cases hroom : rooms.roomOf c = some k
  · simp only [if_pos hroom] at hresponse ⊢
    obtain rfl : response = .listed (.ok _) := hresponse
    have hin : ledger.In uuid clientId channelId := h.in_iff.2 ⟨c, k, hclient, hchannel, hroom⟩
    exact ⟨iff_of_true rfl ⟨hin, by simp [hcursor]⟩, h⟩
  · simp only [if_neg hroom] at hresponse ⊢
    exact h.denied hresponse rfl rfl fun hadmits => h.not_in hclient hchannel hroom hadmits.1

theorem answers_heartbeat (h : ledger.Keeps rooms)
    (hresponse : response ∈ (rooms.heartbeat uuid clientId).2) :
    ledger.Answers uuid (.heartbeat clientId) response (rooms.after (rooms.heartbeat uuid clientId).1) := by
  unfold Rooms.heartbeat at hresponse ⊢
  rcases hclient : parseClient uuid clientId with _ | c
  · rw [hclient] at hresponse
    exact h.denied hresponse rfl rfl (not_known_of_parse hclient)
  simp only [hclient] at hresponse
  dsimp only
  rcases hguest : rooms.guest c with _ | g
  · rw [hguest] at hresponse
    exact h.denied hresponse rfl rfl (h.not_known hclient hguest)
  · rw [hguest] at hresponse
    obtain rfl : response = .status (.ok ()) := hresponse
    exact ⟨iff_of_true rfl (h.known_iff.2 ⟨c, hclient, by simp [hguest]⟩), h.hear c⟩

theorem answers_subscribeToChannel (h : ledger.Keeps rooms) (hsound : rooms.Sound)
    (hresponse : response ∈ (rooms.subscribeToChannel uuid clientId channelId).2) :
    ledger.Answers uuid (.subscribeToChannel clientId channelId) response
      (rooms.after (rooms.subscribeToChannel uuid clientId channelId).1) := by
  unfold Rooms.subscribeToChannel at hresponse ⊢
  rcases hclient : parseClient uuid clientId with _ | c
  · rw [hclient] at hresponse
    exact h.denied hresponse rfl rfl (not_in_of_client hclient)
  rcases hchannel : parseChannel uuid channelId with _ | k
  · rw [hclient, hchannel] at hresponse
    exact h.denied hresponse rfl rfl (not_in_of_channel hchannel)
  simp only [hclient, hchannel] at hresponse
  dsimp only
  rcases htitle : rooms.title k with _ | title
  · rw [htitle] at hresponse
    exact h.denied hresponse rfl rfl (h.not_in hclient hchannel fun hroom => hsound.rooms hroom htitle)
  simp only [htitle] at hresponse
  dsimp only
  by_cases hroom : rooms.roomOf c = some k
  · simp only [if_pos hroom] at hresponse ⊢
    obtain rfl : response = .status (.ok ()) := hresponse
    exact ⟨iff_of_true rfl (h.in_iff.2 ⟨c, k, hclient, hchannel, hroom⟩), h⟩
  · simp only [if_neg hroom] at hresponse ⊢
    exact h.denied hresponse rfl rfl (h.not_in hclient hchannel hroom)

theorem answers_subscribeToChannelList (h : ledger.Keeps rooms)
    (hresponse : response ∈ (rooms.subscribeToChannelList uuid clientId).2) :
    ledger.Answers uuid (.subscribeToChannelList clientId) response
      (rooms.after (rooms.subscribeToChannelList uuid clientId).1) := by
  unfold Rooms.subscribeToChannelList at hresponse ⊢
  rcases hclient : parseClient uuid clientId with _ | c
  · rw [hclient] at hresponse
    exact h.denied hresponse rfl rfl (not_known_of_parse hclient)
  simp only [hclient] at hresponse
  dsimp only
  rcases hguest : rooms.guest c with _ | g
  · rw [hguest] at hresponse
    exact h.denied hresponse rfl rfl (h.not_known hclient hguest)
  · rw [hguest] at hresponse
    obtain rfl : response = .status (.ok ()) := hresponse
    exact ⟨iff_of_true rfl (h.known_iff.2 ⟨c, hclient, by simp [hguest]⟩), h⟩

/-- No sweep has removed anybody. -/
def Spares (response : Response) : Prop := ∀ count, response = .expired count → count = 0

theorem answers_plan (h : ledger.Keeps rooms) (hsound : rooms.Sound) (hfresh : rooms.Unused fresh)
    (hresponse : response ∈ (rooms.plan uuid cap fresh systemNow op).2) :
    (response.isOk = true ↔ ledger.Admits uuid op) ∧ (Spares response →
      (ledger.record uuid (op, response)).Keeps (rooms.after (rooms.plan uuid cap fresh systemNow op).1)) := by
  have hknew : ∀ {rooms'}, ledger.Answers uuid op response rooms' →
      (response.isOk = true ↔ ledger.Admits uuid op) ∧
        (Spares response → (ledger.record uuid (op, response)).Keeps rooms') :=
    fun hall => ⟨hall.1, fun _ => hall.2⟩
  cases op with
  | connect username => exact hknew (answers_connect h hresponse)
  | disconnect clientId => exact hknew (answers_disconnect h hresponse)
  | listChannels =>
    obtain ⟨all, rfl, -⟩ := hresponse
    exact hknew ⟨iff_of_true rfl trivial, h⟩
  | createChannel clientId channelName => exact hknew (answers_createChannel h hfresh.2.1 hresponse)
  | joinChannel clientId channelId => exact hknew (answers_joinChannel h hsound hresponse)
  | leaveChannel clientId channelId => exact hknew (answers_leaveChannel h hsound hresponse)
  | sendMessage clientId channelId content => exact hknew (answers_sendMessage h hsound hresponse)
  | listMessages clientId channelId before limit => exact hknew (answers_listMessages h hsound hresponse)
  | heartbeat clientId => exact hknew (answers_heartbeat h hresponse)
  | subscribeToChannel clientId channelId => exact hknew (answers_subscribeToChannel h hsound hresponse)
  | subscribeToChannelList clientId => exact hknew (answers_subscribeToChannelList h hresponse)
  | endChannelStream stream | endListStream stream =>
    obtain rfl : response = .status (.ok ()) := hresponse
    exact hknew ⟨iff_of_true rfl trivial, h⟩
  | expire deadline =>
    obtain rfl : response = .expired (Set.ncard (rooms.silentSince deadline)) := hresponse
    refine ⟨iff_of_true rfl trivial, fun hspares => h.depart_none ?_ (hspares _ rfl)⟩
    rintro c ⟨g, hg, -⟩
    simp [hg]

/-! ### Runs -/

variable {labels : List Label} {clock : Int}

theorem keeps_run (h : (Rooms.system uuid cap).Run (.start 1 general clock) labels rooms)
    (hspares : ∀ label ∈ labels, Spares label.2) : (Ledger.of uuid labels).Keeps rooms := by
  induction h with
  | refl => exact .start clock
  | silent _ hs ih =>
    obtain ⟨now, -, rfl⟩ := hs
    exact (ih hspares).pass now
  | @step labels rooms label _ hrun hs ih =>
    obtain ⟨op, response⟩ := label
    obtain ⟨fresh, now, hfresh, hresponse, rfl⟩ := hs
    have hkeeps := ih fun label hlabel => hspares label (List.mem_append_left _ hlabel)
    have hsound := Rooms.sound_run hrun (Rooms.sound_start 1 general clock)
    have hlast : Spares response := hspares (op, response) (List.mem_append_right _ (List.mem_singleton_self _))
    rw [Ledger.of, List.foldl_append]
    exact (answers_plan hkeeps hsound hfresh hresponse).2 hlast

end

end Ledger

section
variable {uuid : UuidLib} {historyCap : UInt32} {systemNow steadyNow : Int} {host : Host} {labels : List Label}

/-- The ledger of a run of the server, before the last operation. -/
theorem ledger_before {op : Operation} {response : Response}
    (h : (Host.system uuid).Run (.initial historyCap systemNow steadyNow) (labels ++ [(op, response)]) host)
    (hspares : ∀ label ∈ labels, Ledger.Spares label.2) :
    ∃ rooms fresh now, (Ledger.of uuid labels).Keeps rooms ∧ rooms.Sound ∧ rooms.Unused fresh ∧
      response ∈ (Rooms.plan uuid (keptOf historyCap) rooms fresh now op).2 := by
  obtain ⟨rooms', hrun, -⟩ := rooms_refined h
  obtain ⟨rooms, _, hbefore, fresh, now, hfresh, hresponse, -⟩ := hrun.last
  exact ⟨rooms, fresh, now, Ledger.keeps_run hbefore hspares,
    Rooms.sound_run hbefore (Rooms.sound_start 1 general steadyNow), hfresh, hresponse⟩

/-- An operation succeeds when the answers before it say so: who is connected and in which channel, and which
channels there are, follows from the answers. -/
theorem admitted_iff {op : Operation} {response : Response}
    (h : (Host.system uuid).Run (.initial historyCap systemNow steadyNow) (labels ++ [(op, response)]) host)
    (hspares : ∀ label ∈ labels, Ledger.Spares label.2) :
    response.isOk = true ↔ (Ledger.of uuid labels).Admits uuid op := by
  obtain ⟨rooms, fresh, now, hkeeps, hsound, hfresh, hresponse⟩ := ledger_before h hspares
  exact (Ledger.answers_plan hkeeps hsound hfresh hresponse).1

/-- The list of channels counts those whom the answers leave in each channel. -/
theorem counts_from_answers {all : List ChannelSummary}
    (h : (Host.system uuid).Run (.initial historyCap systemNow steadyNow)
      (labels ++ [(.listChannels, .channels all)]) host)
    (hspares : ∀ label ∈ labels, Ledger.Spares label.2) (summary : ChannelSummary) :
    summary ∈ all ↔ (summary.id, summary.name) ∈ (Ledger.of uuid labels).channels ∧
      summary.memberCount = toInt32 (Set.ncard
        {c | ∃ p, (Ledger.of uuid labels).present c = some p ∧ p.room = some summary.id}) := by
  obtain ⟨rooms, fresh, now, hkeeps, -, -, all', hall, -, hmem⟩ := ledger_before h hspares
  cases hall
  have hroom : {c | ∃ p, (Ledger.of uuid labels).present c = some p ∧ p.room = some summary.id} =
      {c | rooms.roomOf c = some summary.id} := by
    ext c
    simp only [Set.mem_ofPred_eq, hkeeps.present, Option.map_eq_some_iff, Chat.roomOf_eq_some]
    constructor
    · rintro ⟨p, ⟨g, hg, rfl⟩, hin⟩
      exact ⟨g, hg, hin⟩
    · rintro ⟨g, hg, hin⟩
      exact ⟨_, ⟨g, hg, rfl⟩, hin⟩
  rw [hmem, hroom, hkeeps.channels, Option.map_eq_some_iff]
  constructor
  · rintro ⟨name, htitle, hname, hcount⟩
    exact ⟨⟨name, htitle, hname.symm⟩, hcount⟩
  · rintro ⟨⟨name, htitle, hname⟩, hcount⟩
    exact ⟨name, htitle, hname.symm, hcount⟩

end

/-! After the client has come, joined and said something. -/

theorem spares_firstWords : ∀ label ∈ firstWords, Ledger.Spares label.2 := by
  intro label hlabel count hcount
  simp only [firstWords, List.mem_cons, List.not_mem_nil, or_false] at hlabel
  rcases hlabel with rfl | rfl | rfl <;> cases hcount

/-- The history may be read. -/
theorem admitted_iff_firstWords : (Ledger.of .canonical firstWords).Admits .canonical
    (.listMessages (ascii "00000000-0000-0000-0000-000000000002")
      (ascii "00000000-0000-0000-0000-000000000001") [] 10) := by
  obtain ⟨host, hrun, hlisted, -⟩ := firstWords_run
  exact (admitted_iff (hrun.step ⟨.byId, hlisted.symm, rfl⟩) spares_firstWords).1 rfl

theorem counts_from_answers_firstWords : (1 : Int32) = toInt32 (Set.ncard
    {c | ∃ p, (Ledger.of .canonical firstWords).present c = some p ∧ p.room = some ⟨1⟩}) := by
  obtain ⟨host, hrun, -, hlisted⟩ := firstWords_run
  exact ((counts_from_answers (hrun.step ⟨.byId, hlisted.symm, rfl⟩) spares_firstWords
    ⟨⟨1⟩, ascii "general", 1⟩).1 (List.mem_singleton_self _)).2

end Bcmd
