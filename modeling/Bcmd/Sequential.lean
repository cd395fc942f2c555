import Bcmd.Members

/-!
# The use cases run alone

What each use case does to the stored channels and the sessions when nothing runs beside it. `Leaves`
and `Ends` are the two ways a client goes out of channels: by leaving some, with its session kept, and
by being removed.
-/

namespace Bcmd
open Server

/-! ### Reads -/

section
variable {α : Type} {s : Server}

theorem exec_findChannel {k : ChannelId} (f : Result Channel → Task α) :
    ports.exec (.call (.channels (.findById k)) f) s =
      match s.channel k with
      | none => ports.exec (f (.error .channelNotFound)) s
      | some ch => ports.exec (f (.ok ch)) s := by
  show ports.exec (f (s.channels.findById k)) s = _
  unfold InMemoryChannelRepository.findById channel
  cases s.channels.channelsById.find k <;> rfl

theorem exec_findSession {c : ClientId} (f : Result ClientSession → Task α) :
    ports.exec (.call (.clients (.findById c)) f) s =
      match s.session c with
      | none => ports.exec (f (.error .clientNotFound)) s
      | some cs => ports.exec (f (.ok cs)) s := by
  show ports.exec (f (s.clients.findById c)) s = _
  unfold InMemoryClientRegistry.findById session
  cases s.clients.clientsById.find c <;> rfl

/-- A lookup by name answers with an error or with a stored channel. -/
theorem exec_findByName {name : ChannelName} (f : Result Channel → Task α) :
    (∃ e, ports.exec (.call (.channels (.findByName name)) f) s = ports.exec (f (.error e)) s) ∨
      ∃ ch, s.channel ch.id = some ch ∧
        ports.exec (.call (.channels (.findByName name)) f) s = ports.exec (f (.ok ch)) s := by
  rw [Machine.exec_call]
  rcases hr : ((ports.handle (.channels (.findByName name)) s).1 : Result Channel) with e | ch
  · exact .inl ⟨e, rfl⟩
  · exact .inr ⟨ch, InMemoryChannelRepository.findByName_ok hr, rfl⟩

end

/-! ### Leaving -/

/-- The channel without the client. -/
def Channel.without (ch : Channel) (c : ClientId) : Channel := { ch with members := ch.members.erase c }

theorem Channel.without_of_notMem {ch : Channel} {c : ClientId} (h : c ∉ ch.members) : ch.without c = ch := by
  unfold Channel.without
  rw [Finset.erase_eq_of_notMem h]

theorem Channel.without_without (ch : Channel) (c : ClientId) : (ch.without c).without c = ch.without c :=
  Channel.without_of_notMem (Finset.notMem_erase c _)

/-- From `s` to `s'`, `c` has gone out of the channels `K`, and nothing else changed in the channels. -/
def PutOut (c : ClientId) (K : Finset ChannelId) (s s' : Server) : Prop :=
  ∀ k, s'.channel k = if k ∈ K then (s.channel k).map (·.without c) else s.channel k

namespace PutOut
variable {c : ClientId} {K K' : Finset ChannelId} {k : ChannelId} {s s₁ s' : Server}

theorem refl (h : ∀ k, s'.channel k = s.channel k) : PutOut c ∅ s s' := fun k => by simp [h]

theorem trans (h : PutOut c K s s₁) (h' : PutOut c K' s₁ s') : PutOut c (K ∪ K') s s' := by
  intro k
  rw [h' k, h k]
  by_cases hk : k ∈ K <;> by_cases hk' : k ∈ K' <;> simp [hk, hk', Function.comp_def, Channel.without_without]

theorem congr (h : PutOut c K s s₁) (h' : ∀ k, s'.channel k = s₁.channel k) : PutOut c K s s' :=
  fun k => (h' k).trans (h k)

theorem members (h : PutOut c K s s') (k : ChannelId) :
    s'.members k = if k ∈ K then (s.members k).erase c else s.members k := by
  rcases hch : s.channel k with _ | ch
  · rw [members_of_none hch, members_of_none (by rw [h k, hch]; simp), Finset.erase_empty, ite_self]
  · rw [members_of_channel hch]
    split
    · have hout : s'.channel k = some (ch.without c) := by rw [h k, if_pos ‹k ∈ K›, hch]; rfl
      exact members_of_channel hout
    · rw [members_of_channel (by rw [h k, if_neg ‹k ∉ K›, hch])]

end PutOut

theorem exec_removeMember_notMem {cs : ClientSession} {k : ChannelId} {s : Server} (h : cs.id ∉ s.members k) :
    ∃ e ∈ [Error.notAMember, .channelNotFound], ports.exec (removeMemberAndBroadcast cs k) s =
      (.error e, s) := by
  simp only [removeMemberAndBroadcast, Prog.perform_bind, Prog.pure_eq, exec_findChannel]
  rcases hch : s.channel k with _ | ch
  · exact ⟨_, by simp, rfl⟩
  · have hr : ch.removeMember cs.id = .error .notAMember := by
      exact Channel.removeMember_error.2 ⟨by rwa [members_of_channel hch] at h, rfl⟩
    simp only [hr]
    exact ⟨_, by simp, rfl⟩

theorem exec_removeMember_mem {cs : ClientSession} {k : ChannelId} {s : Server} (h : cs.id ∈ s.members k) :
    ∃ s', ports.exec (removeMemberAndBroadcast cs k) s = (.ok (), s') ∧ PutOut cs.id {k} s s' ∧
      s'.clients = s.clients ∧ s'.channelList = s.channelList := by
  simp only [removeMemberAndBroadcast, Prog.perform_bind, Prog.pure_eq, exec_findChannel]
  rcases hch : s.channel k with _ | ch
  · rw [members_of_none hch] at h
    exact absurd h (Finset.notMem_empty _)
  · have hr : ch.removeMember cs.id = .ok (ch.without cs.id) :=
      Channel.removeMember_ok.2 ⟨by rwa [members_of_channel hch] at h, rfl⟩
    simp only [hr]
    refine ⟨_, rfl, fun k' => ?_, rfl, rfl⟩
    show (handle (.channels (.save (ch.without cs.id))) s).2.channel k' = _
    rw [channel_save, show (ch.without cs.id).id = k from (id_of_channel hch : ch.id = k)]
    by_cases hk : k' = k
    · subst hk; simp [hch]
    · simp [hk]

/-- Either way the client is out of the channel, and the error is one the callers ignore. -/
theorem exec_removeMember (cs : ClientSession) (k : ChannelId) (s : Server) :
    ∃ r s', ports.exec (removeMemberAndBroadcast cs k) s = (r, s') ∧
      tolerate [.notAMember, .channelNotFound] r = .ok () ∧ PutOut cs.id {k} s s' ∧
      s'.clients = s.clients ∧ s'.channelList = s.channelList := by
  by_cases h : cs.id ∈ s.members k
  · obtain ⟨s', hexec, hput, hc, hl⟩ := exec_removeMember_mem h
    exact ⟨_, s', hexec, rfl, hput, hc, hl⟩
  · obtain ⟨e, he, hexec⟩ := exec_removeMember_notMem h
    refine ⟨_, s, hexec, if_pos he, fun k' => ?_, rfl, rfl⟩
    split
    · obtain rfl := Finset.mem_singleton.1 ‹k' ∈ _›
      rcases hch : s.channel k' with _ | ch
      · rfl
      · rw [members_of_channel hch] at h
        rw [Option.map_some, Channel.without_of_notMem h]
    · rfl

/-! ### Leaving and joining with the session kept -/

/-- The session after leaving the channels `K`. -/
def ClientSession.leaveAll (cs : ClientSession) (K : Finset ChannelId) : ClientSession :=
  { cs with joinedChannels := cs.joinedChannels \ K }

/-- `c` has left the channels `K`, on both sides. -/
structure Leaves (c : ClientId) (K : Finset ChannelId) (s s' : Server) : Prop where
  putOut : PutOut c K s s'
  session : ∀ d, s'.session d = if d = c then (s.session d).map (·.leaveAll K) else s.session d

namespace Leaves
variable {c : ClientId} {K K' : Finset ChannelId} {k : ChannelId} {s s₁ s' : Server}

theorem refl (s : Server) : Leaves c ∅ s s :=
  ⟨.refl fun _ => rfl, fun d => by simp [ClientSession.leaveAll]⟩

theorem trans (h : Leaves c K s s₁) (h' : Leaves c K' s₁ s') : Leaves c (K ∪ K') s s' where
  putOut := h.putOut.trans h'.putOut
  session d := by
    rw [h'.session d, h.session d]
    by_cases hd : d = c
    · simp [hd, Function.comp_def, ClientSession.leaveAll, sdiff_sdiff_left]
    · simp [hd]

theorem congr (h : Leaves c K s s₁) (hch : ∀ k, s'.channel k = s₁.channel k) (hcl : s'.clients = s₁.clients) :
    Leaves c K s s' :=
  ⟨h.putOut.congr hch, fun d => by rw [← h.session d, Server.session, hcl]; rfl⟩

theorem joined (h : Leaves c K s s') (d : ClientId) :
    s'.joined d = if d = c then s.joined d \ K else s.joined d := by
  rcases hs : s.session d with _ | cs
  · rw [joined_of_none hs, joined_of_none (by rw [h.session d, hs]; simp), Finset.empty_sdiff, ite_self]
  · rw [joined_of_session hs]
    split
    · rw [joined_of_session (by rw [h.session d, if_pos ‹d = c›, hs]; rfl)]; rfl
    · rw [joined_of_session (by rw [h.session d, if_neg ‹d ≠ c›, hs])]

end Leaves

/-- The removal from the channel, then from the session. -/
theorem leaves_leaveChannelAtomic {c : ClientId} {k : ChannelId} {s s' : Server} (hput : PutOut c {k} s s')
    (hcl : s'.clients = s.clients) : Leaves c {k} s (handle (.clients (.leaveChannelAtomic c k)) s').2 where
  putOut := hput.congr fun k' => channel_handle (.clients (.leaveChannelAtomic c k)) nofun nofun s' k'
  session d := by
    have hleave : (fun cs : ClientSession => cs.leaveChannel k) = (·.leaveAll {k}) := by
      funext cs
      unfold ClientSession.leaveChannel ClientSession.leaveAll
      rw [Finset.sdiff_singleton_eq_erase]
    rw [session_leaveChannelAtomic, hleave, show s'.session d = s.session d by rw [session, hcl]; rfl]

namespace JoinChannel

theorem exec_publishCountIfStored (k : ChannelId) (s : Server) :
    ports.exec (publishCountIfStored k) s = ((), match s.channel k with
      | none => s
      | some ch => (handle (.channelList (.publishMemberCountChanged k (toInt32 ch.memberCount))) s).2) := by
  simp only [publishCountIfStored, Prog.perform_bind, exec_findChannel]
  cases s.channel k <;> rfl

theorem publishCountIfStored_keeps (k : ChannelId) (s : Server) :
    (∀ k', (ports.exec (publishCountIfStored k) s).2.channel k' = s.channel k') ∧
      (ports.exec (publishCountIfStored k) s).2.clients = s.clients := by
  rw [exec_publishCountIfStored]
  cases s.channel k <;> exact ⟨fun _ => rfl, rfl⟩

theorem exec_leaveEach (cs : ClientSession) (ks : List ChannelId) (s : Server) :
    ∃ s', ports.exec (leaveEach cs ks) s = (.ok (), s') ∧ Leaves cs.id ks.toFinset s s' := by
  induction ks generalizing s with
  | nil => exact ⟨s, rfl, .refl s⟩
  | cons k ks ih =>
    obtain ⟨r, s₁, hexec, htol, hput, hcl, -⟩ := exec_removeMember cs k s
    have h₁ := leaves_leaveChannelAtomic hput hcl
    have htol₁ : tolerate [.clientNotFound]
        (ports.handle (.clients (.leaveChannelAtomic cs.id k)) s₁).1 = .ok () :=
          tolerate_leaveChannelAtomic ..
    simp only [leaveEach, Machine.exec_bind, hexec, htol, Machine.exec_perform, htol₁]
    obtain ⟨hch, hcl'⟩ := publishCountIfStored_keeps k
      (ports.handle (.clients (.leaveChannelAtomic cs.id k)) s₁).2
    obtain ⟨s', hexec', h'⟩ := ih _
    refine ⟨s', hexec', ?_⟩
    rw [List.toFinset_cons, Finset.insert_eq]
    exact (h₁.congr hch hcl').trans h'

/-- The other channels of the session, as a set. -/
theorem exec_leaveOtherChannels (order : BucketOrder) (cs : ClientSession) (k : ChannelId) (s : Server) :
    ∃ s', ports.exec (leaveOtherChannels order cs k) s = (.ok (), s') ∧
      Leaves cs.id (cs.joinedChannels.erase k) s s' := by
  obtain ⟨s', hexec, h⟩ := exec_leaveEach cs ((order.channels.enum cs.joinedChannels).filter (· ≠ k)) s
  refine ⟨s', hexec, ?_⟩
  have hset : ((order.channels.enum cs.joinedChannels).filter (· ≠ k)).toFinset =
      cs.joinedChannels.erase k := by
    ext k'; simp [and_comm]
  rwa [hset] at h

end JoinChannel

/-- The channel with the client. -/
def Channel.with (ch : Channel) (c : ClientId) : Channel := { ch with members := insert c ch.members }

/-- `c` has been added to the channel `k`, on both sides. -/
structure Adds (c : ClientId) (k : ChannelId) (s s' : Server) : Prop where
  channel : ∀ k', s'.channel k' = if k' = k then (s.channel k').map (·.with c) else s.channel k'
  session : ∀ d, s'.session d = if d = c then (s.session d).map (·.joinChannel k) else s.session d

namespace Adds
variable {c : ClientId} {k : ChannelId} {s s' : Server}

theorem members (h : Adds c k s s') (hk : s.channel k ≠ none) (k' : ChannelId) :
    s'.members k' = if k' = k then insert c (s.members k') else s.members k' := by
  split
  · subst ‹k' = k›
    obtain ⟨ch, hch⟩ := Option.ne_none_iff_exists'.1 hk
    have hin : s'.channel k' = some (ch.with c) := by rw [h.channel, if_pos rfl, hch]; rfl
    rw [members_of_channel hch]
    exact members_of_channel hin
  · exact members_congr ((h.channel k').trans (if_neg ‹k' ≠ k›))

theorem joined (h : Adds c k s s') (hc : s.session c ≠ none) (d : ClientId) :
    s'.joined d = if d = c then insert k (s.joined d) else s.joined d := by
  split
  · subst ‹d = c›
    obtain ⟨cs, hcs⟩ := Option.ne_none_iff_exists'.1 hc
    rw [joined_of_session hcs, joined_of_session (by rw [h.session, if_pos rfl, hcs]; rfl)]
    rfl
  · exact joined_congr ((h.session d).trans (if_neg ‹d ≠ c›))

end Adds

namespace JoinChannel

/-- A Join that has found the session and the channel leaves the other channels and adds the client. -/
theorem exec_joinFound (order : BucketOrder) {c : ClientId} {cs : ClientSession} {k : ChannelId}
    {ch : Channel} {s : Server} (hcs : s.session c = some cs) (hch : s.channel k = some ch) :
    ∃ s₁ s', ports.exec (joinFound order c cs k ch) s = (.ok (), s') ∧
      Leaves c (cs.joinedChannels.erase k) s s₁ ∧ Adds c k s₁ s' := by
  obtain ⟨s₁, hexec, hleaves⟩ := exec_leaveOtherChannels order cs k s
  rw [id_of_session hcs] at hleaves
  have hch₁ : s₁.channel k = some ch := by
    rw [hleaves.putOut k, if_neg (Finset.notMem_erase k _), hch]
  have hcs₁ : s₁.session c ≠ none := by
    rw [hleaves.session c, if_pos rfl, hcs]; exact Option.some_ne_none _
  have hid := id_of_channel hch
  simp only [joinFound, Machine.exec_bind, hexec]
  by_cases hm : c ∈ ch.members
  · have hjoin : (ports.handle (.clients (.joinChannelAtomic c k)) s₁).1 = (.ok () : VoidResult) :=
      (fst_joinChannelAtomic s₁ c k).trans (if_neg hcs₁)
    simp only [Channel.hasMember_iff.2 hm, if_true, Prog.pure_eq, Machine.exec_ret, Machine.exec_perform,
      Machine.exec_bind, hjoin]
    refine ⟨s₁, _, rfl, hleaves, fun k' => ?_, fun d => session_joinChannelAtomic ..⟩
    have hsame : ch.with c = ch := by unfold Channel.with; rw [Finset.insert_eq_of_mem hm]
    rw [show (ports.handle _ s₁).2.channel k' = s₁.channel k' from
      channel_handle (.clients (.joinChannelAtomic c k)) nofun nofun s₁ k']
    split
    · subst ‹k' = k›; rw [hch₁, Option.map_some, hsame]
    · rfl
  · have hadd : ch.addMember c = .ok (ch.with c) := Channel.addMember_ok.2 ⟨hm, rfl⟩
    have hno : ch.hasMember c = false := by simpa [Channel.hasMember] using hm
    have hjoin : (ports.handle (.clients (.joinChannelAtomic c k))
        (ports.handle (.channels (.save (ch.with c))) s₁).2).1 = (.ok () : VoidResult) :=
      (fst_joinChannelAtomic _ c k).trans (if_neg hcs₁)
    have hsaved : (ports.handle (.channels (.save (ch.with c))) s₁).1 = (.ok () : VoidResult) := rfl
    simp only [hno, addAndSave, hadd, Prog.pure_eq, Machine.exec_perform, Machine.exec_bind,
      Machine.exec_ret, hsaved, hjoin, Bool.false_eq_true, if_false]
    refine ⟨s₁, _, rfl, hleaves, fun k' => ?_, fun d => ?_⟩
    · show (handle (.channels (.save (ch.with c))) s₁).2.channel k' = _
      rw [channel_save, show (ch.with c).id = k from hid]
      split
      · subst ‹k' = k›; rw [hch₁]; rfl
      · rfl
    · exact session_joinChannelAtomic ..

/-- What a Join may do: nothing, if it fails; else leave the other channels and enter the one. -/
def Moves (c : ClientId) (s s' : Server) : Prop :=
  (s'.channels = s.channels ∧ s'.clients = s.clients ∧ s'.channelList = s.channelList) ∨
    ∃ k s₁, s.channel k ≠ none ∧ s.session c ≠ none ∧ Leaves c ((s.joined c).erase k) s s₁ ∧ Adds c k s₁ s'

theorem exec_execute (order : BucketOrder) (c : ClientId) (k : ChannelId) (s : Server) :
    Moves c s (ports.exec (execute order c k) s).2 := by
  simp only [execute, Prog.perform_bind, Prog.pure_eq, exec_findSession, exec_findChannel]
  rcases hcs : s.session c with _ | cs
  · exact .inl ⟨rfl, rfl, rfl⟩
  rcases hch : s.channel k with _ | ch
  · exact .inl ⟨rfl, rfl, rfl⟩
  obtain ⟨s₁, s', hexec, hleaves, hadds⟩ := exec_joinFound order hcs hch
  simp only [hexec]
  refine .inr ⟨k, s₁, by rw [hch]; nofun, by rw [hcs]; nofun, ?_, hadds⟩
  rwa [joined_of_session hcs]

theorem exec_executeByName (order : BucketOrder) (c : ClientId) (name : Bytes) (s : Server) :
    Moves c s (ports.exec (executeByName order c name) s).2 := by
  simp only [executeByName, Prog.perform_bind, Prog.pure_eq, exec_findSession]
  rcases hcs : s.session c with _ | cs
  · exact .inl ⟨rfl, rfl, rfl⟩
  rcases ChannelName.create (trim name) with _ | validatedName
  · exact .inl ⟨rfl, rfl, rfl⟩
  dsimp only
  rcases @exec_findByName _ s validatedName _ with ⟨e, he⟩ | ⟨ch, hch, he⟩
  · rw [he]
    exact .inl ⟨rfl, rfl, rfl⟩
  obtain ⟨s₁, s', hexec, hleaves, hadds⟩ := exec_joinFound order hcs hch
  rw [he, Machine.exec_bind, hexec]
  refine .inr ⟨ch.id, s₁, by rw [hch]; nofun, by rw [hcs]; nofun, ?_, hadds⟩
  rwa [joined_of_session hcs]

end JoinChannel

theorem exec_leaveChannel_mem {c : ClientId} {cs : ClientSession} {k : ChannelId} {s : Server}
    (hcs : s.session c = some cs) (hm : c ∈ s.members k) :
    ∃ s', ports.exec (LeaveChannel.execute c k) s = (.ok (), s') ∧ Leaves c {k} s s' := by
  have hid := id_of_session hcs
  have hm' : cs.id ∈ s.members k := by rw [hid]; exact hm
  obtain ⟨s₁, hexec, hput, hcl, -⟩ := exec_removeMember_mem hm'
  rw [hid] at hput
  have hleaves := leaves_leaveChannelAtomic hput hcl
  have htol : tolerate [.clientNotFound] (ports.handle (.clients (.leaveChannelAtomic c k)) s₁).1 = .ok () :=
    tolerate_leaveChannelAtomic ..
  obtain ⟨ch, hch⟩ : ∃ ch, s.channel k = some ch := by
    refine Option.ne_none_iff_exists'.1 fun hnone => ?_
    rw [members_of_none hnone] at hm
    exact absurd hm (Finset.notMem_empty c)
  have hch₁ : (ports.handle (.clients (.leaveChannelAtomic c k)) s₁).2.channel k = some (ch.without c) := by
    refine (hleaves.putOut k).trans ?_
    rw [if_pos (Finset.mem_singleton_self k), hch, Option.map_some]
  simp only [LeaveChannel.execute, Prog.perform_bind, Prog.pure_eq, exec_findSession, hcs,
    Machine.exec_bind, hexec]
  rw [Machine.exec_call]
  simp only [htol, exec_findChannel, hch₁]
  exact ⟨_, rfl, hleaves.congr (fun _ => rfl) rfl⟩

theorem exec_leaveChannel_of_not {c : ClientId} {k : ChannelId} {s : Server}
    (h : ∀ cs, s.session c = some cs → c ∉ s.members k) :
    ∃ e, ports.exec (LeaveChannel.execute c k) s = (.error e, s) := by
  simp only [LeaveChannel.execute, Prog.perform_bind, Prog.pure_eq, exec_findSession]
  rcases hcs : s.session c with _ | cs
  · exact ⟨_, rfl⟩
  · have hnot : cs.id ∉ s.members k := by rw [id_of_session hcs]; exact h cs hcs
    obtain ⟨e, -, hexec⟩ := exec_removeMember_notMem hnot
    simp only [Machine.exec_bind, hexec]
    exact ⟨e, rfl⟩

/-! ### Subscribing -/

theorem exec_subscribe_mem {c : ClientId} {k : ChannelId} {s : Server} (h : c ∈ s.members k) :
    ports.exec (SubscribeToChannel.execute c k) s = (.ok (), s) := by
  simp only [SubscribeToChannel.execute, Prog.perform_bind, Prog.pure_eq, exec_findChannel]
  rcases hch : s.channel k with _ | ch
  · rw [members_of_none hch] at h
    exact absurd h (Finset.notMem_empty c)
  · rw [members_of_channel hch] at h
    simp only [Channel.hasMember_iff.2 h]
    rfl

theorem exec_subscribe_notMem {c : ClientId} {k : ChannelId} {s : Server} (h : c ∉ s.members k) :
    ∃ e, ports.exec (SubscribeToChannel.execute c k) s = (.error e, s) := by
  simp only [SubscribeToChannel.execute, Prog.perform_bind, Prog.pure_eq, exec_findChannel]
  rcases hch : s.channel k with _ | ch
  · exact ⟨_, rfl⟩
  · have hno : ch.hasMember c = false := by
      rw [members_of_channel hch] at h
      simpa [Channel.hasMember] using h
    simp only [hno]
    exact ⟨_, rfl⟩

namespace BroadcastService
variable {c : ClientId} {k : ChannelId} {s : Server}

theorem exec_beginChannelStream_mem (w : StreamId) (h : c ∈ s.members k) :
    ports.exec (beginChannelStream c k w) s =
      (.ok (), { s with publisher := s.publisher.registerSubscriber c w }) := by
  have hm : c ∈ (ports.handle (.publisher (.registerSubscriber c w)) s).2.members k := h
  simp only [beginChannelStream, Prog.perform_bind, Machine.exec_call, Machine.exec_bind,
    exec_subscribe_mem hm]
  rfl

/-- A refused stream has taken the place of the client's stream, and is gone itself. -/
theorem exec_beginChannelStream_notMem (w : StreamId) (h : c ∉ s.members k) :
    ∃ status, ports.exec (beginChannelStream c k w) s = (.error status,
      { s with publisher := (s.publisher.registerSubscriber c w).unregisterSubscriber c }) := by
  have hm : c ∉ (ports.handle (.publisher (.registerSubscriber c w)) s).2.members k := h
  obtain ⟨e, hexec⟩ := exec_subscribe_notMem hm
  simp only [beginChannelStream, Prog.perform_bind, Machine.exec_call, Machine.exec_bind, hexec]
  exact ⟨_, rfl⟩

end BroadcastService

/-! ### Being removed -/

/-- `c` is gone: out of every channel, and without a session. -/
structure Ends (c : ClientId) (s s' : Server) : Prop where
  channel : ∀ k, s'.channel k = (s.channel k).map (·.without c)
  session : ∀ d, s'.session d = if d = c then none else s.session d

namespace Ends
variable {c : ClientId} {s s₁ s' : Server}

/-- When the session names all channels of the client, going out of those is going out of all. -/
theorem of_putOut (hput : PutOut c (s.joined c) s s₁) (hspeak : s.channelsOf c ⊆ s.joined c)
    (hch : ∀ k, s'.channel k = s₁.channel k) (hs : ∀ d, s'.session d = if d = c then none else s.session d) :
    Ends c s s' where
  channel k := by
    rw [hch, hput k]
    split
    · rfl
    · rcases hk : s.channel k with _ | ch
      · rfl
      · have hm : c ∉ ch.members := by
          rw [← members_of_channel hk, ← mem_channelsOf]
          exact fun hm => ‹k ∉ s.joined c› (hspeak hm)
        rw [Option.map_some, Channel.without_of_notMem hm]
  session := hs

theorem members (h : Ends c s s') (k : ChannelId) : s'.members k = (s.members k).erase c := by
  rcases hk : s.channel k with _ | ch
  · rw [members_of_none hk, members_of_none (by rw [h.channel, hk]; rfl), Finset.erase_empty]
  · have hout : s'.channel k = some (ch.without c) := by rw [h.channel, hk]; rfl
    rw [members_of_channel hk]
    exact members_of_channel hout

theorem joined (h : Ends c s s') (d : ClientId) : s'.joined d = if d = c then ∅ else s.joined d := by
  split
  · exact joined_of_none ((h.session d).trans (if_pos ‹d = c›))
  · exact joined_congr ((h.session d).trans (if_neg ‹d ≠ c›))

end Ends

theorem exec_leaveEach {c : ClientId} {ks : List ChannelId} {s : Server} (hs : s.session c ≠ none)
    (hnd : ks.Nodup) (hm : ∀ k ∈ ks, c ∈ s.members k) :
    Leaves c ks.toFinset s (ports.exec (BroadcastService.leaveEach c ks) s).2 := by
  induction ks generalizing s with
  | nil => exact .refl s
  | cons k ks ih =>
    obtain ⟨cs, hcs⟩ := Option.ne_none_iff_exists'.1 hs
    obtain ⟨s₁, hexec, h₁⟩ := exec_leaveChannel_mem hcs (hm k (List.mem_cons_self ..))
    obtain ⟨hk, hnd⟩ := List.nodup_cons.1 hnd
    simp only [BroadcastService.leaveEach, Machine.exec_bind, hexec]
    rw [List.toFinset_cons, Finset.insert_eq]
    refine h₁.trans (ih ?_ hnd fun k' hk' => ?_)
    · rw [h₁.session, if_pos rfl, hcs]; nofun
    · have hne : k' ∉ ({k} : Finset ChannelId) := fun h => hk (by rwa [← Finset.mem_singleton.1 h])
      rw [h₁.putOut.members, if_neg hne]
      exact hm k' (List.mem_cons_of_mem k hk')

theorem exec_disconnectClient (order : BucketOrder) {c : ClientId} {s : Server}
    (h : s.channelsOf c = s.joined c) :
    ports.exec (BroadcastService.disconnectClient order c) s = (.error (errorToStatus .clientNotFound), s) ∨
      (ports.exec (BroadcastService.disconnectClient order c) s).1 = .ok () ∧
        Ends c s (ports.exec (BroadcastService.disconnectClient order c) s).2 := by
  simp only [BroadcastService.disconnectClient, Prog.perform_bind, Prog.pure_eq, exec_findSession]
  rcases hcs : s.session c with _ | cs
  · exact .inl rfl
  right
  have hjoined := joined_of_session hcs
  have hmem : ∀ k ∈ order.channels.enum cs.joinedChannels, c ∈ s.members k := fun k hk =>
    mem_channelsOf.1 (by rw [h, hjoined]; simpa using hk)
  have hleaves := exec_leaveEach (by rw [hcs]; nofun) (order.channels.nodup_enum _) hmem
  have hset : (order.channels.enum cs.joinedChannels).toFinset = s.joined c := by ext k; simp [hjoined]
  rw [hset] at hleaves
  simp only [Machine.exec_bind, Machine.exec_call]
  generalize (ports.exec (BroadcastService.leaveEach c _) s).2 = s₁ at hleaves
  have hsome : s₁.session c ≠ none := by rw [hleaves.session, if_pos rfl, hcs]; nofun
  have hremoved : (ports.handle (.clients (.remove c)) s₁).1 = (.ok () : VoidResult) :=
    (fst_remove s₁ c).trans (if_neg hsome)
  simp only [hremoved]
  refine ⟨rfl, .of_putOut hleaves.putOut h.le (fun k => rfl) fun d => ?_⟩
  show (handle (.clients (.remove c)) s₁).2.session d = _
  rw [session_remove]
  split
  · rfl
  · rw [hleaves.session, if_neg ‹d ≠ c›]

namespace ExpireInactiveClients

theorem exec_removeFromEach (cs : ClientSession) (ks : List ChannelId) (s : Server) :
    PutOut cs.id ks.toFinset s (ports.exec (removeFromEach cs ks) s).2 ∧
      (ports.exec (removeFromEach cs ks) s).2.clients = s.clients ∧
      (ports.exec (removeFromEach cs ks) s).2.channelList = s.channelList := by
  induction ks generalizing s with
  | nil => exact ⟨.refl fun _ => rfl, rfl, rfl⟩
  | cons k ks ih =>
    obtain ⟨r, s₁, hexec, -, hput, hcl, hli⟩ := exec_removeMember cs k s
    simp only [removeFromEach, Machine.exec_bind, hexec]
    obtain ⟨hput', hcl', hli'⟩ := ih s₁
    rw [List.toFinset_cons, Finset.insert_eq]
    exact ⟨hput.trans hput', hcl'.trans hcl, hli'.trans hli⟩

/-- One round of the sweep, for a session that is as it was collected. -/
theorem ends_expireOne (order : BucketOrder) {cs : ClientSession} {s : Server}
    (hcs : s.session cs.id = some cs) (hspeak : s.channelsOf cs.id ⊆ s.joined cs.id) :
    Ends cs.id s (ports.handle (.publisher (.unregisterSubscriber cs.id))
      (ports.handle (.clients (.remove cs.id))
        (ports.exec (removeFromEach cs (order.channels.enum cs.joinedChannels)) s).2).2).2 := by
  obtain ⟨hput, hcl, -⟩ := exec_removeFromEach cs (order.channels.enum cs.joinedChannels) s
  have hset : (order.channels.enum cs.joinedChannels).toFinset = s.joined cs.id := by
    ext k; simp [joined_of_session hcs]
  rw [hset] at hput
  refine .of_putOut hput hspeak (fun k => rfl) fun d => ?_
  show (handle (.clients (.remove cs.id)) _).2.session d = _
  rw [session_remove]
  split
  · rfl
  · rw [session, hcl]; rfl

end ExpireInactiveClients

end Bcmd
