import Bcmd.NameIndex
import Bcmd.Published
import Bcmd.Registry

/-!
# A Join from end to end

All that `JoinChannel::execute` does in a state that a run leads to: the channels and the sessions
afterwards, and the events, each to whom and with what count. A second call does nothing.
-/

namespace Bcmd
open Server

/-! ### The events of going out and of coming in -/

/-- Those who stay in `k` are told that the client left, and everyone the count without it. -/
def leaveEvents (s : Server) (cs : ClientSession) (k : ChannelId) : List Call :=
  [.publisher (.broadcastMemberLeft k ((s.members k).erase cs.id) cs.id cs.username),
    .channelList (.publishMemberCountChanged k (toInt32 ((s.members k).erase cs.id).card))]

/-- The members of `k`, the client among them, are told that it came, and everyone the count with it. -/
def enterEvents (s : Server) (cs : ClientSession) (k : ChannelId) : List Call :=
  [.publisher (.broadcastMemberJoined k (insert cs.id (s.members k)) cs.id cs.username),
    .channelList (.publishMemberCountChanged k (toInt32 (insert cs.id (s.members k)).card))]

section
variable {c : ClientId} {cs : ClientSession} {k : ChannelId} {ch : Channel} {s s' : Server}

theorem leaveEvents_congr (h : s'.members k = s.members k) : leaveEvents s' cs k = leaveEvents s cs k := by
  rw [leaveEvents, leaveEvents, h]

theorem published_removeMember (h : cs.id ∈ s.members k) : published (removeMemberAndBroadcast cs k) s =
    [.publisher (.broadcastMemberLeft k ((s.members k).erase cs.id) cs.id cs.username)] := by
  simp only [removeMemberAndBroadcast, Prog.perform_bind, Prog.pure_eq, published_findChannel]
  rcases hch : s.channel k with _ | ch
  · rw [members_of_none hch] at h
    exact absurd h (Finset.notMem_empty _)
  · rw [members_of_channel hch] at h ⊢
    simp only [Channel.removeMember_ok.2 ⟨h, rfl⟩]
    rfl

theorem published_publishCountIfStored (hch : s.channel k = some ch) :
    published (JoinChannel.publishCountIfStored k) s =
      [.channelList (.publishMemberCountChanged k (toInt32 ch.members.card))] := by
  simp only [JoinChannel.publishCountIfStored, Prog.perform_bind, published_findChannel, hch]
  rfl

namespace JoinChannel

/-- One round of the second loop. -/
theorem exec_leaveEach_cons (cs : ClientSession) (ks : List ChannelId) (h : cs.id ∈ s.members k) :
    ∃ s₁, Leaves cs.id {k} s s₁ ∧ ports.exec (leaveEach cs (k :: ks)) s = ports.exec (leaveEach cs ks) s₁ ∧
      published (leaveEach cs (k :: ks)) s = leaveEvents s cs k ++ published (leaveEach cs ks) s₁ := by
  obtain ⟨s₁, hexec, hput, hcl, -⟩ := exec_removeMember_mem h
  have hleaves := leaves_leaveChannelAtomic hput hcl
  have htol : tolerate [.clientNotFound]
      (ports.handle (.clients (.leaveChannelAtomic cs.id k)) s₁).1 = .ok () := tolerate_leaveChannelAtomic ..
  obtain ⟨hch, hcl'⟩ := publishCountIfStored_keeps k
    (ports.handle (.clients (.leaveChannelAtomic cs.id k)) s₁).2
  refine ⟨_, hleaves.congr hch hcl', ?_, ?_⟩
  · simp only [leaveEach, Machine.exec_bind, hexec, tolerate_ok, Machine.exec_perform, htol]
  · obtain ⟨ch, hstored⟩ : ∃ ch, s.channel k = some ch := by
      refine Option.ne_none_iff_exists'.1 fun hnone => ?_
      rw [members_of_none hnone] at h
      exact Finset.notMem_empty _ h
    have hleft : (ports.handle (.clients (.leaveChannelAtomic cs.id k)) s₁).2.channel k =
        some (ch.without cs.id) := by
      refine (hleaves.putOut k).trans ?_
      rw [if_pos (Finset.mem_singleton_self k), hstored, Option.map_some]
    have hcount := published_publishCountIfStored hleft
    have hnone : published (clients.leaveChannelAtomic cs.id k) s₁ = [] := rfl
    simp only [leaveEach, published_bind, published_removeMember h, hexec, tolerate_ok, Machine.exec_perform,
      htol, hnone, hcount, leaveEvents, members_of_channel hstored]
    rfl

theorem published_leaveEach {ks : List ChannelId} (h : ∀ k ∈ ks, cs.id ∈ s.members k) (hnd : ks.Nodup) :
    published (leaveEach cs ks) s = ks.flatMap (leaveEvents s cs) := by
  induction ks generalizing s with
  | nil => rfl
  | cons k ks ih =>
    obtain ⟨s₁, hleaves, -, hevents⟩ := exec_leaveEach_cons cs ks (h k (List.mem_cons_self ..))
    obtain ⟨hk, hnd⟩ := List.nodup_cons.1 hnd
    -- the other channels are as they were
    have hsame : ∀ k' ∈ ks, s₁.members k' = s.members k' := by
      intro k' hk'
      have hne : k' ∉ ({k} : Finset ChannelId) := fun h => hk (by rwa [← Finset.mem_singleton.1 h])
      rw [hleaves.putOut.members, if_neg hne]
    rw [hevents, List.flatMap_cons, ih (fun k' hk' => ?_) hnd]
    · congr 1
      exact List.flatMap_congr fun k' hk' => leaveEvents_congr (hsame k' hk')
    · rw [hsame k' hk']
      exact h k' (List.mem_cons_of_mem k hk')

/-- What a Join publishes: what it left, in the order it left it, and what it entered, if it did. -/
def joinEvents (order : BucketOrder) (s : Server) (cs : ClientSession) (k : ChannelId) : List Call :=
  ((order.channels.enum cs.joinedChannels).filter (· ≠ k)).flatMap (leaveEvents s cs) ++
    if cs.id ∈ s.members k then [] else enterEvents s cs k

theorem published_joinFound (order : BucketOrder) (hcs : s.session c = some cs) (hch : s.channel k = some ch)
    (hspeak : ∀ k ∈ cs.joinedChannels, c ∈ s.members k) :
    published (joinFound order c cs k ch) s = joinEvents order s cs k := by
  obtain rfl := id_of_session hcs
  obtain rfl := id_of_channel hch
  have hleft : published (leaveOtherChannels order cs ch.id) s =
      ((order.channels.enum cs.joinedChannels).filter (· ≠ ch.id)).flatMap (leaveEvents s cs) := by
    refine published_leaveEach (fun k' hk' => hspeak k' ?_) ((order.channels.nodup_enum _).filter _)
    exact (IterOrder.mem_enum _).1 (List.mem_filter.1 hk').1
  obtain ⟨s₁, hexec, hleaves⟩ := exec_leaveOtherChannels order cs ch.id s
  have hcs₁ : s₁.session cs.id ≠ none := by
    rw [hleaves.session cs.id, if_pos rfl, hcs]
    exact Option.some_ne_none _
  simp only [joinFound, published_bind, hexec, hleft, joinEvents, members_of_channel hch]
  congr 1
  by_cases hm : cs.id ∈ ch.members
  · have hjoin : (ports.handle (.clients (.joinChannelAtomic cs.id ch.id)) s₁).1 = (.ok () : VoidResult) :=
      (fst_joinChannelAtomic s₁ cs.id ch.id).trans (if_neg hcs₁)
    have hnone : published (clients.joinChannelAtomic cs.id ch.id) s₁ = [] := rfl
    simp only [Channel.hasMember_iff.2 hm, if_true, Prog.pure_eq, published_bind, Machine.exec_ret,
      Machine.exec_perform, hjoin, hnone, published_ret, if_pos hm]
    rfl
  · have hadd : ch.addMember cs.id = .ok (ch.with cs.id) := Channel.addMember_ok.2 ⟨hm, rfl⟩
    have hno : ch.hasMember cs.id = false := by simpa [Channel.hasMember] using hm
    have hjoin : (ports.handle (.clients (.joinChannelAtomic cs.id ch.id))
        (ports.handle (.channels (.save (ch.with cs.id))) s₁).2).1 = (.ok () : VoidResult) :=
      (fst_joinChannelAtomic _ cs.id ch.id).trans (if_neg hcs₁)
    have hsaved : (ports.handle (.channels (.save (ch.with cs.id))) s₁).1 = (.ok () : VoidResult) := rfl
    have hnone : published (channels.save (ch.with cs.id)) s₁ = [] := rfl
    have hnone' : published (clients.joinChannelAtomic cs.id ch.id)
        (ports.handle (.channels (.save (ch.with cs.id))) s₁).2 = [] := rfl
    simp only [hno, addAndSave, hadd, Prog.pure_eq, published_bind, Machine.exec_perform, Machine.exec_bind,
      Machine.exec_ret, hsaved, hjoin, hnone, hnone', published_ret, Bool.false_eq_true, if_false, if_neg hm,
      enterEvents, members_of_channel hch]
    rfl

end JoinChannel

/-! ### The state afterwards -/

/-- `c` is now in `k` and in no other channel, on both sides. -/
structure Settles (c : ClientId) (k : ChannelId) (s s' : Server) : Prop where
  channel : ∀ k', s'.channel k' = (s.channel k').map fun ch => if k' = k then ch.with c else ch.without c
  session : ∀ d, s'.session d =
    (s.session d).map fun cs => if d = c then { cs with joinedChannels := {k} } else cs

/-- What no Join or Leave changes. -/
structure SameElse (s s' : Server) : Prop where
  messages : s'.messages = s.messages
  nameGiven : ∀ d, s'.nameGiven d = s.nameGiven d
  writers : s'.publisher.writers = s.publisher.writers
  listWriters : s'.channelList.writers = s.channelList.writers
  cancelled : s'.cancelled = s.cancelled
  systemNow : s'.systemNow = s.systemNow
  steadyNow : s'.steadyNow = s.steadyNow
  nextUuid : s'.nextUuid = s.nextUuid

theorem Requesting.sameElse {o : Call} (ho : Requesting o) (s : Server) : SameElse s (handle o s).2 := by
  have hnames := (names_handle (o := o) (fun name h => by subst h; exact ho)
    (fun c h => by subst h; exact ho) s).2.1
  rcases o with (_ | _ | _ | _ | _) | (_ | _ | _ | _ | _ | _ | _ | _) | _ | (_ | _ | _ | _ | _) |
    (_ | _ | _ | _) | _ | _
  all_goals first | exact ho.elim | exact ⟨rfl, hnames, rfl, rfl, rfl, rfl, rfl, rfl⟩

theorem sameElse_exec {α : Type} {p : Task α} (hp : p.Calls Requesting) (s : Server) :
    SameElse s (ports.exec p s).2 := by
  refine Machine.exec_preserves ports (I := SameElse s) (fun o s₁ ho h => ?_) hp
    ⟨rfl, fun _ => rfl, rfl, rfl, rfl, rfl, rfl, rfl⟩
  have h' := ho.sameElse s₁
  exact ⟨h'.messages.trans h.messages, fun d => (h'.nameGiven d).trans (h.nameGiven d),
    h'.writers.trans h.writers, h'.listWriters.trans h.listWriters, h'.cancelled.trans h.cancelled,
    h'.systemNow.trans h.systemNow, h'.steadyNow.trans h.steadyNow, h'.nextUuid.trans h.nextUuid⟩

theorem Requesting.broadcasts {o : Call} (ho : Requesting o) : Broadcasts o := by
  rcases o with (_ | _ | _ | _ | _) | (_ | _ | _ | _ | _ | _ | _ | _) | _ | (_ | _ | _ | _ | _) |
    (_ | _ | _ | _) | _ | _
  all_goals first | exact ho.elim | trivial

namespace Settles

/-- Out of the other channels of the session and into the one, where the two sides agree. -/
theorem of_leaves_adds {s₁ : Server} (hs : Agree s) (hleaves : Leaves c ((s.joined c).erase k) s s₁)
    (hadds : Adds c k s₁ s') : Settles c k s s' where
  channel k' := by
    rw [hadds.channel, hleaves.putOut]
    rcases hch : s.channel k' with _ | ch
    · simp
    by_cases hk : k' = k
    · simp [hk]
    by_cases hj : k' ∈ s.joined c
    · simp [hk, hj]
    · have hm : c ∉ ch.members := by rwa [← members_of_channel hch, hs.mem_iff]
      simp [hk, hj, Channel.without_of_notMem hm]
  session d := by
    rw [hadds.session, hleaves.session]
    by_cases hd : d = c
    · subst hd
      rcases hcs : s.session d with _ | cs
      · simp
      · have hset : insert k (cs.joinedChannels \ cs.joinedChannels.erase k) = {k} := by
          ext k'
          simp only [Finset.mem_insert, Finset.mem_sdiff, Finset.mem_erase, Finset.mem_singleton]
          tauto
        simp [joined_of_session hcs, ClientSession.leaveAll, ClientSession.joinChannel, hset]
    · simp [hd]

theorem members (h : Settles c k s s') (k' : ChannelId) (hk : s.channel k' ≠ none) :
    s'.members k' = if k' = k then insert c (s.members k') else (s.members k').erase c := by
  obtain ⟨ch, hch⟩ := Option.ne_none_iff_exists'.1 hk
  rw [members_of_channel hch]
  have hch' := h.channel k'
  rw [hch, Option.map_some] at hch'
  split
  · rw [if_pos ‹k' = k›] at hch'
    exact members_of_channel hch'
  · rw [if_neg ‹k' ≠ k›] at hch'
    exact members_of_channel hch'

theorem members_other (h : Settles c k s s') {k' : ChannelId} (hk : k' ≠ k) :
    s'.members k' = (s.members k').erase c := by
  by_cases hstored : s.channel k' = none
  · rw [members_of_none hstored, members_of_none (by rw [h.channel, hstored]; rfl), Finset.erase_empty]
  · rw [h.members k' hstored, if_neg hk]

end Settles

namespace JoinChannel

theorem settles_execute (order : BucketOrder) (hs : Agree s) (hcs : s.session c = some cs)
    (hch : s.channel k = some ch) :
    ∃ s', ports.exec (execute order c k) s = (.ok (), s') ∧ Settles c k s s' := by
  obtain ⟨s₁, s', hexec, hleaves, hadds⟩ := exec_joinFound order hcs hch
  rw [← joined_of_session hcs] at hleaves
  refine ⟨s', ?_, .of_leaves_adds hs hleaves hadds⟩
  simp only [execute, Prog.perform_bind, Prog.pure_eq, exec_findSession, exec_findChannel, hcs, hch, hexec]

theorem published_execute (order : BucketOrder) (hs : Agree s) (hcs : s.session c = some cs)
    (hch : s.channel k = some ch) : published (execute order c k) s = joinEvents order s cs k := by
  simp only [execute, Prog.perform_bind, published_findSession, published_findChannel, hcs, hch]
  refine published_joinFound order hcs hch fun k' hk' => ?_
  rw [hs.mem_iff, joined_of_session hcs]
  exact hk'

/-- For a client that is in the one channel already, only the session is written. -/
theorem joinFound_settled (order : BucketOrder) (hone : cs.joinedChannels = {k}) (hm : c ∈ ch.members) :
    joinFound order c cs k ch = clients.joinChannelAtomic c k := by
  have hnone : (order.channels.enum cs.joinedChannels).filter (· ≠ k) = [] := by simp [hone]
  simp only [joinFound, leaveOtherChannels, hnone, leaveEach, Prog.pure_eq, Prog.ret_bind,
    Channel.hasMember_iff.2 hm, if_true, Prog.perform_bind]
  unfold clients.joinChannelAtomic Prog.perform
  congr 1
  funext r
  rcases r with e | _ <;> rfl

/-- And it is written as it was. -/
theorem execute_settled (order : BucketOrder) (hcs : s.session c = some cs) (hone : cs.joinedChannels = {k})
    (hch : s.channel k = some ch) (hm : c ∈ ch.members) :
    ports.exec (execute order c k) s = (.ok (), s) ∧ published (execute order c k) s = [] := by
  have hfind : s.clients.clientsById.find c = some cs := hcs
  have hput : s.clients.clientsById.put (cs.joinChannel k) = s.clients.clientsById := by
    have hcs' : cs.joinChannel k = cs := by
      unfold ClientSession.joinChannel
      rw [hone, Finset.insert_eq_of_mem (Finset.mem_singleton_self k), ← hone]
    refine Keyed.ext_find fun d => ?_
    rw [hcs', Keyed.find_put, id_of_session hcs]
    split
    · subst ‹d = c›
      exact hfind.symm
    · rfl
  have hhandle : ports.handle (.clients (.joinChannelAtomic c k)) s = (.ok (), s) := by
    show ((s.clients.modify c (·.joinChannel k)).1,
      { s with clients := (s.clients.modify c (·.joinChannel k)).2 }) = _
    unfold InMemoryClientRegistry.modify
    simp only [hfind, hput]
  constructor
  · simp only [execute, Prog.perform_bind, exec_findSession, exec_findChannel, hcs, hch,
      joinFound_settled order hone hm, Machine.exec_perform, hhandle]
  · simp only [execute, Prog.perform_bind, published_findSession, published_findChannel, hcs, hch,
      joinFound_settled order hone hm]
    rfl

end JoinChannel

theorem Settles.nameOf (h : Settles c k s s') (k' : ChannelId) : s'.nameOf k' = s.nameOf k' := by
  rw [Server.nameOf, Server.nameOf, h.channel, Option.map_map]
  congr 1
  funext ch
  simp only [Function.comp_apply]
  split <;> rfl

end

/-- In every state that operations lead to, a Join of a live client and a stored channel succeeds; the client
is then in this channel alone, and nothing else changes. The events are those of the channels it was in,
and those of the new one unless it was in it. A second Join does nothing at all. -/
theorem join_settles {uuid : UuidLib} {historyCap : UInt32} {systemNow steadyNow : Int} {host : Host}
    (h : Host.Reached uuid (.initial historyCap systemNow steadyNow) host) (order : BucketOrder) {c : ClientId}
    {cs : ClientSession} {k : ChannelId} (hcs : host.server.session c = some cs)
    (hk : host.server.channel k ≠ none) :
    ∃ s', ports.exec (JoinChannel.execute order c k) host.server = (.ok (), s') ∧
      s'.joined c = {k} ∧ s'.members k = insert c (host.server.members k) ∧
      (∀ k' ≠ k, s'.members k' = (host.server.members k').erase c) ∧
      (∀ k', s'.nameOf k' = host.server.nameOf k') ∧
      s'.session c = some { cs with joinedChannels := {k} } ∧
      (∀ d ≠ c, s'.session d = host.server.session d) ∧ SameElse host.server s' ∧
      published (JoinChannel.execute order c k) host.server =
        ((order.channels.enum (host.server.channelsOf c)).filter (· ≠ k)).flatMap
          (leaveEvents host.server cs) ++
            (if c ∈ host.server.members k then [] else enterEvents host.server cs k) ∧
      SameStreams (host.server.tell (published (JoinChannel.execute order c k) host.server)) s' ∧
      ∀ order', ports.exec (JoinChannel.execute order' c k) s' = (.ok (), s') ∧
        published (JoinChannel.execute order' c k) s' = [] := by
  have hs := agree_reached h
  obtain ⟨ch, hch⟩ := Option.ne_none_iff_exists'.1 hk
  obtain ⟨s', hexec, hsettles⟩ := JoinChannel.settles_execute order hs hcs hch
  have hstate : (ports.exec (JoinChannel.execute order c k) host.server).2 = s' := by rw [hexec]
  have hcs' : s'.session c = some { cs with joinedChannels := {k} } := by
    rw [hsettles.session, hcs, Option.map_some, if_pos rfl]
  have hch' : s'.channel k = some (ch.with c) := by
    rw [hsettles.channel, hch, Option.map_some, if_pos rfl]
  have hcalls := JoinChannel.requesting_execute order c k
  refine ⟨s', hexec, joined_of_session hcs', ?_, fun k' hne => hsettles.members_other hne,
    hsettles.nameOf, hcs', fun d hd => ?_, hstate ▸ sameElse_exec hcalls _, ?_, ?_, fun order' => ?_⟩
  · rw [hsettles.members k hk, if_pos rfl]
  · rw [hsettles.session]
    simp [hd]
  · rw [JoinChannel.published_execute order hs hcs hch, JoinChannel.joinEvents, hs.channelsOf_eq,
      joined_of_session hcs, id_of_session hcs]
  · rw [← hstate]
    exact sameStreams_exec (hcalls.mono fun _ => Requesting.broadcasts) host.server
  · exact JoinChannel.execute_settled order' hcs' rfl hch' (Finset.mem_insert_self c _)

/-- `ann` leaves the channel to `bob`, and joins the other one a second time. -/
theorem join_settles_twoJoined : ∃ s',
    ports.exec (JoinChannel.execute .byId ⟨2⟩ ⟨4⟩) twoJoined.server = (.ok (), s') ∧
      s'.joined ⟨2⟩ = {⟨4⟩} ∧ s'.members ⟨4⟩ = {⟨2⟩} ∧ s'.members ⟨1⟩ = {⟨3⟩} ∧
      ports.exec (JoinChannel.execute .byId ⟨2⟩ ⟨4⟩) s' = (.ok (), s') ∧
      published (JoinChannel.execute .byId ⟨2⟩ ⟨4⟩) s' = [] := by
  have hsession : twoJoined.server.session ⟨2⟩ ≠ none := by decide +kernel
  obtain ⟨cs, hcs⟩ := Option.ne_none_iff_exists'.1 hsession
  obtain ⟨s', hexec, hjoined, hmembers, hothers, -, -, -, -, -, -, hagain⟩ :=
    join_settles twoJoined_reached .byId hcs (k := ⟨4⟩) (by decide +kernel)
  obtain ⟨hsame, hsilent⟩ := hagain .byId
  refine ⟨s', hexec, hjoined, ?_, ?_, hsame, hsilent⟩
  · have hempty : twoJoined.server.members ⟨4⟩ = ∅ := by decide +kernel
    rw [hmembers, hempty]
    rfl
  · have hboth : twoJoined.server.members ⟨1⟩ = {⟨2⟩, ⟨3⟩} := by decide +kernel
    rw [hothers ⟨1⟩ (by decide), hboth]
    rfl

end Bcmd
