import Bcmd.Lib.Replay
import Bcmd.Routing

/-!
# What a member is told of its channel

While a client is in a channel and its stream in the table, the stream carries every change of the channel's
members, each once, and nothing of other channels. So whoever reads the stream has the member set.
-/

namespace Bcmd
open Server

/-- What an event says of its channel's members. -/
def ChannelEvent.change : ChannelEvent → Option (Change ClientId)
  | message _ => none
  | memberJoined _ c _ => some (.enter c)
  | memberLeft _ c _ => some (.leave c)

/-- `c` is in `k` and in no other channel, and the stream `w` is its stream and no other client's. -/
structure Watched (c : ClientId) (k : ChannelId) (w : StreamId) (s : Server) : Prop where
  notNil : c.value ≠ 0
  mem : c ∈ s.members k
  only : ∀ k', c ∈ s.members k' → k' = k
  owner : ∀ d, s.publisher.writers.lookup d = some w ↔ d = c

/-- From `s` to `s'` the stream got events of `k` alone, which announce the changes of its members once
each. -/
def Tells (k : ChannelId) (w : StreamId) (s s' : Server) : Prop :=
  ∃ events, s'.publisher.written w = s.publisher.written w ++ events ∧ (∀ e ∈ events, e.channelId = k) ∧
    Change.Once (s.members k) (s'.members k) (events.filterMap ChannelEvent.change)

section
variable {c d : ClientId} {k k' : ChannelId} {w : StreamId} {s s₁ s' : Server}

namespace Tells

theorem of_same (hm : s'.members k = s.members k) (hw : s'.publisher.written w = s.publisher.written w) :
    Tells k w s s' := by
  refine ⟨[], by rw [hw, List.append_nil], nofun, ?_⟩
  rw [hm]
  exact .nil _

theorem refl (s : Server) : Tells k w s s := of_same rfl rfl

theorem trans (h : Tells k w s s₁) (h' : Tells k w s₁ s')
    (hone : ∀ d, (d ∈ s.members k ↔ d ∈ s₁.members k) ∨ (d ∈ s₁.members k ↔ d ∈ s'.members k)) :
    Tells k w s s' := by
  obtain ⟨events, hwritten, hown, honce⟩ := h
  obtain ⟨events', hwritten', hown', honce'⟩ := h'
  refine ⟨events ++ events', by rw [hwritten', hwritten, List.append_assoc], fun e he => ?_, ?_⟩
  · rcases List.mem_append.1 he with he | he
    · exact hown e he
    · exact hown' e he
  · rw [List.filterMap_append]
    exact honce.append honce' hone

theorem then_same (h : Tells k w s s₁) (hm : s'.members k = s₁.members k)
    (hw : s'.publisher.written w = s₁.publisher.written w) : Tells k w s s' :=
  h.trans (of_same hm hw) fun _ => .inr (by rw [hm])

end Tells

namespace Watched

theorem congr (h : Watched c k w s) (hm : ∀ k', s'.members k' = s.members k')
    (hp : s'.publisher.writers = s.publisher.writers) :
    Watched c k w s' where
  notNil := h.notNil
  mem := by rw [hm]; exact h.mem
  only k' := by rw [hm]; exact h.only k'
  owner d := by rw [hp]; exact h.owner d

theorem unregister (h : Watched c k w s) (hd : d ≠ c) :
    Watched c k w (handle (.publisher (.unregisterSubscriber d)) s).2 where
  notNil := h.notNil
  mem := h.mem
  only := h.only
  owner d' := by
    show (s.publisher.writers.erase d).lookup d' = some w ↔ d' = c
    by_cases hd' : d' = d
    · subst hd'
      rw [Finmap.lookup_erase]
      exact ⟨nofun, fun h => absurd h hd⟩
    · rw [Finmap.lookup_erase_ne hd']
      exact h.owner d'

/-- Of a broadcast, the stream gets one event, if its client is among the recipients. -/
theorem written_broadcast (h : Watched c k w s) (recipients : Finset ClientId) (event : ChannelEvent) :
    (s.publisher.writeWhere (GrpcClientPublisher.isTarget recipients) event).written w =
      s.publisher.written w ++ if c ∈ recipients then [event] else [] := by
  have hkeys : (s.publisher.writers.keys.filter fun id =>
      GrpcClientPublisher.isTarget recipients id ∧ s.publisher.writers.lookup id = some w) =
        if c ∈ recipients then {c} else ∅ := by
    ext d
    have hc : s.publisher.writers.lookup c = some w := (h.owner c).2 rfl
    rw [Finset.mem_filter, h.owner d]
    split
    · rw [Finset.mem_singleton]
      refine ⟨fun hd => hd.2.2, ?_⟩
      rintro rfl
      exact ⟨Finmap.mem_keys.2 (Finmap.mem_of_lookup_eq_some hc), decide_eq_true ⟨h.notNil, ‹_›⟩, rfl⟩
    · simp only [Finset.notMem_empty, iff_false]
      rintro ⟨-, htarget, rfl⟩
      exact ‹d ∉ recipients› (of_decide_eq_true htarget).2
  unfold Subscribers.writeWhere
  dsimp only
  rw [hkeys]
  split <;> simp

/-- Where the broadcast goes to the members of the channel it is about, and that has just changed as the
event tells. -/
theorem tells_broadcast (h : Watched c k w s₁) (hp : s₁.publisher = s.publisher)
    {recipients : Finset ClientId} {e : ChannelEvent} (hto : c ∈ recipients ↔ e.channelId = k)
    (hchange : e.channelId = k → Change.Once (s.members k) (s₁.members k) e.change.toList)
    (hother : e.channelId ≠ k → s₁.members k = s.members k) (hm : s'.members k = s₁.members k)
    (hwrite : s'.publisher = s₁.publisher.writeWhere (GrpcClientPublisher.isTarget recipients) e) :
    Tells k w s s' := by
  refine ⟨if c ∈ recipients then [e] else [], ?_, fun e' he => ?_, ?_⟩
  · rw [hwrite, h.written_broadcast, hp]
  · split at he
    · rw [List.mem_singleton.1 he]
      exact hto.1 ‹_›
    · cases he
  · rw [hm]
    by_cases hk : e.channelId = k
    · have hone : [e].filterMap ChannelEvent.change = e.change.toList := by cases e <;> rfl
      rw [if_pos (hto.2 hk), hone]
      exact hchange hk
    · rw [if_neg fun hin => hk (hto.1 hin), hother hk]
      exact .nil _

end Watched

/-! ### Going out -/

/-- Clients only go out of `k`, the stream is told so, and all stays as it was for its own client. -/
structure Departs (c : ClientId) (k : ChannelId) (w : StreamId) (s s' : Server) : Prop where
  watched : Watched c k w s'
  tells : Tells k w s s'
  sub : s'.members k ⊆ s.members k

namespace Departs

theorem refl (h : Watched c k w s) : Departs c k w s s := ⟨h, .refl s, Finset.Subset.refl _⟩

theorem trans (h : Departs c k w s s₁) (h' : Departs c k w s₁ s') : Departs c k w s s' := by
  refine ⟨h'.watched, h.tells.trans h'.tells fun d => ?_, h'.sub.trans h.sub⟩
  by_cases hd : d ∈ s₁.members k
  · exact .inl ⟨fun _ => hd, fun _ => h.sub hd⟩
  · exact .inr ⟨fun h => absurd h hd, fun h => absurd (h'.sub h) hd⟩

theorem then_same (h : Departs c k w s s₁) (hm : ∀ k', s'.members k' = s₁.members k')
    (hp : s'.publisher = s₁.publisher) : Departs c k w s s' :=
  ⟨h.watched.congr hm (by rw [hp]), h.tells.then_same (hm k) (by rw [hp]), by rw [hm]; exact h.sub⟩

theorem other (h : Departs c k w s s₁) {o : Call} (hs : ∀ ch, o ≠ .channels (.save ch))
    (hp : ∀ o', o ≠ .publisher o') : Departs c k w s (handle o s₁).2 :=
  h.then_same (members_handle o hs s₁) (publisher_handle s₁ hp)

theorem unregister (h : Departs c k w s s₁) (hd : d ≠ c) :
    Departs c k w s (handle (.publisher (.unregisterSubscriber d)) s₁).2 :=
  ⟨h.watched.unregister hd, h.tells.then_same rfl rfl, h.sub⟩

end Departs

/-- A removal of another client, or from another channel. -/
theorem departs_removeMember (h : Watched c k w s) (cs : ClientSession) (k' : ChannelId)
    (hne : cs.id ≠ c ∨ k' ≠ k) :
    Departs c k w s (ports.exec (removeMemberAndBroadcast cs k') s).2 := by
  simp only [removeMemberAndBroadcast, Prog.perform_bind, Prog.pure_eq, exec_findChannel]
  rcases hch : s.channel k' with _ | ch
  · exact .refl h
  rcases hr : ch.removeMember cs.id with e | ch'
  · simp only [hr]
    exact .refl h
  simp only [hr]
  obtain ⟨hm, rfl⟩ := Channel.removeMember_ok.1 hr
  obtain rfl := id_of_channel hch
  have hmembers := members_of_channel hch
  -- the removed client is in the channel, so it is not the watching one
  have hother : cs.id ≠ c := by
    rintro rfl
    rcases hne with hne | hne
    · exact hne rfl
    · exact hne (h.only _ (by rwa [hmembers]))
  have hsaved := members_save_of_channel hch (Finset.erase · cs.id)
  have hwatched : Watched c k w (handle (.channels
      (.save { ch with members := ch.members.erase cs.id })) s).2 := by
    refine ⟨h.notNil, ?_, fun k' hk' => h.only k' ?_, h.owner⟩
    · rw [hsaved]
      split
      · exact Finset.mem_erase.2 ⟨hother.symm, h.mem⟩
      · exact h.mem
    · rw [hsaved] at hk'
      split at hk'
      · exact Finset.mem_of_mem_erase hk'
      · exact hk'
  have hto : c ∈ ch.members.erase cs.id ↔ ch.id = k := by
    rw [Finset.mem_erase, ← hmembers]
    refine ⟨fun hin => h.only _ hin.2, ?_⟩
    rintro rfl
    exact ⟨hother.symm, h.mem⟩
  refine ⟨hwatched.congr (fun _ => rfl) rfl, ?_, ?_⟩
  · refine hwatched.tells_broadcast (e := .memberLeft ch.id cs.id cs.username.value) rfl hto ?_ ?_ rfl rfl
    · intro hk
      obtain rfl : ch.id = k := hk
      rw [hsaved, if_pos rfl]
      exact .leave (by rwa [hmembers])
    · intro hk
      rw [hsaved, if_neg fun h => hk h.symm]
  · show (handle (.channels (.save _)) s).2.members k ⊆ _
    rw [hsaved]
    split
    · exact Finset.erase_subset _ _
    · exact Finset.Subset.refl _

theorem departs_publishCountIfStored (h : Watched c k w s) (k' : ChannelId) :
    Departs c k w s (ports.exec (JoinChannel.publishCountIfStored k') s).2 := by
  rw [JoinChannel.exec_publishCountIfStored]
  rcases s.channel k' with _ | ch
  · exact .refl h
  · exact (Departs.refl h).other (o := .channelList _) nofun nofun

theorem departs_leaveEach (h : Watched c k w s) {cs : ClientSession} {ks : List ChannelId}
    (hne : cs.id ≠ c ∨ ∀ k' ∈ ks, k' ≠ k) : Departs c k w s
      (ports.exec (JoinChannel.leaveEach cs ks) s).2 := by
  induction ks generalizing s with
  | nil => exact .refl h
  | cons k' ks ih =>
    have hremoved := departs_removeMember h cs k' (hne.imp_right fun hks => hks k' (List.mem_cons_self ..))
    simp only [JoinChannel.leaveEach, Machine.exec_bind]
    rcases tolerate [.notAMember, .channelNotFound]
      (ports.exec (removeMemberAndBroadcast cs k') s).1 with e | _
    · exact hremoved
    have hleft := hremoved.other (o := .clients (.leaveChannelAtomic cs.id k')) (by simp) (by simp)
    dsimp only
    simp only [Machine.exec_bind, Machine.exec_perform]
    rcases tolerate [.clientNotFound] (ports.handle (.clients (.leaveChannelAtomic cs.id k'))
      (ports.exec (removeMemberAndBroadcast cs k') s).2).1 with e | _
    · exact hleft
    · simp only [Machine.exec_bind]
      have hcounted := hleft.trans (departs_publishCountIfStored hleft.watched k')
      exact hcounted.trans (ih hcounted.watched
        (hne.imp_right fun hks k hk => hks k (List.mem_cons_of_mem k' hk)))

theorem departs_leaveChannel (h : Watched c k w s) (k' : ChannelId) (hne : d ≠ c ∨ k' ≠ k) :
    Departs c k w s (ports.exec (LeaveChannel.execute d k') s).2 := by
  simp only [LeaveChannel.execute, Prog.perform_bind, Prog.pure_eq, exec_findSession]
  rcases hcs : s.session d with _ | cs
  · exact .refl h
  have hremoved := departs_removeMember h cs k' (by rwa [id_of_session hcs])
  simp only [Machine.exec_bind]
  rcases (ports.exec (removeMemberAndBroadcast cs k') s).1 with e | _
  · exact hremoved
  generalize (ports.exec (removeMemberAndBroadcast cs k') s).2 = s₁ at hremoved ⊢
  have hleft := hremoved.other (o := .clients (.leaveChannelAtomic d k')) (by simp) (by simp)
  dsimp only
  rw [Machine.exec_call]
  rcases tolerate [.clientNotFound] (ports.handle (.clients (.leaveChannelAtomic d k')) s₁).1 with e | _
  · exact hleft
  dsimp only
  rw [exec_findChannel]
  rcases (ports.handle (.clients (.leaveChannelAtomic d k')) s₁).2.channel k' with _ | ch
  · exact hleft
  · exact hleft.other (o := .channelList _) (by simp) (by simp)

theorem departs_disconnect (order : BucketOrder) (h : Watched c k w s) (hd : d ≠ c) :
    Departs c k w s (ports.exec (BroadcastService.disconnectClient order d) s).2 := by
  have hleave : ∀ ks {s}, Watched c k w s → Departs c k w s
      (ports.exec (BroadcastService.leaveEach d ks) s).2 := by
    intro ks
    induction ks with
    | nil => exact .refl
    | cons k' ks ih =>
      intro s h
      have hleft := departs_leaveChannel h k' (.inl hd)
      simp only [BroadcastService.leaveEach, Machine.exec_bind]
      exact hleft.trans (ih hleft.watched)
  simp only [BroadcastService.disconnectClient, Prog.perform_bind, Prog.pure_eq, exec_findSession]
  rcases s.session d with _ | cs
  · exact .refl h
  simp only [Machine.exec_bind, Machine.exec_call]
  have hleft := hleave (order.channels.enum cs.joinedChannels) h
  generalize (ports.exec (BroadcastService.leaveEach d _) s).2 = s₁ at hleft ⊢
  have hremoved := hleft.other (o := .clients (.remove d)) (by simp) (by simp)
  rcases (ports.handle (.clients (.remove d)) s₁).1 with e | _
  · exact hremoved
  · exact hremoved.unregister hd

/-- One round of the sweep, for another client. -/
theorem departs_expireOne (h : Watched c k w s) {cs : ClientSession} (hne : cs.id ≠ c) (ks : List ChannelId) :
    Departs c k w s (ports.handle (.publisher (.unregisterSubscriber cs.id))
      (ports.handle (.clients (.remove cs.id))
      (ports.exec (ExpireInactiveClients.removeFromEach cs ks) s).2).2).2 := by
  have hout : ∀ ks {s}, Watched c k w s → Departs c k w s
      (ports.exec (ExpireInactiveClients.removeFromEach cs ks) s).2 := by
    intro ks
    induction ks with
    | nil => exact .refl
    | cons k' ks ih =>
      intro s h
      have hremoved := departs_removeMember h cs k' (.inl hne)
      simp only [ExpireInactiveClients.removeFromEach, Machine.exec_bind]
      exact hremoved.trans (ih hremoved.watched)
  exact ((hout ks h).other (o := .clients (.remove cs.id)) (by simp) (by simp)).unregister hne

/-- A sweep that leaves the watching client in its channel. -/
theorem departs_expireEach (order : BucketOrder) {expired : List ClientSession} (h : Watched c k w s)
    (hs : Agree s)
    (count : Nat) (hcur : ∀ cs ∈ expired, s.session cs.id = some cs)
    (hnd : (expired.map ClientSession.id).Nodup)
    (hstays : c ∈ (ports.exec (ExpireInactiveClients.expireEach order count expired) s).2.members k) :
    Departs c k w s (ports.exec (ExpireInactiveClients.expireEach order count expired) s).2 := by
  induction expired generalizing s count with
  | nil => exact .refl h
  | cons cs expired ih =>
    rw [List.map_cons, List.nodup_cons] at hnd
    have hends := ExpireInactiveClients.ends_expireOne order (hcur cs (List.mem_cons_self ..))
      (hs.channelsOf_eq cs.id).le
    simp only [ExpireInactiveClients.expireEach, Machine.exec_bind, Machine.exec_perform] at hstays ⊢
    by_cases hc : cs.id = c
    · -- once out, it is not taken in again
      have hroutes := @ExpireInactiveClients.routes_expireEach (fun _ _ => False) order (count + 1) expired
        (ports.handle (.publisher (.unregisterSubscriber cs.id)) (ports.handle (.clients (.remove cs.id))
          (ports.exec (ExpireInactiveClients.removeFromEach cs (order.channels.enum cs.joinedChannels))
            s).2).2).2
      rcases hroutes.members c k hstays with hin | hno
      · rw [hends.members, hc] at hin
        exact absurd rfl (Finset.ne_of_mem_erase hin)
      · exact hno.elim
    · have hround := departs_expireOne h hc (order.channels.enum cs.joinedChannels)
      refine hround.trans (ih hround.watched (hs.ends hends) (count + 1) (fun cs' hcs' => ?_) hnd.2 hstays)
      have hne : cs'.id ≠ cs.id := fun hid => hnd.1 (by rw [← hid]; exact List.mem_map_of_mem hcs')
      rw [hends.session, if_neg hne]
      exact hcur cs' (List.mem_cons_of_mem cs hcs')

/-! ### Coming in, and what changes no members -/

/-- What an operation does: the stream is told of every change. -/
structure Relays (c : ClientId) (k : ChannelId) (w : StreamId) (s s' : Server) : Prop where
  watched : Watched c k w s'
  tells : Tells k w s s'

theorem Departs.relays (h : Departs c k w s s') : Relays c k w s s' := ⟨h.watched, h.tells⟩

theorem Relays.then_same (h : Relays c k w s s₁) (hm : ∀ k', s'.members k' = s₁.members k')
    (hp : s'.publisher = s₁.publisher) : Relays c k w s s' :=
  ⟨h.watched.congr hm (by rw [hp]), h.tells.then_same (hm k) (by rw [hp])⟩

theorem Relays.other (h : Relays c k w s s₁) {o : Call} (hs : ∀ ch, o ≠ .channels (.save ch))
    (hp : ∀ o', o ≠ .publisher o') : Relays c k w s (handle o s₁).2 :=
  h.then_same (members_handle o hs s₁) (publisher_handle s₁ hp)

/-- Another client comes in: it is saved among the members, its session takes the channel, and the
members hear it. -/
theorem relays_enter (h : Watched c k w s) {ch : Channel} (hch : s.channel k' = some ch) (hd : d ≠ c)
    (hnew : d ∉ ch.members) (name : Username) :
    Relays c k w s (handle (.publisher (.broadcastMemberJoined (ch.with d).id (ch.with d).members d name))
      (handle (.clients (.joinChannelAtomic d k')) (handle (.channels (.save (ch.with d))) s).2).2).2 := by
  obtain rfl := id_of_channel hch
  have hmembers := members_of_channel hch
  have hentered : ∀ k₁, (handle (.clients (.joinChannelAtomic d ch.id))
      (handle (.channels (.save (ch.with d))) s).2).2.members k₁ =
        if k₁ = ch.id then insert d (s.members k₁) else s.members k₁ := fun k₁ =>
    (members_handle (.clients (.joinChannelAtomic d ch.id)) nofun _ k₁).trans
      (members_save_of_channel hch (insert d) k₁)
  have hwatched : Watched c k w (handle (.clients (.joinChannelAtomic d ch.id))
      (handle (.channels (.save (ch.with d))) s).2).2 := by
    refine ⟨h.notNil, ?_, fun k₁ hk₁ => h.only k₁ ?_, h.owner⟩
    · rw [hentered]
      split
      · exact Finset.mem_insert_of_mem h.mem
      · exact h.mem
    · rw [hentered] at hk₁
      split at hk₁
      · exact (Finset.mem_insert.1 hk₁).resolve_left hd.symm
      · exact hk₁
  have hto : c ∈ insert d ch.members ↔ ch.id = k := by
    rw [Finset.mem_insert, ← hmembers]
    constructor
    · intro hin
      exact h.only _ (hin.resolve_left hd.symm)
    · rintro rfl
      exact .inr h.mem
  refine ⟨hwatched.congr (fun _ => rfl) rfl, ?_⟩
  refine hwatched.tells_broadcast (e := .memberJoined ch.id d name.value) rfl hto ?_ ?_ rfl rfl
  · intro hk
    obtain rfl : ch.id = k := hk
    rw [hentered, if_pos rfl]
    exact .enter (by rwa [hmembers])
  · intro hk
    rw [hentered, if_neg fun h => hk h.symm]

theorem relays_joinFound (order : BucketOrder) (h : Watched c k w s) {cs : ClientSession} {ch : Channel}
    (hcs : s.session d = some cs) (hch : s.channel k' = some ch) (hd : d = c → k' = k) :
    Relays c k w s (ports.exec (JoinChannel.joinFound order d cs k' ch) s).2 := by
  have hid := id_of_session hcs
  have hne : cs.id ≠ c ∨ ∀ k₁ ∈ (order.channels.enum cs.joinedChannels).filter (· ≠ k'), k₁ ≠ k := by
    by_cases hdc : d = c
    · refine .inr fun k₁ hk₁ => ?_
      rw [← hd hdc]
      simpa using (List.mem_filter.1 hk₁).2
    · exact .inl (by rwa [hid])
  have hleft := departs_leaveEach h hne
  obtain ⟨s₁, hexec, hleaves⟩ := JoinChannel.exec_leaveOtherChannels order cs k' s
  rw [show ports.exec (JoinChannel.leaveEach cs _) s = _ from hexec] at hleft
  rw [hid] at hleaves
  have hch₁ : s₁.channel k' = some ch := by
    rw [hleaves.putOut k', if_neg (Finset.notMem_erase k' _), hch]
  have hmembers₁ := members_of_channel hch₁
  simp only [JoinChannel.joinFound, Machine.exec_bind, hexec]
  by_cases hm : d ∈ ch.members
  · simp only [Channel.hasMember_iff.2 hm, if_true, Prog.pure_eq, Machine.exec_ret, Machine.exec_bind,
      Machine.exec_perform]
    have hjoin := hleft.relays.other (o := .clients (.joinChannelAtomic d k')) (by simp) (by simp)
    rcases (ports.handle (.clients (.joinChannelAtomic d k')) s₁).1 with e | _ <;> exact hjoin
  · -- the watching client is in its channel already, so it is another one that comes in
    have hdc : d ≠ c := by
      intro hdc
      have hin := hleft.watched.mem
      rw [← hd hdc, hmembers₁, ← hdc] at hin
      exact hm hin
    have hadd : ch.addMember d = .ok (ch.with d) := Channel.addMember_ok.2 ⟨hm, rfl⟩
    have hno : ch.hasMember d = false := by simpa [Channel.hasMember] using hm
    have hok : (ports.handle (.clients (.joinChannelAtomic d k'))
        (ports.handle (.channels (.save (ch.with d))) s₁).2).1 = (.ok () : VoidResult) := by
      refine (fst_joinChannelAtomic _ d k').trans (if_neg ?_)
      show s₁.session d ≠ none
      rw [hleaves.session, if_pos rfl, hcs]
      simp
    have hokSave : (ports.handle (.channels (.save (ch.with d))) s₁).1 = (.ok () : VoidResult) := rfl
    simp only [hno, JoinChannel.addAndSave, hadd, Prog.pure_eq, Machine.exec_perform, Machine.exec_bind,
      Machine.exec_ret, hokSave, hok, Bool.false_eq_true, if_false]
    have hentered := relays_enter hleft.watched hch₁ hdc hm cs.username
    have hboth : Relays c k w s _ := ⟨hentered.watched, hleft.tells.trans hentered.tells fun d' => ?_⟩
    · exact hboth.other (o := .channelList _) (by simp) (by simp)
    · -- who comes into `k` has left no member of it
      by_cases hk : k' = k
      · subst hk
        left
        rw [hleaves.putOut.members, if_neg (Finset.notMem_erase k' _)]
      · right
        show d' ∈ s₁.members k ↔ d' ∈ (handle (.channels (.save (ch.with d))) s₁).2.members k
        rw [show (handle (.channels (.save (ch.with d))) s₁).2.members k = _ from
          members_save_of_channel hch₁ (insert d) k, if_neg (Ne.symm hk)]

theorem relays_join (uuid : UuidLib) (order : BucketOrder) (h : Watched c k w s) (hs : Agree s)
    {clientId channelId : Bytes}
    (hstays : c ∈ (ports.exec (BroadcastService.JoinChannel uuid order clientId channelId) s).2.members k) :
    Relays c k w s (ports.exec (BroadcastService.JoinChannel uuid order clientId channelId) s).2 := by
  -- a join of the watching client itself ends in the one channel that it is then in
  have hown : ∀ {d k' cs ch s'}, s.session d = some cs → s.channel k' = some ch →
      (ports.exec (JoinChannel.joinFound order d cs k' ch) s).2 = s' → c ∈ s'.members k → d = c → k' = k := by
    rintro d k' cs ch s' hcs hch rfl hin rfl
    obtain ⟨s₁, s', hexec, hleaves, hadds⟩ := JoinChannel.exec_joinFound order hcs hch
    rw [hexec, hadds.members (by rw [hleaves.putOut k', if_neg (Finset.notMem_erase k' _), hch]; nofun),
      hleaves.putOut.members] at hin
    by_contra hne
    have hj : k ∈ cs.joinedChannels := by rw [← joined_of_session hcs, ← hs.mem_iff]; exact h.mem
    simp [Ne.symm hne, hj] at hin
  revert hstays
  unfold BroadcastService.JoinChannel
  rcases BroadcastService.parseClient uuid clientId with _ | d
  · exact fun _ => ⟨h, .refl s⟩
  rcases BroadcastService.parseChannel uuid channelId with _ | k'
  · simp only [JoinChannel.executeByName, Prog.perform_bind, Prog.pure_eq, Machine.exec_bind,
      exec_findSession]
    rcases hcs : s.session d with _ | cs
    · exact fun _ => ⟨h, .refl s⟩
    rcases ChannelName.create (trim (trim channelId)) with _ | name
    · exact fun _ => ⟨h, .refl s⟩
    simp only [Machine.exec_call]
    rw [show ports.handle (.channels (.findByName name)) s = (s.channels.findByName name, s) from rfl]
    rcases hr : s.channels.findByName name with e | ch
    · exact fun _ => ⟨h, .refl s⟩
    have hch : s.channel ch.id = some ch := InMemoryChannelRepository.findByName_ok hr
    have hjoin : c ∈ (ports.exec (JoinChannel.joinFound order d cs ch.id ch) s).2.members k →
        Relays c k w s (ports.exec (JoinChannel.joinFound order d cs ch.id ch) s).2 := fun hin =>
      relays_joinFound order h hcs hch (hown hcs hch rfl hin)
    simp only [Machine.exec_bind]
    rcases (ports.exec (JoinChannel.joinFound order d cs ch.id ch) s).1 with e | _ <;> exact hjoin
  · simp only [JoinChannel.execute, Prog.perform_bind, Prog.pure_eq, Machine.exec_bind, exec_findSession,
      exec_findChannel]
    rcases hcs : s.session d with _ | cs
    · exact fun _ => ⟨h, .refl s⟩
    rcases hch : s.channel k' with _ | ch
    · exact fun _ => ⟨h, .refl s⟩
    exact fun hin => relays_joinFound order h hcs hch (hown hcs hch rfl hin)

theorem relays_publishEach (h : Watched c k w s) {m : Message} {ds : List ClientId}
    (hds : ∀ d ∈ ds, d ∈ s.members m.channelId) : Relays c k w s
      (ports.exec (SendMessage.publishEach m ds) s).2 := by
  induction ds generalizing s with
  | nil => exact ⟨h, .refl s⟩
  | cons d ds ih =>
    have hwatched : Watched c k w (handle (.publisher (.publish d m)) s).2 :=
      h.congr (fun _ => rfl) (Subscribers.writers_writeTo ..)
    have htells : Tells k w s (handle (.publisher (.publish d m)) s).2 := by
      refine ⟨if d = c then [.message (messageToEvent s.clients m)] else [], ?_, fun e he => ?_, ?_⟩
      · show (s.publisher.writeTo d _).written w = _
        rw [Subscribers.written_writeTo]
        simp only [h.owner d]
        split <;> simp
      · split at he
        · subst ‹d = c›
          rw [List.mem_singleton.1 he]
          exact h.only m.channelId (hds d (List.mem_cons_self ..))
        · cases he
      · have hnone : (if d = c then [ChannelEvent.message (messageToEvent s.clients m)] else []).filterMap
            ChannelEvent.change = [] := by split <;> rfl
        rw [hnone]
        exact .nil _
    simp only [SendMessage.publishEach, Prog.perform_bind, Machine.exec_call]
    obtain ⟨hwatched', htells'⟩ := ih hwatched fun d' hd' => hds d' (List.mem_cons_of_mem d hd')
    exact ⟨hwatched', htells.trans htells' fun _ => .inl .rfl⟩

theorem relays_sendMessage (order : BucketOrder) (h : Watched c k w s) (d : ClientId) (k' : ChannelId)
    (content : Bytes)
    (echoPolicy : EchoPolicy) : Relays c k w s
      (ports.exec (SendMessage.execute order d k' content echoPolicy) s).2 := by
  simp only [SendMessage.execute, Prog.perform_bind, Prog.pure_eq, exec_findSession, exec_findChannel]
  rcases s.session d with _ | cs
  · exact ⟨h, .refl s⟩
  rcases hch : s.channel k' with _ | ch
  · exact ⟨h, .refl s⟩
  dsimp only
  split
  · exact ⟨h, .refl s⟩
  rcases MessageContent.create content with e | validated
  · exact ⟨h, .refl s⟩
  dsimp only
  rw [Machine.exec_call]
  generalize hm : ((ports.handle (.newMessage d k' validated) s).1 : Message) = m
  have hmk : m.channelId = k' := by rw [← hm]; rfl
  have hsaved : Relays c k w s (handle (.messages (.save m)) (handle (.newMessage d k' validated) s).2).2 :=
    ⟨h.congr (fun _ => rfl) rfl, .of_same rfl rfl⟩
  have hrecipients : ∀ d' ∈ recipientsFor order.clients ch m echoPolicy,
      d' ∈ (handle (.messages (.save m)) (handle (.newMessage d k' validated) s).2).2.members
        m.channelId := by
    intro d' hd'
    rw [hmk]
    show d' ∈ s.members k'
    rw [members_of_channel hch]
    simpa using (List.mem_filter.1 hd').1
  rw [Machine.exec_call, show (ports.handle (.messages (.save m))
    (ports.handle (.newMessage d k' validated) s).2).1 =
    (.ok () : VoidResult) from rfl]
  simp only [Machine.exec_bind, Machine.exec_ret]
  obtain ⟨hwatched, htells⟩ := relays_publishEach hsaved.watched hrecipients
  exact ⟨hwatched, hsaved.tells.trans htells fun _ => .inl .rfl⟩

end

/-! ### The operations -/

/-- Streams have at most one owner, and that has an id. -/
def Host.OwnStreams (host : Host) : Prop :=
  ∀ d v, host.server.publisher.writers.lookup d = some v →
    d.value ≠ 0 ∧ ∀ d', host.server.publisher.writers.lookup d' = some v → d' = d

section
variable {uuid : UuidLib} {order : BucketOrder} {host host' : Host} {c : ClientId} {k : ChannelId}
  {w : StreamId} {s : Server}
open BroadcastService

theorem notNil_of_parse {Tag : Type} {text : Bytes} {id : StrongId Tag}
    (h : StrongId.parse uuid text = some id) :
    id.value ≠ 0 := by
  unfold StrongId.parse at h
  split at h
  · cases h
  · split at h
    · cases h
    · cases h
      assumption

theorem Host.OwnStreams.step (h : host.OwnStreams) (hfresh : host.FreshStreams) (op : Operation) :
    (host.step uuid order op).OwnStreams := by
  by_cases hop : ∃ clientId channelId, op = .subscribeToChannel clientId channelId
  · obtain ⟨clientId, channelId, rfl⟩ := hop
    unfold Host.step
    dsimp only
    split
    · rename_i c k hc hk
      have hnew : ∀ d, host.server.publisher.writers.lookup d ≠ some host.nextStream :=
        (hfresh _ (le_refl _)).2
      intro d v hd
      rcases lookup_beginChannel hd with ⟨rfl, rfl, -⟩ | ⟨hdc, hd⟩
      · refine ⟨notNil_of_parse hc, fun d' hd' => ?_⟩
        rcases lookup_beginChannel hd' with ⟨rfl, -, -⟩ | ⟨-, hd'⟩
        · rfl
        · exact absurd hd' (hnew d')
      · refine ⟨(h d v hd).1, fun d' hd' => ?_⟩
        rcases lookup_beginChannel hd' with ⟨-, rfl, -⟩ | ⟨-, hd'⟩
        · exact absurd hd (hnew d)
        · exact (h d v hd).2 d' hd'
    · exact h
  · have hroutes := @routes_step uuid order host op fun clientId channelId hop' => hop
      ⟨clientId, channelId, hop'⟩
    intro d v hd
    obtain ⟨hne, hone⟩ := h d v (hroutes.writers d v hd)
    exact ⟨hne, fun d' hd' => hone d' (hroutes.writers d' v hd')⟩

theorem ownStreams_reached {historyCap : UInt32} {systemNow steadyNow : Int}
    (h : Host.Reached uuid (.initial historyCap systemNow steadyNow) host) : host.OwnStreams := by
  induction h with
  | refl =>
    intro d v hd
    rw [Host.initial_publisher] at hd
    cases (Finmap.lookup_empty d).symm.trans hd
  | env _ he ih =>
    intro d v hd
    dsimp only at hd ⊢
    rw [he.publisher] at hd ⊢
    exact ih d v hd
  | step order op h ih => exact ih.step (freshStreams_reached h) op

/-- `c` is a member of `k`, and `w` is its stream. -/
def Listening (c : ClientId) (k : ChannelId) (w : StreamId) (host : Host) : Prop :=
  c ∈ host.server.members k ∧ host.server.publisher.writers.lookup c = some w

instance : Decidable (Listening c k w host) := inferInstanceAs (Decidable (_ ∧ _))

theorem watched_of_listening (hs : Agree host.server) (hown : host.OwnStreams) (h : Listening c k w host) :
    Watched c k w host.server where
  notNil := (hown c w h.2).1
  mem := h.1
  only k' hk' := Finset.card_le_one.1 (hs.one c) k' ((hs.mem_iff c k').1 hk') k ((hs.mem_iff c k).1 h.1)
  owner d := ⟨fun hd => (hown c w h.2).2 d hd, fun hd => by rw [hd]; exact h.2⟩

theorem tells_disconnect (uuid : UuidLib) (order : BucketOrder) (hw : Watched c k w s) (hs : Agree s)
    (clientId : Bytes) (hin : c ∈ (ports.exec (Disconnect uuid order clientId) s).2.members k) :
    Tells k w s (ports.exec (Disconnect uuid order clientId) s).2 := by
  revert hin
  unfold Disconnect
  rcases parseClient uuid clientId with _ | d
  · exact fun _ => .refl _
  by_cases hd : d = c
  · -- it is out of its channel, unless it was not connected
    subst hd
    rcases exec_disconnectClient order (hs.channelsOf_eq d) with hexec | ⟨-, hends⟩
    · rw [hexec]
      exact fun _ => .refl _
    · intro hin
      rw [hends.members] at hin
      exact absurd rfl (Finset.ne_of_mem_erase hin)
  · exact fun _ => (departs_disconnect order hw hd).tells

theorem tells_leaveChannel (uuid : UuidLib) (hw : Watched c k w s) (hs : Agree s) (clientId channelId : Bytes)
    (hin : c ∈ (ports.exec (BroadcastService.LeaveChannel uuid clientId channelId) s).2.members k) :
    Tells k w s (ports.exec (BroadcastService.LeaveChannel uuid clientId channelId) s).2 := by
  revert hin
  unfold BroadcastService.LeaveChannel
  rcases parseClient uuid clientId with _ | d
  · exact fun _ => .refl _
  rcases parseChannel uuid channelId with _ | k'
  · exact fun _ => .refl _
  simp only [Machine.exec_bind]
  by_cases hne : d ≠ c ∨ k' ≠ k
  · exact fun _ => (departs_leaveChannel hw k' hne).tells
  · -- the client's own leave takes it out
    obtain ⟨rfl, rfl⟩ : d = c ∧ k' = k := by simpa only [not_or, not_not] using hne
    obtain ⟨cs, hcs, -⟩ := mem_joined.1 ((hs.mem_iff d k').1 hw.mem)
    obtain ⟨s', hexec, hleaves⟩ := exec_leaveChannel_mem hcs hw.mem
    intro hin
    have hout : d ∈ s'.members k' := by
      rw [hexec] at hin
      exact hin
    rw [hleaves.putOut.members, if_pos (Finset.mem_singleton_self k')] at hout
    exact absurd rfl (Finset.ne_of_mem_erase hout)

/-- An operation after which the client is still in the channel with the same stream. -/
theorem tells_step (hs : Agree host.server) (hown : host.OwnStreams)
    (h : Listening c k w host) (op : Operation) (hstays : Listening c k w (host.step uuid order op)) :
    Tells k w host.server (host.step uuid order op).server := by
  have hw := watched_of_listening hs hown h
  have hcalls : ∀ {α : Type} {task : Task α}, task.Calls (fun o => (∀ ch, o ≠ .channels (.save ch)) ∧
      ∀ o', o ≠ .publisher o') → Tells k w host.server (ports.exec task host.server).2 := fun htask =>
    (Machine.exec_preserves ports (I := Relays c k w host.server) (fun _ _ ho hf => hf.other ho.1 ho.2) htask
      ⟨hw, .refl _⟩).tells
  have hquiet : ∀ {α : Type} {task : Task α}, task.Calls Quiet →
      Tells k w host.server (ports.exec task host.server).2 :=
    fun htask => hcalls (htask.mono fun o ho => ⟨by rintro ch rfl; exact ho, by rintro o' rfl; exact ho⟩)
  cases op with
  | connect name => exact hquiet (quiet_connect name)
  | disconnect clientId => exact tells_disconnect uuid order hw hs clientId hstays.1
  | listChannels => exact .refl _
  | createChannel clientId name =>
    refine hcalls (calls_rpc_createChannel uuid ?_ ?_ ?_ clientId name)
    all_goals exact fun _ => ⟨nofun, nofun⟩
  | joinChannel clientId channelId => exact (relays_join uuid order hw hs hstays.1).tells
  | leaveChannel clientId channelId => exact tells_leaveChannel uuid hw hs clientId channelId hstays.1
  | sendMessage clientId channelId content =>
    show Tells k w host.server (ports.exec (BroadcastService.SendMessage uuid order clientId channelId
      content) host.server).2
    unfold BroadcastService.SendMessage
    rcases parseClient uuid clientId with _ | d
    · exact .refl _
    rcases parseChannel uuid channelId with _ | k'
    · exact .refl _
    · simp only [Machine.exec_bind]
      exact (relays_sendMessage order hw d k' _ _).tells
  | listMessages clientId channelId before limit =>
    exact hquiet (quiet_listMessages uuid clientId channelId before limit)
  | heartbeat clientId => exact hquiet (quiet_heartbeat uuid clientId)
  | subscribeToChannel clientId channelId =>
    unfold Host.step
    dsimp only
    split
    · refine .of_same ?_ (by rw [written_beginChannel])
      rw [server_beginChannel]
      rfl
    · exact .refl _
  | endChannelStream stream =>
    unfold Host.step
    dsimp only
    split
    · exact .refl _
    · exact .of_same rfl rfl
  | subscribeToChannelList clientId =>
    unfold Host.step
    dsimp only
    split
    · have hbegun := hcalls (calls_beginListStream order (fun _ => ⟨nofun, nofun⟩)
        (fun _ _ _ => ⟨nofun, nofun⟩) ‹_›
        host.nextStream)
      unfold Host.beginList
      dsimp only
      split <;> exact hbegun
    · exact .refl _
  | endListStream stream =>
    unfold Host.step
    dsimp only
    split
    · exact .refl _
    · exact .of_same rfl rfl
  | expire deadline =>
    refine (departs_expireEach order hw hs 0 (fun cs hcs =>
      (InMemoryClientRegistry.mem_collectExpired.1 hcs).1) ?_
      hstays.1).tells
    exact (host.server.clients.clientsById.nodup_map_values order.clients).sublist (List.filter_sublist.map _)

/-- As long as a client is in a channel with one and the same stream: the stream gets events of this
channel alone, the changes they tell of lead from the members at the start to the members there are,
none of them is told in vain, and of each operation every change is told once. -/
theorem members_replayed {historyCap : UInt32} {systemNow steadyNow : Int}
    (hstart : Host.Reached uuid (.initial historyCap systemNow steadyNow) host)
    (hrun : Host.ReachedIn uuid (Listening c k w) host host') :
    (∃ events, host'.server.publisher.written w = host.server.publisher.written w ++ events ∧
      (∀ e ∈ events, e.channelId = k) ∧
      Change.replay (host.server.members k) (events.filterMap ChannelEvent.change) = host'.server.members k ∧
      Change.Effective (host.server.members k) (events.filterMap ChannelEvent.change)) ∧
    ∀ order op, Listening c k w (host'.step uuid order op) →
      ∃ events, (host'.step uuid order op).server.publisher.written w =
        host'.server.publisher.written w ++ events ∧
        Change.Once (host'.server.members k) ((host'.step uuid order op).server.members k)
          (events.filterMap ChannelEvent.change) := by
  have htells : ∀ {host'}, Host.ReachedIn uuid (Listening c k w) host host' → ∀ order op,
      Listening c k w (host'.step uuid order op) →
        Tells k w host'.server (host'.step uuid order op).server := by
    intro host' hrun order op hstays
    obtain ⟨hreached, hin⟩ := hrun.reached hstart
    exact tells_step (agree_reached hreached) (ownStreams_reached hreached) hin op hstays
  refine ⟨?_, fun order op hstays => ?_⟩
  · induction hrun with
    | refl => exact ⟨[], (List.append_nil _).symm, nofun, rfl, .nil⟩
    | @env host' s' _ he _ ih =>
      have hmembers : s'.members k = host'.server.members k :=
        members_congr (congrArg (·.channelsById.find k) he.channels)
      rw [he.publisher, hmembers]
      exact ih
    | step order op hrun hstays ih =>
      obtain ⟨events, hwritten, hown, hreplay, heffective⟩ := ih
      obtain ⟨events', hwritten', hown', honce⟩ := htells hrun order op hstays
      refine ⟨events ++ events', by rw [hwritten', hwritten, List.append_assoc], fun e he => ?_, ?_, ?_⟩
      · rcases List.mem_append.1 he with he | he
        · exact hown e he
        · exact hown' e he
      · rw [List.filterMap_append, Change.replay_append, hreplay]
        exact honce.replay_eq
      · rw [List.filterMap_append]
        refine heffective.append ?_
        rw [hreplay]
        exact honce.effective
  · obtain ⟨events, hwritten, -, honce⟩ := htells hrun order op hstays
    exact ⟨events, hwritten, honce⟩

end

/-! Client `2`, in the channel `1` with an open stream, sees client `3` come. -/

theorem members_replayed_joinedBeside :
    ∃ events, joinedBeside.server.publisher.written 0 = opened.server.publisher.written 0 ++ events ∧
      Change.replay {⟨2⟩} (events.filterMap ChannelEvent.change) = {⟨2⟩, ⟨3⟩} := by
  have hrun : Host.ReachedIn .canonical (Listening ⟨2⟩ ⟨1⟩ 0) opened joinedBeside :=
    ((Host.ReachedIn.refl (by decide +kernel)).step .byId (.connect (ascii "bob"))
      (by decide +kernel)).step .byId
      joiningBeside (by decide +kernel)
  obtain ⟨events, hwritten, -, hreplay, -⟩ := (members_replayed (oneJoined_reached.step .byId opening) hrun).1
  have hbefore : opened.server.members ⟨1⟩ = {⟨2⟩} := by decide +kernel
  have hafter : joinedBeside.server.members ⟨1⟩ = {⟨2⟩, ⟨3⟩} := by decide +kernel
  rw [← hbefore, ← hafter]
  exact ⟨events, hwritten, hreplay⟩

end Bcmd
