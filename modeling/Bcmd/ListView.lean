import Bcmd.Agreement
import Bcmd.ChannelsStore

/-!
# The channel list of a web client

Every operation but the sweep writes what it changes in the channels to the open list streams, and so a
store that is fed by such a stream follows the repository. In the middle of an operation the store is
behind in the counts of some channels (`Lags`).
-/

namespace Bcmd
open Server

/-- A stored channel as the web client is to show it. -/
def shown (ch : Channel) : Web.Channel := ⟨ch.id, ch.name.value, ch.memberCount⟩

/-- After the events the store has exactly the stored channels. -/
def Follows (s : Server) (events : List ChannelListEvent) : Prop :=
  ∀ k, (Web.fold events).channels.lookup k = (s.channel k).map shown

/-- A sweep that takes nobody out of a channel, and no second list stream of a client that has one open. -/
def Announces (uuid : UuidLib) (host : Host) : Operation → Prop
  | .expire deadline =>
    ∀ c cs, host.server.session c = some cs → cs.isExpired deadline → cs.joinedChannels = ∅
  | .subscribeToChannelList clientId =>
    ∀ c, BroadcastService.parseClient uuid clientId = some c → ∀ w, host.listStreams.lookup w ≠ some c
  | _ => True

/-! ### A store that is behind -/

/-- What the wire carries of a channel: its count has 32 bits. -/
def carried (ch : Channel) : Web.Channel := Web.toChannel (populateChannelSummary ch)

/-- Nothing but the members of the channels `K` has changed from `s` to `s'`. -/
structure SameBut (K : Set ChannelId) (s s' : Server) : Prop where
  named : ∀ k, (s'.channel k).map (fun ch => (ch.id, ch.name)) = (s.channel k).map fun ch => (ch.id, ch.name)
  same : ∀ k, k ∉ K → s'.channel k = s.channel k

/-- The store has the stored channels, with the counts that the wire carries except for those of `K`. -/
structure Lags (K : Set ChannelId) (state : Web.ChannelsState) (s : Server) : Prop where
  named : ∀ k, (state.channels.lookup k).map (fun ch => (ch.id, ch.name)) =
    (s.channel k).map fun ch => (ch.id, ch.name.value)
  counts : ∀ k, k ∉ K → state.channels.lookup k = (s.channel k).map carried

section
variable {K K' : Set ChannelId} {k : ChannelId} {state : Web.ChannelsState} {s s' : Server} {ch : Channel}

theorem SameBut.of_putOut {c : ClientId} {L : Finset ChannelId} (h : PutOut c L s s') :
    SameBut {k | k ∈ L} s s' := by
  refine ⟨fun k => ?_, fun k hk => (h k).trans (if_neg hk)⟩
  rw [h k]
  split
  · rw [Option.map_map]
    rfl
  · rfl

theorem SameBut.save (hch : s.channel k = some ch) {members : Finset ClientId} :
    SameBut {k} s (handle (.channels (.save { ch with members := members })) s).2 := by
  have hid : ch.id = k := id_of_channel hch
  refine ⟨fun k' => ?_, fun k' hk => ?_⟩
  · rw [channel_save]
    split
    · rw [show k' = k from ‹k' = _›.trans hid, hch]
      rfl
    · rfl
  · rw [channel_save]
    exact if_neg fun h => hk (h.trans hid)

namespace Lags

theorem mono (h : Lags K state s) (hK : K ⊆ K') : Lags K' state s :=
  ⟨h.named, fun k hk => h.counts k fun hk' => hk (hK hk')⟩

theorem step (h : Lags K state s) (hs : SameBut K' s s') : Lags (K ∪ K') state s' := by
  refine ⟨fun k => ?_, fun k hk => ?_⟩
  · have hnamed := congrArg (Option.map fun p : ChannelId × ChannelName => (p.1, p.2.value)) (hs.named k)
    simp only [Option.map_map, Function.comp_def] at hnamed
    rw [h.named, hnamed]
  · rw [hs.same k fun hk' => hk (.inr hk')]
    exact h.counts k fun hk' => hk (.inl hk')

theorem count (h : Lags K state s) (hch : s.channel k = some ch) :
    Lags (K \ {k}) (Web.applyMemberCountChanged k (toInt32 ch.memberCount).toInt state) s := by
  refine ⟨fun k' => ?_, fun k' hk => ?_⟩
  · rw [Web.lookup_applyMemberCountChanged, ← h.named]
    split
    · rw [Option.map_map]
      rfl
    · rfl
  · rw [Web.lookup_applyMemberCountChanged]
    split
    · subst ‹k' = k›
      have hnamed := h.named k'
      rw [hch] at hnamed ⊢
      obtain ⟨existing, hlookup, heq⟩ := Option.map_eq_some_iff.1 hnamed
      obtain ⟨hid, hname⟩ := Prod.mk.inj heq
      rw [hlookup]
      simp only [Option.map_some, carried, Web.toChannel, populateChannelSummary, hid, hname]
    · exact h.counts k' fun hk' => hk ⟨hk', ‹k' ≠ k›⟩

theorem created (h : Lags K state s)
    (hnew : ∀ k', s'.channel k' = if k' = ch.id then some ch else s.channel k') :
    Lags K (Web.applyCreated (carried ch) state) s' := by
  refine ⟨fun k => ?_, fun k hk => ?_⟩ <;> rw [Web.lookup_applyCreated, hnew]
  · show Option.map _ (if k = ch.id then _ else _) = _
    split
    · rfl
    · exact h.named k
  · show (if k = ch.id then _ else _) = _
    split
    · rfl
    · exact h.counts k hk

theorem snapshot (order : IterOrder ChannelId) (state : Web.ChannelsState) (s : Server) : Lags ∅
    (Web.processChannelListEvent (.snapshot ((s.channels.listAll order).map populateChannelSummary))
      state) s := by
  have hlookup : ∀ k, (Web.processChannelListEvent
      (.snapshot ((s.channels.listAll order).map populateChannelSummary)) state).channels.lookup k =
        (s.channel k).map carried := by
    intro k
    have hmem : ∀ ch, ch ∈ s.channels.listAll order ↔ s.channel ch.id = some ch := fun ch => Keyed.mem_values
    have hlist : ∀ ch' ∈ ((s.channels.listAll order).map populateChannelSummary).map Web.toChannel,
        (s.channel ch'.id).map carried = some ch' := by
      intro ch' hch'
      rw [List.map_map] at hch'
      obtain ⟨ch, hch, rfl⟩ := List.mem_map.1 hch'
      show (s.channel ch.id).map carried = some (carried ch)
      rw [(hmem ch).1 hch]
      rfl
    refine (Web.lookup_applySnapshot (f := fun k => (s.channel k).map carried) hlist).trans ?_
    split
    · rfl
    · rename_i hk
      rcases hch : s.channel k with _ | ch
      · rfl
      · obtain rfl := id_of_channel hch
        refine absurd ?_ hk
        simp only [List.map_map, List.mem_map]
        exact ⟨ch, (hmem ch).2 hch, rfl⟩
  refine ⟨fun k => ?_, fun k _ => hlookup k⟩
  rw [hlookup, Option.map_map]
  rfl

end Lags

end

/-! ### The open streams -/

/-- The streams `O` are in the table, and their stores are behind at most in the counts of `K`; new ids
are fresh. -/
structure Mirrors (O : ClientId → StreamId → Prop) (K : Set ChannelId) (s : Server) : Prop where
  fresh : ∀ k, s.channel k ≠ none → k.value < s.nextUuid
  entry : ∀ c w, O c w → s.channelList.writers.lookup c = some w
  lags : ∀ c w, O c w → Lags K (Web.fold (s.channelList.written w)) s

/-- An event that is published goes to every stream in the table. -/
theorem fold_publish {p : GrpcChannelListPublisher} {c : ClientId} {w : StreamId}
    (h : p.writers.lookup c = some w)
    (event : ChannelListEvent) : Web.fold ((p.writeWhere (fun _ => true) event).written w) =
      Web.processChannelListEvent event (Web.fold (p.written w)) := by
  refine Web.fold_replicate _ _ (Finset.card_ne_zero.2 ⟨c, Finset.mem_filter.2 ⟨?_, rfl, h⟩⟩)
  exact Finmap.mem_keys.2 (Finmap.mem_of_lookup_eq_some h)

namespace Mirrors
variable {O : ClientId → StreamId → Prop} {K K' : Set ChannelId} {k : ChannelId} {s s' : Server}
  {ch : Channel}

theorem mono (h : Mirrors O K s) (hK : K ⊆ K') : Mirrors O K' s :=
  ⟨h.fresh, h.entry, fun c w ho => (h.lags c w ho).mono hK⟩

/-- Members change, and nothing is written. -/
theorem silent (h : Mirrors O K s) (hs : SameBut K' s s') (hlist : s'.channelList = s.channelList)
    (huuid : s.nextUuid ≤ s'.nextUuid) : Mirrors O (K ∪ K') s' := by
  refine ⟨fun k hk => ?_, fun c w ho => ?_, fun c w ho => ?_⟩
  · refine (h.fresh k fun hnone => hk ?_).trans_le huuid
    have hnamed := hs.named k
    rw [hnone] at hnamed
    exact Option.map_eq_none_iff.1 hnamed
  · rw [hlist]
    exact h.entry c w ho
  · rw [hlist]
    exact (h.lags c w ho).step hs

theorem same (h : Mirrors O K s) (hch : ∀ k, s'.channel k = s.channel k)
    (hlist : s'.channelList = s.channelList) (huuid : s.nextUuid ≤ s'.nextUuid) : Mirrors O K s' := by
  have hsame : SameBut ∅ s s' := ⟨fun k => by rw [hch k], fun k _ => hch k⟩
  exact (h.silent hsame hlist huuid).mono (by simp)

theorem calm {α : Type} {p : Task α} (h : Mirrors O K s) (hp : p.Calls Calm) :
    Mirrors O K (ports.exec p s).2 := by
  refine Machine.exec_preserves ports (I := Mirrors O K) (fun o s ho hs => ?_) hp h
  refine hs.same (fun k => channel_handle o ?_ ?_ s k) ?_ (nextUuid_handle o s)
  · rintro ch rfl; exact ho
  · rintro name rfl; exact ho
  · rcases o with _ | _ | _ | _ | _ | _ | _
    case channelList => exact ho.elim
    case channels => exact handle_channels_channelList s _
    case clients => exact handle_clients_channelList s _
    case messages => exact handle_messages_channelList s _
    all_goals rfl

theorem quiet {α : Type} {p : Task α} (h : Mirrors O K s) (hp : p.Calls Quiet) :
    Mirrors O K (ports.exec p s).2 :=
  h.calm (hp.mono fun _ => Quiet.calm)

theorem count (h : Mirrors O K s) (hch : s.channel k = some ch) : Mirrors O (K \ {k})
    (handle (.channelList (.publishMemberCountChanged k (toInt32 ch.memberCount))) s).2 := by
  refine ⟨h.fresh, h.entry, fun c w ho => ?_⟩
  show Lags _ (Web.fold ((s.channelList.writeWhere _ _).written w)) _
  rw [fold_publish (h.entry c w ho)]
  obtain ⟨hnamed, hcounts⟩ := (h.lags c w ho).count hch
  exact ⟨hnamed, hcounts⟩

end Mirrors

/-! ### The use cases run alone -/

section
variable {O : ClientId → StreamId → Prop} {K : Set ChannelId} {k : ChannelId} {s s' : Server} {ch : Channel}
  {c : ClientId}

theorem mirrors_removeMember (h : Mirrors O K s) (cs : ClientSession) (k : ChannelId) :
    Mirrors O (K ∪ {k}) (ports.exec (removeMemberAndBroadcast cs k) s).2 := by
  have huuid := nextUuid_exec (removeMemberAndBroadcast cs k) s
  obtain ⟨r, s₁, hexec, -, hput, -, hlist⟩ := exec_removeMember cs k s
  rw [hexec] at huuid ⊢
  have hsame : SameBut {k} s s₁ := by simpa using SameBut.of_putOut hput
  exact h.silent hsame hlist huuid

theorem mirrors_leaveChannelAtomic (h : Mirrors O K s) (c : ClientId) (k : ChannelId) :
    Mirrors O K (handle (.clients (.leaveChannelAtomic c k)) s).2 :=
  h.same (fun k' => channel_handle (.clients (.leaveChannelAtomic c k)) nofun nofun s k') rfl (le_refl _)

theorem mirrors_joinChannelAtomic (h : Mirrors O K s) (c : ClientId) (k : ChannelId) :
    Mirrors O K (handle (.clients (.joinChannelAtomic c k)) s).2 :=
  h.same (fun k' => channel_handle (.clients (.joinChannelAtomic c k)) nofun nofun s k') rfl (le_refl _)

namespace JoinChannel

theorem mirrors_publishCountIfStored (h : Mirrors O (K ∪ {k}) s) :
    Mirrors O K (ports.exec (publishCountIfStored k) s).2 := by
  rw [exec_publishCountIfStored]
  rcases hch : s.channel k with _ | ch
  · refine ⟨h.fresh, h.entry, fun c w ho => ⟨(h.lags c w ho).named, fun k' hk => ?_⟩⟩
    by_cases hkk : k' = k
    · -- there is no such channel, and so the store has none
      subst hkk
      have hnamed := (h.lags c w ho).named k'
      rw [hch] at hnamed ⊢
      exact Option.map_eq_none_iff.1 hnamed
    · exact (h.lags c w ho).counts k' fun hk' => hk'.elim hk hkk
  · refine (h.count hch).mono ?_
    rintro k' ⟨hk | hk, hne⟩
    · exact hk
    · exact absurd hk hne

theorem mirrors_leaveEach (h : Mirrors O K s) (cs : ClientSession) (ks : List ChannelId) :
    Mirrors O K (ports.exec (leaveEach cs ks) s).2 := by
  induction ks generalizing s with
  | nil => exact h
  | cons k ks ih =>
    have h₁ := mirrors_removeMember h cs k
    obtain ⟨r, s₁, hexec, htol, -⟩ := exec_removeMember cs k s
    rw [hexec] at h₁
    have htol₁ : tolerate [.clientNotFound]
        (ports.handle (.clients (.leaveChannelAtomic cs.id k)) s₁).1 = .ok () :=
          tolerate_leaveChannelAtomic ..
    simp only [leaveEach, Machine.exec_bind, hexec, htol, Machine.exec_perform, htol₁]
    exact ih (mirrors_publishCountIfStored (mirrors_leaveChannelAtomic h₁ cs.id k))

theorem mirrors_joinFound (h : Mirrors O K s) (order : BucketOrder) {cs : ClientSession}
    (hcs : s.session c = some cs)
    (hch : s.channel k = some ch) : Mirrors O K (ports.exec (joinFound order c cs k ch) s).2 := by
  obtain rfl := id_of_channel hch
  have h₁ := mirrors_leaveEach h cs ((order.channels.enum cs.joinedChannels).filter (· ≠ ch.id))
  obtain ⟨s₁, hexec, hleaves⟩ := exec_leaveOtherChannels order cs ch.id s
  rw [show ports.exec (leaveEach cs _) s = _ from hexec] at h₁
  rw [id_of_session hcs] at hleaves
  have hch₁ : s₁.channel ch.id = some ch := by rw [hleaves.putOut ch.id, if_neg (Finset.notMem_erase _ _), hch]
  have hcs₁ : s₁.session c ≠ none := by
    rw [hleaves.session c, if_pos rfl, hcs]
    exact Option.some_ne_none _
  simp only [joinFound, Machine.exec_bind, hexec]
  by_cases hm : c ∈ ch.members
  · have hjoin : (ports.handle (.clients (.joinChannelAtomic c ch.id)) s₁).1 = (.ok () : VoidResult) :=
      (fst_joinChannelAtomic s₁ c ch.id).trans (if_neg hcs₁)
    simp only [Channel.hasMember_iff.2 hm, if_true, Prog.pure_eq, Machine.exec_ret, Machine.exec_perform,
      Machine.exec_bind, hjoin]
    exact mirrors_joinChannelAtomic h₁ c ch.id
  · have hadd : ch.addMember c = .ok (ch.with c) := Channel.addMember_ok.2 ⟨hm, rfl⟩
    have hno : ch.hasMember c = false := by simpa [Channel.hasMember] using hm
    have hjoin : (ports.handle (.clients (.joinChannelAtomic c ch.id))
        (ports.handle (.channels (.save (ch.with c))) s₁).2).1 = (.ok () : VoidResult) :=
      (fst_joinChannelAtomic _ c ch.id).trans (if_neg hcs₁)
    have hsaved : (ports.handle (.channels (.save (ch.with c))) s₁).1 = (.ok () : VoidResult) := rfl
    simp only [hno, addAndSave, hadd, Prog.pure_eq, Machine.exec_perform, Machine.exec_bind,
      Machine.exec_ret, hsaved, hjoin, Bool.false_eq_true, if_false]
    -- between the save and the publication of the count the streams are behind
    have h₂ : Mirrors O (K ∪ {ch.id}) (handle (.channels (.save (ch.with c))) s₁).2 :=
      h₁.silent (.save hch₁) rfl (le_refl _)
    have h₃ := mirrors_joinChannelAtomic h₂ c ch.id
    have hstored : (handle (.clients (.joinChannelAtomic c ch.id))
      (handle (.channels (.save (ch.with c))) s₁).2).2.channel
        ch.id = some (ch.with c) := by
      rw [channel_handle (.clients (.joinChannelAtomic c ch.id)) (by simp) (by simp), channel_save]
      exact if_pos rfl
    have h₄ : Mirrors O (K ∪ {ch.id}) (handle
      (.publisher (.broadcastMemberJoined ch.id (ch.with c).members c cs.username))
        (handle (.clients (.joinChannelAtomic c ch.id)) (handle (.channels (.save (ch.with c))) s₁).2).2).2 :=
      h₃.same (fun _ => rfl) rfl (le_refl _)
    refine (h₄.count hstored).mono ?_
    rintro k ⟨hk | hk, hne⟩
    · exact hk
    · exact absurd hk hne

theorem mirrors_execute (h : Mirrors O K s) (order : BucketOrder) (c : ClientId) (k : ChannelId) :
    Mirrors O K (ports.exec (execute order c k) s).2 := by
  simp only [execute, Prog.perform_bind, Prog.pure_eq, exec_findSession, exec_findChannel]
  rcases hcs : s.session c with _ | cs
  · exact h
  rcases hch : s.channel k with _ | ch
  · exact h
  · exact mirrors_joinFound h order hcs hch

theorem mirrors_executeByName (h : Mirrors O K s) (order : BucketOrder) (c : ClientId) (name : Bytes) :
    Mirrors O K (ports.exec (executeByName order c name) s).2 := by
  simp only [executeByName, Prog.perform_bind, Prog.pure_eq, exec_findSession]
  rcases hcs : s.session c with _ | cs
  · exact h
  rcases ChannelName.create (trim name) with _ | validatedName
  · exact h
  dsimp only
  rcases @exec_findByName _ s validatedName _ with ⟨e, he⟩ | ⟨ch, hch, he⟩
  · rw [he]
    exact h
  have hjoined := mirrors_joinFound h order hcs hch
  obtain ⟨s₁, s', hexec, -, -⟩ := exec_joinFound order hcs hch
  rw [he, Machine.exec_bind, hexec]
  rw [hexec] at hjoined
  exact hjoined

end JoinChannel

theorem mirrors_leaveChannel (h : Mirrors O K s) (c : ClientId) (k : ChannelId) :
    Mirrors O K (ports.exec (LeaveChannel.execute c k) s).2 := by
  by_cases hleaves : ∃ cs, s.session c = some cs ∧ c ∈ s.members k
  · obtain ⟨cs, hcs, hm⟩ := hleaves
    have hm' : cs.id ∈ s.members k := by
      rw [id_of_session hcs]
      exact hm
    have h₁ := mirrors_removeMember h cs k
    obtain ⟨s₁, hexec, hput, -⟩ := exec_removeMember_mem hm'
    rw [hexec] at h₁
    have h₂ := mirrors_leaveChannelAtomic h₁ c k
    have htol : tolerate [.clientNotFound] (ports.handle (.clients (.leaveChannelAtomic c k)) s₁).1 =
        .ok () :=
      tolerate_leaveChannelAtomic ..
    have hpublished := JoinChannel.mirrors_publishCountIfStored h₂
    rw [JoinChannel.exec_publishCountIfStored] at hpublished
    simp only [LeaveChannel.execute, Prog.perform_bind, Prog.pure_eq, exec_findSession, hcs,
      Machine.exec_bind, hexec]
    rw [Machine.exec_call]
    simp only [htol, exec_findChannel]
    rcases hch : (ports.handle (.clients (.leaveChannelAtomic c k)) s₁).2.channel k with _ | ch
    · rw [show (handle (.clients (.leaveChannelAtomic c k)) s₁).2.channel k = none from hch] at hpublished
      exact hpublished
    · rw [show (handle (.clients (.leaveChannelAtomic c k)) s₁).2.channel k = some ch from hch] at hpublished
      exact hpublished
  · obtain ⟨e, hexec⟩ := exec_leaveChannel_of_not (c := c) (k := k) (s := s) fun cs hcs hk => hleaves
      ⟨cs, hcs, hk⟩
    rw [hexec]
    exact h

theorem mirrors_disconnect (h : Mirrors O K s) (order : BucketOrder) (c : ClientId) :
    Mirrors O K (ports.exec (BroadcastService.disconnectClient order c) s).2 := by
  have hleave : ∀ ks s, Mirrors O K s → Mirrors O K (ports.exec (BroadcastService.leaveEach c ks) s).2 := by
    intro ks
    induction ks with
    | nil => exact fun s h => h
    | cons k ks ih =>
      intro s h
      simp only [BroadcastService.leaveEach, Machine.exec_bind]
      exact ih _ (mirrors_leaveChannel h c k)
  simp only [BroadcastService.disconnectClient, Prog.perform_bind, Prog.pure_eq, exec_findSession]
  rcases hcs : s.session c with _ | cs
  · exact h
  simp only [Machine.exec_bind, Machine.exec_call]
  have h₁ := hleave (order.channels.enum cs.joinedChannels) s h
  generalize (ports.exec (BroadcastService.leaveEach c _) s).2 = s₁ at h₁
  have h₂ : Mirrors O K (ports.handle (.clients (.remove c)) s₁).2 :=
    h₁.same (fun k => channel_handle (.clients (.remove c)) (by simp) (by simp) s₁ k) rfl (le_refl _)
  generalize (ports.handle (.clients (.remove c)) s₁).1 = r
  rcases r with e | _
  · exact h₂
  · exact h₂.same (fun _ => rfl) rfl (le_refl _)

/-- A sweep of sessions that are in no channel. -/
theorem mirrors_expire (h : Mirrors O K s) (order : BucketOrder) (deadline : Int)
    (hidle : ∀ c cs, s.session c = some cs → cs.isExpired deadline → cs.joinedChannels = ∅) :
    Mirrors O K (ports.exec (ExpireInactiveClients.run order deadline) s).2 := by
  have heach : ∀ expired count s, (∀ cs ∈ expired, cs.joinedChannels = (∅ : Finset ChannelId)) →
    Mirrors O K s →
      Mirrors O K (ports.exec (ExpireInactiveClients.expireEach order count expired) s).2 := by
    intro expired
    induction expired with
    | nil => exact fun count s _ h => h
    | cons cs expired ih =>
      intro count s hnone h
      have hempty : order.channels.enum cs.joinedChannels = [] := by
        rw [hnone cs (List.mem_cons_self ..)]
        exact IterOrder.enum_empty _
      simp only [ExpireInactiveClients.expireEach, hempty, ExpireInactiveClients.removeFromEach,
        Machine.exec_bind, Machine.exec_perform, Prog.pure_eq, Machine.exec_ret]
      refine ih _ _ (fun cs' hcs' => hnone cs' (List.mem_cons_of_mem _ hcs')) ?_
      have h₁ : Mirrors O K (ports.handle (.clients (.remove cs.id)) s).2 :=
        h.same (fun k => channel_handle (.clients (.remove cs.id)) (by simp) (by simp) s k) rfl (le_refl _)
      exact h₁.same (fun _ => rfl) rfl (le_refl _)
  refine heach _ 0 s (fun cs hcs => ?_) h
  obtain ⟨hcs, hexpired⟩ := InMemoryClientRegistry.mem_collectExpired.1 hcs
  exact hidle cs.id cs hcs (decide_eq_true hexpired)

theorem mirrors_createChannel (h : Mirrors O K s) (c : ClientId) (name : Bytes) :
    Mirrors O K (ports.exec (CreateChannel.execute c name) s).2 := by
  simp only [CreateChannel.execute, Prog.perform_bind, Prog.pure_eq, exec_findSession]
  rcases s.session c with _ | cs
  · exact h
  rcases ChannelName.create (trim name) with _ | validatedName
  · exact h
  dsimp only
  rw [Machine.exec_call]
  have hlist : (handle (.channels (.create validatedName)) s).2.channelList = s.channelList := rfl
  rcases InMemoryChannelRepository.create_cases s.channels ⟨s.nextUuid⟩ validatedName with hexists |
    ⟨hok, hfind⟩
  · have hres : (ports.handle (.channels (.create validatedName)) s).1 =
        (.error .channelAlreadyExists : Result Channel) :=
      congrArg Prod.fst hexists
    rw [hres]
    refine h.same (fun k => ?_) hlist (Nat.le_succ s.nextUuid)
    exact congrArg (fun r => r.2.channelsById.find k) hexists
  · have hres : (ports.handle (.channels (.create validatedName)) s).1 =
        (.ok (.new ⟨s.nextUuid⟩ validatedName) : Result Channel) := hok
    rw [hres]
    -- the id is fresh, so the channel is a new one
    have hnone : s.channel ⟨s.nextUuid⟩ = none := by
      by_contra hne
      exact absurd (h.fresh _ hne) (lt_irrefl s.nextUuid)
    have hnew : ∀ k, (handle (.channels (.create validatedName)) s).2.channel k =
        if k = ⟨s.nextUuid⟩ then some (.new ⟨s.nextUuid⟩ validatedName) else s.channel k := by
      intro k
      refine (hfind k).trans ?_
      by_cases hk : k = ⟨s.nextUuid⟩
      · rw [if_pos ⟨hk, by rw [hk]; exact hnone⟩, if_pos hk]
      · rw [if_neg fun h => hk h.1, if_neg hk]
        rfl
    refine ⟨fun k hk => ?_, fun d w ho => ?_, fun d w ho => ?_⟩
    · show k.value < s.nextUuid + 1
      have hk' : (handle (.channels (.create validatedName)) s).2.channel k ≠ none := hk
      rw [hnew k] at hk'
      split at hk'
      · rw [‹k = _›]
        exact Nat.lt_succ_self _
      · exact (h.fresh k hk').trans (Nat.lt_succ_self _)
    · exact h.entry d w ho
    · show Lags K (Web.fold ((s.channelList.writeWhere _ _).written w)) _
      rw [fold_publish (h.entry d w ho)]
      have hcreated : ∀ k, (handle (.channels (.create validatedName)) s).2.channel k =
          if k = (Channel.new ⟨s.nextUuid⟩ validatedName).id then some (.new ⟨s.nextUuid⟩ validatedName)
          else s.channel k := hnew
      obtain ⟨hnamed, hcounts⟩ := (h.lags d w ho).created hcreated
      exact ⟨hnamed, hcounts⟩

end

/-! ### Runs -/

section
variable {uuid : UuidLib} {host : Host}

/-- The open list streams, as pairs of a client and its stream. -/
def Host.listens (host : Host) (c : ClientId) (w : StreamId) : Prop := host.listStreams.lookup w = some c

def Host.Mirrored (host : Host) : Prop := Mirrors host.listens ∅ host.server

/-- A new stream gets a snapshot; the other streams belong to other clients. -/
theorem Host.Mirrored.beginList (h : host.Mirrored) (order : BucketOrder) {c : ClientId}
    (hnone : ∀ w, host.listStreams.lookup w ≠ some c) : (host.beginList order c).Mirrored := by
  unfold Host.beginList
  simp only [BroadcastService.beginListStream, SubscribeToChannelList.execute, Prog.perform_bind,
    Prog.pure_eq, Prog.call_bind, exec_findSession]
  rcases hcs : host.server.session c with _ | cs
  · exact h
  · refine ⟨h.fresh, fun d w ho => ?_, fun d w ho => ?_⟩
    · show (host.server.channelList.writers.insert c host.nextStream).lookup d = some w
      by_cases hw : w = host.nextStream
      · have hself : (host.listStreams.insert host.nextStream c).lookup host.nextStream = some c :=
          Finmap.lookup_insert _
        have hd : c = d := Option.some.inj (hself.symm.trans (hw ▸ ho))
        rw [hw, ← hd]
        exact Finmap.lookup_insert _
      · have ho' : host.listStreams.lookup w = some d := (Finmap.lookup_insert_of_ne _ hw).symm.trans ho
        have hd : d ≠ c := fun hd => hnone w (by rw [ho', hd])
        rw [Finmap.lookup_insert_of_ne _ hd]
        exact h.entry d w ho'
    · show Lags ∅ (Web.fold (((host.server.channelList.registerSubscriber c host.nextStream).write
        host.nextStream
        (.snapshot ((host.server.channels.listAll order.channels).map populateChannelSummary))).written w)) _
      rw [Subscribers.written_write, Subscribers.written_register]
      split
      · rw [Web.fold_snoc]
        obtain ⟨hnamed, hcounts⟩ := Lags.snapshot order.channels
          (Web.fold (host.server.channelList.written host.nextStream))
          host.server
        exact ⟨hnamed, hcounts⟩
      · have ho' : host.listStreams.lookup w = some d :=
          (Finmap.lookup_insert_of_ne _ ‹w ≠ host.nextStream›).symm.trans ho
        obtain ⟨hnamed, hcounts⟩ := h.lags d w ho'
        exact ⟨hnamed, hcounts⟩

/-- Two open streams are those of two clients. -/
theorem Host.Mirrored.endList (h : host.Mirrored) (w : StreamId) (order : BucketOrder) :
    (host.step uuid order (.endListStream w)).Mirrored := by
  unfold Host.step
  dsimp only
  rcases hw : host.listStreams.lookup w with _ | c
  · exact h
  · have hopen : ∀ d w', (host.listStreams.erase w).lookup w' = some d →
        host.listStreams.lookup w' = some d ∧ d ≠ c := by
      intro d w' ho
      have hne : w' ≠ w := by
        rintro rfl
        rw [Finmap.lookup_erase] at ho
        cases ho
      rw [Finmap.lookup_erase_ne hne] at ho
      refine ⟨ho, ?_⟩
      rintro rfl
      exact hne (Option.some.inj ((h.entry d w' ho).symm.trans (h.entry d w hw)))
    refine ⟨h.fresh, fun d w' ho => ?_, fun d w' ho => ?_⟩
    · obtain ⟨ho, hd⟩ := hopen d w' ho
      show (host.server.channelList.writers.erase c).lookup d = some w'
      rw [Finmap.lookup_erase_ne hd]
      exact h.entry d w' ho
    · obtain ⟨hnamed, hcounts⟩ := h.lags d w' (hopen d w' ho).1
      exact ⟨hnamed, hcounts⟩

theorem mirrored_step (h : host.Mirrored) (order : BucketOrder) (op : Operation)
    (hop : Announces uuid host op) :
    (host.step uuid order op).Mirrored := by
  cases op with
  | connect name => exact h.quiet (quiet_connect name)
  | disconnect clientId =>
    show Mirrors host.listens ∅ (ports.exec (BroadcastService.Disconnect uuid order clientId) host.server).2
    unfold BroadcastService.Disconnect
    rcases BroadcastService.parseClient uuid clientId with _ | c
    · exact h
    · exact mirrors_disconnect h order c
  | listChannels => exact h.quiet ⟨trivial, fun _ => trivial⟩
  | createChannel clientId name =>
    show Mirrors host.listens ∅ (ports.exec (BroadcastService.CreateChannel uuid clientId name) host.server).2
    unfold BroadcastService.CreateChannel
    rcases BroadcastService.parseClient uuid clientId with _ | c
    · exact h
    · have hc := mirrors_createChannel h c (trim name)
      simp only [Machine.exec_bind]
      cases (ports.exec (CreateChannel.execute c (trim name)) host.server).1 <;> exact hc
  | joinChannel clientId channelId =>
    show Mirrors host.listens ∅ (ports.exec (BroadcastService.JoinChannel uuid order clientId channelId)
      host.server).2
    unfold BroadcastService.JoinChannel
    rcases BroadcastService.parseClient uuid clientId with _ | c
    · exact h
    rcases BroadcastService.parseChannel uuid channelId with _ | k
    · have hj := JoinChannel.mirrors_executeByName h order c (trim channelId)
      simp only [Machine.exec_bind]
      cases (ports.exec (JoinChannel.executeByName order c (trim channelId)) host.server).1 <;> exact hj
    · simp only [Machine.exec_bind]
      exact JoinChannel.mirrors_execute h order c k
  | leaveChannel clientId channelId =>
    show Mirrors host.listens ∅ (ports.exec (BroadcastService.LeaveChannel uuid clientId channelId)
      host.server).2
    unfold BroadcastService.LeaveChannel
    rcases BroadcastService.parseClient uuid clientId with _ | c
    · exact h
    rcases BroadcastService.parseChannel uuid channelId with _ | k
    · exact h
    · simp only [Machine.exec_bind]
      exact mirrors_leaveChannel h c k
  | sendMessage clientId channelId content =>
    exact h.calm (calm_sendMessage uuid order clientId channelId content)
  | listMessages clientId channelId before limit =>
    exact h.quiet (quiet_listMessages uuid clientId channelId before limit)
  | heartbeat clientId => exact h.quiet (quiet_heartbeat uuid clientId)
  | subscribeToChannel clientId channelId =>
    unfold Host.step
    dsimp only
    split
    · have hb := h.calm (calm_beginChannelStream ‹_› ‹_› host.nextStream)
      unfold Host.beginChannel
      dsimp only
      split <;> exact hb
    · exact h
  | endChannelStream w =>
    unfold Host.step
    dsimp only
    split
    · exact h
    · exact h.same (fun _ => rfl) rfl (le_refl _)
  | subscribeToChannelList clientId =>
    unfold Host.step
    dsimp only
    split
    · exact h.beginList order (hop _ ‹_›)
    · exact h
  | endListStream w => exact h.endList w order
  | expire deadline => exact mirrors_expire h order deadline hop

theorem mirrored_initial (historyCap : UInt32) (systemNow steadyNow : Int) :
    (Host.initial historyCap systemNow steadyNow).Mirrored := by
  refine ⟨fun k hk => ?_, nofun, nofun⟩
  unfold Host.initial Server.initial at hk ⊢
  dsimp only at hk ⊢
  split at hk
  · exact absurd (Keyed.find_empty k) hk
  · rename_i name _
    generalize hstart :
      (⟨.empty, .empty, .new historyCap, .empty, .empty, ∅, systemNow, steadyNow, 1⟩ : Server) = start at hk ⊢
    have hempty : start.channel k = none := by
      rw [← hstart]
      exact Keyed.find_empty k
    rcases channel_create start name k with hsame | ⟨-, hnew⟩
    · exact absurd (hsame.trans hempty) hk
    · have hid : (⟨start.nextUuid⟩ : ChannelId) = k := id_of_channel hnew
      rw [← hid]
      exact Nat.lt_succ_self _

theorem mirrored_of_run {start : Host} (h : Host.ReachedBy uuid (Announces uuid) start host)
    (h0 : start.Mirrored) :
    host.Mirrored := by
  induction h with
  | refl => exact h0
  | env _ he ih =>
    exact ih.same (fun k => by rw [channel, he.channels]; rfl) he.channelList he.nextUuid
  | step order op _ hp ih => exact mirrored_step ih order op hp

theorem toInt_toInt32 (n : Nat) : (toInt32 n).toInt = n ↔ n < 2 ^ 31 := by
  have hsize : (Int32.size : Int) = 4294967296 := rfl
  rw [toInt32, Int32.toInt_ofNat', Int.bmod_def]
  simp only [hsize]
  split <;> omega

/-- In a run whose steps all announce what they change, the open list streams follow the repository, as
long as the member counts fit into what the wire carries. -/
theorem list_follows {historyCap : UInt32} {systemNow steadyNow : Int}
    (h : Host.ReachedBy uuid (Announces uuid) (.initial historyCap systemNow steadyNow) host) {c : ClientId}
    {w : StreamId} (hopen : host.listStreams.lookup w = some c) :
    Follows host.server (host.server.channelList.written w) ↔
      ∀ k ch, host.server.channel k = some ch → ch.memberCount < 2 ^ 31 := by
  have hlags := (mirrored_of_run h (mirrored_initial ..)).lags c w hopen
  have hcarried : ∀ ch : Channel, carried ch = shown ch ↔ ch.memberCount < 2 ^ 31 := by
    intro ch
    rw [← toInt_toInt32]
    simp [carried, shown, Web.toChannel, populateChannelSummary]
  constructor
  · intro hfollows k ch hch
    have hk := hfollows k
    rw [hlags.counts k (Set.notMem_empty k), hch] at hk
    exact (hcarried ch).1 (Option.some.inj hk)
  · intro hsmall k
    rw [hlags.counts k (Set.notMem_empty k)]
    rcases hch : host.server.channel k with _ | ch
    · rfl
    · exact congrArg some ((hcarried ch).2 (hsmall k ch hch))

end

/-! Client `2` opens a list stream and then joins; or it has joined, and is swept when client `3` has a
list stream. -/

def joinWatched : Host :=
  oneConnected.run .canonical .byId
    [.subscribeToChannelList (ascii "00000000-0000-0000-0000-000000000002"),
      .joinChannel (ascii "00000000-0000-0000-0000-000000000002") (ascii "general")]

theorem joinWatched_reached : Host.ReachedBy .canonical (Announces .canonical)
    (.initial 200 0 0) joinWatched := by
  have hconnected : Host.ReachedBy .canonical (Announces .canonical) (.initial 200 0 0) oneConnected :=
    .step .byId (.connect (ascii "ann")) .refl trivial
  have hnone : ∀ c w, oneConnected.listStreams.lookup w ≠ some c := fun c w => by
    rw [show oneConnected.listStreams = ∅ from rfl, Finmap.lookup_empty]
    nofun
  exact (hconnected.step .byId (.subscribeToChannelList _) fun c _ => hnone c).step .byId
    (.joinChannel _ _) trivial

theorem list_follows_joinWatched : Follows joinWatched.server (joinWatched.server.channelList.written 0) := by
  have hopen : joinWatched.listStreams.lookup 0 = some ⟨2⟩ := by decide +kernel
  have hsmall : ∀ ch ∈ joinWatched.server.channels.listAll BucketOrder.byId.channels, ch.memberCount <
      2 ^ 31 := by
    decide +kernel
  refine (list_follows joinWatched_reached hopen).2 fun k ch hch => hsmall ch (Keyed.mem_values.2 ?_)
  rwa [← id_of_channel hch] at hch

def swept : Host :=
  let later : Host := { oneJoined with server := { oneJoined.server with steadyNow := 10 } }
  later.run .canonical .byId
    [.connect (ascii "bob"), .subscribeToChannelList (ascii "00000000-0000-0000-0000-000000000003"),
      .expire 5]

theorem swept_reached : Host.Reached .canonical (.initial 200 0 0) swept := by
  refine Host.reached_run .byId _ (oneJoined_reached.env ?_)
  exact ⟨rfl, rfl, rfl, rfl, rfl, Finset.Subset.refl _, by decide +kernel, le_refl _⟩

/-- The sweep takes client `2` out of the channel, and the open list stream is not told. -/
theorem count_left_behind : ¬ ∀ (uuid : UuidLib) (host : Host),
    Host.Reached uuid (.initial 200 0 0) host →
    ∀ c w, host.listStreams.lookup w = some c → Follows host.server (host.server.channelList.written w) := by
  intro hall
  have hk := hall _ _ swept_reached ⟨3⟩ 0 (by decide +kernel) ⟨1⟩
  have hstore :
      ((Web.fold (swept.server.channelList.written 0)).channels.lookup ⟨1⟩).map Web.Channel.memberCount =
        some 1 := by decide +kernel
  have hstored : ((swept.server.channel ⟨1⟩).map shown).map Web.Channel.memberCount = some 0 := by
    decide +kernel
  rw [hk, hstored] at hstore
  exact absurd hstore (by decide)

end Bcmd
