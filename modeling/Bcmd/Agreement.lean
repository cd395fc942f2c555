import Bcmd.Sequential

/-!
# The two sides of membership agree

In a run of operations one after the other, the channels' member sets and the sessions'
`joinedChannels` say the same after each of them, and no client is in two channels.
-/

namespace Bcmd
open Server

/-- Membership as the channels have it is membership as the sessions have it, of one channel at most. -/
structure Agree (s : Server) : Prop where
  mem_iff : ∀ c k, c ∈ s.members k ↔ k ∈ s.joined c
  one : ∀ c, (s.joined c).card ≤ 1

namespace Agree
variable {c : ClientId} {K : Finset ChannelId} {k : ChannelId} {s s₁ s' : Server}

theorem channelsOf_eq (h : Agree s) (c : ClientId) : s.channelsOf c = s.joined c := by
  ext k
  rw [mem_channelsOf, h.mem_iff]

theorem of_empty (hm : ∀ k, s.members k = ∅) (hj : ∀ c, s.joined c = ∅) : Agree s where
  mem_iff c k := by simp [hm, hj]
  one c := by simp [hj]

theorem congr (h : Agree s) (hm : ∀ k, s'.members k = s.members k) (hj : ∀ c, s'.joined c = s.joined c) :
    Agree s' where
  mem_iff c k := by rw [hm, hj, h.mem_iff]
  one c := by rw [hj]; exact h.one c

theorem of_same (h : Agree s) (hch : s'.channels = s.channels) (hcl : s'.clients = s.clients) : Agree s' :=
  h.congr (fun k => members_congr (by rw [channel, hch]; rfl)) fun c => joined_congr
    (by rw [session, hcl]; rfl)

theorem leaves (h : Agree s) (hl : Leaves c K s s') : Agree s' where
  mem_iff d k := by
    rw [hl.putOut.members, hl.joined]
    have hd := h.mem_iff d k
    by_cases hk : k ∈ K <;> by_cases hc : d = c <;> simp [hk, hc, hd]
    all_goals subst hc; exact hd
  one d := by
    rw [hl.joined]
    split
    · exact (Finset.card_le_card Finset.sdiff_subset).trans (h.one d)
    · exact h.one d

/-- Entering a channel out of no other. -/
theorem adds (h : Agree s) (ha : Adds c k s s') (hk : s.channel k ≠ none) (hc : s.session c ≠ none)
    (hout : s.joined c ⊆ {k}) : Agree s' where
  mem_iff d k' := by
    rw [ha.members hk, ha.joined hc]
    have hd := h.mem_iff d k'
    by_cases hk' : k' = k <;> by_cases hdc : d = c <;> simp [hk', hdc, hd]
    · subst hk'; exact hd
    · subst hdc; exact hd
  one d := by
    rw [ha.joined hc]
    split
    · subst ‹d = c›
      have hsub : insert k (s.joined d) ⊆ {k} := Finset.insert_subset (Finset.mem_singleton_self k) hout
      exact (Finset.card_le_card hsub).trans (Finset.card_singleton k).le
    · exact h.one d

theorem ends (h : Agree s) (he : Ends c s s') : Agree s' where
  mem_iff d k := by
    rw [he.members, he.joined, Finset.mem_erase]
    have hd := h.mem_iff d k
    by_cases hc : d = c <;> simp [hc, hd]
  one d := by
    rw [he.joined]
    split
    · simp
    · exact h.one d

theorem moves (h : Agree s) (hm : JoinChannel.Moves c s s') : Agree s' := by
  rcases hm with ⟨hch, hcl, -⟩ | ⟨k, s₁, hk, hc, hleaves, hadds⟩
  · exact h.of_same hch hcl
  · have hk₁ : s₁.channel k ≠ none := by
      rw [hleaves.putOut k, if_neg (Finset.notMem_erase k _)]; exact hk
    have hc₁ : s₁.session c ≠ none := by
      rw [hleaves.session, if_pos rfl]
      exact fun hnone => hc (Option.map_eq_none_iff.1 hnone)
    refine (h.leaves hleaves).adds hadds hk₁ hc₁ fun k' hk' => ?_
    rw [hleaves.joined, if_pos rfl, Finset.mem_sdiff, Finset.mem_erase] at hk'
    rw [Finset.mem_singleton]
    by_contra hne
    exact hk'.2 ⟨hne, hk'.1⟩

end Agree

/-! ### Calls that touch no membership -/

/-- A call that changes neither a member set nor a session's channels. -/
def Harmless : Call → Prop
  | .channels (.save _) | .clients (.remove _) | .clients (.joinChannelAtomic _ _)
  | .clients (.leaveChannelAtomic _ _) => False
  | _ => True

/-- A call that changes nothing in the channels either, nor in the channel list. -/
def Calm : Call → Prop
  | .channels (.create _) | .channelList _ => False
  | o => Harmless o

theorem Calm.harmless {o : Call} (h : Calm o) : Harmless o := by
  rcases o with (_ | _ | _ | _ | _) | _ | _ | _ | _ | _ | _
  case channelList => exact h.elim
  case channels.create => exact h.elim
  all_goals exact h

theorem joined_handle {o : Call} (ho : Harmless o) (s : Server) (c : ClientId) :
    (handle o s).2.joined c = s.joined c := by
  by_cases ht : touches c o
  · rcases o with _ | (_ | _ | name | _ | d | _ | _ | _) | _ | _ | _ | _ | _
    case clients.registerClient =>
      rcases InMemoryClientRegistry.registerClient_cases s.clients
        ⟨s.nextUuid⟩ s.steadyNow name with h | ⟨-, h⟩
      · exact joined_congr (congrArg (·.2.clientsById.find c) h)
      · by_cases hnew : c = ⟨s.nextUuid⟩ ∧ s.session c = none
        · -- a new session names no channel, and there was none before
          have hcs : (Server.handle (.clients (.registerClient name)) s).2.session c =
              some (.new ⟨s.nextUuid⟩ name s.steadyNow) := (h c).trans (if_pos hnew)
          rw [joined_of_none hnew.2, joined_of_session hcs]
          rfl
        · exact joined_congr ((h c).trans (if_neg hnew))
    case clients.touchHeartbeat =>
      rcases hcs : s.session c with _ | cs
      · rw [joined_of_none hcs, joined_of_none (by rw [session_touchHeartbeat, hcs]; simp)]
      · rw [joined_of_session hcs, joined_of_session
          (by rw [session_touchHeartbeat, if_pos ht.symm, hcs]; rfl)]
        rfl
    all_goals first | exact ho.elim | exact ht.elim
  · exact joined_congr (session_handle o ht s)

theorem Agree.handle {s : Server} (h : Agree s) {o : Call} (ho : Harmless o) : Agree (handle o s).2 :=
  h.congr (members_handle o (fun ch hch => by subst hch; exact ho) s) (joined_handle ho s)

theorem Agree.exec {α : Type} {task : Task α} {s : Server} (h : Agree s) (htask : task.Calls Harmless) :
    Agree (ports.exec task s).2 :=
  Machine.exec_preserves ports (fun _ _ ho hs => hs.handle ho) htask h

theorem Quiet.calm {o : Call} (h : Quiet o) : Calm o := by
  rcases o with (_ | _ | _ | _ | _) | (_ | _ | _ | _ | _ | _ | _ | _) | _ | _ | _ | _ | _
  all_goals trivial

section
variable (uuid : UuidLib) (order : BucketOrder)
open BroadcastService

theorem harmless_createChannel (clientId channelName : Bytes) :
    (BroadcastService.CreateChannel uuid clientId channelName).Calls Harmless :=
  calls_rpc_createChannel uuid (fun _ => trivial) (fun _ => trivial) (fun _ => trivial) clientId channelName

theorem calm_sendMessage (clientId channelId content : Bytes) :
    (BroadcastService.SendMessage uuid order clientId channelId content).Calls Calm :=
  calls_rpc_sendMessage uuid order (fun _ => trivial) (fun _ => trivial) (fun _ _ _ => trivial)
    (fun _ => trivial)
    (fun _ _ => trivial) clientId channelId content

theorem calm_subscribe (c : ClientId) (k : ChannelId) : (SubscribeToChannel.execute c k).Calls Calm := by
  refine ⟨trivial, fun r => ?_⟩
  rcases r with e | ch
  · trivial
  · simp only [Prog.bind]
    split <;> trivial

theorem calm_beginChannelStream (c : ClientId) (k : ChannelId) (w : StreamId) :
    (beginChannelStream c k w).Calls Calm := by
  simp only [beginChannelStream, Prog.perform_bind]
  refine ⟨trivial, fun _ => .bind (calm_subscribe c k) fun r => ?_⟩
  rcases r with e | _
  · exact ⟨trivial, fun _ => trivial⟩
  · trivial

theorem harmless_beginListStream (c : ClientId) (w : StreamId) : (beginListStream order c w).Calls Harmless :=
  calls_beginListStream order (fun _ => trivial) (fun _ _ _ => trivial) c w

end

/-! ### The operations -/

section
variable {uuid : UuidLib} {order : BucketOrder} {s : Server}

theorem Agree.leaveChannel (h : Agree s) (c : ClientId) (k : ChannelId) :
    Agree (ports.exec (LeaveChannel.execute c k) s).2 := by
  by_cases hm : (∃ cs, s.session c = some cs) ∧ c ∈ s.members k
  · obtain ⟨⟨cs, hcs⟩, hm⟩ := hm
    obtain ⟨s', hexec, hleaves⟩ := exec_leaveChannel_mem hcs hm
    rw [hexec]
    exact h.leaves hleaves
  · obtain ⟨e, hexec⟩ := exec_leaveChannel_of_not (c := c) (k := k) (s := s) fun cs hcs hk => hm
      ⟨⟨cs, hcs⟩, hk⟩
    rw [hexec]
    exact h

theorem Agree.disconnect (h : Agree s) (c : ClientId) :
    Agree (ports.exec (BroadcastService.disconnectClient order c) s).2 := by
  rcases exec_disconnectClient order (h.channelsOf_eq c) with hexec | ⟨-, hends⟩
  · rw [hexec]; exact h
  · exact h.ends hends

/-- The sessions of the sweep stay as they were collected until their turn comes. -/
theorem Agree.expireEach (h : Agree s) {expired : List ClientSession} (count : Nat)
    (hcur : ∀ cs ∈ expired, s.session cs.id = some cs) (hnd : (expired.map ClientSession.id).Nodup) :
    Agree (ports.exec (ExpireInactiveClients.expireEach order count expired) s).2 := by
  induction expired generalizing s count with
  | nil => exact h
  | cons cs expired ih =>
    rw [List.map_cons, List.nodup_cons] at hnd
    have hends := ExpireInactiveClients.ends_expireOne order (hcur cs (List.mem_cons_self ..))
      (h.channelsOf_eq cs.id).le
    simp only [ExpireInactiveClients.expireEach, Machine.exec_bind, Machine.exec_perform]
    refine ih (h.ends hends) (count + 1) (fun cs' hcs' => ?_) hnd.2
    have hne : cs'.id ≠ cs.id := fun hid => hnd.1 (by rw [← hid]; exact List.mem_map_of_mem hcs')
    rw [hends.session, if_neg hne]
    exact hcur cs' (List.mem_cons_of_mem cs hcs')

theorem Agree.expire (h : Agree s) (deadline : Int) :
    Agree (ports.exec (ExpireInactiveClients.run order deadline) s).2 := by
  refine h.expireEach 0 (fun cs hcs => (InMemoryClientRegistry.mem_collectExpired.1 hcs).1) ?_
  exact (s.clients.clientsById.nodup_map_values order.clients).sublist ((List.filter_sublist).map _)

theorem Agree.join (h : Agree s) (clientId channelId : Bytes) :
    Agree (ports.exec (BroadcastService.JoinChannel uuid order clientId channelId) s).2 := by
  unfold BroadcastService.JoinChannel
  rcases BroadcastService.parseClient uuid clientId with _ | c
  · exact h
  rcases BroadcastService.parseChannel uuid channelId with _ | k
  · have hm := h.moves (JoinChannel.exec_executeByName order c (trim channelId) s)
    simp only [Machine.exec_bind]
    cases (ports.exec (JoinChannel.executeByName order c (trim channelId)) s).1 <;> exact hm
  · simp only [Machine.exec_bind]
    exact h.moves (JoinChannel.exec_execute order c k s)

end

/-- The operations that move no client: what harmless code and the environment keep, they keep. -/
theorem step_harmless {P : Server → Prop}
    (hexec : ∀ {α : Type} {task : Task α} {s : Server}, task.Calls Harmless →
      P s → P (ports.exec task s).2) (henv : ∀ {s s' : Server}, Env s s' → P s → P s') {uuid : UuidLib}
    (order : BucketOrder) {host : Host} (h : P host.server) (op : Operation)
    (hop : match op with
      | .disconnect _ | .joinChannel _ _ | .leaveChannel _ _ | .expire _ => False
      | _ => True) : P (host.step uuid order op).server := by
  have hcalm : ∀ {α : Type} {task : Task α} {s : Server}, task.Calls Calm → P s → P (ports.exec task s).2 :=
    fun htask => hexec (htask.mono fun _ => Calm.harmless)
  have hquiet : ∀ {α : Type} {task : Task α} {s : Server}, task.Calls Quiet → P s → P (ports.exec task s).2 :=
    fun htask => hcalm (htask.mono fun _ => Quiet.calm)
  have hcancel : ∀ w, P (host.cancel w).server := fun w =>
    @henv host.server _ ⟨rfl, rfl, rfl, rfl, rfl, Finset.subset_insert .., le_refl _, le_refl _⟩ h
  cases op with
  | connect name => exact hquiet (quiet_connect name) h
  | disconnect clientId => exact hop.elim
  | listChannels => exact hexec ⟨trivial, fun _ => trivial⟩ h
  | createChannel clientId name => exact hexec (harmless_createChannel uuid clientId name) h
  | joinChannel clientId channelId => exact hop.elim
  | leaveChannel clientId channelId => exact hop.elim
  | sendMessage clientId channelId content =>
    exact hcalm (calm_sendMessage uuid order clientId channelId content) h
  | listMessages clientId channelId before limit =>
    exact hquiet (quiet_listMessages uuid clientId channelId before limit) h
  | heartbeat clientId => exact hquiet (quiet_heartbeat uuid clientId) h
  | subscribeToChannel clientId channelId =>
    unfold Host.step
    dsimp only
    split
    · have hb := hcalm (calm_beginChannelStream ‹_› ‹_› host.nextStream) h
      unfold Host.beginChannel
      dsimp only
      split <;> exact hb
    · exact h
  | endChannelStream stream =>
    unfold Host.step
    dsimp only
    split
    · exact h
    · rename_i c _
      have hcalls : (BroadcastService.endChannelStream c).Calls Harmless := ⟨trivial, fun _ => trivial⟩
      exact hexec hcalls (hcancel stream)
  | subscribeToChannelList clientId =>
    unfold Host.step
    dsimp only
    split
    · have hb := hexec (harmless_beginListStream order ‹_› host.nextStream) h
      unfold Host.beginList
      dsimp only
      split <;> exact hb
    · exact h
  | endListStream stream =>
    unfold Host.step
    dsimp only
    split
    · exact h
    · rename_i c _
      have hcalls : (BroadcastService.endListStream c).Calls Harmless := ⟨trivial, fun _ => trivial⟩
      exact hexec hcalls (hcancel stream)
  | expire deadline => exact hop.elim

theorem agree_step {uuid : UuidLib} (order : BucketOrder) {host : Host} (h : Agree host.server)
    (op : Operation) :
    Agree (host.step uuid order op).server := by
  cases op with
  | disconnect clientId =>
    show Agree (ports.exec (BroadcastService.Disconnect uuid order clientId) host.server).2
    unfold BroadcastService.Disconnect
    rcases BroadcastService.parseClient uuid clientId with _ | c
    · exact h
    · exact h.disconnect c
  | joinChannel clientId channelId => exact h.join clientId channelId
  | leaveChannel clientId channelId =>
    show Agree (ports.exec (BroadcastService.LeaveChannel uuid clientId channelId) host.server).2
    unfold BroadcastService.LeaveChannel
    rcases BroadcastService.parseClient uuid clientId with _ | c
    · exact h
    rcases BroadcastService.parseChannel uuid channelId with _ | k
    · exact h
    · simp only [Machine.exec_bind]
      exact h.leaveChannel c k
  | expire deadline => exact h.expire deadline
  | _ =>
    exact step_harmless (fun htask h => h.exec htask)
      (fun henv h => h.of_same henv.channels henv.clients) order h _
      trivial

theorem agree_initial (historyCap : UInt32) (systemNow steadyNow : Int) :
    Agree (Server.initial historyCap systemNow steadyNow) := by
  have hempty : ∀ s : Server, s.channels = .empty → s.clients = .empty → Agree s := fun s hch hcl =>
    .of_empty (fun k => members_of_none (by rw [channel, hch]; exact Keyed.find_empty k))
      fun c => joined_of_none (by rw [session, hcl]; exact Keyed.find_empty c)
  unfold Server.initial
  dsimp only
  split
  · exact hempty _ rfl rfl
  · rename_i name _
    exact Agree.handle (o := .channels (.create name)) (hempty _ rfl rfl) trivial

theorem agree_reached {uuid : UuidLib} {historyCap : UInt32} {systemNow steadyNow : Int} {host : Host}
    (h : Host.Reached uuid (.initial historyCap systemNow steadyNow) host) : Agree host.server := by
  induction h with
  | refl => exact agree_initial historyCap systemNow steadyNow
  | env _ he ih => exact ih.of_same he.channels he.clients
  | step order op _ ih => exact agree_step order ih op

/-- After each operation of a run: a client is a stored member of a channel exactly if it has a live
session that names the channel, a session names only stored channels, and at most one. -/
theorem membership_agrees {uuid : UuidLib} {historyCap : UInt32} {systemNow steadyNow : Int} {host : Host}
    (h : Host.Reached uuid (.initial historyCap systemNow steadyNow) host) :
    (∀ c k, c ∈ host.server.members k ↔ ∃ cs, host.server.session c = some cs ∧ k ∈ cs.joinedChannels) ∧
      (∀ c cs k, host.server.session c = some cs → k ∈ cs.joinedChannels → host.server.channel k ≠ none) ∧
      ∀ c cs, host.server.session c = some cs → cs.joinedChannels.card ≤ 1 := by
  have hagree := agree_reached h
  refine ⟨fun c k => ?_, fun c cs k hcs hk hnone => ?_, fun c cs hcs => ?_⟩
  · rw [hagree.mem_iff, mem_joined]
  · rw [← joined_of_session hcs, ← hagree.mem_iff, members_of_none hnone] at hk
    exact Finset.notMem_empty c hk
  · rw [← joined_of_session hcs]
    exact hagree.one c

theorem membership_agrees_oneJoined :
    ∃ cs, oneJoined.server.session ⟨2⟩ = some cs ∧ ⟨1⟩ ∈ cs.joinedChannels :=
  ((membership_agrees oneJoined_reached).1 ⟨2⟩ ⟨1⟩).1 (by decide +kernel)

end Bcmd
