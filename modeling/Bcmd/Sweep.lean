import Bcmd.NameIndex
import Bcmd.Registry

/-!
# A sweep does what disconnecting would

The sweep walks the sessions that it collected and removes each in its own way. Here it is compared with
the Disconnect requests of the same clients: both come to the same tables, whatever the orders, and in
the same order they also write the same events.
-/

namespace Bcmd
open Server

/-! ### What is left when clients are gone -/

/-- The sessions whose last heartbeat is before the deadline. -/
def Server.expired (s : Server) (deadline : Int) : Finset ClientId :=
  s.clients.clientsById.map.keys.filter fun c => (s.session c).any (·.isExpired deadline)

/-- The clients `E` are gone from the channels, the sessions and the table of streams, and nothing else
is. -/
structure Gone (E : Finset ClientId) (s s' : Server) : Prop where
  channel : ∀ k, s'.channel k = (s.channel k).map fun ch => { ch with members := ch.members \ E }
  session : ∀ c, s'.session c = if c ∈ E then none else s.session c
  nameGiven : ∀ c, s'.nameGiven c = s.nameGiven c
  writers : ∀ c, s'.publisher.writers.lookup c = if c ∈ E then none else s.publisher.writers.lookup c

section
variable {c : ClientId} {k : ChannelId} {E E' : Finset ClientId} {s s₁ s₂ s' : Server} {deadline : Int}

theorem mem_expired : c ∈ s.expired deadline ↔
    ∃ cs, s.session c = some cs ∧ cs.lastHeartbeatAt < deadline := by
  unfold expired
  rw [Finset.mem_filter, Finmap.mem_keys]
  constructor
  · rintro ⟨-, h⟩
    rcases hcs : s.session c with _ | cs
    · rw [hcs] at h
      cases h
    · rw [hcs] at h
      exact ⟨cs, rfl, of_decide_eq_true h⟩
  · rintro ⟨cs, hcs, hlt⟩
    refine ⟨Finmap.mem_of_lookup_eq_some hcs, ?_⟩
    rw [hcs]
    exact decide_eq_true hlt

namespace Gone

theorem refl (s : Server) : Gone ∅ s s := by
  refine ⟨fun k => ?_, fun c => ?_, fun _ => rfl, fun c => ?_⟩
  · simp
  · rw [if_neg (Finset.notMem_empty c)]
  · rw [if_neg (Finset.notMem_empty c)]

theorem trans (h : Gone E s s₁) (h' : Gone E' s₁ s') : Gone (E ∪ E') s s' := by
  refine ⟨fun k => ?_, fun c => ?_, fun c => (h'.nameGiven c).trans (h.nameGiven c), fun c => ?_⟩
  · rw [h'.channel, h.channel]
    simp [Function.comp_def, sdiff_sdiff_left]
  · rw [h'.session, h.session]
    by_cases hc : c ∈ E <;> by_cases hc' : c ∈ E' <;> simp [hc, hc']
  · rw [h'.writers, h.writers]
    by_cases hc : c ∈ E <;> by_cases hc' : c ∈ E' <;> simp [hc, hc']

theorem members (h : Gone E s s') (k : ChannelId) : s'.members k = s.members k \ E := by
  rcases hch : s.channel k with _ | ch
  · rw [members_of_none hch, members_of_none (by rw [h.channel, hch]; rfl), Finset.empty_sdiff]
  · have hout : s'.channel k = some { ch with members := ch.members \ E } := by rw [h.channel, hch]; rfl
    rw [members_of_channel hch]
    exact members_of_channel hout

end Gone

end

/-! ### One client -/

section
variable {c : ClientId} {k : ChannelId} {s s₁ s₂ s' : Server} {order : BucketOrder}

/-- A program that only removes keeps the names that were given, and takes at most `c` out of the table
of streams. -/
def Discards (c : ClientId) : Call → Prop
  | .clients (.registerClient _) | .publisher (.registerSubscriber _ _) => False
  | .publisher (.unregisterSubscriber d) => d = c
  | _ => True

theorem discards_handle {o : Call} (ho : Discards c o) (s : Server) :
    (∀ d, (handle o s).2.nameGiven d = s.nameGiven d) ∧
      ∀ d ≠ c, (handle o s).2.publisher.writers.lookup d = s.publisher.writers.lookup d := by
  constructor
  · intro d
    by_cases hd : ∃ d', o = .clients (.remove d')
    · obtain ⟨d', rfl⟩ := hd
      exact nameGiven_remove s d' d
    · exact (names_handle (by rintro name rfl; exact ho) (fun d' h => hd ⟨d', h⟩) s).2.1 d
  · intro d hd
    rcases o with o | o | o | (⟨d', w⟩ | d' | ⟨d', m⟩ | _ | _) | _ | _ | _
    case channels => rw [handle_channels_publisher]
    case clients => rw [handle_clients_publisher]
    case messages => rw [handle_messages_publisher]
    case publisher.registerSubscriber => exact ho.elim
    case publisher.unregisterSubscriber =>
      obtain rfl : d' = c := ho
      exact Finmap.lookup_erase_ne hd
    case publisher.publish => exact congrArg (·.lookup d) (Subscribers.writers_writeTo ..)
    all_goals rfl

theorem discards_exec {α : Type} {p : Task α} (hp : p.Calls (Discards c)) (s : Server) :
    (∀ d, (ports.exec p s).2.nameGiven d = s.nameGiven d) ∧
      ∀ d ≠ c, (ports.exec p s).2.publisher.writers.lookup d = s.publisher.writers.lookup d := by
  refine Machine.exec_preserves ports (I := fun s' => (∀ d, s'.nameGiven d = s.nameGiven d) ∧
    ∀ d ≠ c, s'.publisher.writers.lookup d = s.publisher.writers.lookup d) (fun o s' ho hs => ?_) hp
    ⟨fun _ => rfl, fun _ _ => rfl⟩
  obtain ⟨hnames, hwriters⟩ := discards_handle ho s'
  exact ⟨fun d => (hnames d).trans (hs.1 d), fun d hd => (hwriters d hd).trans (hs.2 d hd)⟩

/-- The stores that the sweep and the requests are to agree on, with all that was written to channel
streams. -/
structure SameTables (s s' : Server) : Prop where
  channels : s'.channels = s.channels
  clients : s'.clients = s.clients
  publisher : s'.publisher = s.publisher

theorem Gone.of_tables {E : Finset ClientId} (h : Gone E s s₁) (ht : SameTables s₁ s') : Gone E s s' := by
  refine ⟨fun k => ?_, fun d => ?_, fun d => ?_, fun d => ?_⟩
  · rw [← h.channel, Server.channel, ht.channels]
    rfl
  · rw [← h.session, Server.session, ht.clients]
    rfl
  · rw [← h.nameGiven, Server.nameGiven, ht.clients]
    rfl
  · rw [← h.writers, ht.publisher]

/-- One round of the sweep. -/
def expireOne (order : BucketOrder) (cs : ClientSession) (s : Server) : Server :=
  (ports.handle (.publisher (.unregisterSubscriber cs.id)) (ports.handle (.clients (.remove cs.id))
    (ports.exec (ExpireInactiveClients.removeFromEach cs (order.channels.enum cs.joinedChannels)) s).2).2).2

theorem exec_expireEach_cons (order : BucketOrder) (count : Nat) (cs : ClientSession)
    (expired : List ClientSession)
    (s : Server) : ports.exec (ExpireInactiveClients.expireEach order count (cs :: expired)) s =
      ports.exec (ExpireInactiveClients.expireEach order (count + 1) expired) (expireOne order cs s) := by
  simp only [ExpireInactiveClients.expireEach, Machine.exec_bind, Machine.exec_perform]
  rfl

theorem gone_expireOne (order : BucketOrder) {cs : ClientSession} (hs : Agree s)
    (hcs : s.session cs.id = some cs) :
    Gone {cs.id} s (expireOne order cs s) := by
  have hends := ExpireInactiveClients.ends_expireOne order hcs (hs.channelsOf_eq cs.id).le
  have hdiscards : (do
      ExpireInactiveClients.removeFromEach cs (order.channels.enum cs.joinedChannels)
      let _ ← clients.remove cs.id
      publisher.unregisterSubscriber cs.id : Task Unit).Calls (Discards cs.id) := by
    refine .bind ?_ fun _ => ⟨trivial, fun _ => ⟨rfl, fun _ => trivial⟩⟩
    induction order.channels.enum cs.joinedChannels with
    | nil => trivial
    | cons k ks ih =>
      exact .bind (calls_removeMemberAndBroadcast (fun _ => trivial) (fun _ => trivial)
        (fun _ _ _ _ => trivial) cs k)
        fun _ => ih
  obtain ⟨hnames, hwriters⟩ := discards_exec hdiscards s
  have hexec : (ports.exec (do
      ExpireInactiveClients.removeFromEach cs (order.channels.enum cs.joinedChannels)
      let _ ← clients.remove cs.id
      publisher.unregisterSubscriber cs.id : Task Unit) s).2 = expireOne order cs s := by
    simp only [Machine.exec_bind, Machine.exec_perform]
    rfl
  rw [hexec] at hnames hwriters
  refine ⟨fun k => ?_, fun d => ?_, hnames, fun d => ?_⟩
  · rw [show (expireOne order cs s).channel k = _ from hends.channel k]
    simp only [Channel.without, Finset.sdiff_singleton_eq_erase]
  · rw [show (expireOne order cs s).session d = _ from hends.session d]
    simp only [Finset.mem_singleton]
  · split
    · rw [Finset.mem_singleton.1 ‹d ∈ _›]
      exact Finmap.lookup_erase _ _
    · exact hwriters d fun hd => ‹d ∉ _› (Finset.mem_singleton.2 hd)

/-- A Leave, once the member is out: the session follows, and the list subscribers are told the count. -/
theorem exec_leaveChannel_removed {cs : ClientSession} (hcs : s.session cs.id = some cs)
    (hk : s₁.channel k ≠ none) (hexec : ports.exec (removeMemberAndBroadcast cs k) s = (.ok (), s₁)) :
    ∃ list, ports.exec (LeaveChannel.execute cs.id k) s =
      (.ok (), { (handle (.clients (.leaveChannelAtomic cs.id k)) s₁).2 with channelList := list }) := by
  have htol : tolerate [.clientNotFound] (ports.handle (.clients (.leaveChannelAtomic cs.id k)) s₁).1 =
      .ok () :=
    tolerate_leaveChannelAtomic ..
  obtain ⟨ch, hch⟩ := Option.ne_none_iff_exists'.1 hk
  have hch' : (ports.handle (.clients (.leaveChannelAtomic cs.id k)) s₁).2.channel k = some ch :=
    (channel_handle (.clients (.leaveChannelAtomic cs.id k)) nofun nofun s₁ k).trans hch
  simp only [LeaveChannel.execute, Prog.perform_bind, Prog.pure_eq, exec_findSession, hcs,
    Machine.exec_bind, hexec]
  rw [Machine.exec_call]
  simp only [htol, exec_findChannel, hch']
  exact ⟨_, rfl⟩

/-- The request goes another way to the same tables: it takes the channel out of the session before it
removes it. -/
theorem sameTables_disconnect (order order' : BucketOrder) {cs : ClientSession} (hs : Agree s)
    (hcs : s.session cs.id = some cs) : SameTables (expireOne order cs s)
      (ports.exec (BroadcastService.disconnectClient order' cs.id) s).2 := by
  have hjoined := joined_of_session hcs
  have hone := hs.one cs.id
  rw [hjoined] at hone
  simp only [BroadcastService.disconnectClient, Prog.perform_bind, Prog.pure_eq, exec_findSession, hcs]
  simp only [Machine.exec_bind, Machine.exec_call]
  unfold expireOne
  rcases cs.joinedChannels.eq_empty_or_nonempty with hnone | ⟨k, hk⟩
  · have hremoved : (ports.handle (.clients (.remove cs.id)) s).1 = (.ok () : VoidResult) :=
      (fst_remove s cs.id).trans (if_neg (by rw [hcs]; simp))
    simp only [hnone, IterOrder.enum_empty, ExpireInactiveClients.removeFromEach, BroadcastService.leaveEach,
      Prog.pure_eq, Machine.exec_ret, hremoved]
    exact ⟨rfl, rfl, rfl⟩
  · have hm : cs.id ∈ s.members k := by rwa [hs.mem_iff, hjoined]
    have hset : cs.joinedChannels = {k} :=
      Finset.eq_singleton_iff_unique_mem.2 ⟨hk, fun k' hk' => Finset.card_le_one.1 hone k' hk' k hk⟩
    obtain ⟨s₁, hexec, hput, hcl, -⟩ := exec_removeMember_mem hm
    have hch₁ : s₁.channel k ≠ none := by
      rw [hput k, if_pos (Finset.mem_singleton_self k), Ne, Option.map_eq_none_iff]
      intro hnone
      rw [members_of_none hnone] at hm
      exact absurd hm (Finset.notMem_empty _)
    obtain ⟨list, hleft⟩ := exec_leaveChannel_removed hcs hch₁ hexec
    generalize hs₂ : ({ (handle (.clients (.leaveChannelAtomic cs.id k)) s₁).2 with
      channelList := list } : Server) = s₂
      at hleft
    have hremoved : (ports.handle (.clients (.remove cs.id)) s₂).1 = (.ok () : VoidResult) := by
      refine (fst_remove s₂ cs.id).trans (if_neg ?_)
      rw [← hs₂]
      show (handle (.clients (.leaveChannelAtomic cs.id k)) s₁).2.session cs.id ≠ none
      rw [session_leaveChannelAtomic, if_pos rfl, session, hcl,
        show s.clients.clientsById.find cs.id = some cs from hcs]
      simp
    simp only [hset, IterOrder.enum_singleton, ExpireInactiveClients.removeFromEach,
      BroadcastService.leaveEach,
      Machine.exec_bind, hexec, hleft, Prog.pure_eq, Machine.exec_ret, hremoved]
    subst hs₂
    refine ⟨rfl, ?_, rfl⟩
    exact InMemoryClientRegistry.remove_leaveChannelAtomic s₁.clients cs.id k

/-- The calls whose answers and effects in the tables depend on the tables alone. -/
def Tabular : Call → Prop
  | .channels (.create _) | .clients (.registerClient _) | .clients (.touchHeartbeat _) => False
  | .channels _ | .clients _ | .publisher _ | .channelList _ => True
  | _ => False

theorem SameTables.handle (h : SameTables s s') {o : Call} (ho : Tabular o) :
    (handle o s).1 = (handle o s').1 ∧ SameTables (handle o s).2 (handle o s').2 := by
  rcases s with ⟨ch, cl, m, p, l, w, t, t', n⟩
  rcases s' with ⟨ch', cl', m', p', l', w', u, u', n'⟩
  obtain ⟨hch, hcl, hp⟩ := h
  dsimp only at hch hcl hp
  subst hch hcl hp
  rcases o with (_ | _ | _ | _ | _) | (_ | _ | _ | _ | _ | _ | _ | _) | _ | _ | _ | _ | _
  case channels.create => exact ho.elim
  case clients.registerClient => exact ho.elim
  case clients.touchHeartbeat => exact ho.elim
  case messages => exact ho.elim
  case newMessage => exact ho.elim
  case awaitCancelled => exact ho.elim
  all_goals exact ⟨rfl, rfl, rfl, rfl⟩

theorem SameTables.exec {α : Type} {p : Task α} (h : SameTables s s') (hp : p.Calls Tabular) :
    SameTables (ports.exec p s).2 (ports.exec p s').2 := by
  induction p generalizing s s' with
  | ret a => exact h
  | call o f ih =>
    obtain ⟨hr, hs⟩ := h.handle hp.1
    have hnext := ih (Server.handle o s').1 hs (hp.2 _)
    rw [Machine.exec_call, Machine.exec_call, show ports.handle o s = Server.handle o s from rfl,
      show ports.handle o s' = Server.handle o s' from rfl, hr]
    exact hnext

theorem SameTables.expireOne (h : SameTables s s') (order : BucketOrder) (cs : ClientSession) :
    SameTables (expireOne order cs s) (expireOne order cs s') := by
  have hremoved : (ExpireInactiveClients.removeFromEach cs
      (order.channels.enum cs.joinedChannels)).Calls Tabular :=
    calls_removeFromEach (fun _ => trivial) (fun _ => trivial) (fun _ _ _ _ => trivial) cs _
  exact (((h.exec hremoved).handle (o := .clients (.remove cs.id)) trivial).2.handle
    (o := .publisher (.unregisterSubscriber cs.id)) trivial).2

end

/-! ### All of them -/

/-- The Disconnect requests of a list, one after the other, each with its way of walking the tables. -/
def Host.disconnectEach (uuid : UuidLib) (host : Host) (requests : List (BucketOrder × Bytes)) : Host :=
  requests.foldl (fun host r => host.step uuid r.1 (.disconnect r.2)) host

section
variable {uuid : UuidLib} {historyCap : UInt32} {systemNow steadyNow : Int} {host : Host} {s : Server}
  {requests : List (BucketOrder × Bytes)}
open BroadcastService

theorem reached_disconnectEach (h : Host.Reached uuid (.initial historyCap systemNow steadyNow) host)
    (requests : List (BucketOrder × Bytes)) :
    Host.Reached uuid (.initial historyCap systemNow steadyNow) (host.disconnectEach uuid requests) := by
  induction requests generalizing host with
  | nil => exact h
  | cons r requests ih => exact ih (h.step r.1 (.disconnect r.2))

theorem server_disconnect (order : BucketOrder) {clientId : Bytes} {c : ClientId}
    (hc : parseClient uuid clientId = some c) :
    (host.step uuid order (.disconnect clientId)).server =
      (ports.exec (disconnectClient order c) host.server).2 := by
  show (ports.exec (Disconnect uuid order clientId) host.server).2 = _
  unfold Disconnect
  simp only [hc]

theorem gone_disconnect (h : Host.Reached uuid (.initial historyCap systemNow steadyNow) host)
    (order : BucketOrder)
    {clientId : Bytes} {c : ClientId} (hc : parseClient uuid clientId = some c)
    (hs : host.server.session c ≠ none) :
    Gone {c} host.server (host.step uuid order (.disconnect clientId)).server := by
  obtain ⟨cs, hcs⟩ := Option.ne_none_iff_exists'.1 hs
  obtain rfl := id_of_session hcs
  have hagree := agree_reached h
  rw [server_disconnect order hc]
  exact (gone_expireOne order hagree hcs).of_tables (sameTables_disconnect order order hagree hcs)

/-- Of clients that are connected; a request that is repeated does nothing. -/
theorem gone_disconnectEach (h : Host.Reached uuid (.initial historyCap systemNow steadyNow) host)
    (hall : ∀ r ∈ requests, ∀ c, parseClient uuid r.2 = some c → host.server.session c ≠ none) :
    Gone (requests.filterMap fun r => parseClient uuid r.2).toFinset host.server
      (host.disconnectEach uuid requests).server := by
  induction requests using List.reverseRecOn with
  | nil => exact .refl _
  | append_singleton requests r ih =>
    have hgone := ih fun r hr => hall r (List.mem_append_left _ hr)
    have hreached := reached_disconnectEach h requests
    have hlast : host.disconnectEach uuid (requests ++ [r]) =
        (host.disconnectEach uuid requests).step uuid r.1 (.disconnect r.2) := List.foldl_concat ..
    rw [hlast, List.filterMap_append, List.toFinset_append]
    rcases hc : parseClient uuid r.2 with _ | c
    · have hsame : ((host.disconnectEach uuid requests).step uuid r.1 (.disconnect r.2)).server =
          (host.disconnectEach uuid requests).server := by
        show (ports.exec (Disconnect uuid r.1 r.2) _).2 = _
        unfold Disconnect
        simp only [hc]
        rfl
      rw [hsame, List.filterMap_cons_none (by simpa using hc)]
      simpa using hgone
    rw [List.filterMap_cons_some (by simpa using hc), List.filterMap_nil]
    by_cases hin : c ∈ (requests.filterMap fun r => parseClient uuid r.2).toFinset
    · -- its session is gone
      have hnone : (host.disconnectEach uuid requests).server.session c = none := by
        rw [hgone.session, if_pos hin]
      have hsame : ((host.disconnectEach uuid requests).step uuid r.1 (.disconnect r.2)).server =
          (host.disconnectEach uuid requests).server := by
        rw [server_disconnect r.1 hc]
        simp only [disconnectClient, Prog.perform_bind, Prog.pure_eq, exec_findSession, hnone]
        rfl
      rw [hsame]
      have hset : (requests.filterMap fun r => parseClient uuid r.2).toFinset ∪ [c].toFinset =
          (requests.filterMap fun r => parseClient uuid r.2).toFinset := by
        rw [List.toFinset_cons, List.toFinset_nil, insert_empty_eq, Finset.union_singleton,
          Finset.insert_eq_of_mem hin]
      rwa [hset]
    · have hsession : (host.disconnectEach uuid requests).server.session c ≠ none := by
        rw [hgone.session, if_neg hin]
        exact hall r (by simp) c hc
      exact hgone.trans (gone_disconnect hreached r.1 hc hsession)

/-- A sweep, of sessions that are as they were collected. -/
theorem gone_expireEach (order : BucketOrder) (hs : Agree s) {expired : List ClientSession} (count : Nat)
    (hcur : ∀ cs ∈ expired, s.session cs.id = some cs) (hnd : (expired.map ClientSession.id).Nodup) :
    Gone (expired.map ClientSession.id).toFinset s
      (ports.exec (ExpireInactiveClients.expireEach order count expired) s).2 := by
  induction expired generalizing s count with
  | nil => exact .refl s
  | cons cs expired ih =>
    have hcs := hcur cs (List.mem_cons_self ..)
    have hone := gone_expireOne order hs hcs
    have hs' : Agree (expireOne order cs s) :=
      hs.ends (ExpireInactiveClients.ends_expireOne order hcs (hs.channelsOf_eq cs.id).le)
    obtain ⟨hnew, hnd⟩ := List.nodup_cons.1 hnd
    rw [exec_expireEach_cons, List.map_cons, List.toFinset_cons, Finset.insert_eq]
    refine hone.trans (ih hs' (count + 1) (fun cs' hcs' => ?_) hnd)
    have hne : cs'.id ∉ ({cs.id} : Finset ClientId) := fun hid =>
      hnew (by rw [← Finset.mem_singleton.1 hid]; exact List.mem_map_of_mem hcs')
    rw [hone.session, if_neg hne]
    exact hcur cs' (List.mem_cons_of_mem cs hcs')

theorem exec_expireEach_fst (order : BucketOrder) (expired : List ClientSession) (count : Nat) (s : Server) :
    (ports.exec (ExpireInactiveClients.expireEach order count expired) s).1 = count + expired.length := by
  induction expired generalizing s count with
  | nil => rfl
  | cons cs expired ih => rw [exec_expireEach_cons, ih, List.length_cons]; omega

/-- The requests of the swept clients, in the order of the sweep. -/
theorem sameTables_disconnectEach (h : Host.Reached uuid (.initial historyCap systemNow steadyNow) host)
    (order : BucketOrder) {expired : List ClientSession} (count : Nat) (ht : SameTables s host.server)
    (hcur : ∀ cs ∈ expired, host.server.session cs.id = some cs) (hnd : (expired.map ClientSession.id).Nodup)
    (hreq : requests.map (fun r => parseClient uuid r.2) = expired.map fun cs => some cs.id) :
    SameTables (ports.exec (ExpireInactiveClients.expireEach order count expired) s).2
      (host.disconnectEach uuid requests).server := by
  induction expired generalizing s host requests count with
  | nil =>
    rw [List.map_nil, List.map_eq_nil_iff] at hreq
    subst hreq
    exact ht
  | cons cs expired ih =>
    rcases requests with _ | ⟨r, requests⟩
    · cases hreq
    obtain ⟨hc, hreq⟩ := List.cons_eq_cons.1 hreq
    have hcs := hcur cs (List.mem_cons_self ..)
    obtain ⟨hnew, hnd⟩ := List.nodup_cons.1 hnd
    have hsame : SameTables (expireOne order cs s) (host.step uuid r.1 (.disconnect r.2)).server := by
      rw [server_disconnect r.1 hc]
      have hswept := ht.expireOne order cs
      have hdone := sameTables_disconnect order r.1 (agree_reached h) hcs
      exact ⟨hdone.channels.trans hswept.channels, hdone.clients.trans hswept.clients,
        hdone.publisher.trans hswept.publisher⟩
    rw [exec_expireEach_cons]
    refine ih (h.step r.1 (.disconnect r.2)) (count + 1) hsame (fun cs' hcs' => ?_) hnd hreq
    have hgone := gone_disconnect h r.1 hc (by rw [hcs]; nofun)
    have hne : cs'.id ∉ ({cs.id} : Finset ClientId) := fun hid =>
      hnew (by rw [← Finset.mem_singleton.1 hid]; exact List.mem_map_of_mem hcs')
    rw [hgone.session, if_neg hne]
    exact hcur cs' (List.mem_cons_of_mem cs hcs')

/-- In every state of a run, and for every deadline: the sweep counts the expired sessions; it leaves
the channels, the sessions and the table of channel streams as the Disconnect requests of these clients
would, in whatever orders, and in its own order what was written to the streams too; and nothing of
another client changes. -/
theorem sweep_disconnects (h : Host.Reached uuid (.initial historyCap systemNow steadyNow) host)
    (order : BucketOrder) (deadline : Int) :
    (ports.exec (ExpireInactiveClients.run order deadline) host.server).1 =
      (host.server.expired deadline).card ∧
      (∀ requests, (∀ c, c ∈ host.server.expired deadline ↔ ∃ r ∈ requests, parseClient uuid r.2 = some c) →
        (host.step uuid order (.expire deadline)).server.channels =
          (host.disconnectEach uuid requests).server.channels ∧
        (host.step uuid order (.expire deadline)).server.clients =
          (host.disconnectEach uuid requests).server.clients ∧
        (host.step uuid order (.expire deadline)).server.publisher.writers =
          (host.disconnectEach uuid requests).server.publisher.writers ∧
        (requests.map (fun r => parseClient uuid r.2) =
            (host.server.clients.collectExpired order.clients deadline).map (fun cs => some cs.id) →
          (host.step uuid order (.expire deadline)).server.publisher =
            (host.disconnectEach uuid requests).server.publisher)) ∧
      ∀ c, c ∉ host.server.expired deadline →
        (host.step uuid order (.expire deadline)).server.session c = host.server.session c ∧
        (∀ k, c ∈ (host.step uuid order (.expire deadline)).server.members k ↔ c ∈ host.server.members k) ∧
        (host.step uuid order (.expire deadline)).server.publisher.writers.lookup c =
          host.server.publisher.writers.lookup c := by
  have hcur : ∀ cs ∈ host.server.clients.collectExpired order.clients deadline,
      host.server.session cs.id = some cs := fun cs hcs => (InMemoryClientRegistry.mem_collectExpired.1 hcs).1
  have hnd : ((host.server.clients.collectExpired order.clients deadline).map ClientSession.id).Nodup :=
    (host.server.clients.clientsById.nodup_map_values order.clients).sublist (List.filter_sublist.map _)
  have hset : ((host.server.clients.collectExpired order.clients deadline).map ClientSession.id).toFinset =
      host.server.expired deadline := by
    ext c
    rw [List.mem_toFinset, List.mem_map, mem_expired]
    constructor
    · rintro ⟨cs, hcs, rfl⟩
      exact ⟨cs, InMemoryClientRegistry.mem_collectExpired.1 hcs⟩
    · rintro ⟨cs, hcs, hlt⟩
      obtain rfl := id_of_session hcs
      exact ⟨cs, InMemoryClientRegistry.mem_collectExpired.2 ⟨hcs, hlt⟩, rfl⟩
  have hswept : Gone (host.server.expired deadline) host.server
      (host.step uuid order (.expire deadline)).server := by
    rw [← hset]
    exact gone_expireEach order (agree_reached h) 0 hcur hnd
  have hreached := h.step order (.expire deadline)
  refine ⟨?_, fun requests hreq => ?_, fun c hc => ?_⟩
  · show (ports.exec (ExpireInactiveClients.expireEach order 0 _) host.server).1 = _
    rw [exec_expireEach_fst, ← hset, List.toFinset_card_of_nodup hnd, List.length_map, Nat.zero_add]
    rfl
  · have hgone : Gone (host.server.expired deadline) host.server
        (host.disconnectEach uuid requests).server := by
      have hrequested : (requests.filterMap fun r => parseClient uuid r.2).toFinset =
          host.server.expired deadline := by
        ext c
        rw [List.mem_toFinset, List.mem_filterMap, hreq c]
      rw [← hrequested]
      refine gone_disconnectEach h fun r hr c hc => ?_
      obtain ⟨cs, hcs, -⟩ := mem_expired.1 ((hreq c).2 ⟨r, hr, hc⟩)
      rw [hcs]
      nofun
    have hreached' := reached_disconnectEach h requests
    refine ⟨channels_ext (indexed_reached hreached) (indexed_reached hreached') fun k => ?_,
      clients_ext (registered_reached hreached) (registered_reached hreached') (fun c => ?_) (fun c => ?_),
      Finmap.ext_lookup fun c => ?_, fun hown => ?_⟩
    · rw [hswept.channel, hgone.channel]
    · rw [hswept.session, hgone.session]
    · rw [hswept.nameGiven, hgone.nameGiven]
    · rw [hswept.writers, hgone.writers]
    · exact (sameTables_disconnectEach h order 0 ⟨rfl, rfl, rfl⟩ hcur hnd hown).publisher.symm
  · refine ⟨by rw [hswept.session, if_neg hc], fun k => ?_, by rw [hswept.writers, if_neg hc]⟩
    rw [hswept.members, Finset.mem_sdiff]
    exact and_iff_left hc

end

/-- Client `2` has let its time pass. -/
theorem sweep_disconnects_oneJoined :
    (ports.exec (ExpireInactiveClients.run .byId 1) oneJoined.server).1 = 1 ∧
      (oneJoined.step .canonical .byId (.expire 1)).server.clients =
        (oneJoined.disconnectEach .canonical [(.byId,
          ascii "00000000-0000-0000-0000-000000000002")]).server.clients := by
  have hexpired : oneJoined.server.expired 1 = {⟨2⟩} := by decide +kernel
  have hparse : BroadcastService.parseClient .canonical (ascii "00000000-0000-0000-0000-000000000002") =
      some ⟨2⟩ := by
    decide +kernel
  obtain ⟨hcount, htables, -⟩ := sweep_disconnects oneJoined_reached .byId 1
  refine ⟨by rw [hcount, hexpired]; rfl, (htables _ fun c => ?_).2.1⟩
  simp [hexpired, hparse, eq_comm]

end Bcmd
