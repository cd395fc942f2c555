import Bcmd.Host

/-!
# Member sets and sessions

Membership is stored twice: in the channels' member sets (`Server.members`) and in the sessions'
`joinedChannels` (`Server.session`). Here is what each atomic call does to either.
-/

namespace Bcmd

namespace Server

/-- The stored channel. -/
def channel (s : Server) (k : ChannelId) : Option Channel := s.channels.channelsById.find k

/-- The stored members, none when there is no such channel. -/
def members (s : Server) (k : ChannelId) : Finset ClientId :=
  match s.channel k with
  | none => ∅
  | some ch => ch.members

/-- The stored channels that have `c` as a member. -/
def channelsOf (s : Server) (c : ClientId) : Finset ChannelId :=
  s.channels.channelsById.map.keys.filter fun k => c ∈ s.members k

/-- The live session. -/
def session (s : Server) (c : ClientId) : Option ClientSession := s.clients.clientsById.find c

/-- The channels the live session names, none when there is no session. -/
def joined (s : Server) (c : ClientId) : Finset ChannelId :=
  match s.session c with
  | none => ∅
  | some cs => cs.joinedChannels

variable {s s' : Server} {k : ChannelId} {c : ClientId} {ch : Channel} {cs : ClientSession}

theorem members_of_channel (h : s.channel k = some ch) : s.members k = ch.members := by
  rw [members, h]

theorem members_of_none (h : s.channel k = none) : s.members k = ∅ := by
  rw [members, h]

theorem members_congr (h : s'.channel k = s.channel k) : s'.members k = s.members k := by
  rw [members, members, h]

@[simp] theorem mem_channelsOf : k ∈ s.channelsOf c ↔ c ∈ s.members k := by
  rw [channelsOf, Finset.mem_filter, Finmap.mem_keys]
  refine ⟨fun h => h.2, fun h => ⟨?_, h⟩⟩
  rcases hch : s.channel k with _ | ch
  · rw [members_of_none hch] at h
    exact absurd h (Finset.notMem_empty c)
  · exact Finmap.mem_of_lookup_eq_some hch

theorem joined_of_session (h : s.session c = some cs) : s.joined c = cs.joinedChannels := by
  rw [joined, h]

theorem joined_of_none (h : s.session c = none) : s.joined c = ∅ := by
  rw [joined, h]

theorem mem_joined : k ∈ s.joined c ↔ ∃ cs, s.session c = some cs ∧ k ∈ cs.joinedChannels := by
  rcases hcs : s.session c with _ | cs
  · simp [joined_of_none hcs]
  · simp [joined_of_session hcs]

theorem joined_congr (h : s'.session c = s.session c) : s'.joined c = s.joined c := by
  rw [joined, joined, h]

theorem id_of_channel (h : s.channel k = some ch) : ch.id = k := Keyed.key_of_find h

theorem id_of_session (h : s.session c = some cs) : cs.id = c := Keyed.key_of_find h

/-! ### The channel calls -/

theorem channel_save (s : Server) (ch : Channel) (k : ChannelId) :
    (handle (.channels (.save ch)) s).2.channel k = if k = ch.id then some ch else s.channel k :=
  InMemoryChannelRepository.find_save ..

theorem members_save (s : Server) (ch : Channel) (k : ChannelId) :
    (handle (.channels (.save ch)) s).2.members k = if k = ch.id then ch.members else s.members k := by
  by_cases hk : k = ch.id
  · rw [if_pos hk]
    exact members_of_channel ((channel_save ..).trans (if_pos hk))
  · rw [if_neg hk]
    exact members_congr ((channel_save ..).trans (if_neg hk))

/-- A stored channel is saved with other members. -/
theorem members_save_of_channel {s : Server} {ch : Channel} (h : s.channel k = some ch)
    (f : Finset ClientId → Finset ClientId) (k' : ChannelId) :
    (handle (.channels (.save { ch with members := f ch.members })) s).2.members k' =
      if k' = k then f (s.members k') else s.members k' := by
  obtain rfl := id_of_channel h
  rw [members_save]
  split
  · subst ‹k' = ch.id›
    rw [members_of_channel h]
  · rfl

theorem channel_create (s : Server) (name : ChannelName) (k : ChannelId) :
    (handle (.channels (.create name)) s).2.channel k = s.channel k ∨
      s.channel k = none ∧
        (handle (.channels (.create name)) s).2.channel k = some (.new ⟨s.nextUuid⟩ name) := by
  rcases InMemoryChannelRepository.create_cases s.channels ⟨s.nextUuid⟩ name with h | ⟨-, h⟩
  · exact .inl (congrArg (·.2.channelsById.find k) h)
  · by_cases hk : k = ⟨s.nextUuid⟩ ∧ s.channel k = none
    · exact .inr ⟨hk.2, (h k).trans (if_pos hk)⟩
    · exact .inl ((h k).trans (if_neg hk))

/-- Only a save and a creation change the stored channels. -/
theorem channel_handle (o : Call) (hs : ∀ ch, o ≠ .channels (.save ch))
    (hc : ∀ name, o ≠ .channels (.create name))
    (s : Server) (k : ChannelId) : (handle o s).2.channel k = s.channel k := by
  rcases o with (_ | _ | _ | ch | name) | o | o | o | o | _ | _
  case channels.save => exact absurd rfl (hs ch)
  case channels.create => exact absurd rfl (hc name)
  case clients => rw [channel, handle_clients_channels]; rfl
  case messages => rw [channel, handle_messages_channels]; rfl
  all_goals rfl

/-- Only a save changes the member sets: a new channel has no members. -/
theorem members_handle (o : Call) (hs : ∀ ch, o ≠ .channels (.save ch)) (s : Server) (k : ChannelId) :
    (handle o s).2.members k = s.members k := by
  by_cases hc : ∃ name, o = .channels (.create name)
  · obtain ⟨name, rfl⟩ := hc
    rcases channel_create s name k with h | ⟨hnone, h⟩
    · exact members_congr h
    · rw [members_of_channel h, members_of_none hnone]; rfl
  · exact members_congr (channel_handle o hs (fun name h => hc ⟨name, h⟩) s k)

/-- Channels are never deleted. -/
theorem channel_ne_none (o : Call) (h : s.channel k ≠ none) : (handle o s).2.channel k ≠ none := by
  by_cases hs : ∃ ch, o = .channels (.save ch)
  · obtain ⟨ch, rfl⟩ := hs
    rw [channel_save]
    split
    · exact Option.some_ne_none _
    · exact h
  · by_cases hc : ∃ name, o = .channels (.create name)
    · obtain ⟨name, rfl⟩ := hc
      rcases channel_create s name k with h' | ⟨hnone, -⟩
      · rw [h']; exact h
      · exact absurd hnone h
    · rw [channel_handle o (fun ch h => hs ⟨ch, h⟩) (fun name h => hc ⟨name, h⟩)]; exact h

/-! ### The session calls -/

/-- The calls that may change the session of `d`. -/
def touches (d : ClientId) : Call → Prop
  | .clients (.registerClient _) => True
  | .clients (.remove c) | .clients (.touchHeartbeat c) | .clients (.joinChannelAtomic c _)
  | .clients (.leaveChannelAtomic c _) => c = d
  | _ => False

theorem session_joinChannelAtomic (s : Server) (c d : ClientId) (k : ChannelId) :
    (handle (.clients (.joinChannelAtomic d k)) s).2.session c =
      if c = d then (s.session c).map (·.joinChannel k) else s.session c :=
  InMemoryClientRegistry.find_joinChannelAtomic ..

theorem session_leaveChannelAtomic (s : Server) (c d : ClientId) (k : ChannelId) :
    (handle (.clients (.leaveChannelAtomic d k)) s).2.session c =
      if c = d then (s.session c).map (·.leaveChannel k) else s.session c :=
  InMemoryClientRegistry.find_leaveChannelAtomic ..

theorem tolerate_leaveChannelAtomic (s : Server) (c : ClientId) (k : ChannelId) :
    tolerate [.clientNotFound] (handle (.clients (.leaveChannelAtomic c k)) s).1 = .ok () := by
  show tolerate _ (s.clients.modify c _).1 = _
  rw [InMemoryClientRegistry.modify_fst]
  split <;> rfl

theorem fst_joinChannelAtomic (s : Server) (c : ClientId) (k : ChannelId) :
    (handle (.clients (.joinChannelAtomic c k)) s).1 =
      if s.session c = none then .error .clientNotFound else .ok () :=
  InMemoryClientRegistry.modify_fst ..

theorem fst_remove (s : Server) (c : ClientId) :
    (handle (.clients (.remove c)) s).1 = if s.session c = none then .error .clientNotFound else .ok () :=
  InMemoryClientRegistry.remove_fst ..

theorem fst_touchHeartbeat (s : Server) (c : ClientId) :
    (handle (.clients (.touchHeartbeat c)) s).1 =
      if s.session c = none then .error .clientNotFound else .ok () :=
  InMemoryClientRegistry.modify_fst ..

theorem session_touchHeartbeat (s : Server) (c d : ClientId) :
    (handle (.clients (.touchHeartbeat d)) s).2.session c =
      if c = d then (s.session c).map (·.touch s.steadyNow) else s.session c :=
  InMemoryClientRegistry.find_touchHeartbeat ..

theorem session_remove (s : Server) (c d : ClientId) :
    (handle (.clients (.remove d)) s).2.session c = if c = d then none else s.session c :=
  InMemoryClientRegistry.find_remove ..

theorem session_handle (o : Call) (ho : ¬ touches c o) (s : Server) :
    (handle o s).2.session c = s.session c := by
  rcases o with o | (_ | _ | _ | d | d | ⟨d, k⟩ | ⟨d, k⟩ | _) | o | o | o | _ | _
  case channels => rw [session, handle_channels_clients]; rfl
  case messages => rw [session, handle_messages_clients]; rfl
  case clients.registerClient => exact absurd trivial ho
  case clients.remove => exact (session_remove ..).trans (if_neg (Ne.symm ho))
  case clients.touchHeartbeat => exact (session_touchHeartbeat ..).trans (if_neg (Ne.symm ho))
  case clients.joinChannelAtomic => exact (session_joinChannelAtomic ..).trans (if_neg (Ne.symm ho))
  case clients.leaveChannelAtomic => exact (session_leaveChannelAtomic ..).trans (if_neg (Ne.symm ho))
  all_goals rfl

/-! ### The supply of ids -/

/-- Ids are drawn, never given back. -/
theorem nextUuid_handle (o : Call) (s : Server) : s.nextUuid ≤ (handle o s).2.nextUuid := by
  rcases o with (_ | _ | _ | _ | _) | (_ | _ | _ | _ | _ | _ | _ | _) | (_ | _ | _) | _ | _ | _ | _
  case channels.create => exact Nat.le_succ _
  case clients.registerClient => exact Nat.le_succ _
  case newMessage => exact Nat.le_succ _
  all_goals exact le_refl _

theorem nextUuid_exec {α : Type} (p : Task α) (s : Server) : s.nextUuid ≤ (ports.exec p s).2.nextUuid := by
  induction p generalizing s with
  | ret a => exact le_refl _
  | call o f ih => exact (nextUuid_handle o s).trans (ih _ _)

end Server

/-! ### Answers

How a `Safe` program goes on after a call that answers from the member sets or the sessions. -/

section
open Server
variable {α : Type} {R : Server → Server → Prop} {ok Act : Server → Call → Prop} {Q : α → Server → Prop}
  {s : Server}

theorem safe_findChannel {k : ChannelId} {f : Result Channel → Task α}
    (hact : ∀ s', R s s' → Act s' (.channels (.findById k)))
    (hnone : ∀ s', R s s' → s'.channel k = none → Safe ports R ok Act Q (f (.error .channelNotFound)) s')
    (hsome : ∀ s' ch, R s s' → s'.channel k = some ch → Safe ports R ok Act Q (f (.ok ch)) s') :
    Safe ports R ok Act Q (.call (.channels (.findById k)) f) s := by
  refine fun s' h => ⟨hact s' h, fun _ _ => ?_⟩
  show Safe ports R ok Act Q (f (s'.channels.findById k)) s'
  rcases hr : s'.channels.findById k with e | ch
  · obtain ⟨hn, rfl⟩ := InMemoryChannelRepository.findById_error.1 hr
    exact hnone s' h hn
  · exact hsome s' ch h (InMemoryChannelRepository.findById_ok.1 hr)

theorem safe_findByName {name : ChannelName} {f : Result Channel → Task α}
    (hact : ∀ s', R s s' → Act s' (.channels (.findByName name)))
    (hnone : ∀ s' e, R s s' → Safe ports R ok Act Q (f (.error e)) s')
    (hsome : ∀ s' ch, R s s' → s'.channel ch.id = some ch → Safe ports R ok Act Q (f (.ok ch)) s') :
    Safe ports R ok Act Q (.call (.channels (.findByName name)) f) s := by
  refine fun s' h => ⟨hact s' h, fun _ _ => ?_⟩
  show Safe ports R ok Act Q (f (s'.channels.findByName name)) s'
  rcases hr : s'.channels.findByName name with e | ch
  · exact hnone s' e h
  · exact hsome s' ch h (InMemoryChannelRepository.findByName_ok hr)

theorem safe_findSession {c : ClientId} {f : Result ClientSession → Task α}
    (hact : ∀ s', R s s' → Act s' (.clients (.findById c)))
    (hnone : ∀ s', R s s' → s'.session c = none → Safe ports R ok Act Q (f (.error .clientNotFound)) s')
    (hsome : ∀ s' cs, R s s' → s'.session c = some cs → Safe ports R ok Act Q (f (.ok cs)) s') :
    Safe ports R ok Act Q (.call (.clients (.findById c)) f) s := by
  refine fun s' h => ⟨hact s' h, fun _ _ => ?_⟩
  show Safe ports R ok Act Q (f (s'.clients.findById c)) s'
  rcases hr : s'.clients.findById c with e | cs
  · obtain ⟨hn, rfl⟩ := InMemoryClientRegistry.findById_error.1 hr
    exact hnone s' h hn
  · exact hsome s' cs h (InMemoryClientRegistry.findById_ok.1 hr)

section
variable {c : ClientId} {k : ChannelId} {f : VoidResult → Task α}

theorem safe_joinChannelAtomic (hact : ∀ s', R s s' → Act s' (.clients (.joinChannelAtomic c k)))
    (hnone : ∀ s', R s s' → s'.session c = none →
      Safe ports R ok Act Q (f (.error .clientNotFound)) (handle (.clients (.joinChannelAtomic c k)) s').2)
    (hsome : ∀ s', R s s' → s'.session c ≠ none →
      Safe ports R ok Act Q (f (.ok ())) (handle (.clients (.joinChannelAtomic c k)) s').2) :
    Safe ports R ok Act Q (.call (.clients (.joinChannelAtomic c k)) f) s := by
  refine fun s' h => ⟨hact s' h, fun _ _ => ?_⟩
  rw [show (ports.handle _ s').1 = _ from fst_joinChannelAtomic s' c k]
  split
  · exact hnone s' h ‹_›
  · exact hsome s' h ‹_›

theorem safe_leaveChannelAtomic (hact : ∀ s', R s s' → Act s' (.clients (.leaveChannelAtomic c k)))
    (h : ∀ s' r, R s s' → tolerate [.clientNotFound] r = .ok () →
      Safe ports R ok Act Q (f r) (handle (.clients (.leaveChannelAtomic c k)) s').2) :
    Safe ports R ok Act Q (.call (.clients (.leaveChannelAtomic c k)) f) s :=
  fun s' hs => ⟨hact s' hs, fun _ _ => h s' _ hs (tolerate_leaveChannelAtomic s' c k)⟩

end

end

end Bcmd
