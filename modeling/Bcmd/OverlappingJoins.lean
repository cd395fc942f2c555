import Bcmd.NameIndex
import Bcmd.Routing

/-!
# Overlapping Joins of one client

A Join leaves the channels that its client's session named when the Join read it. Joins to different
channels that read the session before either has changed it do not see each other, and the client
ends up in both channels. As long as no Join reads the session while another, to another channel, is
under way, the client is in one channel at most when all have returned.
-/

namespace Bcmd
open Server

/-! ### The session's channels after a call -/

section
variable {s : Server} {c d : ClientId} {k k' : ChannelId}

theorem mem_joined_joinChannelAtomic : k' ∈ (handle (.clients (.joinChannelAtomic d k)) s).2.joined c ↔
    k' ∈ s.joined c ∨ c = d ∧ k' = k ∧ s.session c ≠ none := by
  have hsession := session_joinChannelAtomic s c d k
  rcases hcs : s.session c with _ | cs
  · have hnone : (handle (.clients (.joinChannelAtomic d k)) s).2.session c = none := by
      rw [hsession, hcs]
      simp
    rw [joined_of_none hnone, joined_of_none hcs]
    simp
  · rw [hcs] at hsession
    rw [joined_of_session hcs]
    by_cases hd : c = d
    · rw [joined_of_session (hsession.trans (if_pos hd))]
      simp [ClientSession.joinChannel, hd, or_comm]
    · rw [joined_of_session (hsession.trans (if_neg hd))]
      simp [hd]

theorem mem_joined_leaveChannelAtomic : k' ∈ (handle (.clients (.leaveChannelAtomic d k)) s).2.joined c ↔
    k' ∈ s.joined c ∧ ¬ (c = d ∧ k' = k) := by
  have hsession := session_leaveChannelAtomic s c d k
  rcases hcs : s.session c with _ | cs
  · have hnone : (handle (.clients (.leaveChannelAtomic d k)) s).2.session c = none := by
      rw [hsession, hcs]
      simp
    rw [joined_of_none hnone, joined_of_none hcs]
    simp
  · rw [hcs] at hsession
    rw [joined_of_session hcs]
    by_cases hd : c = d
    · rw [joined_of_session (hsession.trans (if_pos hd))]
      simp [ClientSession.leaveChannel, hd, and_comm]
    · rw [joined_of_session (hsession.trans (if_neg hd))]
      simp [hd]

end

/-! ### On the way to one channel -/

/-- The session of `c` names the channels other than `k` that have `c` as a member. -/
def Covered (c : ClientId) (k : ChannelId) (s : Server) : Prop :=
  ∀ k' ≠ k, c ∈ s.members k' → k' ∈ s.joined c

/-- Names and ids are as they were. -/
structure SameNames (s s' : Server) : Prop where
  nameOf : ∀ k, s'.nameOf k = s.nameOf k
  idOf : ∀ n, s'.idOf n = s.idOf n

/-- From `s` to `s'`, `c` has entered no channel but `k`. -/
structure Toward (c : ClientId) (k : ChannelId) (s s' : Server) : Prop where
  names : SameNames s s'
  session : s'.session c = none ↔ s.session c = none
  members : ∀ k' ≠ k, c ∈ s'.members k' → c ∈ s.members k'
  joined : ∀ k' ≠ k, k' ∈ s'.joined c → k' ∈ s.joined c
  stays : k ∈ s.joined c → k ∈ s'.joined c
  cover : Covered c k s → Covered c k s'

/-- `c` is in no channel but `k`, which its session names. -/
structure Arrived (c : ClientId) (k : ChannelId) (s : Server) : Prop where
  members : ∀ k' ≠ k, c ∉ s.members k'
  joined : ∀ k' ≠ k, k' ∉ s.joined c
  here : k ∈ s.joined c

/-- `c` is in one channel at most, and its session names the channels it is in. -/
structure Settled (c : ClientId) (s : Server) : Prop where
  names : ∀ k, c ∈ s.members k → k ∈ s.joined c
  one : (s.joined c).card ≤ 1

namespace SameNames
variable {s s₁ s' : Server}

theorem refl (s : Server) : SameNames s s := ⟨fun _ => rfl, fun _ => rfl⟩

theorem trans (h : SameNames s s₁) (h' : SameNames s₁ s') : SameNames s s' :=
  ⟨fun k => (h'.nameOf k).trans (h.nameOf k), fun n => (h'.idOf n).trans (h.idOf n)⟩

theorem env (h : Env s s') : SameNames s s' where
  nameOf k := by rw [Server.nameOf, Server.channel, h.channels]; rfl
  idOf n := by rw [Server.idOf, h.channels]; rfl

theorem channel (h : SameNames s s') (k : ChannelId) : s'.channel k = none ↔ s.channel k = none := by
  rw [← nameOf_eq_none, ← nameOf_eq_none, h.nameOf]

/-- No request of a client that joins or leaves makes a new name. -/
theorem handle {o : Call} (ho : Requesting o) (hs : s.Indexed) (hknown : SavesKnown s o) :
    SameNames s (handle o s).2 := by
  by_cases hsave : ∃ ch, o = .channels (.save ch)
  · obtain ⟨ch, rfl⟩ := hsave
    obtain ⟨hn, hi⟩ := KeepsNames.names_save hs hknown
    exact ⟨hn, hi⟩
  · have hs' : ∀ ch, o ≠ .channels (.save ch) := fun ch h => hsave ⟨ch, h⟩
    have hc' : ∀ name, o ≠ .channels (.create name) := fun name h => by subst h; exact ho.elim
    exact ⟨nameOf_handle o hs' hc' s, idOf_handle o hs' hc' s⟩

end SameNames

namespace Toward
variable {c : ClientId} {k : ChannelId} {s s₁ s' : Server}

theorem refl (s : Server) : Toward c k s s := ⟨.refl s, Iff.rfl, fun _ _ => id, fun _ _ => id, id, id⟩

theorem trans (h : Toward c k s s₁) (h' : Toward c k s₁ s') : Toward c k s s' where
  names := h.names.trans h'.names
  session := h'.session.trans h.session
  members k' hk hm := h.members k' hk (h'.members k' hk hm)
  joined k' hk hj := h.joined k' hk (h'.joined k' hk hj)
  stays hk := h'.stays (h.stays hk)
  cover hc := h'.cover (h.cover hc)

theorem same (hn : SameNames s s') (hsession : s'.session c = none ↔ s.session c = none)
    (hm : ∀ k', s'.members k' = s.members k') (hj : s'.joined c = s.joined c) : Toward c k s s' where
  names := hn
  session := hsession
  members k' _ := by rw [hm]; exact id
  joined k' _ := by rw [hj]; exact id
  stays := by rw [hj]; exact id
  cover hc k' hk hm' := by
    rw [hm] at hm'
    rw [hj]
    exact hc k' hk hm'

theorem env (h : Env s s') : Toward c k s s' := by
  have hsession : s'.session c = s.session c := by rw [Server.session, h.clients]; rfl
  refine same (.env h) (by rw [hsession]) (fun k' => members_congr ?_) (joined_congr hsession)
  rw [channel, h.channels]
  rfl

/-- A call that changes no membership. -/
theorem harmless {o : Call} (ho : Requesting o) (hh : Harmless o) (hs : s.Indexed) :
    Toward c k s (handle o s).2 := by
  refine same (.handle ho hs (.of_harmless hh s)) (session_eq_none_iff ho.plain s c) (fun k' => ?_)
    (joined_handle hh s c)
  exact members_handle o (fun ch h => by subst h; exact hh) s k'

theorem save {ch : Channel} (hs : s.Indexed) (hknown : SavesKnown s (.channels (.save ch)))
    (hch : ch.id = k ∨ c ∉ ch.members) : Toward c k s (handle (.channels (.save ch)) s).2 := by
  have hm : ∀ k' ≠ k, c ∈ (handle (.channels (.save ch)) s).2.members k' → c ∈ s.members k' := by
    intro k' hk hm
    rw [members_save] at hm
    split at hm
    · exact absurd hm (hch.resolve_left fun hid => hk (by rw [‹k' = ch.id›, hid]))
    · exact hm
  exact
    { names := .handle trivial hs hknown
      session := session_eq_none_iff (o := .channels (.save ch)) trivial s c
      members := hm
      joined := fun _ _ => id
      stays := id
      cover := fun hc k' hk hm' => hc k' hk (hm k' hk hm') }

theorem join (hs : s.Indexed) : Toward c k s (handle (.clients (.joinChannelAtomic c k)) s).2 where
  names := .handle trivial hs trivial
  session := session_eq_none_iff (o := .clients (.joinChannelAtomic c k)) trivial s c
  members _ _ := id
  joined _ hk hj := (mem_joined_joinChannelAtomic.1 hj).resolve_right fun h => hk h.2.1
  stays hk := mem_joined_joinChannelAtomic.2 (.inl hk)
  cover hc k' hk hm := mem_joined_joinChannelAtomic.2 (.inl (hc k' hk hm))

/-- The session forgets another channel once the channel has forgotten the client. -/
theorem leave {k' : ChannelId} (hs : s.Indexed) (hk : k' ≠ k) (hm : c ∉ s.members k') :
    Toward c k s (handle (.clients (.leaveChannelAtomic c k')) s).2 where
  names := .handle trivial hs trivial
  session := session_eq_none_iff (o := .clients (.leaveChannelAtomic c k')) trivial s c
  members _ _ := id
  joined _ _ hj := (mem_joined_leaveChannelAtomic.1 hj).1
  stays hj := mem_joined_leaveChannelAtomic.2 ⟨hj, fun h => hk h.2.symm⟩
  cover hc k₁ hk₁ hm₁ := mem_joined_leaveChannelAtomic.2
    ⟨hc k₁ hk₁ hm₁, fun h => hm (by rw [← h.2]; exact hm₁)⟩

end Toward

theorem Arrived.toward {c : ClientId} {k : ChannelId} {s s' : Server} (h : Arrived c k s)
    (ht : Toward c k s s') :
    Arrived c k s' where
  members k' hk hm := h.members k' hk (ht.members k' hk hm)
  joined k' hk hj := h.joined k' hk (ht.joined k' hk hj)
  here := ht.stays h.here

theorem Arrived.settled {c : ClientId} {k : ChannelId} {s : Server} (h : Arrived c k s) : Settled c s where
  names k' hm := by
    by_cases hk : k' = k
    · rw [hk]; exact h.here
    · exact absurd hm (h.members k' hk)
  one := by
    have hsub : s.joined c ⊆ {k} := fun k' hk' => by
      rw [Finset.mem_singleton]
      by_contra hk
      exact h.joined k' hk hk'
    exact (Finset.card_le_card hsub).trans (Finset.card_singleton k).le

theorem Settled.covered {c : ClientId} {k : ChannelId} {s : Server} (h : Settled c s) : Covered c k s :=
  fun k' _ hm => h.names k' hm

theorem Settled.harmless {c : ClientId} {s : Server} {o : Call} (h : Settled c s) (ho : Harmless o) :
    Settled c (handle o s).2 where
  names k hm := by
    rw [members_handle o (fun ch h => by subst h; exact ho)] at hm
    rw [joined_handle ho]
    exact h.names k hm
  one := by
    rw [joined_handle ho]
    exact h.one

theorem Settled.env {c : ClientId} {s s' : Server} (h : Settled c s) (he : Env s s') : Settled c s' := by
  have hj : s'.joined c = s.joined c := joined_congr (by rw [session, he.clients]; rfl)
  have hm : ∀ k, s'.members k = s.members k := fun k => members_congr (by rw [channel, he.channels]; rfl)
  exact ⟨fun k hk => by rw [hj]; exact h.names k (by rwa [hm] at hk), by rw [hj]; exact h.one⟩

/-! ### What a Join does that has read the session -/

/-- What is known of the stored names, at a call, in every interleaving. -/
def Knows (s : Server) (o : Call) : Prop := s.Indexed ∧ SavesKnown s o

/-- `Safe` for the code that takes `c` to `k`, beside others that do. -/
abbrev Heads {α : Type} (c : ClientId) (k : ChannelId) (Q : α → Server → Prop) (p : Task α)
    (s : Server) : Prop :=
  Safe ports (Toward c k) Knows (fun s o => Working o ∧ (Knows s o → Toward c k s (handle o s).2)) Q p s

namespace Heads
variable {α β : Type} {c : ClientId} {k : ChannelId} {s : Server} {Q : α → Server → Prop}

theorem ret {a : α} (h : ∀ s', Toward c k s s' → Q a s') : Heads c k Q (.ret a) s := h

theorem call {o : Call} {f : o.Res → Task α} (ho : Working o) (hh : Harmless o)
    (h : ∀ s' r, Toward c k s s' → Heads c k Q (f r) s') : Heads c k Q (.call o f) s := by
  refine fun s₁ h₁ => ⟨⟨ho, fun hk => .harmless ho.requesting hh hk.1⟩, fun _ hk => ?_⟩
  exact h _ _ (h₁.trans (.harmless ho.requesting hh hk.1))

theorem bind {p : Task α} {f : α → Task β} {Q' : β → Server → Prop} (h : Heads c k Q p s)
    (hf : ∀ a s', Q a s' → Toward c k s s' → Heads c k Q' (f a) s') : Heads c k Q' (p >>= f) s := by
  have hall := h.and_rely Toward.refl Toward.trans fun s o _ hk ho => ho.2 hk
  exact Safe.bind Toward.refl (hall.mono fun a s' h => hf a s' h.1 h.2)

end Heads

section
variable {c : ClientId} {k k' : ChannelId} {cs : ClientSession} {s : Server}

theorem heads_removeMember (hcs : cs.id = c) (hk : k' ≠ k) :
    Heads c k (fun r s' => tolerate [.notAMember, .channelNotFound] r = .ok () ∧ c ∉ s'.members k')
      (removeMemberAndBroadcast cs k') s := by
  have hfind : ∀ s' : Server, Working (.channels (.findById k')) ∧ (Knows s' (.channels (.findById k')) →
      Toward c k s' s') := fun s' => ⟨trivial, fun _ => .refl s'⟩
  simp only [removeMemberAndBroadcast, Prog.perform_bind, Prog.pure_eq]
  refine safe_findChannel (fun s' _ => hfind s') (fun s₁ _ hnone => ?_) fun s₁ ch _ hch => ?_
  · refine Heads.ret fun s₂ h₂ => ⟨rfl, fun hm => ?_⟩
    have hm₁ := h₂.members k' hk hm
    rw [members_of_none hnone] at hm₁
    exact Finset.notMem_empty c hm₁
  · rcases hr : ch.removeMember cs.id with e | ch'
    · obtain ⟨hnot, rfl⟩ := Channel.removeMember_error.1 hr
      simp only [hr]
      refine Heads.ret fun s₂ h₂ => ⟨rfl, fun hm => hnot ?_⟩
      have hm₁ := h₂.members k' hk hm
      rwa [members_of_channel hch, ← hcs] at hm₁
    · obtain ⟨-, rfl⟩ := Channel.removeMember_ok.1 hr
      simp only [hr]
      have hid : ch.id = k' := id_of_channel hch
      have hout : c ∉ ch.members.erase cs.id := by rw [hcs]; exact Finset.notMem_erase c _
      refine fun s₂ h₂ => ⟨⟨trivial, fun hkn => .save hkn.1 hkn.2 (.inr hout)⟩, fun _ hkn => ?_⟩
      refine Heads.call trivial trivial fun s₃ _ h₃ => Heads.ret fun s₄ h₄ => ⟨rfl, fun hm => hout ?_⟩
      have hm₂ := (h₃.trans h₄).members k' hk hm
      rwa [show (ports.handle _ s₂).2.members k' = _ from members_save .., if_pos hid.symm] at hm₂

namespace JoinChannel

theorem heads_leaveEach (hcs : cs.id = c) (ks : List ChannelId) (hks : ∀ k' ∈ ks, k' ≠ k) (s : Server) :
    Heads c k (fun r s' => r = .ok () ∧ ∀ k' ∈ ks, c ∉ s'.members k' ∧ k' ∉ s'.joined c)
      (leaveEach cs ks) s := by
  induction ks generalizing s with
  | nil => exact Heads.ret fun s' _ => ⟨rfl, by simp⟩
  | cons k' ks ih =>
    have hk' : k' ≠ k := hks k' (List.mem_cons_self ..)
    simp only [leaveEach, publishCountIfStored]
    refine Heads.bind (heads_removeMember hcs hk') ?_
    rintro r s₁ ⟨htol, hm₁⟩ -
    simp only [htol, Prog.perform_bind, Prog.call_bind, hcs]
    -- the channel has forgotten the client, and now the session forgets the channel
    have hleave : ∀ s₂, Toward c k s₁ s₂ → c ∉ s₂.members k' := fun s₂ h₂ hm => hm₁ (h₂.members k' hk' hm)
    refine fun s₂ h₂ => ⟨⟨trivial, fun hkn => .leave hkn.1 hk' (hleave s₂ h₂)⟩, fun _ hkn => ?_⟩
    have htol₂ : tolerate [.clientNotFound] (ports.handle (.clients (.leaveChannelAtomic c k')) s₂).1 =
        .ok () :=
      tolerate_leaveChannelAtomic ..
    simp only [htol₂]
    have hout : ∀ s₃, Toward c k (handle (.clients (.leaveChannelAtomic c k')) s₂).2 s₃ →
        c ∉ s₃.members k' ∧ k' ∉ s₃.joined c := fun s₃ h₃ =>
      ⟨fun hm => hleave s₂ h₂ (h₃.members k' hk' hm),
        fun hj => (mem_joined_leaveChannelAtomic.1 (h₃.joined k' hk' hj)).2 ⟨rfl, rfl⟩⟩
    have hrest : ∀ s₃, Toward c k (handle (.clients (.leaveChannelAtomic c k')) s₂).2 s₃ →
        Heads c k (fun r s' => r = .ok () ∧ ∀ k₁ ∈ k' :: ks, c ∉ s'.members k₁ ∧ k₁ ∉ s'.joined c)
          (leaveEach cs ks) s₃ := by
      intro s₃ h₃
      have hks' := ih (fun k₁ hk₁ => hks k₁ (List.mem_cons_of_mem k' hk₁)) s₃
      have hall := hks'.and_rely Toward.refl Toward.trans fun s o _ hk ho => ho.2 hk
      refine hall.mono ?_
      rintro r s' ⟨⟨hr, hleft⟩, h'⟩
      refine ⟨hr, fun k₁ hk₁ => ?_⟩
      rcases List.mem_cons.1 hk₁ with rfl | hk₁
      · exact hout s' (h₃.trans h')
      · exact hleft k₁ hk₁
    refine Heads.call trivial trivial fun s₃ r h₃ => ?_
    rcases r with e | ch
    · exact hrest s₃ h₃
    · exact Heads.call trivial trivial fun s₄ _ h₄ => hrest s₄ (h₃.trans h₄)

/-- The session that the Join has read names the other channels the client is in. -/
theorem heads_joinFound {ch : Channel} (order : BucketOrder) (hcs : cs.id = c) (hs : s.session c ≠ none)
    (hch : s.channel k = some ch) (hm : ∀ k' ≠ k, c ∈ s.members k' → k' ∈ cs.joinedChannels)
    (hj : ∀ k' ≠ k, k' ∈ s.joined c → k' ∈ cs.joinedChannels) :
    Heads c k (fun _ s' => Arrived c k s') (joinFound order c cs k ch) s := by
  have hid := id_of_channel hch
  unfold joinFound leaveOtherChannels
  refine Heads.bind (heads_leaveEach hcs _ (fun k' hk' => by simpa using (List.mem_filter.1 hk').2) s) ?_
  rintro _ s₁ ⟨rfl, hleft⟩ h₁
  have hmem : ∀ k' ≠ k, k' ∈ cs.joinedChannels →
      k' ∈ (order.channels.enum cs.joinedChannels).filter (· ≠ k) := fun k' hk hk' => by simp [hk, hk']
  have hout : ∀ k' ≠ k, c ∉ s₁.members k' := fun k' hk hm₁ =>
    (hleft k' (hmem k' hk (hm k' hk (h₁.members k' hk hm₁)))).1 hm₁
  have hout' : ∀ k' ≠ k, k' ∉ s₁.joined c := fun k' hk hj₁ =>
    (hleft k' (hmem k' hk (hj k' hk (h₁.joined k' hk hj₁)))).2 hj₁
  have hs₁ : s₁.session c ≠ none := fun hnone => hs (h₁.session.1 hnone)
  -- from here on the session only has to name the channel
  have hjoin : ∀ {s₂ : Server} {f : VoidResult → Task VoidResult}, Toward c k s₁ s₂ →
      (∀ s₃, Arrived c k s₃ → Heads c k (fun _ s' => Arrived c k s') (f (.ok ())) s₃) →
      Heads c k (fun _ s' => Arrived c k s') (.call (.clients (.joinChannelAtomic c k)) f) s₂ := by
    intro s₂ f h₂ hf s₃ h₃
    refine ⟨⟨trivial, fun hkn => .join hkn.1⟩, fun _ hkn => ?_⟩
    have h₃' := (h₂.trans h₃).trans (Toward.join hkn.1)
    have hs₃ : s₃.session c ≠ none := fun hnone => hs₁ ((h₂.trans h₃).session.1 hnone)
    rw [show (ports.handle (.clients (.joinChannelAtomic c k)) s₃).1 = (.ok () : VoidResult) from
      (fst_joinChannelAtomic s₃ c k).trans (if_neg hs₃)]
    exact hf _ ⟨fun k' hk hm => hout k' hk (h₃'.members k' hk hm), fun k' hk hj => hout' k' hk
      (h₃'.joined k' hk hj), mem_joined_joinChannelAtomic.2 (.inr ⟨rfl, rfl, hs₃⟩)⟩
  by_cases hin : c ∈ ch.members
  · simp only [Channel.hasMember_iff.2 hin, if_true, Prog.pure_eq, Prog.ret_bind, Prog.perform_bind]
    exact hjoin (.refl s₁) fun s₂ h₂ => Heads.ret fun s₃ h₃ => h₂.toward h₃
  · have hadd : ch.addMember c = .ok { ch with members := insert c ch.members } :=
      Channel.addMember_ok.2 ⟨hin, rfl⟩
    have hno : ch.hasMember c = false := by simpa [Channel.hasMember] using hin
    simp only [hno, addAndSave, hadd, Prog.pure_eq, Prog.perform_bind, Prog.call_bind,
      Bool.false_eq_true, if_false]
    refine fun s₂ h₂ => ⟨⟨trivial, fun hkn => .save hkn.1 hkn.2 (.inl hid)⟩, fun _ hkn => ?_⟩
    refine hjoin (h₂.trans (.save hkn.1 hkn.2 (.inl hid))) fun s₃ h₃ => ?_
    exact Heads.call trivial trivial fun s₄ _ h₄ => Heads.call trivial trivial fun s₅ _ h₅ =>
      Heads.ret fun s₆ h₆ => h₃.toward (h₄.trans (h₅.trans h₆))

end JoinChannel

end

/-! ### The channel a Join goes to -/

theorem joinTarget_eq {s : Server} (hs : s.Indexed) (uuid : UuidLib) (channelId : Bytes) :
    joinTarget uuid s channelId =
      match BroadcastService.parseChannel uuid channelId with
      | some k => (s.nameOf k).map fun _ => k
      | none => (ChannelName.create (trim (trim channelId))).bind fun name => s.idOf name.value := by
  unfold joinTarget
  rcases BroadcastService.parseChannel uuid channelId with _ | k
  · rcases ChannelName.create (trim (trim channelId)) with _ | name
    · rfl
    · dsimp only [Option.bind_some]
      rcases hid : s.idOf name.value with _ | k
      · rw [findByName_of_none hid]
      · obtain ⟨name', -, hk⟩ := hs.nameOf hid
        obtain ⟨ch, hch, -⟩ := channel_of_nameOf hk
        rw [findByName_of_some hid hch, ← id_of_channel hch]
  · show (s.channel k).map (fun _ => k) = (s.nameOf k).map fun _ => k
    unfold Server.nameOf
    cases s.channel k <;> rfl

/-- A Join on the way that has no change of a membership left has arrived. -/
theorem arrived_of_calls {α : Type} {c : ClientId} {k : ChannelId} {p : Task α} {s : Server}
    (h : Heads c k (fun _ s' => Arrived c k s') p s) (hp : p.Calls fun o => Requesting o ∧ Harmless o)
    (hs : s.Indexed) :
    Arrived c k s := by
  induction p generalizing s with
  | ret a => exact h s (.refl s)
  | call o f ih =>
    obtain ⟨⟨hreq, hh⟩, hf⟩ := hp
    have hkn : Knows s o := ⟨hs, .of_harmless hh s⟩
    have hlater := ih _ ((h s (.refl s)).2 (hreq.immediate s) hkn) (hf _)
      ((KeepsNames.handle hkn.2).indexed hs)
    have hm : ∀ k', (ports.handle o s).2.members k' = s.members k' :=
      members_handle o (fun ch h => by subst h; exact hh) s
    have hj : (ports.handle o s).2.joined c = s.joined c := joined_handle hh s c
    exact ⟨fun k' hk => by rw [← hm]; exact hlater.members k' hk, fun k' hk =>
      by rw [← hj]; exact hlater.joined k' hk, by rw [← hj]; exact hlater.here⟩

theorem SameNames.joinTarget {s s' : Server} (h : SameNames s s') (hs : s.Indexed) (hs' : s'.Indexed)
    (uuid : UuidLib)
    (channelId : Bytes) : Bcmd.joinTarget uuid s' channelId = Bcmd.joinTarget uuid s channelId := by
  rw [joinTarget_eq hs, joinTarget_eq hs']
  simp only [h.nameOf, h.idOf]

/-- The program changes no membership, whatever others do to memberships. -/
abbrev Inert {α : Type} (p : Task α) (s : Server) : Prop :=
  Safe ports SameNames (fun _ _ => True) (fun _ o => Requesting o ∧ Harmless o) (fun _ _ => True) p s

theorem inert_of_calls {α : Type} {p : Task α} (h : p.Calls fun o => Requesting o ∧ Harmless o)
    (s : Server) : Inert p s :=
  Safe.of_calls (fun _ _ ho => ho) (fun _ _ => trivial) h

/-- A Join reads the session. Then it goes to its channel, or changes nothing when there is no such
channel. -/
theorem joinRequest_cases {uuid : UuidLib} (order : BucketOrder) {c : ClientId} {clientId : Bytes}
    (hc : BroadcastService.parseClient uuid clientId = some c) (channelId : Bytes) :
    ∃ g : Result ClientSession → Task (Reply Unit),
      BroadcastService.JoinChannel uuid order clientId channelId = .call (.clients (.findById c)) g ∧
      (∀ e, ∃ r, g (.error e) = .ret r) ∧
      (∀ s cs, s.Indexed → joinTarget uuid s channelId = none → Inert (g (.ok cs)) s) ∧
      ∀ s cs k, s.Indexed → joinTarget uuid s channelId = some k → Covered c k s → s.session c = some cs →
        Heads c k (fun _ s' => Arrived c k s') (g (.ok cs)) s := by
  have hstored : ∀ {s s' : Server} {n k}, (∃ name : ChannelName, name.value = n ∧ s.nameOf k = some name) →
      SameNames s s' → ∃ ch, s'.channel k = some ch := by
    rintro s s' n k ⟨name, -, hk⟩ h
    obtain ⟨ch, hch, -⟩ := channel_of_nameOf ((h.nameOf k).trans hk)
    exact ⟨ch, hch⟩
  have hjoined : ∀ {s s' : Server} {cs k ch}, Covered c k s → s.session c = some cs → Toward c k s s' →
      s'.channel k = some ch → Heads c k (fun _ s' => Arrived c k s')
        (JoinChannel.joinFound order c cs k ch) s' := by
    intro s s' cs k ch hcov hcs h hch
    have hread : s.joined c = cs.joinedChannels := joined_of_session hcs
    refine JoinChannel.heads_joinFound order (id_of_session hcs) (fun hn => ?_) hch (fun k' hk hm => ?_)
      fun k' hk hj => ?_
    · rw [h.session.1 hn] at hcs
      cases hcs
    · rw [← hread]
      exact hcov k' hk (h.members k' hk hm)
    · rw [← hread]
      exact h.joined k' hk hj
  unfold BroadcastService.JoinChannel
  rw [hc]
  rcases hk₀ : BroadcastService.parseChannel uuid channelId with _ | k₀
  · simp only [JoinChannel.executeByName, Prog.perform_bind, Prog.pure_eq, Prog.call_bind]
    refine ⟨_, rfl, fun e => ⟨_, rfl⟩, fun s cs hs htarget => ?_, fun s cs k hs htarget hcov hcs => ?_⟩
    all_goals
      simp only [joinTarget_eq hs, hk₀] at htarget
      rcases hname : ChannelName.create (trim (trim channelId)) with _ | name
    · exact fun _ _ => trivial
    · rw [hname] at htarget
      refine fun s₁ h₁ => ⟨⟨trivial, trivial⟩, fun _ _ => ?_⟩
      rw [show (ports.handle (.channels (.findByName name)) s₁).1 = .error .channelNotFound from
        findByName_of_none ((h₁.idOf name.value).trans htarget)]
      exact fun _ _ => trivial
    · rw [hname] at htarget
      cases htarget
    · rw [hname] at htarget
      refine fun s₁ h₁ => ⟨⟨trivial, fun _ => .refl s₁⟩, fun _ _ => ?_⟩
      obtain ⟨ch, hch⟩ := hstored (hs.nameOf htarget) h₁.names
      rw [show (ports.handle (.channels (.findByName name)) s₁).1 = .ok ch from
        findByName_of_some ((h₁.names.idOf name.value).trans htarget) hch]
      obtain rfl : ch.id = k := id_of_channel hch
      refine Heads.bind (?_ : Heads c ch.id (fun _ s' => Arrived c ch.id s') _ s₁) fun r s' h _ => ?_
      · refine Heads.bind (hjoined hcov hcs h₁ hch) fun r s' h _ => ?_
        rcases r with e | _ <;> exact Heads.ret fun s'' h' => h.toward h'
      · rcases r with e | _ <;> exact Heads.ret fun s'' h' => h.toward h'
  · simp only [JoinChannel.execute, Prog.perform_bind, Prog.pure_eq, Prog.call_bind]
    refine ⟨_, rfl, fun e => ⟨_, rfl⟩, fun s cs hs htarget => ?_, fun s cs k hs htarget hcov hcs => ?_⟩
    all_goals simp only [joinTarget_eq hs, hk₀] at htarget
    · refine safe_findChannel (fun _ _ => ⟨trivial, trivial⟩) (fun _ _ _ _ _ => trivial)
        fun s₁ ch h₁ hch => ?_
      rw [(h₁.channel k₀).2 (nameOf_eq_none.1 (Option.map_eq_none_iff.1 htarget))] at hch
      cases hch
    · obtain ⟨name, hn, rfl⟩ := Option.map_eq_some_iff.1 htarget
      refine safe_findChannel (fun s₁ _ => ⟨trivial, fun _ => .refl s₁⟩) (fun s₁ h₁ hnone => ?_)
        fun s₁ ch h₁ hch => ?_
      · rw [nameOf_eq_none.2 ((h₁.names.channel k₀).1 hnone)] at hn
        cases hn
      · exact Heads.bind (hjoined hcov hcs h₁ hch) fun r s' h _ => Heads.ret fun s'' h' => h.toward h'

/-! ### Any number of Joins -/

section
variable {ι : Type} [DecidableEq ι]

/-- Every Join starts in the state `s`. -/
def joins (uuid : UuidLib) (order : ι → BucketOrder) (clientIds channelIds : ι → Bytes) (s : Server) :
    Config Server ι Call Call.Res (Reply Unit) :=
  ⟨s, fun i => BroadcastService.JoinChannel uuid (order i) (clientIds i) (channelIds i)⟩

/-- When a Join reads the session of `c`, every other that has begun is past its last change of a
membership or goes to the same channel, unless one of the two names no channel. -/
def Apart (uuid : UuidLib) (c : ClientId) (channelIds : ι → Bytes)
    (start : Config Server ι Call Call.Res (Reply Unit))
    (e : Event Server ι Call Call.Res (Reply Unit)) : Prop :=
  e.call = .clients (.findById c) → ∀ i ≠ e.thread, e.pre.threads i ≠ start.threads i →
    (e.pre.threads i).Calls Harmless ∨ joinTarget uuid start.state (channelIds i) = none ∨
      joinTarget uuid start.state (channelIds e.thread) = none ∨
      joinTarget uuid start.state (channelIds i) = joinTarget uuid start.state (channelIds e.thread)

/-- A thread on its way to `k`. -/
def HeadsFor (uuid : UuidLib) (c : ClientId) (channelIds : ι → Bytes) (s : Server) (k : ChannelId)
    (m : Config Server ι Call Call.Res (Reply Unit)) (i : ι) : Prop :=
  joinTarget uuid s (channelIds i) = some k ∧ Heads c k (fun _ s' => Arrived c k s') (m.threads i) m.state

/-- All Joins that are under way go to `k`, and if `c` is not settled, one of them will see to that. -/
structure Joining (uuid : UuidLib) (c : ClientId) (channelIds : ι → Bytes)
    (start : Config Server ι Call Call.Res (Reply Unit)) (k : ChannelId)
    (m : Config Server ι Call Call.Res (Reply Unit)) : Prop where
  names : SameNames start.state m.state
  cover : Covered c k m.state
  thread : ∀ i, m.threads i = start.threads i ∨ Inert (m.threads i) m.state ∨
    HeadsFor uuid c channelIds start.state k m i
  settled : Settled c m.state ∨ ∃ i, HeadsFor uuid c channelIds start.state k m i

variable {uuid : UuidLib} {order : ι → BucketOrder} {clientIds channelIds : ι → Bytes} {c : ClientId}
  {k : ChannelId}
  {s : Server} {start m final : Config Server ι Call Call.Res (Reply Unit)}
  {tr : List (Event Server ι Call Call.Res (Reply Unit))} {i : ι} {o : Call}

omit [DecidableEq ι] in
theorem HeadsFor.rely {s' : Server} (h : HeadsFor uuid c channelIds s k m i) (ht : Toward c k m.state s') :
    HeadsFor uuid c channelIds s k ⟨s', m.threads⟩ i :=
  ⟨h.1, Safe.rely Toward.trans h.2 ht⟩

theorem HeadsFor.advance {j : ι} (h : HeadsFor uuid c channelIds s k m j) (hn : (m.threads i).next = some o)
    (hen : ports.enabled o m.state) (hkn : Knows m.state o) (ht : Toward c k m.state (handle o m.state).2) :
    HeadsFor uuid c channelIds s k (m.advance ports i) j := by
  refine ⟨h.1, ?_⟩
  by_cases hj : j = i
  · subst hj
    exact h.2.advance Toward.refl hn hen hkn
  · rw [Config.advance_threads_ne hj, Config.advance_state hn]
    exact Safe.rely Toward.trans h.2 ht

/-- A step that leads no way but to `k`. -/
theorem Joining.advance (h : Joining uuid c channelIds start k m) (hn : (m.threads i).next = some o)
    (hen : ports.enabled o m.state) (hkn : Knows m.state o) (ht : Toward c k m.state (handle o m.state).2)
    (hi : Inert ((m.advance ports i).threads i) (m.advance ports i).state ∨
      HeadsFor uuid c channelIds start.state k (m.advance ports i) i)
    (hs : Settled c (m.advance ports i).state ∨
      ∃ j, HeadsFor uuid c channelIds start.state k (m.advance ports i) j) :
    Joining uuid c channelIds start k (m.advance ports i) := by
  have hstate : (m.advance ports i).state = (handle o m.state).2 := Config.advance_state hn
  refine ⟨by rw [hstate]; exact h.names.trans ht.names,
    by rw [hstate]; exact ht.cover h.cover, fun j => ?_, hs⟩
  by_cases hj : j = i
  · rw [hj]
    exact .inr hi
  · rcases h.thread j with hfresh | hinert | hheads
    · exact .inl (by rw [Config.advance_threads_ne hj, hfresh])
    · rw [Config.advance_threads_ne hj, hstate]
      exact .inr (.inl (Safe.rely SameNames.trans hinert ht.names))
    · exact .inr (.inr (hheads.advance hn hen hkn ht))

omit [DecidableEq ι] in
theorem Joining.env {s' : Server} (h : Joining uuid c channelIds start k m) (he : Env m.state s') :
    Joining uuid c channelIds start k ⟨s', m.threads⟩ where
  names := h.names.trans (.env he)
  cover := (Toward.env he).cover h.cover
  thread i := by
    rcases h.thread i with hfresh | hinert | hheads
    · exact .inl hfresh
    · exact .inr (.inl (Safe.rely SameNames.trans hinert (.env he)))
    · exact .inr (.inr (hheads.rely (.env he)))
  settled := by
    rcases h.settled with hset | ⟨i, hi⟩
    · exact .inl (hset.env he)
    · exact .inr ⟨i, hi.rely (.env he)⟩

/-- A call that changes no membership keeps who sees to it that `c` is settled. -/
theorem Joining.kept (h : Joining uuid c channelIds start k m) (hn : (m.threads i).next = some o)
    (hen : ports.enabled o m.state) (hkn : Knows m.state o) (hreq : Requesting o) (hh : Harmless o) :
    Settled c (m.advance ports i).state ∨ ∃ j,
      HeadsFor uuid c channelIds start.state k (m.advance ports i) j := by
  rcases h.settled with hset | ⟨j, hj⟩
  · left
    rw [Config.advance_state hn]
    exact hset.harmless hh
  · exact .inr ⟨j, hj.advance hn hen hkn (.harmless hreq hh hkn.1)⟩

omit [DecidableEq ι] in
/-- A Join that has yet to read the session may be the one that the others give way to. -/
theorem Joining.redirect {k' : ChannelId} (h : Joining uuid c channelIds start k m)
    (hstart : ∀ j, (start.threads j).next = some (.clients (.findById c)))
    (hreq : ∀ j, (m.threads j).Calls Requesting) (hs : m.state.Indexed)
    (hfresh : m.threads i = start.threads i) (hi : joinTarget uuid start.state (channelIds i) = some k')
    (hapart : Apart uuid c channelIds start ⟨m, i, .clients (.findById c)⟩) :
    Joining uuid c channelIds start k' m := by
  by_cases hk : k = k'
  · rw [← hk]
    exact h
  -- a thread on its way to another channel has nothing left to do there
  have hdone : ∀ j, HeadsFor uuid c channelIds start.state k m j →
      m.threads j ≠ start.threads j ∧ (m.threads j).Calls fun o => Requesting o ∧ Harmless o := by
    intro j hj
    have hbegun : m.threads j ≠ start.threads j := fun heq => by
      have hact := hj.2.act Toward.refl (by rw [heq]; exact hstart j)
      exact hact.1.elim
    have hij : j ≠ i := fun hij => hbegun (by rw [hij]; exact hfresh)
    refine ⟨hbegun, ?_⟩
    rcases hapart rfl j hij hbegun with hh | hnone | hnone | heq
    · exact (hreq j).and hh
    · rw [hj.1] at hnone
      cases hnone
    · rw [hi] at hnone
      cases hnone
    · rw [hj.1, hi] at heq
      exact absurd (Option.some.inj heq) hk
  have hsettled : Settled c m.state := by
    rcases h.settled with hset | ⟨j, hj⟩
    · exact hset
    · exact (arrived_of_calls hj.2 (hdone j hj).2 hs).settled
  refine ⟨h.names, hsettled.covered, fun j => ?_, .inl hsettled⟩
  rcases h.thread j with hfresh | hinert | hheads
  · exact .inl hfresh
  · exact .inr (.inl hinert)
  · exact .inr (.inl (inert_of_calls (hdone j hheads).2 _))

theorem joining_step {e : Event Server ι Call Call.Res (Reply Unit)}
    (hc : ∀ i, BroadcastService.parseClient uuid (clientIds i) = some c) (hs : s.Indexed)
    (h : Joining uuid c channelIds (joins uuid order clientIds channelIds s) k e.pre)
    (hn : (e.pre.threads e.thread).next = some e.call) (hen : ports.enabled e.call e.pre.state)
    (hkn : Knows e.pre.state e.call) (hreq : ∀ j, (e.pre.threads j).Calls Requesting)
    (hapart : Apart uuid c channelIds (joins uuid order clientIds channelIds s) e) :
    ∃ k', Joining uuid c channelIds (joins uuid order clientIds channelIds s) k'
      (e.pre.advance ports e.thread) := by
  rcases e with ⟨m, i, o⟩
  dsimp only at *
  have hstate : (m.advance ports i).state = (handle o m.state).2 := Config.advance_state hn
  have hbegin : ∀ j, ((joins uuid order clientIds channelIds s).threads j).next =
      some (.clients (.findById c)) := by
    intro j
    obtain ⟨g, hg, -⟩ := joinRequest_cases (order j) (hc j) (channelIds j)
    exact (congrArg Prog.next hg).trans rfl
  rcases h.thread i with hfresh | hinert | hheads
  · obtain ⟨g, hg, herr, hginert, hgheads⟩ := joinRequest_cases (order i) (hc i) (channelIds i)
    have hprog : m.threads i = .call (.clients (.findById c)) g := hfresh.trans hg
    obtain rfl : o = .clients (.findById c) := by
      rw [hprog] at hn
      exact (Option.some.inj hn).symm
    have hthread : (m.advance ports i).threads i = g (m.state.clients.findById c) :=
      Config.advance_threads_self hprog
    have hsame : (m.advance ports i).state = m.state := hstate
    have htarget := (h.names.joinTarget hs hkn.1 uuid (channelIds i)).symm
    rcases hcs : m.state.clients.findById c with e | cs
    · obtain ⟨r, hr⟩ := herr e
      refine ⟨k, h.advance hn hen hkn (.refl _) (.inl ?_) (h.kept hn hen hkn trivial trivial)⟩
      rw [hthread, hcs, hr]
      exact fun _ _ => trivial
    rcases htar : joinTarget uuid s (channelIds i) with _ | k'
    · refine ⟨k, h.advance hn hen hkn (.refl _) (.inl ?_) (h.kept hn hen hkn trivial trivial)⟩
      rw [hthread, hcs, hsame]
      exact hginert _ cs hkn.1 (htarget.symm.trans htar)
    · have h' := h.redirect hbegin hreq hkn.1 hfresh htar hapart
      have hnew : HeadsFor uuid c channelIds s k' (m.advance ports i) i := by
        refine ⟨htar, ?_⟩
        rw [hthread, hcs, hsame]
        exact hgheads _ cs k' hkn.1 (htarget.symm.trans htar) h'.cover
          (InMemoryClientRegistry.findById_ok.1 hcs)
      exact ⟨k', h'.advance hn hen hkn (.refl _) (.inr hnew) (.inr ⟨i, hnew⟩)⟩
  · obtain ⟨hreq, hh⟩ := hinert.act SameNames.refl hn
    refine ⟨k, h.advance hn hen hkn (.harmless hreq hh hkn.1) (.inl ?_) (h.kept hn hen hkn hreq hh)⟩
    exact hinert.advance SameNames.refl hn hen trivial
  · have ht := (hheads.2.act Toward.refl hn).2 hkn
    have hnew := hheads.advance hn hen hkn ht
    exact ⟨k, h.advance hn hen hkn ht (.inr hnew) (.inr ⟨i, hnew⟩)⟩

theorem joins_run (hc : ∀ i, BroadcastService.parseClient uuid (clientIds i) = some c) (hs : s.Indexed)
    (hsettled : Settled c s) (h : Run ports Env (joins uuid order clientIds channelIds s) tr final)
    (hapart : ∀ e ∈ tr, Apart uuid c channelIds (joins uuid order clientIds channelIds s) e) :
    ∃ k, Joining uuid c channelIds (joins uuid order clientIds channelIds s) k final := by
  have hknown := knows_run hs h fun i => names_joinRequest hs uuid (order i) (clientIds i) (channelIds i)
  have hall : (∀ j, (final.threads j).Calls Requesting) ∧
      ∃ k, Joining uuid c channelIds (joins uuid order clientIds channelIds s) k final := by
    refine h.inv (I := fun m => (∀ j, (m.threads j).Calls Requesting) ∧
      ∃ k, Joining uuid c channelIds (joins uuid order clientIds channelIds s) k m) ?_ ?_ ?_
    · exact ⟨fun j => requesting_joinRequest (order j) uuid (clientIds j) (channelIds j), ⟨0⟩, .refl s,
        hsettled.covered, fun _ => .inl rfl, .inl hsettled⟩
    · rintro m s' ⟨hcalls, k, hm⟩ he
      exact ⟨hcalls, k, hm.env he⟩
    · rintro e he ⟨hcalls, k, hm⟩ hn hen
      refine ⟨fun j => ?_, joining_step hc hs hm hn hen (hknown e he) hcalls (hapart e he)⟩
      by_cases hj : j = e.thread
      · obtain ⟨f, hf⟩ := Prog.eq_call_of_next hn
        have hthis := hcalls e.thread
        rw [hf] at hthis
        rw [hj, Config.advance_threads_self hf]
        exact hthis.2 _
      · rw [Config.advance_threads_ne hj]
        exact hcalls j
  exact hall.2

/-- Any number of Joins of one client, under every schedule in which no Join reads the session while
another, to another channel, is under way. -/
theorem one_channel (hc : ∀ i, BroadcastService.parseClient uuid (clientIds i) = some c) (hs : s.Indexed)
    (hsettled : Settled c s) (h : Run ports Env (joins uuid order clientIds channelIds s) tr final)
    (hret : ∀ i, ∃ r, final.threads i = .ret r)
    (hapart : ∀ e ∈ tr, Apart uuid c channelIds (joins uuid order clientIds channelIds s) e) :
    (final.state.channelsOf c).card ≤ 1 ∧ (final.state.joined c).card ≤ 1 := by
  obtain ⟨k, hk⟩ := joins_run hc hs hsettled h hapart
  have hfinal : Settled c final.state := by
    rcases hk.settled with hset | ⟨i, -, hi⟩
    · exact hset
    · obtain ⟨r, hr⟩ := hret i
      rw [hr] at hi
      exact (hi _ (.refl _)).settled
  have hsub : final.state.channelsOf c ⊆ final.state.joined c :=
    fun k' hk' => hfinal.names k' (mem_channelsOf.1 hk')
  exact ⟨(Finset.card_le_card hsub).trans hfinal.one, hfinal.one⟩

end

/-- What the Joins start from is so in every state that operations one after the other lead to. -/
theorem settled_reached {uuid : UuidLib} {historyCap : UInt32} {systemNow steadyNow : Int} {host : Host}
    (h : Host.Reached uuid (.initial historyCap systemNow steadyNow) host) (c : ClientId) :
    host.server.Indexed ∧ Settled c host.server :=
  ⟨indexed_reached h, fun k => ((agree_reached h).mem_iff c k).1, (agree_reached h).one c⟩

/-! Two Joins of one client, to two channels: one after the other, or both from the session as it was. -/

def eitherChannel : Bool → Bytes
  | false => ascii "general"
  | true => ascii "00000000-0000-0000-0000-000000000003"

def switching : Config Server Bool Call Call.Res (Reply Unit) :=
  joins .canonical (fun _ => .byId) (fun _ => ascii "00000000-0000-0000-0000-000000000002") eitherChannel
    twoChannels.server

/-- The second Join starts when the first has returned. -/
def firstSwitched := schedule ports switching (List.replicate 8 false)

def bothSwitched := schedule ports firstSwitched.2 (List.replicate 16 true)

theorem bothSwitched_run : Run ports Env switching (firstSwitched.1 ++ bothSwitched.1) bothSwitched.2 :=
  (run_schedule ..).trans (run_schedule ..)

theorem bothSwitched_apart : ∀ e ∈ firstSwitched.1 ++ bothSwitched.1, Apart .canonical
    ⟨2⟩ eitherChannel switching e := by
  intro e he hcall i hi hbegun
  rcases List.mem_append.1 he with he | he
  · have hthread : ∀ e ∈ firstSwitched.1, e.thread = false := fun e he =>
      List.eq_of_mem_replicate (thread_of_schedule ports he)
    obtain ⟨tr₁, tr₂, htr⟩ := List.append_of_mem he
    have hrun : Run ports Env switching firstSwitched.1 firstSwitched.2 := run_schedule ..
    rw [htr] at hrun
    refine absurd (hrun.at_event.1.threads_eq fun e' he' => ?_) hbegun
    rw [hthread e' (by rw [htr]; exact List.mem_append_left _ he')]
    exact fun h => hi (h.symm.trans (hthread e he).symm)
  · have hthread : e.thread = true := List.eq_of_mem_replicate (thread_of_schedule ports he)
    obtain ⟨tr₁, tr₂, htr⟩ := List.append_of_mem he
    have hrun : Run ports Env firstSwitched.2 bothSwitched.1 bothSwitched.2 := run_schedule ..
    rw [htr] at hrun
    have hreturned : firstSwitched.2.threads false = .ret (.ok ()) :=
      Prog.result_eq_some.1 (by decide +kernel)
    rw [hthread] at hi
    rw [Bool.eq_false_of_not_eq_true hi, (hrun.at_event.1.threads_ret hreturned).1]
    exact .inl trivial

theorem one_channel_bothSwitched :
    (bothSwitched.2.state.channelsOf ⟨2⟩).card ≤ 1 ∧ (bothSwitched.2.state.joined ⟨2⟩).card ≤ 1 := by
  have hsettled := settled_reached twoChannels_reached ⟨2⟩
  refine one_channel (fun _ => by decide +kernel) hsettled.1 hsettled.2 bothSwitched_run
    (fun i => ⟨.ok (), ?_⟩)
    bothSwitched_apart
  cases i <;> exact Prog.result_eq_some.1 (by decide +kernel)

/-- Both have read the session before either changes it. -/
def sameSnapshot := schedule ports switching
    ([false, true] ++ List.replicate 8 false ++ List.replicate 8 true)

theorem in_both_channels : ¬ ∀ (uuid : UuidLib) (host : Host), Host.Reached uuid (.initial 200 0 0) host →
    ∀ (ι : Type) (_ : DecidableEq ι) (order : ι → BucketOrder) (clientIds channelIds : ι →
      Bytes) (c : ClientId)
      (tr : List (Event Server ι Call Call.Res (Reply Unit)))
      (final : Config Server ι Call Call.Res (Reply Unit)),
      (host.server.channelsOf c).card ≤ 1 →
      (∀ i, BroadcastService.parseClient uuid (clientIds i) = some c) →
      Run ports Env (joins uuid order clientIds channelIds host.server) tr final →
      (∀ i, ∃ r, final.threads i = .ret r) →
      (final.state.channelsOf c).card ≤ 1 ∧ (final.state.joined c).card ≤ 1 := by
  intro hall
  have hrun : Run ports Env switching sameSnapshot.1 sameSnapshot.2 := run_schedule ..
  have hone := hall _ _ twoChannels_reached Bool inferInstance _ _ _ ⟨2⟩ _ _ (by decide +kernel)
    (fun _ => by decide +kernel) hrun fun i => ⟨.ok (), ?_⟩
  · exact absurd hone.1 (by decide +kernel)
  · cases i <;> exact Prog.result_eq_some.1 (by decide +kernel)

end Bcmd
