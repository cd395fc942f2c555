import Bcmd.Agreement
import Bcmd.MembershipRequest

/-!
# Channel names and ids

The repository stores a channel under its id and keeps an index from names to ids. A save overwrites
both with a copy of unknown age; they stay in step because a copy is changed in its members only.
-/

namespace Bcmd
open Server

namespace Server

/-- The name of the stored channel. -/
def nameOf (s : Server) (k : ChannelId) : Option ChannelName := (s.channel k).map Channel.name

/-- The id that the index has for the name. -/
def idOf (s : Server) (name : Bytes) : Option ChannelId := s.channels.nameToId.lookup name

/-- The table and the index are inverse to each other, and the next id is not stored yet. -/
structure Indexed (s : Server) : Prop where
  idOf : ∀ {k name}, s.nameOf k = some name → s.idOf name.value = some k
  nameOf : ∀ {n k}, s.idOf n = some k → ∃ name, name.value = n ∧ s.nameOf k = some name
  fresh : ∀ {k}, s.channel k ≠ none → k.value < s.nextUuid

variable {s s' : Server} {k : ChannelId} {ch : Channel}

theorem nameOf_of_channel (h : s.channel k = some ch) : s.nameOf k = some ch.name := by
  rw [nameOf, h]
  rfl

theorem channel_of_nameOf {name : ChannelName} (h : s.nameOf k = some name) :
    ∃ ch, s.channel k = some ch ∧ ch.name = name :=
  Option.map_eq_some_iff.1 h

theorem nameOf_eq_none : s.nameOf k = none ↔ s.channel k = none := Option.map_eq_none_iff

theorem findByName_of_none {name : ChannelName} (h : s.idOf name.value = none) :
    s.channels.findByName name = .error .channelNotFound := by
  unfold InMemoryChannelRepository.findByName
  rw [show s.channels.nameToId.lookup name.value = none from h]

theorem findByName_of_some {name : ChannelName} (h : s.idOf name.value = some k)
    (hk : s.channel k = some ch) :
    s.channels.findByName name = .ok ch := by
  unfold InMemoryChannelRepository.findByName
  rw [show s.channels.nameToId.lookup name.value = some k from h]
  exact InMemoryChannelRepository.findById_ok.2 hk

theorem nameOf_save (s : Server) (ch : Channel) (k : ChannelId) :
    (handle (.channels (.save ch)) s).2.nameOf k = if k = ch.id then some ch.name else s.nameOf k := by
  unfold nameOf
  rw [channel_save]
  split <;> rfl

theorem idOf_save (s : Server) (ch : Channel) (n : Bytes) :
    (handle (.channels (.save ch)) s).2.idOf n = if n = ch.name.value then some ch.id else s.idOf n := by
  show (s.channels.nameToId.insert _ _).lookup n = _
  split
  · subst ‹n = _›
    exact Finmap.lookup_insert _
  · exact Finmap.lookup_insert_of_ne _ ‹n ≠ _›

/-- Only a save and a creation change the index. -/
theorem idOf_handle (o : Call) (hs : ∀ ch, o ≠ .channels (.save ch))
    (hc : ∀ name, o ≠ .channels (.create name))
    (s : Server) (n : Bytes) : (handle o s).2.idOf n = s.idOf n := by
  rcases o with (_ | _ | _ | ch | name) | o | o | o | o | _ | _
  case channels.save => exact absurd rfl (hs ch)
  case channels.create => exact absurd rfl (hc name)
  case clients => rw [idOf, handle_clients_channels]; rfl
  case messages => rw [idOf, handle_messages_channels]; rfl
  all_goals rfl

theorem nameOf_handle (o : Call) (hs : ∀ ch, o ≠ .channels (.save ch))
    (hc : ∀ name, o ≠ .channels (.create name))
    (s : Server) (k : ChannelId) : (handle o s).2.nameOf k = s.nameOf k := by
  rw [nameOf, channel_handle o hs hc]
  rfl

/-- A creation stores the channel under both, or finds its name taken and changes neither. -/
theorem create_name (s : Server) (name : ChannelName) :
    (∃ k, s.idOf name.value = some k ∧
      (handle (.channels (.create name)) s).1 = .error .channelAlreadyExists ∧
      (handle (.channels (.create name)) s).2 = { s with nextUuid := s.nextUuid + 1 }) ∨
    s.idOf name.value = none ∧ (handle (.channels (.create name)) s).1 = .ok (.new ⟨s.nextUuid⟩ name) ∧
      (∀ k, (handle (.channels (.create name)) s).2.channel k =
        if k = ⟨s.nextUuid⟩ ∧ s.channel k = none then some (.new ⟨s.nextUuid⟩ name) else s.channel k) ∧
      ∀ n, (handle (.channels (.create name)) s).2.idOf n =
        if n = name.value then some ⟨s.nextUuid⟩ else s.idOf n := by
  rcases hid : s.idOf name.value with _ | k
  · right
    have hcreate : s.channels.create ⟨s.nextUuid⟩ name = (.ok (.new ⟨s.nextUuid⟩ name),
        ⟨s.channels.channelsById.emplace (.new ⟨s.nextUuid⟩ name), s.channels.nameToId.insert name.value
          ⟨s.nextUuid⟩⟩) := by
      unfold InMemoryChannelRepository.create
      rw [show s.channels.nameToId.lookup name.value = none from hid]
      rfl
    refine ⟨rfl, congrArg Prod.fst hcreate, fun k => ?_, fun n => ?_⟩
    · show (s.channels.create ⟨s.nextUuid⟩ name).2.channelsById.find k = _
      rw [hcreate]
      exact Keyed.find_emplace ..
    · show (s.channels.create ⟨s.nextUuid⟩ name).2.nameToId.lookup n = _
      rw [hcreate]
      split
      · subst ‹n = _›
        exact Finmap.lookup_insert _
      · exact Finmap.lookup_insert_of_ne _ ‹n ≠ _›
  · left
    have hcreate : s.channels.create ⟨s.nextUuid⟩ name = (.error .channelAlreadyExists, s.channels) := by
      unfold InMemoryChannelRepository.create
      rw [show s.channels.nameToId.lookup name.value = some k from hid]
    refine ⟨k, rfl, congrArg Prod.fst hcreate, ?_⟩
    show { s with channels := (s.channels.create ⟨s.nextUuid⟩ name).2, nextUuid := s.nextUuid + 1 } = _
    rw [hcreate]

end Server

/-- From `s` to `s'`, the table and the index have stayed in step and no name was lost. -/
structure KeepsNames (s s' : Server) : Prop where
  indexed : s.Indexed → s'.Indexed
  nameOf : s.Indexed → ∀ {k name}, s.nameOf k = some name → s'.nameOf k = some name

/-- A copy is saved under the name that its channel is stored with. -/
def SavesKnown (s : Server) : Call → Prop
  | .channels (.save ch) => s.nameOf ch.id = some ch.name
  | _ => True

theorem SavesKnown.of_harmless {o : Call} (ho : Harmless o) (s : Server) : SavesKnown s o := by
  rcases o with (_ | _ | _ | ch | _) | _ | _ | _ | _ | _ | _
  case channels.save => exact ho.elim
  all_goals trivial

namespace KeepsNames
variable {s s₁ s' : Server}

theorem refl (s : Server) : KeepsNames s s := ⟨id, fun _ _ _ h => h⟩

theorem trans (h : KeepsNames s s₁) (h' : KeepsNames s₁ s') : KeepsNames s s' where
  indexed hs := h'.indexed (h.indexed hs)
  nameOf hs _ _ hk := h'.nameOf (h.indexed hs) (h.nameOf hs hk)

/-- Where neither the names nor the index change, and no id is given back. -/
theorem same (hn : ∀ k, s'.nameOf k = s.nameOf k) (hi : ∀ n, s'.idOf n = s.idOf n)
    (hu : s.nextUuid ≤ s'.nextUuid) :
    KeepsNames s s' where
  indexed h :=
    { idOf := fun hk => by rw [hi]; exact h.idOf (by rwa [hn] at hk)
      nameOf := fun hk => by
        rw [hi] at hk
        obtain ⟨name, hname, hk⟩ := h.nameOf hk
        exact ⟨name, hname, by rwa [hn]⟩
      fresh := fun hk => by
        have hk' : s.channel _ ≠ none := fun hnone => hk
          (nameOf_eq_none.1 ((hn _).trans (nameOf_eq_none.2 hnone)))
        exact lt_of_lt_of_le (h.fresh hk') hu }
  nameOf _ _ _ hk := by rwa [hn]

theorem env (h : Env s s') : KeepsNames s s' := by
  refine same (fun k => ?_) (fun n => ?_) h.nextUuid
  · rw [Server.nameOf, Server.channel, h.channels]
    rfl
  · rw [Server.idOf, h.channels]
    rfl

theorem create (s : Server) (name : ChannelName) : KeepsNames s (handle (.channels (.create name)) s).2 := by
  rcases create_name s name with ⟨k, -, -, h⟩ | ⟨hfree, -, hch, hid⟩
  · rw [h]
    exact same (fun _ => rfl) (fun _ => rfl) (Nat.le_succ _)
  · generalize hs' : (handle (.channels (.create name)) s).2 = s' at hch hid
    have hu : s'.nextUuid = s.nextUuid + 1 := by rw [← hs']; rfl
    -- a name that was stored is not the new one, and its id is not the new id
    have hkeep : s.Indexed → ∀ {k name'}, s.nameOf k = some name' → s'.nameOf k = some name' := by
      intro h k name' hk
      obtain ⟨ch, hk', rfl⟩ := channel_of_nameOf hk
      have hold : ¬ (k = ⟨s.nextUuid⟩ ∧ s.channel k = none) := fun hnew => by rw [hk'] at hnew; cases hnew.2
      exact nameOf_of_channel ((hch k).trans ((if_neg hold).trans hk'))
    have hnew : s.Indexed → s'.nameOf ⟨s.nextUuid⟩ = some name := by
      intro h
      have hnone : s.channel ⟨s.nextUuid⟩ = none := by
        by_contra hk
        exact Nat.lt_irrefl _ (h.fresh hk)
      exact nameOf_of_channel ((hch _).trans (if_pos ⟨rfl, hnone⟩))
    refine ⟨fun h => ⟨fun {k name'} hk => ?_, fun {n k} hk => ?_, fun {k} hk => ?_⟩, hkeep⟩
    · obtain ⟨ch, hk', rfl⟩ := channel_of_nameOf hk
      rw [hch] at hk'
      split at hk'
      · cases hk'
        rw [(‹k = _ ∧ _› : _ ∧ _).1]
        exact (hid name.value).trans (if_pos rfl)
      · have hold := h.idOf (nameOf_of_channel hk')
        rw [hid, if_neg fun heq => by rw [heq, hfree] at hold; cases hold]
        exact hold
    · rw [hid] at hk
      split at hk
      · cases hk
        exact ⟨name, (‹n = _› : n = _).symm, hnew h⟩
      · obtain ⟨name', hname, hk⟩ := h.nameOf hk
        exact ⟨name', hname, hkeep h hk⟩
    · rw [hu]
      rw [hch] at hk
      split at hk
      · rw [(‹k = _ ∧ _› : _ ∧ _).1]
        exact Nat.lt_succ_self _
      · exact Nat.lt_succ_of_lt (h.fresh hk)

/-- A save changes neither side when it is of a known copy. -/
theorem names_save {ch : Channel} (h : s.Indexed) (hch : s.nameOf ch.id = some ch.name) :
    (∀ k, (handle (.channels (.save ch)) s).2.nameOf k = s.nameOf k) ∧
      ∀ n, (handle (.channels (.save ch)) s).2.idOf n = s.idOf n := by
  refine ⟨fun k => ?_, fun n => ?_⟩
  · rw [nameOf_save]
    split
    · rw [‹k = ch.id›, hch]
    · rfl
  · rw [idOf_save]
    split
    · rw [‹n = _›, h.idOf hch]
    · rfl

theorem handle {o : Call} (h : SavesKnown s o) : KeepsNames s (handle o s).2 := by
  by_cases hs : ∃ ch, o = .channels (.save ch)
  · obtain ⟨ch, rfl⟩ := hs
    have hk := fun hi => same (names_save hi h).1 (names_save hi h).2 (le_refl _)
    exact ⟨fun hi => (hk hi).indexed hi, fun hi => (hk hi).nameOf hi⟩
  · have hs' : ∀ ch, o ≠ .channels (.save ch) := fun ch h => hs ⟨ch, h⟩
    by_cases hc : ∃ name, o = .channels (.create name)
    · obtain ⟨name, rfl⟩ := hc
      exact create s name
    · have hc' : ∀ name, o ≠ .channels (.create name) := fun name h => hc ⟨name, h⟩
      exact same (nameOf_handle o hs' hc' s) (idOf_handle o hs' hc' s) (nextUuid_handle o s)

end KeepsNames

/-! ### What the code saves -/

/-- The channels that an answer hands out, by id and name. -/
def handsOut : (o : Call) → o.Res → Set (ChannelId × ChannelName)
  | .channels (.findById _), (r : Result Channel) | .channels (.findByName _), (r : Result Channel)
  | .channels (.create _), (r : Result Channel) => {d | ∃ ch, r = .ok ch ∧ d = (ch.id, ch.name)}
  | _, _ => ∅

/-- The program saves only channels that it was handed out, or `given` before, changed in their members
at most. -/
def SavesGiven {α : Type} (given : Set (ChannelId × ChannelName)) : Task α → Prop
  | .ret _ => True
  | .call o k =>
    (∀ ch, o = .channels (.save ch) → (ch.id, ch.name) ∈ given) ∧ ∀ r, SavesGiven (given ∪ handsOut o r) (k r)

/-- The code saves known copies only, whatever else is going on that keeps the names. -/
abbrev KnowsNames {α : Type} (p : Task α) (s : Server) : Prop :=
  Safe ports KeepsNames (fun _ _ => True) SavesKnown (fun _ _ => True) p s

section
variable {α β : Type} {s : Server} {p : Task α} {given given' : Set (ChannelId × ChannelName)}

/-- What an answer hands out is stored under its name. -/
theorem nameOf_handsOut (hs : s.Indexed) {o : Call} {d : ChannelId × ChannelName}
    (hd : d ∈ handsOut o (handle o s).1) :
    (handle o s).2.nameOf d.1 = some d.2 := by
  rcases o with (k | name | _ | ch | name) | _ | _ | _ | _ | _ | _
  case channels.findById =>
    obtain ⟨ch, hr, rfl⟩ := hd
    have hch : s.channel k = some ch := InMemoryChannelRepository.findById_ok.1 hr
    rw [id_of_channel hch]
    exact nameOf_of_channel hch
  case channels.findByName =>
    obtain ⟨ch, hr, rfl⟩ := hd
    have hch : s.channel ch.id = some ch := InMemoryChannelRepository.findByName_ok hr
    exact nameOf_of_channel hch
  case channels.create =>
    obtain ⟨ch, hr, rfl⟩ := hd
    rcases create_name s name with ⟨k, -, herr, -⟩ | ⟨-, hok, hch, -⟩
    · rw [herr] at hr
      cases hr
    · rw [hok] at hr
      cases hr
      have hnone : s.channel ⟨s.nextUuid⟩ = none := by
        by_contra hk
        exact Nat.lt_irrefl _ (hs.fresh hk)
      exact nameOf_of_channel ((hch _).trans (if_pos ⟨rfl, hnone⟩))
  all_goals exact absurd hd (Set.notMem_empty d)

namespace SavesGiven

theorem mono (h : SavesGiven given p) (hsub : given ⊆ given') : SavesGiven given' p := by
  induction p generalizing given given' with
  | ret a => trivial
  | call o k ih =>
    exact ⟨fun ch ho => hsub (h.1 ch ho), fun r => ih r (h.2 r) (Set.union_subset_union_left _ hsub)⟩

theorem bind {f : α → Task β} (h : SavesGiven given p) (hf : ∀ a, SavesGiven given (f a)) :
    SavesGiven given (p >>= f) := by
  induction p generalizing given with
  | ret a => exact hf a
  | call o k ih => exact ⟨h.1, fun r => ih r (h.2 r) fun a => (hf a).mono Set.subset_union_left⟩

/-- A program that saves nothing. -/
theorem of_calls {P : Call → Prop} (hP : ∀ ch, ¬ P (.channels (.save ch))) (h : p.Calls P) :
    SavesGiven given p := by
  induction p generalizing given with
  | ret a => trivial
  | call o k ih => exact ⟨fun ch ho => absurd (ho ▸ h.1) (hP ch), fun r => ih r (h.2 r)⟩

/-- A call that is no save, and what follows it. -/
theorem call {o : Call} {k : o.Res → Task α} (ho : ∀ ch, o ≠ .channels (.save ch))
    (hk : ∀ r, SavesGiven given (k r)) :
    SavesGiven given (.call o k) :=
  ⟨fun ch h => absurd h (ho ch), fun r => (hk r).mono Set.subset_union_left⟩

/-- Copies of stored channels stay known, since the names are kept. -/
theorem knows (h : SavesGiven given p) (hs : s.Indexed) (hgiven : ∀ d ∈ given, s.nameOf d.1 = some d.2) :
    KnowsNames p s := by
  induction p generalizing given s with
  | ret a => exact fun _ _ => trivial
  | call o k ih =>
    intro s' hs'
    have hsaved : SavesKnown s' o := by
      rcases o with (_ | _ | _ | ch | _) | _ | _ | _ | _ | _ | _
      case channels.save => exact hs'.nameOf hs (hgiven _ (h.1 ch rfl))
      all_goals trivial
    have hkeep : KeepsNames s (ports.handle o s').2 := hs'.trans (.handle hsaved)
    refine ⟨hsaved, fun _ _ => ih _ (h.2 _) (hkeep.indexed hs) fun d hd => ?_⟩
    rcases hd with hd | hd
    · exact hkeep.nameOf hs (hgiven d hd)
    · exact nameOf_handsOut (hs'.indexed hs) hd

end SavesGiven

/-- Run alone, it keeps the names. -/
theorem KnowsNames.exec (h : KnowsNames p s) (hp : p.Calls fun o => ∀ s, ports.enabled o s) :
    KeepsNames s (ports.exec p s).2 := by
  have hkeep := h.and_rely KeepsNames.refl KeepsNames.trans fun s o _ _ ho => .handle ho
  exact (hkeep.exec KeepsNames.refl (hp.mono fun o ho s => ⟨ho s, trivial⟩)).2

/-! ### The server's code saves what it was given -/

theorem given_removeMember (cs : ClientSession) (k : ChannelId) :
    SavesGiven given (removeMemberAndBroadcast cs k) := by
  simp only [removeMemberAndBroadcast, Prog.perform_bind, Prog.pure_eq]
  refine ⟨by simp, fun r => ?_⟩
  rcases r with e | ch
  · trivial
  rcases hr : ch.removeMember cs.id with e | ch'
  · simp only [hr]
    trivial
  · obtain ⟨-, rfl⟩ := Channel.removeMember_ok.1 hr
    simp only [hr]
    refine ⟨fun ch' ho => ?_, fun r => ?_⟩
    · cases ho
      exact .inr ⟨ch, rfl, rfl⟩
    · rcases r with e | _
      · trivial
      · exact .call (by simp) fun _ => trivial

namespace JoinChannel

theorem given_leaveEach (cs : ClientSession) (ks : List ChannelId) : SavesGiven given (leaveEach cs ks) := by
  induction ks with
  | nil => trivial
  | cons k ks ih =>
    simp only [leaveEach, publishCountIfStored]
    refine .bind (given_removeMember cs k) fun r => ?_
    rcases tolerate [.notAMember, .channelNotFound] r with e | _
    · trivial
    simp only [Prog.perform_bind]
    refine .call (by simp) fun r => ?_
    rcases tolerate [.clientNotFound] r with e | _
    · trivial
    refine .call (by simp) fun r => ?_
    rcases r with e | ch
    · exact ih
    · exact .call (by simp) fun _ => ih

theorem given_joinFound (order : BucketOrder) (c : ClientId) (cs : ClientSession) (k : ChannelId)
    {ch : Channel} (hch : (ch.id, ch.name) ∈ given) : SavesGiven given (joinFound order c cs k ch) := by
  refine .bind (given_leaveEach cs _) fun r => ?_
  rcases r with e | _
  · trivial
  refine .bind ?_ fun r => ?_
  · split
    · trivial
    unfold addAndSave
    rcases hr : ch.addMember c with e | ch'
    · trivial
    · obtain ⟨-, rfl⟩ := Channel.addMember_ok.1 hr
      refine ⟨fun ch' ho => ?_, fun r => ?_⟩
      · cases ho
        exact hch
      · rcases r with e | _ <;> trivial
  · rcases r with e | ch'
    · trivial
    refine .call nofun fun r => ?_
    rcases r with e | _
    · trivial
    · simp only [Prog.pure_eq]
      split
      · trivial
      · exact .call nofun fun _ => .call nofun fun _ => trivial

theorem given_execute (order : BucketOrder) (c : ClientId) (k : ChannelId) :
    SavesGiven given (execute order c k) := by
  simp only [execute, Prog.perform_bind, Prog.pure_eq]
  refine .call (by simp) fun r => ?_
  rcases r with e | cs
  · trivial
  refine ⟨by simp, fun r => ?_⟩
  rcases r with e | ch
  · trivial
  · exact given_joinFound order c cs k (.inr ⟨ch, rfl, rfl⟩)

theorem given_executeByName (order : BucketOrder) (c : ClientId) (name : Bytes) :
    SavesGiven given (executeByName order c name) := by
  simp only [executeByName, Prog.perform_bind, Prog.pure_eq]
  refine .call (by simp) fun r => ?_
  rcases r with e | cs
  · trivial
  rcases ChannelName.create (trim name) with _ | validatedName
  · trivial
  refine ⟨by simp, fun r => ?_⟩
  rcases r with e | ch
  · trivial
  refine .bind (given_joinFound order c cs ch.id (.inr ⟨ch, rfl, rfl⟩)) fun r => ?_
  rcases r with e | _ <;> trivial

end JoinChannel

theorem given_leaveChannel (c : ClientId) (k : ChannelId) : SavesGiven given (LeaveChannel.execute c k) := by
  simp only [LeaveChannel.execute, Prog.perform_bind, Prog.pure_eq]
  refine .call (by simp) fun r => ?_
  rcases r with e | cs
  · trivial
  refine .bind (given_removeMember cs k) fun r => ?_
  rcases r with e | _
  · trivial
  refine .call (by simp) fun r => ?_
  rcases tolerate [.clientNotFound] r with e | _
  · trivial
  refine .call (by simp) fun r => ?_
  rcases r with e | ch
  · trivial
  · exact .call (by simp) fun _ => trivial

theorem given_disconnectClient (order : BucketOrder) (c : ClientId) :
    SavesGiven given (BroadcastService.disconnectClient order c) := by
  have hleave : ∀ ks, SavesGiven given (BroadcastService.leaveEach c ks) := by
    intro ks
    induction ks with
    | nil => trivial
    | cons k ks ih => exact .bind (given_leaveChannel c k) fun _ => ih
  simp only [BroadcastService.disconnectClient, Prog.perform_bind, Prog.pure_eq]
  refine .call (by simp) fun r => ?_
  rcases r with e | cs
  · trivial
  refine .bind (hleave _) fun _ => .call (by simp) fun r => ?_
  rcases r with e | _
  · trivial
  · exact .call (by simp) fun _ => trivial

theorem given_expire (order : BucketOrder) (deadline : Int) :
    SavesGiven given (ExpireInactiveClients.run order deadline) := by
  have hremove : ∀ cs ks, SavesGiven given (ExpireInactiveClients.removeFromEach cs ks) := by
    intro cs ks
    induction ks with
    | nil => trivial
    | cons k ks ih => exact .bind (given_removeMember cs k) fun _ => ih
  have heach : ∀ expired count, SavesGiven given (ExpireInactiveClients.expireEach order count expired) := by
    intro expired
    induction expired with
    | nil => exact fun _ => trivial
    | cons cs expired ih =>
      exact fun count => .bind (hremove cs _) fun _ => .call nofun fun _ => .call nofun fun _ => ih
        (count + 1)
  exact .call nofun fun expired => heach expired 0

theorem given_disconnectRequest (uuid : UuidLib) (order : BucketOrder) (clientId : Bytes) :
    SavesGiven given (BroadcastService.Disconnect uuid order clientId) := by
  unfold BroadcastService.Disconnect
  rcases BroadcastService.parseClient uuid clientId with _ | c
  · trivial
  · exact given_disconnectClient order c

theorem given_joinRequest (uuid : UuidLib) (order : BucketOrder) (clientId channelId : Bytes) :
    SavesGiven given (BroadcastService.JoinChannel uuid order clientId channelId) := by
  unfold BroadcastService.JoinChannel
  rcases BroadcastService.parseClient uuid clientId with _ | c
  · trivial
  rcases BroadcastService.parseChannel uuid channelId with _ | k
  · refine .bind (JoinChannel.given_executeByName order c _) fun r => ?_
    rcases r with e | _ <;> trivial
  · exact .bind (JoinChannel.given_execute order c k) fun _ => trivial

theorem given_leaveRequest (uuid : UuidLib) (clientId channelId : Bytes) :
    SavesGiven given (BroadcastService.LeaveChannel uuid clientId channelId) := by
  unfold BroadcastService.LeaveChannel
  rcases BroadcastService.parseClient uuid clientId with _ | c
  · trivial
  rcases BroadcastService.parseChannel uuid channelId with _ | k
  · trivial
  · exact .bind (given_leaveChannel c k) fun _ => trivial

theorem names_joinRequest (hs : s.Indexed) (uuid : UuidLib) (order : BucketOrder)
    (clientId channelId : Bytes) :
    KnowsNames (BroadcastService.JoinChannel uuid order clientId channelId) s :=
  (given_joinRequest uuid order clientId channelId).knows hs fun _ hd => absurd hd (Set.notMem_empty _)

theorem names_leaveRequest (hs : s.Indexed) (uuid : UuidLib) (clientId channelId : Bytes) :
    KnowsNames (BroadcastService.LeaveChannel uuid clientId channelId) s :=
  (given_leaveRequest uuid clientId channelId).knows hs fun _ hd => absurd hd (Set.notMem_empty _)

end

/-! ### Any interleaving -/

section
variable {ι α : Type} [DecidableEq ι] {start final : Config Server ι Call Call.Res α}
  {tr : List (Event Server ι Call Call.Res α)}

/-- Code that saves known copies only keeps the names, in any interleaving. -/
theorem names_run (h : Run ports Env start tr final)
    (hstart : ∀ i, KnowsNames (start.threads i) start.state) :
    KeepsNames start.state final.state ∧ ∀ i, KnowsNames (final.threads i) final.state := by
  refine h.inv (I := fun m => KeepsNames start.state m.state ∧ ∀ i, KnowsNames (m.threads i) m.state)
    ⟨.refl _, hstart⟩ (fun m s' hm he => ?_) fun e _ hI hn hen => ?_
  · exact ⟨hm.1.trans (.env he), fun i => (hm.2 i).rely KeepsNames.trans (.env he)⟩
  · have hkeep : KeepsNames e.pre.state (handle e.call e.pre.state).2 :=
      .handle ((hI.2 e.thread).act KeepsNames.refl hn)
    refine ⟨by rw [Config.advance_state hn]; exact hI.1.trans hkeep, fun i => ?_⟩
    by_cases hi : i = e.thread
    · subst hi
      exact (hI.2 e.thread).advance KeepsNames.refl hn hen trivial
    · rw [Config.advance_threads_ne hi, Config.advance_state hn]
      exact (hI.2 i).rely KeepsNames.trans hkeep

theorem knows_run (hs : start.state.Indexed) (h : Run ports Env start tr final)
    (hstart : ∀ i, KnowsNames (start.threads i) start.state) :
    ∀ e ∈ tr, e.pre.state.Indexed ∧ SavesKnown e.pre.state e.call := by
  intro e he
  obtain ⟨tr₁, tr₂, rfl⟩ := List.append_of_mem he
  obtain ⟨h₁, hn, -, -⟩ := h.at_event
  obtain ⟨hkeep, hknows⟩ := names_run h₁ hstart
  exact ⟨hkeep.indexed hs, (hknows e.thread).act KeepsNames.refl hn⟩

end

/-! ### The operations -/

/-- A call that never waits. -/
def Immediate (o : Call) : Prop := ∀ s, ports.enabled o s

theorem Requesting.immediate {o : Call} (h : Requesting o) : Immediate o := by
  rcases o with _ | _ | _ | _ | _ | _ | _
  case awaitCancelled => exact h.elim
  all_goals exact fun _ => trivial

theorem keepsNames_step {uuid : UuidLib} (order : BucketOrder) {host : Host} (hs : host.server.Indexed)
    (op : Operation) :
    KeepsNames host.server (host.step uuid order op).server := by
  cases op with
  | disconnect clientId =>
    show KeepsNames host.server (ports.exec (BroadcastService.Disconnect uuid order clientId) host.server).2
    refine ((given_disconnectRequest uuid order clientId).knows hs fun _ hd => absurd hd
      (Set.notMem_empty _)).exec ?_
    unfold BroadcastService.Disconnect
    rcases BroadcastService.parseClient uuid clientId with _ | c
    · trivial
    · exact calls_disconnectClient order c (fun _ => Requesting.immediate) (fun _ _ => trivial)
        fun _ _ => trivial
  | joinChannel clientId channelId =>
    exact (names_joinRequest hs uuid order clientId channelId).exec
      ((requesting_joinRequest order uuid clientId channelId).mono fun _ => Requesting.immediate)
  | leaveChannel clientId channelId =>
    exact (names_leaveRequest hs uuid clientId channelId).exec
      ((requesting_leaveRequest uuid clientId channelId).mono fun _ => Requesting.immediate)
  | expire deadline =>
    exact ((given_expire order deadline).knows hs fun _ hd => absurd hd (Set.notMem_empty _)).exec
      (calls_expire order (fun _ => Requesting.immediate) (fun _ _ _ => trivial) (fun _ _ => trivial)
        (fun _ _ => trivial) deadline)
  | _ =>
    have hexec : ∀ {α : Type} {task : Task α} {s : Server}, task.Calls Harmless → KeepsNames host.server s →
        KeepsNames host.server (ports.exec task s).2 := fun htask h =>
      Machine.exec_preserves ports (fun o s ho hs => hs.trans (.handle (.of_harmless ho s))) htask h
    exact step_harmless hexec (fun henv h => h.trans (.env henv)) order (.refl _) _ trivial

theorem indexed_of_empty {s : Server} (h : s.channels = .empty) : s.Indexed where
  idOf hk := by
    obtain ⟨ch, hk, -⟩ := channel_of_nameOf hk
    rw [channel, h] at hk
    cases (Keyed.find_empty _).symm.trans hk
  nameOf {n _} hk := by
    rw [idOf, h] at hk
    cases (Finmap.lookup_empty n).symm.trans hk
  fresh hk := by
    rw [channel, h] at hk
    exact absurd (Keyed.find_empty _) hk

theorem indexed_initial (historyCap : UInt32) (systemNow steadyNow : Int) :
    (Server.initial historyCap systemNow steadyNow).Indexed := by
  unfold Server.initial
  dsimp only
  split
  · exact indexed_of_empty rfl
  · exact (KeepsNames.create _ _).indexed (indexed_of_empty rfl)

theorem indexed_reached {uuid : UuidLib} {historyCap : UInt32} {systemNow steadyNow : Int} {host : Host}
    (h : Host.Reached uuid (.initial historyCap systemNow steadyNow) host) : host.server.Indexed := by
  induction h with
  | refl => exact indexed_initial historyCap systemNow steadyNow
  | env _ he ih => exact (KeepsNames.env he).indexed ih
  | step order op _ ih => exact (keepsNames_step order ih op).indexed ih

/-- The names of the channels determine the index. -/
theorem idOf_ext {s₁ s₂ : Server} (h₁ : s₁.Indexed) (h₂ : s₂.Indexed)
    (hname : ∀ k, s₁.nameOf k = s₂.nameOf k) (n : Bytes) : s₁.idOf n = s₂.idOf n := by
  refine Option.ext fun k => ?_
  constructor
  · intro hk
    obtain ⟨name, rfl, hname'⟩ := h₁.nameOf hk
    exact h₂.idOf (by rw [← hname, hname'])
  · intro hk
    obtain ⟨name, rfl, hname'⟩ := h₂.nameOf hk
    exact h₁.idOf (by rw [hname, hname'])

theorem channels_ext {s₁ s₂ : Server} (h₁ : s₁.Indexed) (h₂ : s₂.Indexed)
    (h : ∀ k, s₁.channel k = s₂.channel k) : s₁.channels = s₂.channels := by
  have hindex : s₁.channels.nameToId = s₂.channels.nameToId :=
    Finmap.ext_lookup (idOf_ext h₁ h₂ fun k => by rw [nameOf, h k]; rfl)
  have htable : s₁.channels.channelsById = s₂.channels.channelsById := Keyed.ext_find h
  rcases hc₁ : s₁.channels with ⟨t₁, n₁⟩
  rcases hc₂ : s₂.channels with ⟨t₂, n₂⟩
  rw [hc₁, hc₂] at hindex htable
  cases hindex
  cases htable
  rfl

end Bcmd
