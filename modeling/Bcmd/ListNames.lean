import Bcmd.ListStreams
import Bcmd.NameIndex

/-!
# What list streams say is stored

Channels are published under the name they are stored with, and no name is lost. So every id and name that
a list stream brings is one of a stored channel.
-/

namespace Bcmd
open Server

/-- The id and the name of every channel that the event brings. -/
def ChannelListEvent.pairs : ChannelListEvent → List (ChannelId × Bytes)
  | .snapshot channels => channels.map fun c => (c.id, c.name)
  | .created c => [(c.id, c.name)]
  | .memberCountChanged _ _ => []

/-- A channel of this id and name is stored. -/
def Server.Stores (s : Server) (d : ChannelId × Bytes) : Prop :=
  ∃ name, s.nameOf d.1 = some name ∧ name.value = d.2

section
variable {s s' : Server} {d : ChannelId × Bytes} {ch : Channel}

theorem stores_of_nameOf (h : s.nameOf ch.id = some ch.name) : s.Stores (ch.id, ch.name.value) :=
  ⟨ch.name, h, rfl⟩

theorem stores_iff : s.Stores d ↔ ∃ ch, s.channel d.1 = some ch ∧ ch.name.value = d.2 := by
  constructor
  · rintro ⟨name, hname, hd⟩
    obtain ⟨ch, hch, rfl⟩ := channel_of_nameOf hname
    exact ⟨ch, hch, hd⟩
  · rintro ⟨ch, hch, hd⟩
    exact ⟨ch.name, nameOf_of_channel hch, hd⟩

theorem KeepsNames.stores (h : KeepsNames s s') (hs : s.Indexed) (hd : s.Stores d) : s'.Stores d := by
  obtain ⟨name, hname, hd⟩ := hd
  exact ⟨name, h.nameOf hs hname, hd⟩

/-- A snapshot brings all that is stored when the channels are listed. -/
theorem mem_pairs_snapshot (s : Server) (order : IterOrder ChannelId) (d : ChannelId × Bytes) :
    d ∈ (ChannelListEvent.snapshot ((s.channels.listAll order).map populateChannelSummary)).pairs ↔
      s.Stores d := by
  rw [stores_iff]
  simp only [ChannelListEvent.pairs, List.map_map, List.mem_map, Function.comp_apply, populateChannelSummary]
  constructor
  · rintro ⟨ch, hch, rfl⟩
    exact ⟨ch, Keyed.mem_values.1 hch, rfl⟩
  · rintro ⟨ch, hch, hd⟩
    have hid : ch.id = d.1 := id_of_channel hch
    refine ⟨ch, Keyed.mem_values.2 ?_, Prod.ext hid hd⟩
    rw [hid]
    exact hch

end

/-! ### What the requests save and publish -/

/-- A copy is saved, and a channel published, under the name that it is stored with. -/
def NamesKnown (s : Server) : Call → Prop
  | .channels (.save ch) | .channelList (.publishChannelCreated ch) => s.nameOf ch.id = some ch.name
  | _ => True

theorem NamesKnown.savesKnown {s : Server} {o : Call} (h : NamesKnown s o) : SavesKnown s o := by
  rcases o with (_ | _ | _ | ch | _) | _ | _ | _ | _ | _ | _
  case channels.save => exact h
  all_goals trivial

theorem namesKnown_of_requesting {s : Server} {o : Call} (h : SavesKnown s o ∧ Requesting o) :
    NamesKnown s o := by
  rcases o with (_ | _ | _ | ch | _) | _ | _ | _ | (_ | _ | _ | _) | _ | _
  case channels.save => exact h.1
  case channelList.publishChannelCreated => exact h.2.elim
  all_goals trivial

/-- `Safe` for code that keeps to the names beside others that keep them. -/
abbrev NamesSafe {α : Type} (p : Task α) (s : Server) : Prop :=
  Safe ports KeepsNames (fun _ _ => True) NamesKnown (fun _ _ => True) p s

section
variable {s : Server}

/-- The channel that is published is the one just stored. -/
theorem namesSafe_createChannel (hs : s.Indexed) (uuid : UuidLib) (order : BucketOrder)
    (clientId channelName : Bytes) :
    NamesSafe ((ListRequest.createChannel clientId channelName).run uuid order) s := by
  simp only [ListRequest.run, BroadcastService.CreateChannel, CreateChannel.execute]
  rcases BroadcastService.parseClient uuid clientId with _ | c
  · exact fun _ _ => trivial
  simp only [Prog.perform_bind, Prog.call_bind]
  refine safe_findSession (fun _ _ => trivial) (fun _ _ _ _ _ => trivial) fun s₁ cs h₁ _ => ?_
  rcases ChannelName.create (trim (trim channelName)) with _ | name
  · exact fun _ _ => trivial
  refine fun s₂ h₂ => ⟨trivial, fun _ _ => ?_⟩
  have hs₂ : s₂.Indexed := (h₁.trans h₂).indexed hs
  rcases create_name s₂ name with ⟨k, -, hr, -⟩ | ⟨-, hr, hch, -⟩
  · rw [show (ports.handle (.channels (.create name)) s₂).1 = .error .channelAlreadyExists from hr]
    exact fun _ _ => trivial
  · rw [show (ports.handle (.channels (.create name)) s₂).1 = .ok (.new ⟨s₂.nextUuid⟩ name) from hr]
    have hnone : s₂.channel ⟨s₂.nextUuid⟩ = none := by
      by_contra hk
      exact Nat.lt_irrefl _ (hs₂.fresh hk)
    have hnew : (ports.handle (.channels (.create name)) s₂).2.nameOf ⟨s₂.nextUuid⟩ = some name :=
      nameOf_of_channel ((hch _).trans (if_pos ⟨rfl, hnone⟩))
    have hs₃ := (KeepsNames.create s₂ name).indexed hs₂
    exact fun s₄ h₄ => ⟨h₄.nameOf hs₃ hnew, fun _ _ _ _ => trivial⟩

theorem namesSafe_request (hs : s.Indexed) (uuid : UuidLib) (order : BucketOrder) (r : ListRequest) :
    NamesSafe (r.run uuid order) s := by
  cases r with
  | createChannel clientId channelName => exact namesSafe_createChannel hs ..
  | joinChannel clientId channelId =>
    exact ((names_joinRequest hs uuid order clientId channelId).and_calls
      (requesting_joinRequest order uuid clientId channelId)).weaken (fun _ _ h => h) (fun _ _ h => h)
        fun _ _ => namesKnown_of_requesting
  | leaveChannel clientId channelId =>
    exact ((names_leaveRequest hs uuid clientId channelId).and_calls
      (requesting_leaveRequest uuid clientId channelId)).weaken (fun _ _ h => h) (fun _ _ h => h)
        fun _ _ => namesKnown_of_requesting

end

/-! ### What is written is stored -/

/-- What a section may save and write in a state. -/
def WritesStored (x : ListSectioned) : ListSection → Prop
  | .port o => SavesKnown x.server o
  | .write _ event | .writeSnapshot _ event => ∀ d ∈ event.pairs, x.server.Stores d
  | _ => True

theorem stored_of_brings {x : ListSectioned} {o : ListSection} {entry : EntryId} {event : ChannelListEvent}
    (h : WritesStored x o) (ho : o.brings = some (entry, event)) : ∀ d ∈ event.pairs, x.server.Stores d := by
  cases o with
  | writeSnapshot _ _ | write _ _ =>
    obtain ⟨rfl, rfl⟩ := Prod.mk.inj (Option.some.inj ho)
    exact h
  | _ => cases ho

/-- `Safe` for sections that write what is stored, beside others that keep it stored. -/
abbrev StoredSafe {α : Type} (p : ListTask α) (x : ListSectioned) : Prop :=
  Safe listSections (fun x x' => KeepsNames x.server x'.server) (fun _ _ => True) WritesStored
    (fun _ _ => True) p x

section
variable {x : ListSectioned}

theorem storedSafe_request (hx : x.server.Indexed) (uuid : UuidLib) (bucketOrder : BucketOrder)
    (order : IterOrder ClientId)
    (r : ListRequest) : StoredSafe (ListSections.expand order (r.run uuid bucketOrder)) x := by
  have hnames := (namesSafe_request hx uuid bucketOrder r).and_inv (I := Server.Indexed)
    (fun _ _ h => h.indexed)
    (fun s o _ _ ho hs => (KeepsNames.handle ho.savesKnown).indexed hs) hx
  refine (safe_expand KeepsNames.refl KeepsNames.trans (fun {s s' p} h => ?_) (fun x o ho => ho.1.savesKnown)
    (fun _ _ => trivial) (fun s x o event ho hev h entry => ?_) (r.opensNoList uuid bucketOrder) hnames).mono
      fun _ _ _ => trivial
  · have hs : KeepsNames { s with channelList := p } s := .same (fun _ => rfl) (fun _ => rfl) (le_refl _)
    exact hs.trans h
  · rcases o with _ | _ | _ | _ | (_ | _ | ch | ⟨k, n⟩) | _ | _
    case channelList.publishChannelCreated =>
      obtain rfl := Option.some.inj hev
      intro d hd
      rw [List.mem_singleton.1 hd]
      exact h.stores ho.2 (stores_of_nameOf ho.1)
    case channelList.publishMemberCountChanged =>
      obtain rfl := Option.some.inj hev
      nofun
    all_goals cases hev

theorem storedSafe_subscribe (hx : x.server.Indexed) (uuid : UuidLib) (bucketOrder : BucketOrder)
    (order : IterOrder ClientId) (clientId : Bytes) (w : StreamId) :
    StoredSafe (ListSections.expand order (BroadcastService.SubscribeToChannelList uuid bucketOrder
      clientId w)) x := by
  unfold BroadcastService.SubscribeToChannelList
  rcases BroadcastService.parseClient uuid clientId with _ | c
  · exact fun _ _ => trivial
  have hrest : ∀ x, StoredSafe (.call (.port (.awaitCancelled w)) fun _ =>
      ListSections.unregisterSubscriber c >>= fun _ => (.ret (.ok ()) : ListTask (Reply Unit))) x := by
    intro x
    have hun : (ListSections.unregisterSubscriber c).Calls fun o => ∀ x, WritesStored x o := by
      refine ⟨fun _ => trivial, fun r => ?_⟩
      rcases r with _ | entry
      · trivial
      · exact ⟨fun _ => trivial, fun _ => trivial⟩
    exact Safe.of_calls (fun x _ ho => ho x) (fun _ _ => trivial)
      ⟨fun _ => trivial, fun _ => .bind hun fun _ => trivial⟩
  simp only [expand_subscribe]
  refine fun x₁ h₁ => ⟨trivial, fun _ _ => ?_⟩
  rcases (listSections.handle (.port (.clients (.findById c))) x₁).1 with e | cs
  · exact fun _ _ => trivial
  refine fun x₂ h₂ => ⟨trivial, fun _ _ => fun x₃ h₃ =>
    ⟨trivial, fun _ _ => fun x₄ h₄ => ⟨?_, fun _ _ => hrest _⟩⟩⟩
  -- what was stored when the channels were listed is stored when the snapshot is written
  have hx₃ : x₃.server.Indexed := h₃.indexed (h₂.indexed (h₁.indexed hx))
  exact fun d hd => KeepsNames.stores h₄ hx₃ ((mem_pairs_snapshot x₃.server bucketOrder.channels d).1 hd)

end

/-! ### Runs -/

section
variable {ι : Type} {x : ListSectioned} {o : ListSection}

theorem keepsNames_section (h : WritesStored x o) :
    KeepsNames x.server (listSections.handle o x).2.server := by
  cases o with
  | port o => exact .handle h
  | _ => exact .refl _

variable [DecidableEq ι] {p : ListPublishing ι} {s : Server} {tr : ListEvents ι} {m : ListConfig ι}

theorem stored_run (hs : s.Indexed) (h : ListRun p s tr m) :
    m.state.server.Indexed ∧ (∀ w, ∀ event ∈ m.state.table.written w, ∀ d ∈ event.pairs,
      m.state.server.Stores d) ∧
      ∀ i, StoredSafe (m.threads i) m.state := by
  have hrefl : ∀ x : ListSectioned, KeepsNames x.server x.server := fun x => .refl x.server
  refine h.inv (I := fun m => m.state.server.Indexed ∧
    (∀ w, ∀ event ∈ m.state.table.written w, ∀ d ∈ event.pairs, m.state.server.Stores d) ∧
      ∀ i, StoredSafe (m.threads i) m.state) ⟨hs, nofun, fun i => ?_⟩ (fun m s' hm he => ?_)
        fun e _ hI hn hen => ?_
  · rcases i with w | i
    · exact storedSafe_subscribe hs ..
    · exact storedSafe_request hs ..
  · have hkeep : KeepsNames m.state.server s'.server := .env he.server
    refine ⟨hkeep.indexed hm.1, fun w event hev d hd => ?_, fun i => (hm.2.2 i).rely KeepsNames.trans hkeep⟩
    rw [he.table] at hev
    exact hkeep.stores hm.1 (hm.2.1 w event hev d hd)
  · have hact := (hI.2.2 e.thread).act hrefl hn
    have hkeep := keepsNames_section hact
    rw [Config.advance_state hn]
    refine ⟨hkeep.indexed hI.1, fun w event hev d hd => hkeep.stores hI.1 ?_, fun i => ?_⟩
    · rcases mem_written_handle hev with hold | ⟨entry, hb⟩
      · exact hI.2.1 w event hold d hd
      · exact stored_of_brings hact hb d hd
    · by_cases hi : i = e.thread
      · subst hi
        have hadv := (hI.2.2 e.thread).advance hrefl hn hen trivial
        rwa [Config.advance_state hn] at hadv
      · rw [Config.advance_threads_ne hi]
        exact (hI.2.2 i).rely KeepsNames.trans hkeep

theorem stored_at {e : Event ListSectioned (StreamId ⊕ ι) ListSection ListSection.Res (Reply Unit)}
    (hs : s.Indexed)
    (h : ListRun p s tr m) (he : e ∈ tr) : e.pre.state.server.Indexed ∧ WritesStored e.pre.state e.call := by
  obtain ⟨tr₁, tr₂, rfl⟩ := List.append_of_mem he
  obtain ⟨hpre, hn, -, -⟩ := h.at_event
  obtain ⟨hi, -, hsafe⟩ := stored_run hs hpre
  exact ⟨hi, (hsafe e.thread).act (fun x => KeepsNames.refl x.server) hn⟩

end

end Bcmd
