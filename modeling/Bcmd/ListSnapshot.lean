import Bcmd.CatchUp

/-!
# The snapshot and the created events together

A channel is created before the channels are listed for a stream, and is in its snapshot, or after, and
then the stream's entry is already in the table for the created event.
-/

namespace Bcmd
open Server

section
variable {entry : EntryId} {x : ListSectioned}

/-- A stream is told of its snapshot (the matter `none`) and of every channel. -/
def Told (s : Server) (events : List ChannelListEvent) : Option (ChannelId × Bytes) → Prop
  | none => ∃ event ∈ events, event.IsSnapshot
  | some d => s.Stores d → ∃ event ∈ events, d ∈ event.pairs

def ChannelListEvent.Tells (event : ChannelListEvent) : Option (ChannelId × Bytes) → Prop
  | none => event.IsSnapshot
  | some d => d ∈ event.pairs

def KeepsStored (s s' : Server) : Prop := ∀ d, s.Stores d → s'.Stores d

theorem stores_congr {s s' : Server} {d : ChannelId × Bytes} (h : ∀ k, s'.nameOf k = s.nameOf k) :
    s'.Stores d ↔ s.Stores d := by
  unfold Stores
  rw [h]

theorem told_of_stores {s s' : Server} {events : List ChannelListEvent} {d : Option (ChannelId × Bytes)}
    (h : ∀ d, s'.Stores d → s.Stores d) (ht : Told s events d) : Told s' events d := by
  rcases d with _ | d
  · exact ht
  · exact fun hd => ht (h d hd)

/-- A creation adds one channel at most, and returns it. -/
theorem created_stores {s : Server} {name : ChannelName} {d : ChannelId × Bytes}
    (hd : ¬ s.Stores d) (hd' : (handle (.channels (.create name)) s).2.Stores d) : ∃ ch,
      (handle (.channels (.create name)) s).1 = .ok ch ∧ d = (ch.id, ch.name.value) := by
  rcases create_name s name with ⟨k, -, -, hs⟩ | ⟨-, hr, hch, -⟩
  · rw [hs] at hd'
    exact absurd hd' hd
  · refine ⟨_, hr, ?_⟩
    obtain ⟨ch, hk, hn⟩ := stores_iff.1 hd'
    rw [hch] at hk
    split at hk
    · rename_i hnew
      obtain rfl := Option.some.inj hk
      exact Prod.ext hnew.1 hn.symm
    · exact absurd (stores_iff.2 ⟨ch, hk, hn⟩) hd

theorem told_matter : Matter Told ChannelListEvent.Tells KeepsStored where
  refl _ _ h := h
  trans h h' d hd := h' d (h d hd)
  env {s s'} he d := (stores_congr fun k => by rw [nameOf, Server.channel, he.channels]; rfl).2
  channels {s s' events d} hch := told_of_stores fun d =>
    (stores_congr fun k => by rw [nameOf, Server.channel, hch]; rfl).1
  grow {s events event d} _ h := by
    rcases d with _ | d
    · obtain ⟨ev, hev, hsnap⟩ := h
      exact ⟨ev, List.mem_append_left _ hev, hsnap⟩
    · intro hd
      obtain ⟨ev, hev, hpair⟩ := h hd
      exact ⟨ev, List.mem_append_left _ hev, hpair⟩
  snapshot {s s' events d} hbad hkeep order := by
    rcases d with _ | d
    · trivial
    · have hd : s.Stores d := by
        by_contra hd
        exact hbad fun h => absurd h hd
      exact (mem_pairs_snapshot s' order d).2 (hkeep d hd)
  created {s events d name} _ hgood hbad := by
    rcases d with _ | d
    · exact absurd hgood hbad
    · have hnot : ¬ s.Stores d := fun hd => hbad fun _ => hgood hd
      have hd : (handle (.channels (.create name)) s).2.Stores d := by
        by_contra hd
        exact hbad fun h => absurd h hd
      obtain ⟨ch, hr, rfl⟩ := created_stores hnot hd
      exact ⟨ch, hr, List.mem_singleton_self _⟩

/-- A section that neither inserts an entry nor creates a channel. -/
def CreatesNothing (o : ListSection) : Prop :=
  (∀ c w, o ≠ .insert c w) ∧ ∀ name, o ≠ .port (.channels (.create name))

theorem CreatesNothing.not_putsBehind {o : ListSection} {d : Option (ChannelId × Bytes)}
    (ho : CreatesNothing o) :
    ¬ PutsBehind Told ChannelListEvent.Tells entry x o d := by
  intro h
  have hnames : ∀ k, (listSections.handle o x).2.server.nameOf k = x.server.nameOf k := by
    cases o with
    | port o =>
      by_cases hsave : ∃ ch, o = .channels (.save ch)
      · obtain ⟨ch, rfl⟩ := hsave
        exact (KeepsNames.names_save h.indexed h.stored).1
      · exact nameOf_handle o (fun ch h => hsave ⟨ch, h⟩) (fun name h => ho.2 name (by rw [h])) x.server
    | _ => exact fun _ => rfl
  exact Bcmd.not_putsBehind told_matter ho.1 (fun _ => told_of_stores fun d => (stores_congr hnames).1) h

theorem answers_request (uuid : UuidLib) (bucketOrder : BucketOrder) (order : IterOrder ClientId)
    (r : ListRequest) :
    AnswersEntry Told ChannelListEvent.Tells KeepsStored entry
      (ListSections.expand order (r.run uuid bucketOrder)) x := by
  have hrequest : ∀ {p : Task (Reply Unit)}, p.Calls Requesting → p.Calls OpensNoList →
      AnswersEntry Told ChannelListEvent.Tells KeepsStored entry (ListSections.expand order p) x := by
    intro p hp hno
    refine Answers.of_calls (fun _ _ _ (ho : CreatesNothing _) => ho.not_putsBehind)
      (calls_expand (fun o ho => ?_) ?_ ?_ hp hno)
    · refine ⟨nofun, fun name h => ?_⟩
      obtain rfl := ListSection.port.inj h
      exact ho
    · exact fun _ => ⟨nofun, nofun⟩
    · exact fun _ _ _ _ _ => ⟨nofun, nofun⟩
  have hno := r.opensNoList uuid bucketOrder
  cases r with
  | createChannel clientId channelName => exact answers_createChannel told_matter ..
  | joinChannel clientId channelId => exact hrequest (requesting_joinRequest ..) hno
  | leaveChannel clientId channelId => exact hrequest (requesting_leaveRequest ..) hno

end

/-- The id and name of every channel in the snapshots and created events. -/
def broughtChannels (events : List ChannelListEvent) : List (ChannelId × Bytes) :=
  events.flatMap ChannelListEvent.pairs

section
variable {ι : Type} [DecidableEq ι] {p : ListPublishing ι} {tr : ListEvents ι} {m : ListConfig ι}

/-- Streams begin with their snapshot, and when every request has returned, those still in the table
have been told of the stored channels and of no others. -/
theorem no_channel_missed {uuid : UuidLib} {historyCap : UInt32} {systemNow steadyNow : Int} {host : Host}
    (hreach : Host.Reached uuid (.initial historyCap systemNow steadyNow) host)
    (h : ListRun p host.server tr m) :
    (∀ w, m.state.table.written w = [] ∨ Opened (m.state.table.written w)) ∧
    (AllReturned m → ∀ c entry w, m.state.table.writers.lookup c = some entry →
      m.state.table.writer entry = some w →
      Opened (m.state.table.written w) ∧ ∀ k name, (k, name) ∈ broughtChannels (m.state.table.written w) ↔
        ∃ ch, m.state.server.channel k = some ch ∧ ch.name.value = name) := by
  have hs := indexed_reached hreach
  refine ⟨opened_run h, fun hret c entry w hc hw => ?_⟩
  have htold : ∀ d, Told m.state.server (m.state.table.written w) d := by
    refine caught_up told_matter hs h (fun e he => ?_) (fun i => answers_request ..) ?_ hret ⟨c, hc⟩ hw
    · obtain ⟨hi, hstored⟩ := stored_at hs h he
      exact fun d => (keepsNames_section hstored).stores hi
    · -- what an event tells, its stream has been told
      rintro e - d ⟨event, hb, htells⟩ ⟨-, v, hv, hbad⟩
      refine absurd ?_ hbad
      rw [written_handle_brings hb, if_pos (writer_of_brings hb hv)]
      have hmem : event ∈ e.pre.state.table.written v ++ [event] :=
        List.mem_append_right _ (List.mem_singleton_self _)
      rcases d with _ | d
      · exact ⟨event, hmem, htells⟩
      · exact fun _ => ⟨event, hmem, htells⟩
  obtain ⟨event, hmem, -⟩ := htold none
  refine ⟨(opened_run h w).resolve_left (List.ne_nil_of_mem hmem), fun k name => ?_⟩
  unfold broughtChannels
  rw [List.mem_flatMap, show (∃ ch, m.state.server.channel k = some ch ∧ ch.name.value = name) ↔
    m.state.server.Stores (k, name) from (stores_iff (d := (k, name))).symm]
  constructor
  · rintro ⟨event, hev, hpair⟩
    exact (stored_run hs h).2.1 w event hev _ hpair
  · exact htold (some (k, name))

end

/-! The stream beside the creation of two channels by client `3`. -/

def creating : Bool → ListRequest
  | false => .createChannel (ascii "00000000-0000-0000-0000-000000000003") (ascii "tea")
  | true => .createChannel (ascii "00000000-0000-0000-0000-000000000003") (ascii "milk")

def watchedCreates (is : List (StreamId ⊕ Bool)) :=
  schedule listSections ((oneStream creating).start twoConnected.server) is

/-- One is created before the channels are listed for the snapshot, and the other after. -/
def aroundSnapshot : List (StreamId ⊕ Bool) :=
  [.inl 0, .inl 0, .inr false, .inr false, .inl 0, .inr true, .inr true, .inl 0, .inr true, .inr true,
    .inr false, .inr false]

theorem no_channel_missed_aroundSnapshot :
    (⟨5⟩, ascii "milk") ∈ broughtChannels ((watchedCreates aroundSnapshot).2.state.table.written 0) ↔
      ∃ ch, (watchedCreates aroundSnapshot).2.state.server.channel ⟨5⟩ = some ch ∧
        ch.name.value = ascii "milk" := by
  have hrun : ListRun (oneStream creating) twoConnected.server (watchedCreates aroundSnapshot).1
      (watchedCreates aroundSnapshot).2 :=
    run_schedule ..
  have hret : AllReturned (watchedCreates aroundSnapshot).2 :=
    oneStream_returned hrun (by decide +kernel) (by decide +kernel)
  exact ((no_channel_missed twoConnected_reached hrun).2 hret ⟨2⟩ 0 0 (by decide +kernel)
    (by decide +kernel)).2 ⟨5⟩ _

end Bcmd
