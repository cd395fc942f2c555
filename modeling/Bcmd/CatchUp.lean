import Bcmd.Lib.Owes
import Bcmd.ListNames

/-!
# What is owed to an entry

An entry of the channel list is behind in a matter when its stream has not been told how the matter
stands. What `good` says of a server and a stream is arbitrary here, and so is what the others keep of the
server; `caught_up` says that an entry is behind in nothing once every request has returned, if whoever
puts it behind delivers before it returns.
-/

namespace Bcmd
open Server

section
variable {δ : Type} (good : Server → List ChannelListEvent → δ → Prop) (shows : ChannelListEvent → δ → Prop)
  (K : Server → Server → Prop) (entry : EntryId)

/-- The entry is in the table, and the matter does not stand well with its stream. -/
def Behind (x : ListSectioned) (d : δ) : Prop :=
  x.table.Listed entry ∧ ∃ w, x.table.writer entry = some w ∧ ¬ good x.server (x.table.written w) d

def Delivers (o : ListSection) (d : δ) : Prop := ∃ event, o.brings = some (entry, event) ∧ shows event d

/-- The call makes it so, in a state as it can be in a run. -/
structure PutsBehind (x : ListSectioned) (o : ListSection) (d : δ) : Prop where
  tidy : x.table.Tidy
  indexed : x.server.Indexed
  stored : WritesStored x o
  after : Behind good entry (listSections.handle o x).2 d
  before : ¬ Behind good entry x d
  silent : ¬ Delivers shows entry o d

/-- What the others keep: the entry in its table, and what `K` says of the server. -/
structure KeepsEntry (x x' : ListSectioned) : Prop where
  listed : x.table.Listed entry → x'.table.Listed entry
  server : K x.server x'.server

abbrev OwesEntry {α : Type} (d : δ) (p : ListTask α) (x : ListSectioned) : Prop :=
  Owes listSections (KeepsEntry K entry) (Delivers shows entry · d) p x

abbrev AnswersEntry {α : Type} (p : ListTask α) (x : ListSectioned) : Prop :=
  Answers listSections (KeepsEntry K entry) (PutsBehind good shows entry) (Delivers shows entry) p x

end

/-- The stream whose cancellation a handler waits for. -/
def awaited {α : Type} : ListTask α → Option StreamId
  | .call (.port (.awaitCancelled w)) _ => some w
  | _ => none

theorem awaited_eq {α : Type} {p : ListTask α} {w : StreamId} (h : awaited p = some w) :
    ∃ k, p = .call (.port (.awaitCancelled w)) k := by
  unfold awaited at h
  split at h
  · obtain rfl := Option.some.inj h
    exact ⟨_, rfl⟩
  · cases h

/-- Every request has returned, and every stream handler that has not waits for its cancellation. -/
def AllReturned {ι : Type} (m : ListConfig ι) : Prop :=
  (∀ i, (m.threads (.inr i)).result ≠ none) ∧
    ∀ w, (m.threads (.inl w)).result ≠ none ∨ awaited (m.threads (.inl w)) = some w

/-- What a matter has to be for the handlers of the streams to keep up with it. -/
structure Matter {δ : Type} (good : Server → List ChannelListEvent → δ → Prop)
    (shows : ChannelListEvent → δ → Prop) (K : Server → Server → Prop) : Prop where
  refl : ∀ s, K s s
  trans : ∀ {s₁ s₂ s₃}, K s₁ s₂ → K s₂ s₃ → K s₁ s₃
  env : ∀ {s s'}, Env s s' → K s s'
  channels : ∀ {s s' : Server} {events d}, s'.channels = s.channels → good s events d → good s' events d
  grow : ∀ {s events event d}, ¬ shows event d → good s events d → good s (events ++ [event]) d
  snapshot : ∀ {s s' : Server} {events d}, ¬ good s events d → K s s' → ∀ order,
    shows (.snapshot ((s'.channels.listAll order).map populateChannelSummary)) d
  created : ∀ {s : Server} {events d name}, s.Indexed → good s events d →
    ¬ good (handle (.channels (.create name)) s).2 events d → ∃ ch,
      (handle (.channels (.create name)) s).1 = .ok ch ∧ shows (.created (populateChannelSummary ch)) d

/-! ### Who is put behind -/

section
variable {δ : Type} {good : Server → List ChannelListEvent → δ → Prop} {shows : ChannelListEvent → δ → Prop}
  {K : Server → Server → Prop} {entry : EntryId}

theorem KeepsEntry.refl (hM : Matter good shows K) (x : ListSectioned) : KeepsEntry K entry x x :=
  ⟨id, hM.refl _⟩

theorem KeepsEntry.trans (hM : Matter good shows K) {x₁ x₂ x₃ : ListSectioned} (h : KeepsEntry K entry x₁ x₂)
    (h' : KeepsEntry K entry x₂ x₃) : KeepsEntry K entry x₁ x₃ :=
  ⟨fun hl => h'.listed (h.listed hl), hM.trans h.server h'.server⟩

/-- Only an insertion and a change of the channels put an entry behind. -/
theorem not_putsBehind (hM : Matter good shows K) {x : ListSectioned} {o : ListSection} {d : δ}
    (hins : ∀ c w, o ≠ .insert c w)
    (hsame : ∀ events, good x.server events d → good (listSections.handle o x).2.server events d) :
    ¬ PutsBehind good shows entry x o d := by
  intro h
  obtain ⟨hl, w, hw, hbad⟩ := h.after
  rcases listed_handle hl hw with ⟨c, ho, -⟩ | ⟨hl', hw'⟩
  · exact hins c w ho
  · refine h.before ⟨hl', w, hw', fun hgood => hbad (hsame _ ?_)⟩
    rcases hb : o.brings with _ | ⟨entry', event⟩
    · rwa [written_handle hb]
    · rw [written_handle_brings hb]
      split
      · obtain rfl : entry' = entry := h.tidy.own ‹_› hw'
        exact hM.grow (fun hshows => h.silent ⟨event, hb, hshows⟩) hgood
      · exact hgood

/-- An insertion puts behind the entry that it makes. -/
theorem putsBehind_insert {x : ListSectioned} {c : ClientId} {w : StreamId} {d : δ}
    (h : PutsBehind good shows entry x (.insert c w) d) :
    entry = x.table.nextEntry ∧ ∃ events, ¬ good x.server events d := by
  obtain ⟨hl, v, hv, hbad⟩ := h.after
  refine ⟨?_, _, hbad⟩
  rcases listed_handle hl hv with ⟨-, -, he⟩ | ⟨hl', hv'⟩
  · exact he
  · exact absurd ⟨hl', v, hv', hbad⟩ h.before

/-- A section that is no insertion and leaves the channels alone. -/
def LeavesChannels (o : ListSection) : Prop :=
  (∀ c w, o ≠ .insert c w) ∧ ∀ x : ListSectioned, (listSections.handle o x).2.server.channels =
    x.server.channels

theorem LeavesChannels.not_putsBehind {o : ListSection} (h : LeavesChannels o)
    (hM : Matter good shows K) {x : ListSectioned} {d : δ} : ¬ PutsBehind good shows entry x o d :=
  Bcmd.not_putsBehind hM h.1 fun _ => hM.channels (h.2 x)

/-! ### Who delivers -/

/-- All the entries of the table are written to, and so is this one. -/
theorem owes_publish {x : ListSectioned} {event : ChannelListEvent} {d : δ} (order : IterOrder ClientId)
    (hl : x.table.Listed entry) (hevent : shows event d) : OwesEntry shows K entry d
      (ListSections.publishToAll order event) x := by
  have heach : ∀ targets x, entry ∈ targets → OwesEntry shows K entry d
      (ListSections.writeEach event targets) x := by
    intro targets
    induction targets with
    | nil => exact fun _ h => absurd h List.not_mem_nil
    | cons entry' targets ih =>
      intro x hmem
      by_cases he : entry' = entry
      · exact .inl ⟨event, by rw [he]; rfl, hevent⟩
      · exact .inr fun x' _ _ => ih _ ((List.mem_cons.1 hmem).resolve_left (Ne.symm he))
  refine .inr fun x' hx _ => heach _ _ ?_
  obtain ⟨c, hc⟩ := hx.listed hl
  refine List.mem_filterMap.2 ⟨c, (IterOrder.mem_enum ..).2 (Finmap.mem_keys.2 ?_), hc⟩
  exact Finmap.mem_of_lookup_eq_some hc

theorem leaves_unregister (c : ClientId) : (ListSections.unregisterSubscriber c).Calls LeavesChannels := by
  refine ⟨⟨nofun, fun _ => rfl⟩, fun r => ?_⟩
  rcases r with _ | entry
  · trivial
  · exact ⟨⟨nofun, fun _ => rfl⟩, fun _ => trivial⟩

/-- A registration delivers what it puts its entry behind in: the channels are listed after the
insertion. -/
theorem answers_subscribe (hM : Matter good shows K) (uuid : UuidLib) (bucketOrder : BucketOrder)
    (order : IterOrder ClientId)
    (clientId : Bytes) (w : StreamId) (x : ListSectioned) : AnswersEntry good shows K entry
      (ListSections.expand order (BroadcastService.SubscribeToChannelList uuid bucketOrder clientId
        w)) x := by
  unfold BroadcastService.SubscribeToChannelList
  rcases BroadcastService.parseClient uuid clientId with _ | c
  · trivial
  simp only [expand_subscribe]
  have hleave : ∀ o : Call, (∀ s, (Server.handle o s).2.channels = s.channels) → LeavesChannels (.port o) :=
    fun o ho => ⟨nofun, fun x => ho x.server⟩
  refine fun x₁ _ _ => ⟨fun d hd => absurd hd ((hleave _ fun _ => rfl).not_putsBehind hM), ?_⟩
  rcases (listSections.handle (.port (.clients (.findById c))) x₁).1 with e | cs
  · trivial
  refine fun x₂ _ _ => ⟨fun d hd => ?_, ?_⟩
  · obtain ⟨rfl, events, hbad⟩ := putsBehind_insert hd
    exact .inr fun x₃ h₃ _ => .inl ⟨_, rfl, hM.snapshot hbad h₃.server bucketOrder.channels⟩
  · refine Answers.of_calls (P := LeavesChannels) (fun _ _ _ ho => ho.not_putsBehind hM)
      ⟨hleave _ fun _ => rfl, fun _ => ?_⟩
    refine ⟨⟨nofun, fun _ => rfl⟩, fun _ => ⟨hleave _ fun _ => rfl, fun _ => ?_⟩⟩
    exact .bind (leaves_unregister c) fun _ => trivial

theorem expand_createChannel (uuid : UuidLib) (bucketOrder : BucketOrder) (order : IterOrder ClientId)
    (c : ClientId) (clientId channelName : Bytes) (hc : BroadcastService.parseClient uuid clientId = some c) :
    ListSections.expand order ((ListRequest.createChannel clientId channelName).run uuid bucketOrder) =
      .call (.port (.clients (.findById c))) fun
        | .error e => .ret (.error (errorToStatus e))
        | .ok _ =>
          match ChannelName.create (trim (trim channelName)) with
          | none => .ret (.error (errorToStatus .invalidChannelName))
          | some name => .call (.port (.channels (.create name))) fun
            | .error e => .ret (.error (errorToStatus e))
            | .ok created =>
              ListSections.publishToAll order (.created (populateChannelSummary created)) >>= fun _ =>
                .ret (.ok ()) := by
  simp only [ListRequest.run, BroadcastService.CreateChannel, hc, CreateChannel.execute]
  refine congrArg (Prog.call (ListSection.port (.clients (.findById c)))) (funext fun r => ?_)
  rcases r with e | cs
  · rfl
  rcases ChannelName.create (trim (trim channelName)) with _ | name
  · rfl
  refine congrArg (Prog.call (ListSection.port (.channels (.create name)))) (funext fun r => ?_)
  rcases r with e | created <;> rfl

/-- Whoever creates a channel publishes it. -/
theorem answers_createChannel (hM : Matter good shows K) (uuid : UuidLib) (bucketOrder : BucketOrder)
    (order : IterOrder ClientId)
    (clientId channelName : Bytes) (x : ListSectioned) : AnswersEntry good shows K entry
      (ListSections.expand order ((ListRequest.createChannel clientId channelName).run uuid
        bucketOrder)) x := by
  rcases hc : BroadcastService.parseClient uuid clientId with _ | c
  · simp only [ListRequest.run, BroadcastService.CreateChannel, hc]
    trivial
  rw [expand_createChannel uuid bucketOrder order c clientId channelName hc]
  have hleave : LeavesChannels (.port (.clients (.findById c))) := ⟨by simp, fun _ => rfl⟩
  refine fun x₁ _ _ => ⟨fun d hd => absurd hd (hleave.not_putsBehind hM), ?_⟩
  rcases (listSections.handle (.port (.clients (.findById c))) x₁).1 with e | cs
  · trivial
  rcases ChannelName.create (trim (trim channelName)) with _ | name
  · trivial
  refine fun x₂ _ _ => ⟨fun d hd => ?_, ?_⟩
  · obtain ⟨hl, w, hw, hbad⟩ := hd.after
    have hgood : good x₂.server (x₂.table.written w) d := by
      by_contra hbad'
      exact hd.before ⟨hl, w, hw, hbad'⟩
    obtain ⟨ch, hch, hshows⟩ := hM.created hd.indexed hgood hbad
    rw [show (listSections.handle (.port (.channels (.create name))) x₂).1 = .ok ch from hch]
    exact (owes_publish order hl hshows).bind _
  · rcases (listSections.handle (.port (.channels (.create name))) x₂).1 with e | ch
    · trivial
    · refine Answers.of_calls (P := LeavesChannels) (fun _ _ _ ho => ho.not_putsBehind hM)
        (.bind ?_ fun _ => trivial)
      exact ⟨⟨by simp, fun _ => rfl⟩, fun _ => calls_writeEach (fun _ => ⟨by simp, fun _ => rfl⟩) _⟩

/-! ### When all have returned -/

/-- After the wait of a stream handler nothing is written any more. -/
def SilentAfterWait {α : Type} : ListTask α → Prop
  | .ret _ => True
  | .call o k => (∀ w, o = .port (.awaitCancelled w) → ∀ r, (k r).Calls fun o => o.brings = none) ∧
      ∀ r, SilentAfterWait (k r)

theorem silent_subscribe (uuid : UuidLib) (bucketOrder : BucketOrder) (order : IterOrder ClientId)
    (clientId : Bytes) (w : StreamId) :
    SilentAfterWait (ListSections.expand order
      (BroadcastService.SubscribeToChannelList uuid bucketOrder clientId w)) := by
  unfold BroadcastService.SubscribeToChannelList
  rcases BroadcastService.parseClient uuid clientId with _ | c
  · trivial
  simp only [expand_subscribe]
  refine ⟨nofun, fun r => ?_⟩
  rcases r with e | cs
  · trivial
  refine ⟨nofun, fun _ => ⟨nofun, fun _ => ⟨nofun, fun _ =>
    ⟨fun _ _ _ => ?_, fun _ => ⟨nofun, fun r => ?_⟩⟩⟩⟩⟩
  · refine .bind ⟨rfl, fun r => ?_⟩ fun _ => trivial
    rcases r with _ | entry
    · trivial
    · exact ⟨rfl, fun _ => trivial⟩
  · rcases r with _ | entry
    · trivial
    · exact ⟨nofun, fun _ => trivial⟩

/-- Any section can be entered some time. -/
theorem enabled_later (hM : Matter good shows K) (o : ListSection) (x : ListSectioned) :
    ∃ x', KeepsEntry K entry x x' ∧ listSections.enabled o x' := by
  have hfree : KeepsEntry K entry x { x with table := { x.table with registering := none } } :=
    ⟨id, hM.refl _⟩
  cases o with
  | port o =>
    cases o with
    | awaitCancelled w =>
      have hcancel : Env x.server { x.server with cancelled := insert w x.server.cancelled } :=
        { Env.refl x.server with cancelled := Finset.subset_insert w _ }
      exact ⟨{ x with server := { x.server with cancelled := insert w x.server.cancelled } },
        ⟨id, hM.env hcancel⟩, Finset.mem_insert_self w _⟩
    | _ => exact ⟨x, .refl hM x, trivial⟩
  | insert _ _ | collect _ | erase _ => exact ⟨_, hfree, rfl⟩
  | writeSnapshot _ _ | write _ _ | disarm _ => exact ⟨x, .refl hM x, trivial⟩

variable {ι : Type} [DecidableEq ι] {p : ListPublishing ι} {s : Server} {tr : ListEvents ι} {m : ListConfig ι}

theorem not_owes_returned (hM : Matter good shows K) (h : ListRun p s tr m) (hret : AllReturned m)
    (i : StreamId ⊕ ι) (d : δ) :
    ¬ OwesEntry shows K entry d (m.threads i) m.state := by
  intro howes
  have hreturned : (m.threads i).result = none := by
    rcases hp : m.threads i with a | ⟨o, k⟩
    · rw [hp] at howes
      exact howes.elim
    · rfl
  rcases i with w | i
  · obtain ⟨k, hk⟩ := awaited_eq ((hret.2 w).resolve_left fun hne => hne hreturned)
    have hsilent : SilentAfterWait (m.threads (.inl w)) :=
      h.thread_inv (silent_subscribe ..) fun _ _ r hs => hs.2 r
    rw [hk] at howes hsilent
    have hcalls : (Prog.call (.port (.awaitCancelled w)) k : ListTask (Reply Unit)).Calls (·.brings = none) :=
      ⟨rfl, hsilent.1 w rfl⟩
    refine Owes.not_of_calls (enabled_later hM) (hcalls.mono ?_) howes
    rintro o ho ⟨event, hb, -⟩
    rw [ho] at hb
    cases hb
  · exact hret.1 i hreturned

/-- Once all have returned, the entry is behind in nothing. -/
theorem caught_up (hM : Matter good shows K) (hs : s.Indexed) (h : ListRun p s tr m)
    (hK : ∀ e ∈ tr, K e.pre.state.server (listSections.handle e.call e.pre.state).2.server)
    (hans : ∀ i, AnswersEntry good shows K entry ((p.start s).threads (.inr i)) (p.start s).state)
    (hpaid : ∀ e ∈ tr, ∀ d, Delivers shows entry e.call d →
      Behind good entry (listSections.handle e.call e.pre.state).2 d →
      ∃ j ≠ e.thread, OwesEntry shows K entry d (e.pre.threads j) e.pre.state)
    (hret : AllReturned m) {w : StreamId} (hl : m.state.table.Listed entry)
    (hw : m.state.table.writer entry = some w) (d : δ) :
    good m.state.server (m.state.table.written w) d := by
  by_contra hbad
  have hall : ∀ i, AnswersEntry good shows K entry ((p.start s).threads i) (p.start s).state := by
    intro i
    rcases i with v | i
    · exact answers_subscribe hM ..
    · exact hans i
  suffices howed : ∀ d, Behind good entry m.state d → ∃ i, OwesEntry shows K entry d (m.threads i) m.state by
    obtain ⟨i, hi⟩ := howed d ⟨hl, w, hw, hbad⟩
    exact not_owes_returned hM h hret i d hi
  refine h.owed (R := KeepsEntry K entry) (.refl hM) (.trans hM) ?_ ?_ ?_ hall ?_ ?_ hpaid
  · intro x x' he
    exact ⟨fun hl => by rwa [he.table], hM.env he.server⟩
  · rintro x x' d he ⟨hl, v, hv, hbad⟩
    rw [he.table] at hl hv hbad
    exact ⟨hl, v, hv, fun hgood => hbad (hM.channels he.server.channels hgood)⟩
  · intro e he
    exact ⟨fun hpre => listed_kept h he hl hpre, hK e he⟩
  · rintro d ⟨⟨c, hc⟩, -⟩
    cases (Finmap.lookup_empty c).symm.trans hc
  · intro e he d hafter
    obtain ⟨ht, -, -⟩ := tidy_at h he
    obtain ⟨hi, hstored⟩ := stored_at hs h he
    by_cases hbefore : Behind good entry e.pre.state d
    · exact .inl hbefore
    by_cases hdel : Delivers shows entry e.call d
    · exact .inr (.inr hdel)
    · exact .inr (.inl ⟨ht, hi, hstored, hafter, hbefore, hdel⟩)

end

/-! Client `2` has the only stream. -/

def oneStream {ι : Type} (requests : ι → ListRequest) : ListPublishing ι where
  uuid := .canonical
  clientIds w := if w = 0 then ascii "00000000-0000-0000-0000-000000000002" else []
  requests := requests
  order _ := .byId

theorem oneStream_returned {ι : Type} [DecidableEq ι] {requests : ι → ListRequest} {s : Server}
    {tr : ListEvents ι}
    {m : ListConfig ι} (h : ListRun (oneStream requests) s tr m)
    (hi : ∀ i, (m.threads (.inr i)).result ≠ none)
    (hw : awaited (m.threads (.inl 0)) = some 0) : AllReturned m := by
  refine ⟨hi, fun w => ?_⟩
  rcases w with _ | w
  · exact .inr hw
  · have hstart : ((oneStream requests).start s).threads (.inl (w + 1)) = .ret
      (.error (errorToStatus .clientNotFound)) := rfl
    exact .inl (by rw [(h.threads_ret hstart).1]; nofun)

end Bcmd
