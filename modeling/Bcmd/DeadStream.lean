import Bcmd.Sections

/-!
# Writes to streams that have ended

A publisher that has looked an entry up writes to it later, so the handler that registered a writer must
have disarmed its entry before it returns. It disarms what it finds in the table under its client, which
is another entry when a second stream of the client has replaced its own.
-/

namespace Bcmd

/-- The other callers of the publisher; `Disconnect` and the sweep unregister. -/
inductive PublisherRequest
  | publish (recipientId : ClientId) (message : Message)
  | broadcastMemberJoined (channelId : ChannelId) (recipients : Finset ClientId) (clientId : ClientId)
      (username : Username)
  | broadcastMemberLeft (channelId : ChannelId) (recipients : Finset ClientId) (clientId : ClientId)
      (username : Username)
  | unregisterSubscriber (clientId : ClientId)

namespace PublisherRequest

def run : PublisherRequest → Task (Reply Unit)
  | publish c m => do
    publisher.publish c m
    return .ok ()
  | broadcastMemberJoined k recipients c username => do
    publisher.broadcastMemberJoined k recipients c username
    return .ok ()
  | broadcastMemberLeft k recipients c username => do
    publisher.broadcastMemberLeft k recipients c username
    return .ok ()
  | unregisterSubscriber c => do
    publisher.unregisterSubscriber c
    return .ok ()

end PublisherRequest

/-- The client, the channel and the way of walking the table of every handler and publisher. -/
structure Publishing (ι : Type) where
  uuid : UuidLib
  clientIds : StreamId → Bytes
  channelIds : StreamId → Bytes
  requests : ι → PublisherRequest
  order : StreamId ⊕ ι → IterOrder ClientId

section
variable {ι : Type}

/-- Handlers and publishers, from an empty table. -/
def Publishing.start (p : Publishing ι) (s : Server) :
    Config Sectioned (StreamId ⊕ ι) Section Section.Res (Reply Unit) where
  state := ⟨s, .empty⟩
  threads
    | .inl w =>
      expand (p.order (.inl w)) (BroadcastService.SubscribeToChannel p.uuid (p.clientIds w)
      (p.channelIds w) w)
    | .inr i => expand (p.order (.inr i)) (p.requests i).run

/-- No write goes to a writer whose handler has returned. -/
def NoDeadWrites (tr : List (Event Sectioned (StreamId ⊕ ι) Section Section.Res (Reply Unit))) : Prop :=
  ∀ e ∈ tr, ∀ entry event w, e.call = .write entry event → e.pre.state.table.writer entry = some w →
    (e.pre.threads (.inl w)).result = none

end

def Section.erases : Section → Option ClientId
  | erase c => some c
  | _ => none

/-- When a handler erases its client's entry, that is the entry with its own writer, if there is still
one. -/
def TakesOwnEntry {ι : Type} (e : Event Sectioned (StreamId ⊕ ι) Section Section.Res (Reply Unit)) : Prop :=
  ∀ w ∈ e.thread.getLeft?, ∀ c ∈ e.call.erases, ∀ entry < e.pre.state.table.nextEntry,
    e.pre.state.table.writer entry = some w → e.pre.state.table.writers.lookup c = some entry

instance {ι : Type} (e : Event Sectioned (StreamId ⊕ ι) Section Section.Res (Reply Unit)) :
    Decidable (TakesOwnEntry e) :=
  inferInstanceAs (Decidable (∀ w ∈ e.thread.getLeft?, _))

/-! ### Programs -/

section
variable {α : Type}

/-- The program erases an entry before it returns, and then disarms what it has found. -/
inductive WillDisarm : FineTask α → Prop
  | erases {c : ClientId} {k : Option EntryId → FineTask α}
    (h : ∀ entry, ∃ k', k (some entry) = .call (.disarm entry) k') :
      WillDisarm (.call (.erase c) k)
  | later {o : Section} {k : o.Res → FineTask α} (h : ∀ r, WillDisarm (k r)) : WillDisarm (.call o k)

/-- The program inserts entries for the stream `w` only, and ends after it has inserted one. -/
def InsertsOwn (w : StreamId) : FineTask α → Prop
  | .ret _ => True
  | .call o k => (∀ c v, o = .insert c v → v = w ∧ ∀ r, WillDisarm (k r)) ∧ ∀ r, InsertsOwn w (k r)

theorem InsertsOwn.of_calls {w : StreamId} {p : FineTask α} (h : p.Calls fun o => ∀ c v, o ≠ .insert c v) :
    InsertsOwn w p := by
  induction p with
  | ret a => trivial
  | call o k ih => exact ⟨fun c v ho => absurd ho (h.1 c v), fun r => ih r (h.2 r)⟩

theorem WillDisarm.result {p : FineTask α} (h : WillDisarm p) : p.result = none := by
  rcases h with _ | _ <;> rfl

end

section
open BroadcastService Sections

theorem unregister_willDisarm {α : Type} (c : ClientId) (f : Unit → FineTask α) :
    WillDisarm (unregisterSubscriber c >>= f) :=
  .erases fun _ => ⟨_, rfl⟩

theorem unregister_inserts (c : ClientId) :
    (Sections.unregisterSubscriber c).Calls fun o => ∀ c v, o ≠ .insert c v := by
  refine ⟨nofun, fun r => ?_⟩
  rcases r with _ | entry
  · trivial
  · exact ⟨nofun, fun _ => trivial⟩

theorem insertsOwn_subscribe (order : IterOrder ClientId) (c : ClientId) (k : ChannelId) (w : StreamId) :
    InsertsOwn w (expand order (subscribeToChannel c k w)) := by
  simp only [subscribeToChannel, beginChannelStream, endChannelStream, SubscribeToChannel.execute,
    Prog.perform_bind, Prog.call_bind, expand, implement, Sections.registerSubscriber]
  refine ⟨fun c' v h => ?_, fun _ => .of_calls ⟨by simp, fun r => ?_⟩⟩
  · cases h
    refine ⟨rfl, fun _ => .later fun r => ?_⟩
    rcases r with e | ch
    · exact unregister_willDisarm c _
    · dsimp only
      split
      · exact unregister_willDisarm c _
      · exact .later fun _ => unregister_willDisarm c _
  · have hun : ∀ reply : Reply Unit, (Sections.unregisterSubscriber c >>= fun _ => .ret reply).Calls
        fun o => ∀ c v, o ≠ .insert c v := fun _ => .bind (unregister_inserts c) fun _ => trivial
    rcases r with e | ch
    · exact hun _
    · dsimp only
      split
      · exact hun _
      · exact ⟨by simp, fun _ => hun _⟩

theorem insertsOwn_handler (uuid : UuidLib) (order : IterOrder ClientId) (clientId channelId : Bytes)
    (w : StreamId) :
    InsertsOwn w (expand order (BroadcastService.SubscribeToChannel uuid clientId channelId w)) := by
  simp only [BroadcastService.SubscribeToChannel]
  rcases parseClient uuid clientId with _ | c
  · trivial
  rcases parseChannel uuid channelId with _ | k
  · trivial
  · exact insertsOwn_subscribe order c k w

theorem writeEach_inserts (event : ChannelEvent) (targets : List EntryId) :
    (writeEach event targets).Calls fun o => ∀ c v, o ≠ .insert c v := by
  induction targets with
  | nil => trivial
  | cons entry targets ih => exact ⟨nofun, fun _ => ih⟩

theorem request_inserts (order : IterOrder ClientId) (request : PublisherRequest) :
    (expand order request.run).Calls fun o => ∀ c v, o ≠ .insert c v := by
  rcases request with ⟨c, m⟩ | _ | _ | c
  · refine .bind ⟨nofun, fun r => ?_⟩ fun _ => trivial
    rcases r with _ | entry
    · trivial
    · exact ⟨nofun, fun _ => trivial⟩
  · exact .bind ⟨nofun, fun targets => writeEach_inserts _ targets⟩ fun _ => trivial
  · exact .bind ⟨nofun, fun targets => writeEach_inserts _ targets⟩ fun _ => trivial
  · exact .bind (unregister_inserts c) fun _ => trivial

end

/-! ### The table -/

section
variable {o : Section} {x : Sectioned} {entry : EntryId} {w : StreamId}

/-- An armed entry was armed before and is not disarmed now, or it is a new one. -/
theorem writer_handle (h : (sections.handle o x).2.table.writer entry = some w) :
    x.table.writer entry = some w ∧ o ≠ .disarm entry ∨ ∃ c, o = .insert c w ∧ entry = x.table.nextEntry := by
  rcases o with o | ⟨c, v⟩ | c | ⟨_, _⟩ | ⟨d, event⟩ | c | d
  case insert =>
    by_cases he : entry = x.table.nextEntry
    · subst he
      have hv : v = w := by simpa [sections, Sectioned.handle, WriterTable.insert] using h
      exact .inr ⟨c, by rw [hv], rfl⟩
    · refine .inl ⟨?_, by simp⟩
      simpa [sections, Sectioned.handle, WriterTable.insert, Function.update_of_ne he] using h
  case write =>
    refine .inl ⟨?_, by simp⟩
    rw [← h]
    simp [sections, Sectioned.handle, WriterTable.write_eq, WriterTable.repeated]
  case disarm =>
    by_cases he : entry = d
    · subst he
      simp [sections, Sectioned.handle, WriterTable.disarm] at h
    · refine .inl ⟨by simpa [sections, Sectioned.handle, WriterTable.disarm, Function.update_of_ne he] using h, ?_⟩
      rintro ⟨⟩
      exact he rfl
  all_goals exact .inl ⟨h, by simp⟩

theorem nextEntry_handle (o : Section) (x : Sectioned) :
    x.table.nextEntry ≤ (sections.handle o x).2.table.nextEntry := by
  rcases o with o | ⟨c, v⟩ | c | ⟨_, _⟩ | ⟨d, event⟩ | c | d
  case insert => exact Nat.le_succ _
  case write => simp [sections, Sectioned.handle, WriterTable.write_eq, WriterTable.repeated]
  all_goals exact le_refl _

end

/-! ### Runs -/

section
variable {ι : Type} [DecidableEq ι]

/-- Every armed entry is one that its handler has still to disarm. -/
structure ArmedLive (m : Config Sectioned (StreamId ⊕ ι) Section Section.Res (Reply Unit)) : Prop where
  used : ∀ entry w, m.state.table.writer entry = some w → entry < m.state.table.nextEntry
  live : ∀ entry w, m.state.table.writer entry = some w →
    WillDisarm (m.threads (.inl w)) ∨ ∃ k, m.threads (.inl w) = .call (.disarm entry) k

variable {m : Config Sectioned (StreamId ⊕ ι) Section Section.Res (Reply Unit)} {i : StreamId ⊕ ι}
  {o : Section}

theorem ArmedLive.step (h : ArmedLive m) (hnext : (m.threads i).next = some o)
    (hown : TakesOwnEntry ⟨m, i, o⟩) (hinserts : ∀ w, InsertsOwn w (m.threads (.inl w)))
    (hothers : ∀ j, (m.threads (.inr j)).Calls fun o => ∀ c v, o ≠ .insert c v) :
    ArmedLive (m.advance sections i) := by
  obtain ⟨k, hk⟩ := Prog.eq_call_of_next hnext
  refine ⟨fun entry w hw => ?_, fun entry w hw => ?_⟩
  · rw [Config.advance_state hnext] at hw ⊢
    rcases writer_handle hw with ⟨hold, -⟩ | ⟨c, rfl, rfl⟩
    · exact (h.used entry w hold).trans_le (nextEntry_handle o m.state)
    · exact Nat.lt_succ_self _
  · rw [Config.advance_state hnext] at hw
    rcases writer_handle hw with ⟨hold, hne⟩ | ⟨c, rfl, rfl⟩
    · by_cases hi : i = .inl w
      · subst hi
        rw [Config.advance_threads_self hk]
        have hlive := h.live entry w hold
        rw [hk] at hlive
        rcases hlive with hwill | ⟨k', hk'⟩
        · rcases hwill with @⟨c, k, hfound⟩ | hrest
          · -- the handler finds its own entry, and goes on to disarm it
            have hlookup : (sections.handle (.erase c) m.state).1 = (some entry : Option EntryId) :=
              hown w rfl c rfl entry (h.used entry w hold) hold
            rw [hlookup]
            exact .inr (hfound entry)
          · exact .inl (hrest _)
        · cases hk'
          exact absurd rfl hne
      · rw [Config.advance_threads_ne (Ne.symm hi)]
        exact h.live entry w hold
    · rcases i with v | j
      · have hins := hinserts v
        rw [hk] at hins
        obtain ⟨rfl, hends⟩ := hins.1 c w rfl
        rw [Config.advance_threads_self hk]
        exact .inl (hends _)
      · have hcalls := hothers j
        rw [hk] at hcalls
        exact absurd rfl (hcalls.1 c w)

theorem no_dead_write {p : Publishing ι} {s : Server}
    {tr : List (Event Sectioned (StreamId ⊕ ι) Section Section.Res (Reply Unit))}
    {final : Config Sectioned (StreamId ⊕ ι) Section Section.Res (Reply Unit)}
    (h : Run sections Sectioned.Env (p.start s) tr final) (hown : ∀ e ∈ tr, TakesOwnEntry e) :
    NoDeadWrites tr := by
  intro e he entry event w hcall hw
  obtain ⟨tr₁, tr₂, rfl⟩ := List.append_of_mem he
  obtain ⟨hpre, -, -, -⟩ := h.at_event
  have hlive : ArmedLive e.pre := by
    refine hpre.inv ⟨nofun, nofun⟩ (fun m s' hm henv => ?_) fun e' he' hm hn _ => ?_
    · exact ⟨by rw [henv.table]; exact hm.used, by rw [henv.table]; exact hm.live⟩
    · obtain ⟨tr₃, tr₄, rfl⟩ := List.append_of_mem he'
      obtain ⟨hpre', -, -, -⟩ := hpre.at_event
      refine hm.step hn (hown e' (by simp)) (fun v => ?_) fun j => ?_
      · exact hpre'.thread_inv (insertsOwn_handler ..) fun _ _ _ hi => hi.2 _
      · exact (hpre'.calls (i := .inr j) (request_inserts ..)).1
  rcases hlive.live entry w hw with hwill | ⟨k, hk⟩
  · exact hwill.result
  · rw [hk]; rfl

end

/-! One client with streams `0` and `1`, and a message published to it. -/

def hello : Message := ⟨⟨9⟩, ⟨2⟩, ⟨1⟩, ⟨ascii "hi", MessageContent.valid_hi⟩, 0⟩

def greeting : Publishing Unit where
  uuid := .canonical
  clientIds _ := ascii "00000000-0000-0000-0000-000000000002"
  channelIds _ := ascii "00000000-0000-0000-0000-000000000001"
  requests _ := .publish ⟨2⟩ hello
  order _ := BucketOrder.byId.clients

def beforeDrop (is : List (StreamId ⊕ Unit)) := schedule sections (greeting.start oneJoined.server) is

/-- Stream `0` is cancelled. -/
def dropZero (m : Config Sectioned (StreamId ⊕ Unit) Section Section.Res (Reply Unit)) :
    Config Sectioned (StreamId ⊕ Unit) Section Section.Res (Reply Unit) :=
  ⟨{ m.state with server := { m.state.server with cancelled := {0} } }, m.threads⟩

def afterDrop (is is' : List (StreamId ⊕ Unit)) := schedule sections (dropZero (beforeDrop is).2) is'

theorem greeting_run (is is' : List (StreamId ⊕ Unit)) (hc : (beforeDrop is).2.state.server.cancelled ⊆ {0}) :
    Run sections Sectioned.Env (greeting.start oneJoined.server) ((beforeDrop is).1 ++ (afterDrop is is').1)
      (afterDrop is is').2 := by
  have hdrop : Sectioned.Env (beforeDrop is).2.state (dropZero (beforeDrop is).2).state := ⟨rfl, hc⟩
  exact ((run_schedule sections Sectioned.Env _ is).env hdrop).trans
    (run_schedule sections Sectioned.Env _ is')

/-- The publisher holds the entry of stream `0` while its handler ends. -/
theorem no_dead_write_greeting :
    NoDeadWrites ((beforeDrop [.inl 0, .inl 0, .inr ()]).1 ++
      (afterDrop [.inl 0, .inl 0, .inr ()] [.inl 0, .inl 0, .inl 0, .inr ()]).1) :=
  no_dead_write (greeting_run _ _ (by decide +kernel)) (by decide +kernel)

theorem dead_write : ¬ ∀ (uuid : UuidLib) (host : Host),
    Host.Reached uuid (.initial 200 0 0) host →
    ∀ (ι : Type) [DecidableEq ι] (p : Publishing ι)
      (tr : List (Event Sectioned (StreamId ⊕ ι) Section Section.Res (Reply Unit)))
      (final : Config Sectioned (StreamId ⊕ ι) Section Section.Res (Reply Unit)),
      Run sections Sectioned.Env (p.start host.server) tr final → NoDeadWrites tr := by
  intro hall
  have hrun := greeting_run [.inl 0, .inl 0, .inr (), .inl 1, .inl 1] [.inl 0, .inl 0, .inl 0, .inr ()]
    (by decide +kernel)
  have hno := hall _ _ oneJoined_reached _ _ _ _ hrun
  have hlen : 8 < ((beforeDrop [.inl 0, .inl 0, .inr (), .inl 1, .inl 1]).1 ++
    (afterDrop [.inl 0, .inl 0, .inr (), .inl 1, .inl 1] [.inl 0, .inl 0, .inl 0, .inr ()]).1).length := by
    decide +kernel
  have hret := hno _ (List.getElem_mem hlen) 0 _ 0 rfl rfl
  exact Option.some_ne_none (Except.ok () : Reply Unit) hret

end Bcmd
