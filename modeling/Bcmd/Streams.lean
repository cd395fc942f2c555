import Bcmd.Host

/-!
# Overlapping streams of one client

Both subscriber tables hold one entry for each client. A new stream takes the place of an older one,
and a handler that ends erases whatever entry its client has. So the stream a client began last stays
in the table only if the handlers of its older streams do not end while it is there.
-/

namespace Bcmd
open Server

inductive StreamKind
  | channel
  | list

namespace StreamKind

/-- The subscriber table. -/
def writers : StreamKind → Server → Finmap fun _ : ClientId => StreamId
  | channel, s => s.publisher.writers
  | list, s => s.channelList.writers

def registers : StreamKind → Call → Option (ClientId × StreamId)
  | channel, .publisher (.registerSubscriber c w) => some (c, w)
  | list, .channelList (.registerSubscriberWithSnapshot _ c w) => some (c, w)
  | _, _ => none

def unregisters : StreamKind → Call → Option ClientId
  | channel, .publisher (.unregisterSubscriber c) => some c
  | list, .channelList (.unregisterSubscriber c) => some c
  | _, _ => none

variable {kind : StreamKind} {o : Call} {c : ClientId} {w : StreamId} {s s' : Server}

theorem lookup_registered (h : kind.registers o = some (c, w)) :
    (kind.writers (handle o s).2).lookup c = some w := by
  rcases kind <;> rcases o with _ | _ | _ | (_ | _ | _ | _ | _) | (_ | _ | _ | _) | _ | _ <;> cases h
  all_goals exact Finmap.lookup_insert _

/-- Only its own registrations and unregistrations change the entry of a client. -/
theorem lookup_handle (hr : (kind.registers o).map Prod.fst ≠ some c) (hu : kind.unregisters o ≠ some c) :
    (kind.writers (handle o s).2).lookup c = (kind.writers s).lookup c := by
  rcases kind <;> rcases o with o | o | o | (⟨d, v⟩ | d | _ | _ | _) | (⟨_, d, v⟩ | d | _ | _) | _ | _
  case channel.channels => simp [writers]
  case channel.clients => simp [writers]
  case channel.messages => simp [writers]
  case list.channels => simp [writers]
  case list.clients => simp [writers]
  case list.messages => simp [writers]
  case channel.publisher.registerSubscriber => exact Finmap.lookup_insert_of_ne _ fun h => hr (by rw [h]; rfl)
  case channel.publisher.unregisterSubscriber => exact Finmap.lookup_erase_ne fun h => hu (by rw [h]; rfl)
  case list.channelList.registerSubscriberWithSnapshot =>
    exact Finmap.lookup_insert_of_ne _ fun h => hr (by rw [h]; rfl)
  case list.channelList.unregisterSubscriber => exact Finmap.lookup_erase_ne fun h => hu (by rw [h]; rfl)
  case channel.publisher.publish => exact congrArg (·.lookup c) (Subscribers.writers_writeTo ..)
  all_goals rfl

theorem writers_env (h : Env s s') : kind.writers s' = kind.writers s := by
  cases kind
  · exact congrArg Subscribers.writers h.publisher
  · exact congrArg Subscribers.writers h.channelList

end StreamKind

/-! ### Handlers -/

/-- The request that opened a stream. -/
inductive StreamRequest
  | channel (clientId channelId : Bytes)
  | list (order : BucketOrder) (clientId : Bytes)

/-- The handler of the stream `w`. -/
def StreamRequest.run (uuid : UuidLib) (w : StreamId) : StreamRequest → Task (Reply Unit)
  | channel clientId channelId => BroadcastService.SubscribeToChannel uuid clientId channelId w
  | list order clientId => BroadcastService.SubscribeToChannelList uuid order clientId w

section
variable (kind : StreamKind) (w : StreamId) {α : Type}

/-- The program does not unregister before its stream is cancelled, unless it will not wait for that at
all. -/
inductive Guarded : Task α → Prop
  | waits (k : Unit → Task α) : Guarded (.call (.awaitCancelled w) k)
  | gaveUp {p : Task α} (h : p.Calls fun o => o ≠ .awaitCancelled w) : Guarded p
  | goesOn {o : Call} {k : o.Res → Task α} (h : kind.unregisters o = none) (hk : ∀ r, Guarded (k r)) :
      Guarded (.call o k)

/-- From its registration on, the program is guarded. -/
def GuardsStream : Task α → Prop
  | .ret _ => True
  | .call o k => (kind.registers o ≠ none → ∀ r, Guarded kind w (k r)) ∧ ∀ r, GuardsStream (k r)

theorem GuardsStream.of_calls {p : Task α} (h : p.Calls fun o => kind.registers o = none) :
    GuardsStream kind w p := by
  induction p with
  | ret a => trivial
  | call o k ih => exact ⟨fun hr => absurd h.1 hr, fun r => ih r (h.2 r)⟩

section
open BroadcastService

theorem guards_subscribeToChannel (c : ClientId) (k : ChannelId) :
    GuardsStream kind w (subscribeToChannel c k w) := by
  simp only [subscribeToChannel, beginChannelStream, endChannelStream, SubscribeToChannel.execute,
    Prog.perform_bind, Prog.call_bind]
  refine ⟨fun _ _ => .goesOn (by cases kind <;> rfl) fun r => ?_, fun _ => .of_calls kind w ⟨?_, fun r => ?_⟩⟩
  · rcases r with e | ch
    · exact .gaveUp ⟨nofun, fun _ => trivial⟩
    · dsimp only
      split
      · exact .gaveUp ⟨nofun, fun _ => trivial⟩
      · exact .waits _
  · cases kind <;> rfl
  · have hnone : kind.registers (.publisher (.unregisterSubscriber c)) = none := by cases kind <;> rfl
    have hwait : kind.registers (.awaitCancelled w) = none := by cases kind <;> rfl
    rcases r with e | ch
    · exact ⟨hnone, fun _ => trivial⟩
    · dsimp only
      split
      · exact ⟨hnone, fun _ => trivial⟩
      · exact ⟨hwait, fun _ => ⟨hnone, fun _ => trivial⟩⟩

theorem guards_subscribeToChannelList (order : BucketOrder) (c : ClientId) :
    GuardsStream kind w (subscribeToChannelList order c w) := by
  simp only [subscribeToChannelList, beginListStream, endListStream, SubscribeToChannelList.execute,
    Prog.perform_bind, Prog.call_bind]
  refine ⟨fun hr => absurd (by cases kind <;> rfl) hr, fun r => ?_⟩
  rcases r with e | cs
  · trivial
  · refine ⟨fun _ _ => .waits _, fun _ => .of_calls kind w ⟨?_, fun _ => ⟨?_, fun _ => trivial⟩⟩⟩
    all_goals cases kind <;> rfl

theorem guards_run (uuid : UuidLib) (request : StreamRequest) : GuardsStream kind w (request.run uuid w) := by
  rcases request with ⟨clientId, channelId⟩ | ⟨order, clientId⟩
  · simp only [StreamRequest.run, BroadcastService.SubscribeToChannel]
    rcases parseClient uuid clientId with _ | c
    · trivial
    rcases parseChannel uuid channelId with _ | k
    · trivial
    · exact guards_subscribeToChannel kind w c k
  · simp only [StreamRequest.run, BroadcastService.SubscribeToChannelList]
    rcases parseClient uuid clientId with _ | c
    · trivial
    · exact guards_subscribeToChannelList kind w order c

end

end

/-! ### Runs -/

section
variable {ι : Type}

/-- The handlers of the streams, beside any other tasks. -/
def streaming (uuid : UuidLib) (requests : StreamId → StreamRequest) (others : ι → Task (Reply Unit))
    (s : Server) :
    Config Server (StreamId ⊕ ι) Call Call.Res (Reply Unit) where
  state := s
  threads
    | .inl w => (requests w).run uuid w
    | .inr i => others i

/-- A handler that unregisters its client takes out its own entry, or that of a cancelled stream, or
none. -/
def UnregistersOwn (kind : StreamKind) (e : Event Server (StreamId ⊕ ι) Call Call.Res (Reply Unit)) : Prop :=
  ∀ w ∈ e.thread.getLeft?, ∀ c ∈ kind.unregisters e.call, ∀ v ∈ (kind.writers e.pre.state).lookup c,
    v = w ∨ v ∈ e.pre.state.cancelled

instance (kind : StreamKind) (e : Event Server (StreamId ⊕ ι) Call Call.Res (Reply Unit)) :
    Decidable (UnregistersOwn kind e) :=
  inferInstanceAs (Decidable (∀ w ∈ e.thread.getLeft?, _))

/-- The stream is in the table, and what is published to its client reaches it. -/
structure Subscribed (kind : StreamKind) (c : ClientId) (w : StreamId) (s : Server) : Prop where
  registered : (kind.writers s).lookup c = some w
  message : kind = .channel → ∀ m, (handle (.publisher (.publish c m)) s).2.publisher.written w =
    s.publisher.written w ++ [.message (messageToEvent s.clients m)]
  created : kind = .list → ∀ ch, .created (populateChannelSummary ch) ∈
    (handle (.channelList (.publishChannelCreated ch)) s).2.channelList.written w
  memberCount : kind = .list → ∀ k n, .memberCountChanged k n ∈
    (handle (.channelList (.publishMemberCountChanged k n)) s).2.channelList.written w

theorem subscribed_of_lookup {kind : StreamKind} {c : ClientId} {w : StreamId} {s : Server}
    (h : (kind.writers s).lookup c = some w) : Subscribed kind c w s := by
  refine ⟨h, ?_, ?_, ?_⟩
  · rintro rfl m
    exact (Subscribers.written_writeTo ..).trans (if_pos h)
  · rintro rfl ch
    exact (Subscribers.mem_written_writeWhere ..).2 (.inr ⟨rfl, c, rfl, h⟩)
  · rintro rfl k n
    exact (Subscribers.mem_written_writeWhere ..).2 (.inr ⟨rfl, c, rfl, h⟩)

/-- If the stream begun last by a client waits for its cancellation, is not cancelled, and nothing but
stream handlers has unregistered the client since, then the stream is subscribed. -/
def LastSubscribed (kind : StreamKind) (tr : List (Event Server (StreamId ⊕ ι) Call Call.Res (Reply Unit)))
    (final : Config Server (StreamId ⊕ ι) Call Call.Res (Reply Unit)) : Prop :=
  ∀ tr₁ e tr₂ c w, tr = tr₁ ++ e :: tr₂ → e.thread = .inl w → kind.registers e.call = some (c, w) →
    (∀ e' ∈ tr₂, (kind.registers e'.call).map Prod.fst ≠ some c) →
    (∀ e' ∈ tr₂, kind.unregisters e'.call = some c → e'.thread.isLeft) →
    (final.threads (.inl w)).next = some (.awaitCancelled w) → w ∉ final.state.cancelled →
    Subscribed kind c w final.state

variable {kind : StreamKind} {uuid : UuidLib} {requests : StreamId → StreamRequest}
  {others : ι → Task (Reply Unit)}
  {s : Server} {tr : List (Event Server (StreamId ⊕ ι) Call Call.Res (Reply Unit))}
  {final m : Config Server (StreamId ⊕ ι) Call Call.Res (Reply Unit)} {c : ClientId} {w : StreamId}

/-- What holds of a stream after it was begun last: it is cancelled, or its handler will never wait for
that, or it has the entry of its client and its handler is guarded. -/
def Holds (kind : StreamKind) (c : ClientId) (w : StreamId)
    (m : Config Server (StreamId ⊕ ι) Call Call.Res (Reply Unit)) : Prop :=
  w ∈ m.state.cancelled ∨ (m.threads (.inl w)).Calls (fun o => o ≠ .awaitCancelled w) ∨
    (kind.writers m.state).lookup c = some w ∧ Guarded kind w (m.threads (.inl w))

theorem Holds.env {s' : Server} (h : Holds kind c w m) (he : Env m.state s') :
    Holds kind c w ⟨s', m.threads⟩ := by
  rcases h with hc | hg | ⟨hl, hg⟩
  · exact .inl (he.cancelled hc)
  · exact .inr (.inl hg)
  · refine .inr (.inr ⟨?_, hg⟩)
    rwa [StreamKind.writers_env he]

variable [DecidableEq ι]

theorem Holds.step {e : Event Server (StreamId ⊕ ι) Call Call.Res (Reply Unit)} (h : Holds kind c w e.pre)
    (hnext : (e.pre.threads e.thread).next = some e.call) (hen : ports.enabled e.call e.pre.state)
    (hown : UnregistersOwn kind e) (hreg : (kind.registers e.call).map Prod.fst ≠ some c)
    (hunreg : kind.unregisters e.call = some c → e.thread.isLeft) : Holds kind c w
      (e.pre.advance ports e.thread) := by
  rcases e with ⟨m, i, o⟩
  dsimp only at *
  by_cases hc : w ∈ m.state.cancelled
  · refine .inl ?_
    rw [Config.advance_state hnext]
    exact (handle_cancelled ..).symm ▸ hc
  obtain ⟨k, hk⟩ := Prog.eq_call_of_next hnext
  rcases h with hc' | hg | ⟨hl, hg⟩
  · exact absurd hc' hc
  · refine .inr (.inl ?_)
    by_cases hi : i = .inl w
    · subst hi
      rw [hk] at hg
      rw [Config.advance_threads_self hk]
      exact hg.2 _
    · rwa [Config.advance_threads_ne (Ne.symm hi)]
  · by_cases hi : i = .inl w
    · subst hi
      rw [hk] at hg
      rcases hg with _ | hg | ⟨hun, hrest⟩
      · exact absurd hen hc
      · refine .inr (.inl ?_)
        rw [Config.advance_threads_self hk]
        exact hg.2 _
      · refine .inr (.inr ⟨?_, ?_⟩)
        · rw [Config.advance_state hnext]
          exact (StreamKind.lookup_handle hreg (by rw [hun]; nofun)).trans hl
        · rw [Config.advance_threads_self hk]
          exact hrest _
    · refine .inr (.inr ⟨?_, by rwa [Config.advance_threads_ne (Ne.symm hi)]⟩)
      rw [Config.advance_state hnext]
      refine (StreamKind.lookup_handle hreg fun hu => ?_).trans hl
      -- another handler unregisters the client: then the entry is its own or cancelled
      obtain ⟨v, rfl⟩ := Sum.isLeft_iff.1 (hunreg hu)
      rcases hown v rfl c hu w hl with rfl | hw
      · exact hi rfl
      · exact hc hw

theorem last_subscribed (h : Run ports Env (streaming uuid requests others s) tr final)
    (hown : ∀ e ∈ tr, UnregistersOwn kind e) : LastSubscribed kind tr final := by
  rintro tr₁ e tr₂ c w rfl hi hreg hlast hothers hwaits hcancelled
  obtain ⟨hpre, hnext, -, hpost⟩ := h.at_event
  have hguards : GuardsStream kind w (e.pre.threads (.inl w)) :=
    hpre.thread_inv (guards_run kind w uuid (requests w)) fun _ _ _ hg => hg.2 _
  obtain ⟨k, hk⟩ := Prog.eq_call_of_next hnext
  have hstart : Holds kind c w (e.pre.advance ports e.thread) := by
    refine .inr (.inr ⟨?_, ?_⟩)
    · rw [Config.advance_state hnext]
      exact StreamKind.lookup_registered hreg
    · rw [← hi, hk] at hguards
      rw [← hi, Config.advance_threads_self hk]
      exact hguards.1 (by rw [hreg]; nofun) _
  have hfinal : Holds kind c w final := by
    refine hpost.inv hstart (fun _ _ hm he => hm.env he) fun e' he' hm hn hen => ?_
    exact hm.step hn hen (hown e' (by simp [he'])) (hlast e' he') (hothers e' he')
  obtain ⟨k', hk'⟩ := Prog.eq_call_of_next hwaits
  rcases hfinal with hc | hg | ⟨hl, -⟩
  · exact absurd hc hcancelled
  · rw [hk'] at hg
    exact absurd rfl hg.1
  · exact subscribed_of_lookup hl

end

/-! The client drops its stream `0` and subscribes again with stream `1`. -/

def subscribing : Config Server (StreamId ⊕ Empty) Call Call.Res (Reply Unit) :=
  streaming .canonical
    (fun _ => .channel (ascii "00000000-0000-0000-0000-000000000002")
      (ascii "00000000-0000-0000-0000-000000000001"))
    Empty.elim oneJoined.server

def subscribed := schedule ports subscribing [.inl 0, .inl 0]

def dropped : Config Server (StreamId ⊕ Empty) Call Call.Res (Reply Unit) :=
  ⟨{ subscribed.2.state with cancelled := {0} }, subscribed.2.threads⟩

/-- The steps of the two handlers after the client has dropped the first stream. -/
def resubscribing (is : List StreamId) := schedule ports dropped (is.map .inl)

theorem resubscribing_run (is : List StreamId) :
    Run ports Env subscribing (subscribed.1 ++ (resubscribing is).1) (resubscribing is).2 := by
  have hdrop : Env subscribed.2.state dropped.state :=
    ⟨rfl, rfl, rfl, rfl, rfl, by decide +kernel, le_refl _, le_refl _⟩
  exact ((run_schedule ports Env subscribing _).env hdrop).trans (run_schedule ports Env dropped _)

theorem last_subscribed_resubscribing : Subscribed .channel ⟨2⟩ 1 (resubscribing [0, 0, 1, 1]).2.state := by
  have hown : ∀ e ∈ subscribed.1 ++ (resubscribing [0, 0, 1, 1]).1, UnregistersOwn .channel e := by
    decide +kernel
  have hlen : 4 < (subscribed.1 ++ (resubscribing [0, 0, 1, 1]).1).length := by decide +kernel
  refine last_subscribed (resubscribing_run [0, 0, 1, 1]) hown (List.take 4 _) _ (List.drop 5 _) ⟨2⟩ 1
    (by rw [List.getElem_cons_drop hlen, List.take_append_drop]) rfl rfl ?_ ?_ rfl ?_
  all_goals decide +kernel

theorem newer_stream_lost : ¬ ∀ (uuid : UuidLib) (host : Host),
    Host.Reached uuid (.initial 200 0 0) host →
    ∀ (ι : Type) [DecidableEq ι] (kind : StreamKind) (requests : StreamId → StreamRequest)
      (others : ι → Task (Reply Unit)) (tr : List (Event Server (StreamId ⊕ ι) Call Call.Res (Reply Unit)))
      (final : Config Server (StreamId ⊕ ι) Call Call.Res (Reply Unit)),
      Run ports Env (streaming uuid requests others host.server) tr final →
      LastSubscribed kind tr final := by
  intro hall
  have hlast := hall _ _ oneJoined_reached _ .channel _ _ _ _ (resubscribing_run [1, 1, 0, 0])
  have hlen : 2 < (subscribed.1 ++ (resubscribing [1, 1, 0, 0]).1).length := by decide +kernel
  have hsub : Subscribed .channel ⟨2⟩ 1 (resubscribing [1, 1, 0, 0]).2.state := by
    refine hlast (List.take 2 _) _ (List.drop 3 _) ⟨2⟩ 1
      (by rw [List.getElem_cons_drop hlen, List.take_append_drop]) rfl rfl ?_ ?_ rfl ?_
    all_goals decide +kernel
  exact absurd hsub.registered (by decide +kernel)

end Bcmd
