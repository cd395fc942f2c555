import Bcmd.CatchUp

/-!
# The last count a list stream carries

A request that changes a channel's members saves the channel first and publishes its count later, and
whatever other requests do meanwhile, it does publish. So every stored count is followed by a write of some
count. Which count is written last is a matter of the order of the writes alone.
-/

namespace Bcmd
open Server

/-- Every count that the event carries, with its channel. -/
def ChannelListEvent.counts : ChannelListEvent → List (ChannelId × Int32)
  | .snapshot channels => channels.map fun c => (c.id, c.memberCount)
  | .created c => [(c.id, c.memberCount)]
  | .memberCountChanged k count => [(k, count)]

def ChannelListEvent.countOf (k : ChannelId) (event : ChannelListEvent) : Option Int32 :=
  event.counts.lookup k

/-- The count that was written last. -/
def lastCount (k : ChannelId) (events : List ChannelListEvent) : Option Int32 :=
  events.foldl (fun last event => (event.countOf k).or last) none

theorem lastCount_append (k : ChannelId) (events : List ChannelListEvent) (event : ChannelListEvent) :
    lastCount k (events ++ [event]) = (event.countOf k).or (lastCount k events) := by
  unfold lastCount
  rw [List.foldl_append]
  rfl

/-- The stored count of the channel, as events carry it. -/
def Server.storedCount (s : Server) (k : ChannelId) : Option Int32 :=
  (s.channel k).map fun ch => toInt32 ch.memberCount

/-- The stream carried the stored count last, if there is one. -/
def CountRight (s : Server) (events : List ChannelListEvent) (k : ChannelId) : Prop :=
  ∀ n, s.storedCount k = some n → lastCount k events = some n

def ChannelListEvent.Counts (event : ChannelListEvent) (k : ChannelId) : Prop := event.countOf k ≠ none

/-- No channel and no session is lost. -/
structure Held (s s' : Server) : Prop where
  channel : ∀ {k}, s.channel k ≠ none → s'.channel k ≠ none
  session : ∀ {c}, s.session c ≠ none → s'.session c ≠ none

namespace Held
variable {s s₁ s' : Server}

theorem refl (s : Server) : Held s s := ⟨id, id⟩

theorem trans (h : Held s s₁) (h' : Held s₁ s') : Held s s' :=
  ⟨fun hk => h'.channel (h.channel hk), fun hc => h'.session (h.session hc)⟩

theorem env (h : Env s s') : Held s s' where
  channel hk := by rwa [Server.channel, h.channels]
  session hc := by rwa [Server.session, h.clients]

theorem handle {o : Call} (ho : Plain o) (s : Server) : Held s (handle o s).2 where
  channel {k} hk := by
    by_cases hs : ∃ ch, o = .channels (.save ch)
    · obtain ⟨ch, rfl⟩ := hs
      rw [channel_save]
      split
      · nofun
      · exact hk
    · by_cases hc : ∃ name, o = .channels (.create name)
      · obtain ⟨name, rfl⟩ := hc
        rcases channel_create s name k with h | ⟨-, h⟩
        · rwa [h]
        · rw [h]
          nofun
      · rwa [channel_handle o (fun ch h => hs ⟨ch, h⟩) (fun name h => hc ⟨name, h⟩)]
  session {c} hc := fun hnone => hc ((session_eq_none_iff ho s c).1 hnone)

end Held

section
variable {s s' : Server} {k : ChannelId} {events : List ChannelListEvent}

theorem storedCount_eq_none : s.storedCount k = none ↔ s.channel k = none := Option.map_eq_none_iff

theorem countRight_congr (h : s'.channel k = s.channel k) (hr : CountRight s events k) :
    CountRight s' events k := by
  unfold CountRight storedCount
  rw [h]
  exact hr

theorem counts_self {event : ChannelListEvent} {n : Int32} (h : event.counts = [(k, n)] := by rfl) :
    event.Counts k := by
  unfold ChannelListEvent.Counts ChannelListEvent.countOf
  rw [h, List.lookup_cons_self]
  nofun

/-- A listing has every stored channel. -/
theorem counts_snapshot (hk : s.channel k ≠ none) (order : IterOrder ChannelId) :
    ChannelListEvent.Counts (.snapshot ((s.channels.listAll order).map populateChannelSummary)) k := by
  obtain ⟨ch, hch⟩ := Option.ne_none_iff_exists'.1 hk
  have hid : ch.id = k := id_of_channel hch
  have hmem : ch ∈ s.channels.listAll order := Keyed.mem_values.2 (by rw [hid]; exact hch)
  intro hnone
  have hother := List.lookup_eq_none_iff.1 hnone (k, toInt32 ch.memberCount) ?_
  · simp at hother
  · simp only [ChannelListEvent.counts, List.map_map, List.mem_map]
    exact ⟨ch, hmem, Prod.ext hid rfl⟩

theorem count_matter : Matter CountRight ChannelListEvent.Counts Held where
  refl := Held.refl
  trans := Held.trans
  env := Held.env
  channels h := countRight_congr (by rw [Server.channel, h]; rfl)
  grow {s events event k} hno hr n hn := by
    have hnone : event.countOf k = none := not_not.1 hno
    rw [lastCount_append, hnone]
    exact hr n hn
  snapshot {s s' events k} hbad hkeep order := by
    refine counts_snapshot (hkeep.channel fun hnone => hbad fun n hn => ?_) order
    rw [storedCount_eq_none.2 hnone] at hn
    cases hn
  created {s events k name} _ hgood hbad := by
    rcases create_name s name with ⟨k', -, -, hs⟩ | ⟨-, hr, hch, -⟩
    · rw [hs] at hbad
      exact absurd hgood hbad
    · refine ⟨_, hr, ?_⟩
      by_cases hk : k = ⟨s.nextUuid⟩ ∧ s.channel k = none
      · rw [hk.1]
        exact counts_self
      · exact absurd (countRight_congr ((hch k).trans (if_neg hk)) hgood) hbad

end

/-! ### Whoever saves publishes -/

section
variable {α β : Type} {entry : EntryId} {x : ListSectioned} {o : ListSection} {k : ChannelId}
  {order : IterOrder ClientId}

abbrev HeldEntry (entry : EntryId) (x x' : ListSectioned) : Prop := KeepsEntry Held entry x x'

abbrev OwesCount (entry : EntryId) (k : ChannelId) (p : ListTask α) (x : ListSectioned) : Prop :=
  OwesEntry ChannelListEvent.Counts Held entry k p x

abbrev AnswersCounts (entry : EntryId) (p : ListTask α) (x : ListSectioned) : Prop :=
  AnswersEntry CountRight ChannelListEvent.Counts Held entry p x

theorem heldEntry_refl (x : ListSectioned) : HeldEntry entry x x := .refl count_matter x

theorem heldEntry_trans {x₁ x₂ x₃ : ListSectioned} (h : HeldEntry entry x₁ x₂) (h' : HeldEntry entry x₂ x₃) :
    HeldEntry entry x₁ x₃ := .trans count_matter h h'

/-- A save puts the entry behind in the saved channel only. -/
theorem putsBehind_save {ch : Channel}
    (h : PutsBehind CountRight ChannelListEvent.Counts entry x (.port (.channels (.save ch))) k) :
    k = ch.id := by
  by_contra hk
  refine not_putsBehind count_matter (o := .port (.channels (.save ch))) nofun
    (fun _ => countRight_congr ?_) h
  exact (channel_save x.server ch k).trans (if_neg hk)

/-- A section that stores no channel and makes no entry. -/
def StoresNothing : ListSection → Prop
  | .port (.channels (.save _)) | .port (.channels (.create _)) | .insert _ _ => False
  | _ => True

theorem StoresNothing.not_putsBehind (ho : StoresNothing o) :
    ¬ PutsBehind CountRight ChannelListEvent.Counts entry x o k := by
  refine Bcmd.not_putsBehind count_matter (fun c w h => by rw [h] at ho; exact ho) fun _ =>
    countRight_congr ?_
  cases o with
  | port o =>
    refine channel_handle o (fun ch h => ?_) (fun name h => ?_) x.server k
    · rw [h] at ho
      exact ho
    · rw [h] at ho
      exact ho
  | _ => rfl

/-- A section that loses no entry, no channel and no session. -/
def Retains : ListSection → Prop
  | .port o => Plain o
  | .collect _ | .write _ _ => True
  | _ => False

theorem Retains.held (ho : Retains o) (x : ListSectioned) :
    HeldEntry entry x (listSections.handle o x).2 := by
  cases o with
  | port o => exact ⟨id, .handle ho x.server⟩
  | collect order => exact heldEntry_refl x
  | write entry' event =>
    refine ⟨fun hl => ?_, .refl _⟩
    simpa only [listSections, ListSectioned.handle, ListTable.Listed, ListTable.writers_write] using hl
  | _ => exact ho.elim

theorem retains_expand {p : Task α} (hp : p.Calls Requesting) :
    (ListSections.expand order p).Calls Retains := by
  refine calls_expand (fun o ho => Requesting.plain ho) (fun _ => trivial) (fun _ _ _ _ _ => trivial) hp
    (hp.mono fun o ho => ?_)
  exact Requesting.opensNoList ho

/-- A port call that stores nothing, and then the rest. -/
theorem answers_call {o : Call} {f : o.Res → ListTask α} (ho : StoresNothing (.port o))
    (hf : ∀ x', HeldEntry entry x x' → AnswersCounts entry (f (Server.handle o x'.server).1)
      { x' with server := (Server.handle o x'.server).2 }) : AnswersCounts entry (.call (.port o) f) x :=
  fun x' h _ => ⟨fun _ hd => absurd hd ho.not_putsBehind, hf x' h⟩

/-- The same for a program of calls, whatever the call returns. -/
theorem answers_port {o : Call} {f : o.Res → Task α} (ho : StoresNothing (.port o)) (hplain : Plain o)
    (hport : ∀ c, o ≠ .channelList c)
    (hf : ∀ r x', HeldEntry entry x x' → AnswersCounts entry (ListSections.expand order (f r)) x') :
    AnswersCounts entry (ListSections.expand order (.call o f)) x := by
  rw [ListSections.expand_call, ListSections.implement_port order hport]
  have hstep : ∀ x', HeldEntry entry x' (listSections.handle (.port o) x').2 :=
    Retains.held (o := .port o) hplain
  exact answers_call ho fun x' h => hf _ _ (heldEntry_trans h (hstep x'))

theorem answers_findSession {c : ClientId} {f : Result ClientSession → Task α}
    (hnone : ∀ e x', AnswersCounts entry (ListSections.expand order (f (.error e))) x')
    (hsome : ∀ cs x', x'.server.session c ≠ none →
      AnswersCounts entry (ListSections.expand order (f (.ok cs))) x') :
    AnswersCounts entry (ListSections.expand order (.call (.clients (.findById c)) f)) x := by
  refine answers_call trivial fun x' _ => ?_
  show AnswersCounts entry (ListSections.expand order (f (x'.server.clients.findById c))) _
  rcases hr : x'.server.clients.findById c with e | cs
  · exact hnone e _
  · refine hsome cs _ ?_
    show x'.server.session c ≠ none
    rw [show x'.server.session c = some cs from InMemoryClientRegistry.findById_ok.1 hr]
    nofun

theorem answers_quiet {p : ListTask α} (hp : p.Calls StoresNothing) : AnswersCounts entry p x :=
  Answers.of_calls (fun _ _ _ ho => StoresNothing.not_putsBehind ho) hp

theorem answers_bind {p : Task α} {f : α → Task β} (hp : p.Calls Requesting)
    (h : AnswersCounts entry (ListSections.expand order p) x)
    (hf : ∀ a x', HeldEntry entry x x' → AnswersCounts entry (ListSections.expand order (f a)) x') :
    AnswersCounts entry (ListSections.expand order (p >>= f)) x := by
  rw [ListSections.expand_bind]
  exact Answers.bind heldEntry_refl heldEntry_trans (fun x' o ho => Retains.held ho x') h
    (retains_expand hp) hf

/-- The removal has saved its channel; what follows it has to publish the count. -/
theorem answers_removeMember {f : VoidResult → Task α} (cs : ClientSession) (k : ChannelId)
    (howes : ∀ x', HeldEntry entry x x' → x'.table.Listed entry → x'.server.channel k ≠ none →
      OwesCount entry k (ListSections.expand order (f (.ok ()))) x')
    (hf : ∀ r x', HeldEntry entry x x' → AnswersCounts entry (ListSections.expand order (f r)) x') :
    AnswersCounts entry (ListSections.expand order (removeMemberAndBroadcast cs k >>= f)) x := by
  simp only [removeMemberAndBroadcast, Prog.perform_bind, Prog.pure_eq, Prog.call_bind]
  refine answers_call trivial fun x₁ h₁ => ?_
  have h₁' : HeldEntry entry x { x₁ with server := (Server.handle
    (.channels (.findById k)) x₁.server).2 } := h₁
  show AnswersCounts entry (ListSections.expand order _) _
  rcases hr : x₁.server.channels.findById k with e | ch
  · rw [show (Server.handle (.channels (.findById k)) x₁.server).1 = .error e from hr]
    exact hf _ _ h₁'
  rw [show (Server.handle (.channels (.findById k)) x₁.server).1 = .ok ch from hr]
  have hid : ch.id = k := InMemoryChannelRepository.id_of_findById hr
  rcases hm : ch.removeMember cs.id with e | ch'
  · simp only [hm]
    exact hf _ _ h₁'
  simp only [hm]
  obtain ⟨-, rfl⟩ := Channel.removeMember_ok.1 hm
  set left : Channel := { ch with members := ch.members.erase cs.id }
  have hleft : left.id = k := hid
  refine fun x₂ h₂ _ => ?_
  have hsaved : ∀ x, HeldEntry entry x (listSections.handle (.port (.channels (.save left))) x).2 :=
    Retains.held trivial
  have htold : ∀ x₃, HeldEntry entry x₃ (listSections.handle
      (.port (.publisher (.broadcastMemberLeft k left.members cs.id cs.username)))
        x₃).2 := Retains.held trivial
  have h₂' := heldEntry_trans h₁' (heldEntry_trans h₂ (hsaved x₂))
  refine ⟨fun d hd => ?_, answers_call trivial fun x₃ h₃ => hf _ _
    (heldEntry_trans h₂' (heldEntry_trans h₃ (htold x₃)))⟩
  obtain rfl : d = k := (putsBehind_save hd).trans hleft
  have hstored : (listSections.handle (.port (.channels (.save left))) x₂).2.server.channel d ≠ none := by
    show (Server.handle (.channels (.save left)) x₂.server).2.channel d ≠ none
    rw [channel_save, if_pos hleft.symm]
    simp
  refine .inr fun x₃ h₃ _ => howes _ (heldEntry_trans h₂' (heldEntry_trans h₃ (htold x₃))) ?_ ?_
  · exact (htold x₃).listed (h₃.listed hd.after.1)
  · exact (htold x₃).server.channel (h₃.server.channel hstored)

theorem owes_publishCount (n : Int32) (f : Unit → Task α) (hl : x.table.Listed entry) :
    OwesCount entry k (ListSections.expand order
      (.call (.channelList (.publishMemberCountChanged k n)) f)) x := by
  exact Owes.bind (owes_publish order hl counts_self) _

/-- A channel that is stored is found again, and its count published. -/
theorem owes_reread {f : Result Channel → Task α} {g : Channel → Unit → Task α}
    (hf : ∀ ch, f (.ok ch) = .call (.channelList
      (.publishMemberCountChanged k (toInt32 ch.memberCount))) (g ch))
    (hl : x.table.Listed entry) (hk : x.server.channel k ≠ none) :
    OwesCount entry k (ListSections.expand order (.call (.channels (.findById k)) f)) x := by
  refine .inr fun x₁ h₁ _ => ?_
  obtain ⟨ch, hch⟩ := Option.ne_none_iff_exists'.1 (h₁.server.channel hk)
  show OwesCount entry k (ListSections.expand order (f (x₁.server.channels.findById k))) _
  rw [InMemoryChannelRepository.findById_ok.2 hch, hf ch]
  exact owes_publishCount _ _ (h₁.listed hl)

theorem stores_publish (k : ChannelId) (n : Int32) :
    (ListSections.publishMemberCountChanged order k n).Calls StoresNothing :=
  ⟨trivial, fun _ => calls_writeEach (fun _ => trivial) _⟩

namespace JoinChannel

theorem stores_publishCount (k : ChannelId) :
    (ListSections.expand order (publishCountIfStored k)).Calls StoresNothing := by
  refine ⟨trivial, fun r => ?_⟩
  rcases r with e | ch
  · trivial
  · exact (stores_publish k _).bind fun _ => trivial

theorem answers_leaveEach (cs : ClientSession) (ks : List ChannelId) :
    AnswersCounts entry (ListSections.expand order (leaveEach cs ks)) x := by
  induction ks generalizing x with
  | nil => trivial
  | cons k ks ih =>
    simp only [leaveEach]
    refine answers_removeMember cs k (fun x₁ _ hl hk => ?_) fun r x₁ _ => ?_
    · simp only [tolerate_ok, Prog.perform_bind]
      refine .inr fun x₂ h₂ _ => ?_
      have h₃ := h₂.trans count_matter (Retains.held
        (o := .port (.clients (.leaveChannelAtomic cs.id k))) trivial x₂)
      dsimp only [Prog.bind]
      rw [show tolerate [.clientNotFound] (listSections.handle
        (.port (.clients (.leaveChannelAtomic cs.id k))) x₂).1 = .ok ()
        from tolerate_leaveChannelAtomic ..]
      exact owes_reread (fun _ => rfl) (h₃.listed hl) (h₃.server.channel hk)
    · rcases tolerate [.notAMember, .channelNotFound] r with e | _
      · trivial
      simp only [Prog.perform_bind]
      refine answers_port trivial trivial (by simp) fun r x₂ _ => ?_
      rcases tolerate [.clientNotFound] r with e | _
      · trivial
      exact answers_bind ((working_publishCountIfStored k).mono fun _ => Working.requesting)
        (answers_quiet (stores_publishCount k)) fun _ x₃ _ => ih

theorem answers_joinFound (bucketOrder : BucketOrder) (c : ClientId) (cs : ClientSession)
    (k : ChannelId) (ch : Channel) (hc : x.server.session c ≠ none) :
    AnswersCounts entry (ListSections.expand order (joinFound bucketOrder c cs k ch)) x := by
  simp only [joinFound, leaveOtherChannels]
  refine answers_bind ((working_leaveEach cs _).mono fun _ => Working.requesting)
    (answers_leaveEach cs _) fun r x₁ h₁ => ?_
  rcases r with e | _
  · trivial
  have hc₁ : x₁.server.session c ≠ none := h₁.server.session hc
  dsimp only
  by_cases hmem : ch.hasMember c = true
  · simp only [if_pos hmem, Prog.pure_eq, Prog.ret_bind, Prog.perform_bind]
    refine answers_quiet ⟨trivial, fun r => ?_⟩
    rcases r with e | _ <;> trivial
  · simp only [if_neg hmem, addAndSave]
    rcases hadd : ch.addMember c with e | ch'
    · trivial
    simp only [Prog.perform_bind, Prog.pure_eq, Prog.call_bind]
    refine fun x₂ h₂ _ => ?_
    have hsaved : ∀ x, HeldEntry entry x (listSections.handle (.port (.channels (.save ch'))) x).2 :=
      Retains.held trivial
    show (∀ d, _ → OwesCount entry d (ListSections.expand order _) _) ∧ AnswersCounts entry
      (ListSections.expand order _) _
    refine ⟨fun d hd => ?_, answers_quiet ⟨trivial, fun r => ?_⟩⟩
    · -- the session is still there, so the join goes on to publish
      obtain rfl := putsBehind_save hd
      refine .inr fun x₃ h₃ _ => ?_
      have hc₃ : x₃.server.session c ≠ none :=
        h₃.server.session ((hsaved x₂).server.session (h₂.server.session hc₁))
      have hjoined : ∀ x, HeldEntry entry x (listSections.handle
          (.port (.clients (.joinChannelAtomic c k))) x).2 :=
        Retains.held trivial
      rw [show (listSections.handle (.port (.clients (.joinChannelAtomic c k))) x₃).1 = .ok () from
        (fst_joinChannelAtomic ..).trans (if_neg hc₃)]
      exact .inr fun x₄ h₄ _ => owes_publishCount _ _ (h₄.listed ((hjoined x₃).listed (h₃.listed hd.after.1)))
    · rcases r with e | _
      · trivial
      exact ⟨trivial, fun _ => (stores_publish ch'.id _).bind fun _ => trivial⟩

theorem answers_execute (bucketOrder : BucketOrder) (c : ClientId) (k : ChannelId) :
    AnswersCounts entry (ListSections.expand order (execute bucketOrder c k)) x := by
  simp only [execute, Prog.perform_bind, Prog.pure_eq]
  refine answers_findSession (fun e x₁ => trivial) fun cs x₁ hc => ?_
  refine answers_port trivial trivial (by simp) fun r x₂ h₂ => ?_
  rcases r with e | ch
  · trivial
  · exact answers_joinFound bucketOrder c cs k ch (h₂.server.session hc)

theorem answers_executeByName (bucketOrder : BucketOrder) (c : ClientId) (name : Bytes) :
    AnswersCounts entry (ListSections.expand order (executeByName bucketOrder c name)) x := by
  simp only [executeByName, Prog.perform_bind, Prog.pure_eq]
  refine answers_findSession (fun e x₁ => trivial) fun cs x₁ hc => ?_
  rcases ChannelName.create (trim name) with _ | validatedName
  · trivial
  refine answers_port trivial trivial (by simp) fun r x₂ h₂ => ?_
  rcases r with e | ch
  · trivial
  refine answers_bind ((working_joinFound bucketOrder c cs ch.id ch).mono fun _ => Working.requesting)
    (answers_joinFound bucketOrder c cs ch.id ch (h₂.server.session hc)) fun r x₃ _ => ?_
  rcases r with e | _ <;> trivial

end JoinChannel

theorem answers_leaveChannel (c : ClientId) (k : ChannelId) :
    AnswersCounts entry (ListSections.expand order (LeaveChannel.execute c k)) x := by
  simp only [LeaveChannel.execute, Prog.perform_bind, Prog.pure_eq]
  refine answers_findSession (fun e x₁ => trivial) fun cs x₁ _ => ?_
  refine answers_removeMember cs k (fun x₂ _ hl hk => ?_) fun r x₂ _ => ?_
  · refine .inr fun x₃ h₃ _ => ?_
    have h₄ := h₃.trans count_matter (Retains.held
      (o := .port (.clients (.leaveChannelAtomic c k))) trivial x₃)
    dsimp only [Prog.bind]
    rw [show tolerate [.clientNotFound] (listSections.handle
      (.port (.clients (.leaveChannelAtomic c k))) x₃).1 = .ok () from
      tolerate_leaveChannelAtomic ..]
    exact owes_reread (fun _ => rfl) (h₄.listed hl) (h₄.server.channel hk)
  · rcases r with e | _
    · trivial
    refine answers_port trivial trivial (by simp) fun r x₃ _ => ?_
    rcases tolerate [.clientNotFound] r with e | _
    · trivial
    refine answers_quiet ⟨trivial, fun r => ?_⟩
    rcases r with e | ch
    · trivial
    · exact (stores_publish k _).bind fun _ => trivial

theorem answers_countRequest (uuid : UuidLib) (bucketOrder : BucketOrder) (r : ListRequest) :
    AnswersCounts entry (ListSections.expand order (r.run uuid bucketOrder)) x := by
  cases r with
  | createChannel clientId channelName => exact answers_createChannel count_matter ..
  | joinChannel clientId channelId =>
    simp only [ListRequest.run, BroadcastService.JoinChannel]
    rcases BroadcastService.parseClient uuid clientId with _ | c
    · trivial
    rcases BroadcastService.parseChannel uuid channelId with _ | k
    · refine answers_bind (JoinChannel.requesting_executeByName bucketOrder c _)
        (JoinChannel.answers_executeByName bucketOrder c _) fun r _ _ => ?_
      rcases r with e | _ <;> trivial
    · exact answers_bind (JoinChannel.requesting_execute bucketOrder c k)
        (JoinChannel.answers_execute bucketOrder c k) fun _ _ _ => trivial
  | leaveChannel clientId channelId =>
    simp only [ListRequest.run, BroadcastService.LeaveChannel]
    rcases BroadcastService.parseClient uuid clientId with _ | c
    · trivial
    rcases BroadcastService.parseChannel uuid channelId with _ | k
    · trivial
    · exact answers_bind (requesting_leaveChannel c k) (answers_leaveChannel c k) fun _ _ _ => trivial

end

/-! ### Runs -/

section
variable {ι : Type}

/-- A section that ends no session. -/
def PlainSection : ListSection → Prop
  | .port o => Plain o
  | _ => True

theorem plain_threads (p : ListPublishing ι) (s : Server) (i : StreamId ⊕ ι) :
    ((p.start s).threads i).Calls PlainSection := by
  rcases i with w | i
  · show (ListSections.expand _ (BroadcastService.SubscribeToChannelList _ _ (p.clientIds w) w)).Calls
      PlainSection
    unfold BroadcastService.SubscribeToChannelList
    rcases BroadcastService.parseClient p.uuid (p.clientIds w) with _ | c
    · trivial
    simp only [expand_subscribe]
    refine ⟨trivial, fun r => ?_⟩
    rcases r with e | cs
    · trivial
    refine ⟨trivial, fun _ => ⟨trivial, fun _ =>
      ⟨trivial, fun _ => ⟨trivial, fun _ => .bind ⟨trivial, fun r => ?_⟩ fun _ => trivial⟩⟩⟩⟩
    rcases r with _ | entry
    · trivial
    · exact ⟨trivial, fun _ => trivial⟩
  · refine calls_expand (fun _ ho => ho) (fun _ => trivial) (fun _ _ _ _ _ => trivial) ?_
      ((p.requests i).opensNoList ..)
    exact ListRequest.calls_run (fun _ => Requesting.plain) (fun _ => trivial) (fun _ => trivial) ..

variable [DecidableEq ι] {p : ListPublishing ι} {s : Server} {tr : ListEvents ι} {m : ListConfig ι}

theorem held_at {e : Event ListSectioned (StreamId ⊕ ι) ListSection ListSection.Res (Reply Unit)}
    (h : ListRun p s tr m)
    (he : e ∈ tr) : Held e.pre.state.server (listSections.handle e.call e.pre.state).2.server := by
  have hplain := (h.calls (plain_threads p s e.thread)).2 e he rfl
  rcases e with ⟨m₀, i, o⟩
  cases o with
  | port o => exact .handle hplain m₀.state.server
  | _ => exact .refl _

/-- When a count is written to the entry that is not the stored one any more, another thread has still
to write one. -/
def StaleFollowed (entry : EntryId)
    (e : Event ListSectioned (StreamId ⊕ ι) ListSection ListSection.Res (Reply Unit)) : Prop :=
  ∀ event k n, e.call.brings = some (entry, event) → event.countOf k = some n →
    e.pre.state.server.storedCount k ≠ some n →
    ∃ j ≠ e.thread, OwesCount entry k (e.pre.threads j) e.pre.state

theorem counts_converge {uuid : UuidLib} {historyCap : UInt32} {systemNow steadyNow : Int} {host : Host}
    (hreach : Host.Reached uuid (.initial historyCap systemNow steadyNow) host)
    (h : ListRun p host.server tr m)
    {entry : EntryId} (hstale : ∀ e ∈ tr, StaleFollowed entry e) (hret : AllReturned m) {c : ClientId}
    {w : StreamId}
    (hc : m.state.table.writers.lookup c = some entry) (hw : m.state.table.writer entry = some w) :
    ∀ k ch, m.state.server.channel k = some ch →
      lastCount k (m.state.table.written w) = some (toInt32 ch.memberCount) := by
  intro k ch hch
  have hright : CountRight m.state.server (m.state.table.written w) k := by
    refine caught_up count_matter (indexed_reached hreach) h (fun e he => held_at h he)
      (fun i => answers_countRequest ..) ?_ hret ⟨c, hc⟩ hw k
    rintro e he k' ⟨event, hb, hcounts⟩ ⟨-, v, hv, hbad⟩
    obtain ⟨n, hn⟩ := Option.ne_none_iff_exists'.1 hcounts
    refine hstale e he event k' n hb hn fun hstored => hbad ?_
    rw [written_handle_brings hb, if_pos (writer_of_brings hb hv)]
    intro n' hn'
    rw [lastCount_append, hn]
    have hserver : (listSections.handle e.call e.pre.state).2.server = e.pre.state.server :=
      server_of_brings hb
    rw [hserver, hstored] at hn'
    rw [Option.some.inj hn']
    rfl
  exact hright _ (by rw [Server.storedCount, hch]; rfl)

end

/-! The stream beside the joins of clients `2` and `3`. -/

def joiningBoth : Bool → ListRequest
  | false => .joinChannel (ascii "00000000-0000-0000-0000-000000000002")
    (ascii "00000000-0000-0000-0000-000000000001")
  | true => .joinChannel (ascii "00000000-0000-0000-0000-000000000003")
    (ascii "00000000-0000-0000-0000-000000000001")

def watchedJoins (is : List (StreamId ⊕ Bool)) :=
  schedule listSections ((oneStream joiningBoth).start twoConnected.server) is

theorem watchedJoins_run (is : List (StreamId ⊕ Bool)) :
    ListRun (oneStream joiningBoth) twoConnected.server (watchedJoins is).1 (watchedJoins is).2 :=
      run_schedule ..

/-- Each join publishes its count before the next one saves. -/
def inTurn : List (StreamId ⊕ Bool) :=
  List.replicate 4 (.inl 0) ++ List.replicate 7 (.inr false) ++ List.replicate 7 (.inr true)

/-- The first join publishes its count after the second one has published its own. -/
def overtaken : List (StreamId ⊕ Bool) :=
  List.replicate 4 (.inl 0) ++ List.replicate 5 (.inr false) ++ List.replicate 7 (.inr true) ++
    List.replicate 2 (.inr false)

theorem watchedJoins_returned {is : List (StreamId ⊕ Bool)}
    (h : ∀ i, ((watchedJoins is).2.threads (.inr i)).result ≠ none)
    (hw : awaited ((watchedJoins is).2.threads (.inl 0)) = some 0) : AllReturned (watchedJoins is).2 :=
  oneStream_returned (watchedJoins_run is) h hw

theorem counts_converge_inTurn : lastCount ⟨1⟩ ((watchedJoins inTurn).2.state.table.written 0) = some 2 := by
  have hret : AllReturned (watchedJoins inTurn).2 :=
    watchedJoins_returned (by decide +kernel) (by decide +kernel)
  have hright : ∀ e ∈ (watchedJoins inTurn).1, ∀ b ∈ e.call.brings, ∀ d ∈ b.2.counts,
      e.pre.state.server.storedCount d.1 = some d.2 := by decide +kernel
  have hlisted : (watchedJoins inTurn).2.state.table.writers.lookup ⟨2⟩ = some 0 := by decide +kernel
  have hwriter : (watchedJoins inTurn).2.state.table.writer 0 = some 0 := by decide +kernel
  have hstored : (watchedJoins inTurn).2.state.server.storedCount ⟨1⟩ = some 2 := by decide +kernel
  obtain ⟨ch, hch, hcount⟩ := Option.map_eq_some_iff.1 hstored
  rw [← hcount]
  refine counts_converge twoConnected_reached (watchedJoins_run inTurn)
    (fun e he event k n hb hn hne => ?_) hret hlisted
    hwriter ⟨1⟩ ch hch
  obtain ⟨l₁, l₂, hcounts, -⟩ := List.lookup_eq_some_iff.1 hn
  exact absurd (hright e he _ hb (k, n) (by rw [hcounts]; simp)) hne

theorem count_stays_stale : ¬ ∀ (uuid : UuidLib) (host : Host),
    Host.Reached uuid (.initial 200 0 0) host →
    ∀ (ι : Type) [DecidableEq ι] (p : ListPublishing ι) (tr : ListEvents ι) (m : ListConfig ι),
      ListRun p host.server tr m → AllReturned m →
      ∀ c entry w, m.state.table.writers.lookup c = some entry → m.state.table.writer entry = some w →
        ∀ k ch, m.state.server.channel k = some ch →
          lastCount k (m.state.table.written w) = some (toInt32 ch.memberCount) := by
  intro hall
  have hret : AllReturned (watchedJoins overtaken).2 :=
    watchedJoins_returned (by decide +kernel) (by decide +kernel)
  have hlast := hall _ _ twoConnected_reached _ _ _ _ (watchedJoins_run overtaken) hret ⟨2⟩ 0 0
    (by decide +kernel) (by decide +kernel) ⟨1⟩
  have hstored : (watchedJoins overtaken).2.state.server.storedCount ⟨1⟩ = some 2 := by decide +kernel
  obtain ⟨ch, hch, hcount⟩ := Option.map_eq_some_iff.1 hstored
  have htwo := hlast ch hch
  rw [hcount] at htwo
  exact absurd htwo (by decide +kernel)

end Bcmd
