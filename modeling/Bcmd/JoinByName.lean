import Bcmd.Requests

/-!
# Joining a channel by its name

`JoinChannel` takes its field for an id whenever the uuid library can read it, and for a name otherwise. A
channel's name may be such a text: then the request goes to the channel of that id, or to none.
-/

namespace Bcmd
open Server

theorem trim_trim (input : Bytes) : trim (trim input) = trim input := MessageContent.trim_trim input

theorem ChannelName.create_value (name : ChannelName) : ChannelName.create name.value = some name := by
  unfold ChannelName.create
  rw [dif_pos name.valid]

section
variable {c : ClientId} {cs : ClientSession} {k k' : ChannelId} {ch : Channel} {s s' : Server}

/-- `c` is in `k`, and in those of its other channels that its session does not name. -/
def Entered (c : ClientId) (k : ChannelId) (s s' : Server) : Prop :=
  ∀ k', c ∈ s'.members k' ↔ k' = k ∨ c ∈ s.members k' ∧ k' ∉ s.joined c

theorem entered_joinFound (order : BucketOrder) (hcs : s.session c = some cs) (hch : s.channel k = some ch) :
    ∃ s', ports.exec (JoinChannel.joinFound order c cs k ch) s = (.ok (), s') ∧ Entered c k s s' := by
  obtain ⟨s₁, s', hexec, hleaves, hadds⟩ := JoinChannel.exec_joinFound order hcs hch
  have hk₁ : s₁.channel k ≠ none := by
    rw [hleaves.putOut k, if_neg (Finset.notMem_erase k _), hch]
    nofun
  refine ⟨s', hexec, fun k' => ?_⟩
  rw [hadds.members hk₁, hleaves.putOut.members, joined_of_session hcs]
  by_cases hk : k' = k
  · simp [hk]
  · by_cases hj : k' ∈ cs.joinedChannels <;> simp [hk, hj]

theorem entered_execute (order : BucketOrder) (hc : s.session c ≠ none) (hk : s.channel k ≠ none) :
    ∃ s', ports.exec (JoinChannel.execute order c k) s = (.ok (), s') ∧ Entered c k s s' := by
  obtain ⟨cs, hcs⟩ := Option.ne_none_iff_exists'.1 hc
  obtain ⟨ch, hch⟩ := Option.ne_none_iff_exists'.1 hk
  obtain ⟨s', hexec, hentered⟩ := entered_joinFound order hcs hch
  refine ⟨s', ?_, hentered⟩
  simp only [JoinChannel.execute, Prog.perform_bind, Prog.pure_eq, exec_findSession, exec_findChannel,
    hcs, hch, hexec]

theorem execute_notFound (order : BucketOrder) (c : ClientId) (hk : s.channel k = none) :
    ∃ e, ports.exec (JoinChannel.execute order c k) s = (.error e, s) := by
  simp only [JoinChannel.execute, Prog.perform_bind, Prog.pure_eq, exec_findSession, exec_findChannel, hk]
  rcases s.session c with _ | cs <;> exact ⟨_, rfl⟩

theorem entered_executeByName (order : BucketOrder) (hs : s.Indexed) (hc : s.session c ≠ none)
    (hch : s.channel k = some ch) {name : Bytes} (hname : trim name = ch.name.value) :
    ∃ s', ports.exec (JoinChannel.executeByName order c name) s = (.ok k, s') ∧ Entered c k s s' := by
  obtain ⟨cs, hcs⟩ := Option.ne_none_iff_exists'.1 hc
  have hfind : s.channels.findByName ch.name = .ok ch :=
    findByName_of_some (hs.idOf (nameOf_of_channel hch)) hch
  obtain ⟨s', hexec, hentered⟩ := entered_joinFound order hcs hch
  refine ⟨s', ?_, hentered⟩
  simp only [JoinChannel.executeByName, Prog.perform_bind, Prog.pure_eq, exec_findSession, hcs, hname,
    ChannelName.create_value]
  rw [Machine.exec_call, show ports.handle (.channels (.findByName ch.name)) s =
    (s.channels.findByName ch.name, s) from rfl, hfind]
  simp only [Machine.exec_bind, id_of_channel hch, hexec]
  rfl

/-- What the request should do: succeed, and leave the client in the one channel. -/
def ReachesOnly (uuid : UuidLib) (order : BucketOrder) (clientId field : Bytes) (c : ClientId) (k : ChannelId)
    (s : Server) : Prop :=
  (ports.exec (BroadcastService.JoinChannel uuid order clientId field) s).1 = .ok () ∧
    ∀ k', c ∈ (ports.exec (BroadcastService.JoinChannel uuid order clientId field) s).2.members k' ↔ k' = k

theorem entered_only_iff (h : Entered c k s s') :
    (∀ k', c ∈ s'.members k' ↔ k' = k) ↔ ∀ k' ≠ k, c ∈ s.members k' → k' ∈ s.joined c := by
  constructor
  · intro honly k' hne hm
    by_contra hj
    exact hne ((honly k').1 ((h k').2 (.inr ⟨hm, hj⟩)))
  · intro hnamed k'
    rw [h k']
    refine ⟨fun hin => ?_, .inl⟩
    rcases hin with hk | ⟨hm, hj⟩
    · exact hk
    · by_contra hne
      exact hj (hnamed k' hne hm)

/-- In a state whose names are in order. -/
theorem reachesOnly_iff {uuid : UuidLib} (order : BucketOrder) {clientId field : Bytes} (hs : s.Indexed)
    (hclient : BroadcastService.parseClient uuid clientId = some c) (hc : s.session c ≠ none)
    (hch : s.channel k = some ch) (hfield : trim field = ch.name.value) :
    ReachesOnly uuid order clientId field c k s ↔
      (BroadcastService.parseChannel uuid field = none ∨ BroadcastService.parseChannel uuid field = some k) ∧
        ∀ k' ≠ k, c ∈ s.members k' → k' ∈ s.joined c := by
  have hsame : ∀ {p : Task (Reply Unit)} {s'}, BroadcastService.JoinChannel uuid order clientId field = p →
      ports.exec p s = (.ok (), s') → Entered c k s s' →
      (ReachesOnly uuid order clientId field c k s ↔ ∀ k' ≠ k, c ∈ s.members k' → k' ∈ s.joined c) := by
    intro p s' hp hexec hentered
    unfold ReachesOnly
    rw [hp, hexec, ← entered_only_iff hentered]
    exact and_iff_right rfl
  rcases hparse : BroadcastService.parseChannel uuid field with _ | k₁
  · -- taken for a name
    have hname : trim (trim field) = ch.name.value := by rw [trim_trim, hfield]
    obtain ⟨s', hexec, hentered⟩ := entered_executeByName order hs hc hch hname
    rw [hsame rfl ?_ hentered]
    · simp
    · unfold BroadcastService.JoinChannel
      simp only [hclient, hparse, Machine.exec_bind, hexec]
      rfl
  have hid : BroadcastService.JoinChannel uuid order clientId field =
      JoinChannel.execute order c k₁ >>= fun r => pure (toReply r) := by
    unfold BroadcastService.JoinChannel
    simp only [hclient, hparse]
  by_cases hk : k₁ = k
  · -- taken for the id of the channel itself
    subst hk
    obtain ⟨s', hexec, hentered⟩ := entered_execute order hc (by rw [hch]; nofun)
    rw [hsame hid ?_ hentered]
    · simp
    · rw [Machine.exec_bind, hexec]
      rfl
  · -- taken for another id: nothing is joined, or another channel
    have hne : ¬ (some k₁ = none ∨ some k₁ = some k) := by simp [hk]
    refine iff_of_false ?_ fun h => hne h.1
    rintro ⟨hok, honly⟩
    rw [hid, Machine.exec_bind] at hok honly
    rcases hk₁ : s.channel k₁ with _ | ch₁
    · obtain ⟨e, hexec⟩ := execute_notFound order c hk₁
      rw [hexec] at hok
      cases hok
    · obtain ⟨s', hexec, hentered⟩ := entered_execute order hc (by rw [hk₁]; nofun)
      rw [hexec] at honly
      exact hk ((honly k₁).1 ((hentered k₁).2 (.inl rfl)))

end

/-- In every state that requests lead to, in any interleaving, a request for a channel by its name
reaches this channel alone exactly when the name reads as no other channel's id, and the client's
session names the channels it has to be taken out of. -/
theorem join_reaches_iff {ι : Type} [DecidableEq ι] {uuid : UuidLib} {historyCap : UInt32}
    {systemNow steadyNow : Int}
    {orders : ι → BucketOrder} {requests : ι → Request} {tr : List (Event Server ι Call Call.Res Response)}
    {m : Config Server ι Call Call.Res Response}
    (h : Run ports Env (serving uuid orders requests (.initial historyCap systemNow steadyNow)) tr m)
    (order : BucketOrder) {clientId field : Bytes} {c : ClientId} {k : ChannelId} {ch : Channel}
    (hclient : BroadcastService.parseClient uuid clientId = some c) (hc : m.state.session c ≠ none)
    (hch : m.state.channel k = some ch) (hfield : trim field = ch.name.value) :
    ReachesOnly uuid order clientId field c k m.state ↔
      (BroadcastService.parseChannel uuid field = none ∨ BroadcastService.parseChannel uuid field = some k) ∧
        ∀ k' ≠ k, c ∈ m.state.members k' → k' ∈ m.state.joined c := by
  have hs := indexed_initial historyCap systemNow steadyNow
  have hkeep := names_run h fun i => (given_request uuid (orders i) (requests i)).knows hs
    fun _ hd => absurd hd (Set.notMem_empty _)
  exact reachesOnly_iff order (hkeep.1.indexed hs) hclient hc hch hfield

/-! A client that connects and creates a channel, and then joins it by its name. -/

def namers (name : Bytes) : Bool → Request
  | false => .connect (ascii "ann")
  | true => .createChannel (ascii "00000000-0000-0000-0000-000000000002") name

def naming (name : Bytes) : List
    (Event Server Bool Call Call.Res Response) × Config Server Bool Call Call.Res Response :=
  schedule ports (serving .canonical (fun _ => .byId) (namers name) (.initial 200 0 0))
    [false, true, true, true]

theorem naming_run (name : Bytes) :
    Run ports Env (serving .canonical (fun _ => .byId) (namers name) (.initial 200 0 0)) (naming name).1
      (naming name).2 :=
  run_schedule ..

theorem join_reaches_iff_tea :
    ReachesOnly .canonical .byId (ascii "00000000-0000-0000-0000-000000000002") (ascii " tea ") ⟨2⟩ ⟨3⟩
      (naming (ascii "tea")).2.state := by
  have hname : ((naming (ascii "tea")).2.state.nameOf ⟨3⟩).map ChannelName.value = some (ascii "tea") := by
    decide +kernel
  obtain ⟨name, hk, hvalue⟩ := Option.map_eq_some_iff.1 hname
  obtain ⟨ch, hch, rfl⟩ := channel_of_nameOf hk
  have hsession : (naming (ascii "tea")).2.state.session ⟨2⟩ ≠ none := by decide +kernel
  refine (join_reaches_iff (naming_run _) .byId (by decide +kernel) hsession hch
    (by rw [hvalue]; decide +kernel)).2
    ⟨.inl (by decide +kernel), fun k' _ hm => absurd (mem_channelsOf.2 hm) ?_⟩
  have hnone : (naming (ascii "tea")).2.state.channelsOf ⟨2⟩ = ∅ := by decide +kernel
  rw [hnone]
  exact Finset.notMem_empty k'

/-- The name is a text that the library reads as an id, of no channel. -/
theorem name_taken_for_id : ¬ ∀ (ι : Type) (_ : DecidableEq ι) (orders : ι → BucketOrder)
    (requests : ι → Request)
    (tr : List (Event Server ι Call Call.Res Response)) (m : Config Server ι Call Call.Res Response),
    Run ports Env (serving .canonical orders requests (.initial 200 0 0)) tr m →
    ∀ (order : BucketOrder) (clientId field : Bytes) (c : ClientId) (k : ChannelId) (ch : Channel),
      BroadcastService.parseClient .canonical clientId = some c → m.state.session c ≠ none →
      m.state.channel k = some ch → trim field = ch.name.value →
        ReachesOnly .canonical order clientId field c k m.state := by
  intro hall
  have hname :
      ((naming (ascii "00000000-0000-0000-0000-0000000000ff")).2.state.nameOf ⟨3⟩).map ChannelName.value =
        some (ascii "00000000-0000-0000-0000-0000000000ff") := by decide +kernel
  obtain ⟨name, hk, hvalue⟩ := Option.map_eq_some_iff.1 hname
  obtain ⟨ch, hch, rfl⟩ := channel_of_nameOf hk
  have hclient : BroadcastService.parseClient .canonical
      (ascii "00000000-0000-0000-0000-000000000002") = some ⟨2⟩ := by
    decide +kernel
  have hsession : (naming (ascii "00000000-0000-0000-0000-0000000000ff")).2.state.session ⟨2⟩ ≠ none := by
    decide +kernel
  have hfield : trim (ascii "00000000-0000-0000-0000-0000000000ff") = ch.name.value := by
    rw [hvalue]; decide +kernel
  have hparse : BroadcastService.parseChannel .canonical
      (ascii "00000000-0000-0000-0000-0000000000ff") = some ⟨255⟩ := by
    decide +kernel
  obtain ⟨hok, -⟩ := hall Bool inferInstance _ _ _ _ (naming_run _) .byId _ _ ⟨2⟩
    ⟨3⟩ ch hclient hsession hch hfield
  unfold BroadcastService.JoinChannel at hok
  simp only [hclient, hparse, Machine.exec_bind] at hok
  have hnone : (naming (ascii "00000000-0000-0000-0000-0000000000ff")).2.state.channel ⟨255⟩ = none := by
    decide +kernel
  obtain ⟨e, hexec⟩ := execute_notFound .byId ⟨2⟩ hnone
  rw [hexec] at hok
  cases hok

end Bcmd
