import Bcmd.Publisher

/-!
# `client-web/`: the channel list

`stores/channels-store.ts`, and from `hooks/use-channels.ts` what feeds the store with the events of a
`SubscribeToChannelList` stream. An id stands for its text form, by which the store's map is keyed.
-/

namespace Bcmd.Web

structure Channel where
  id : ChannelId
  name : Bytes
  memberCount : Int
deriving DecidableEq

structure ChannelsState where
  channels : Finmap fun _ : ChannelId => Channel
  activeChannelId : Option ChannelId
  snapshotApplied : Bool

def initialState : ChannelsState := ⟨∅, none, false⟩

def applySnapshot (channels : List Channel) (state : ChannelsState) : ChannelsState :=
  { state with
    channels := channels.foldl (fun map ch => map.insert ch.id ch) ∅
    snapshotApplied := true }

def applyCreated (channel : Channel) (state : ChannelsState) : ChannelsState :=
  { state with channels := state.channels.insert channel.id channel }

def applyMemberCountChanged (channelId : ChannelId) (memberCount : Int) (state : ChannelsState) :
    ChannelsState :=
  match state.channels.lookup channelId with
  | none => state
  | some existing =>
    { state with channels := state.channels.insert channelId { existing with memberCount := memberCount } }

/-- A `ChannelSummary` as the hook hands it to the store. -/
def toChannel (summary : ChannelSummary) : Channel := ⟨summary.id, summary.name, summary.memberCount.toInt⟩

def processChannelListEvent : ChannelListEvent → ChannelsState → ChannelsState
  | .snapshot channels => applySnapshot (channels.map toChannel)
  | .created channel => applyCreated (toChannel channel)
  | .memberCountChanged channelId memberCount => applyMemberCountChanged channelId memberCount.toInt

/-- The store after the events of a stream. -/
def fold (events : List ChannelListEvent) : ChannelsState :=
  events.foldl (fun state event => processChannelListEvent event state) initialState

theorem fold_snoc (events : List ChannelListEvent) (event : ChannelListEvent) :
    fold (events ++ [event]) = processChannelListEvent event (fold events) := by
  simp [fold]

/-! ### The map after an event -/

section
variable {state : ChannelsState} {k : ChannelId}

theorem lookup_applyCreated (channel : Channel) : (applyCreated channel state).channels.lookup k =
    if k = channel.id then some channel else state.channels.lookup k := by
  unfold applyCreated
  split
  · subst ‹k = _›
    exact Finmap.lookup_insert _
  · exact Finmap.lookup_insert_of_ne _ ‹k ≠ _›

theorem lookup_applyMemberCountChanged (k' : ChannelId) (n : Int) :
    (applyMemberCountChanged k' n state).channels.lookup k =
      if k = k' then (state.channels.lookup k).map
        ({ · with memberCount := n }) else state.channels.lookup k := by
  unfold applyMemberCountChanged
  split
  · rename_i h
    split
    · subst ‹k = k'›
      rw [h]
      rfl
    · rfl
  · rename_i existing h
    split
    · subst ‹k = k'›
      rw [h]
      exact Finmap.lookup_insert _
    · exact Finmap.lookup_insert_of_ne _ ‹k ≠ k'›

/-- A snapshot that agrees with `f` on its channels makes a map of them. -/
theorem lookup_applySnapshot {channels : List Channel} {f : ChannelId → Option Channel}
    (h : ∀ ch ∈ channels, f ch.id = some ch) :
    (applySnapshot channels state).channels.lookup k = if k ∈ channels.map Channel.id then f k else none := by
  have hfold : ∀ map : Finmap fun _ : ChannelId => Channel,
      (channels.foldl (fun map ch => map.insert ch.id ch) map).lookup k =
        if k ∈ channels.map Channel.id then f k else map.lookup k := by
    induction channels with
    | nil => exact fun map => rfl
    | cons ch channels ih =>
      intro map
      rw [List.foldl_cons, ih fun ch hch => h ch (List.mem_cons_of_mem _ hch)]
      by_cases hk : k = ch.id
      · subst hk
        rw [Finmap.lookup_insert, h ch (List.mem_cons_self ..)]
        simp
      · rw [Finmap.lookup_insert_of_ne _ hk]
        simp [hk]
  exact hfold ∅

theorem process_process (event : ChannelListEvent) (state : ChannelsState) :
    processChannelListEvent event (processChannelListEvent event state) =
      processChannelListEvent event state := by
  cases event with
  | snapshot channels => rfl
  | created channel =>
    show applyCreated _ (applyCreated _ state) = applyCreated _ state
    unfold applyCreated
    simp only [Finmap.insert_insert]
  | memberCountChanged k n =>
    show applyMemberCountChanged _ _ (applyMemberCountChanged k n.toInt state) =
      applyMemberCountChanged k n.toInt state
    rcases h : state.channels.lookup k with _ | existing
    · simp only [applyMemberCountChanged, h]
    · simp only [applyMemberCountChanged, h, Finmap.lookup_insert, Finmap.insert_insert]

/-- An event written more than once counts once. -/
theorem fold_replicate (events : List ChannelListEvent) (event : ChannelListEvent) {n : Nat} (hn : n ≠ 0) :
    fold (events ++ List.replicate n event) = processChannelListEvent event (fold events) := by
  obtain ⟨n, rfl⟩ := Nat.exists_eq_succ_of_ne_zero hn
  induction n with
  | zero => exact fold_snoc events event
  | succ n ih =>
    rw [List.replicate_succ', ← List.append_assoc, fold_snoc, ih n.succ_ne_zero, process_process]

end

end Bcmd.Web
