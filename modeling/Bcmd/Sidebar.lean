import Bcmd.ChannelsStore
import Bcmd.ListSnapshot

/-!
# `client-web/`: `hooks/use-channels.ts`

The hook of the sidebar, with the auth store that gives it its argument and the errors that it maps. A render
with its commit is one step. Each run of the effect has a stream and a loop of its own, which goes on when the
effect has been cleaned up, until it sees that its signal is aborted.
-/

namespace Bcmd.Web

/-! ### `api/broadcast/errors.ts` -/

inductive Code
  | canceled | unknown | invalidArgument | deadlineExceeded | notFound | alreadyExists | permissionDenied
  | resourceExhausted | failedPrecondition | aborted | outOfRange | unimplemented | internal | unavailable
  | dataLoss | unauthenticated
deriving DecidableEq

/-- What is thrown: a `ConnectError`, or something else that reads as the text. -/
inductive Thrown
  | connectError (code : Code) (message : String)
  | other (text : String)

inductive BroadcastErrorKind
  | clientNotFound | channelNotFound | notAMember | invalidArgument | unavailable | unknown
deriving DecidableEq

structure BroadcastError where
  kind : BroadcastErrorKind
  code : Code
  message : String

/-- The pattern, of lower-case letters and spaces, occurs in the message in any case. -/
def occursIn (pattern message : String) : Prop := pattern.toList <:+: message.toLower.toList

instance (pattern message : String) : Decidable (occursIn pattern message) :=
  inferInstanceAs (Decidable (_ <:+: _))

def mapError : Thrown → BroadcastError
  | .connectError code message =>
    if code = .notFound ∧ occursIn "not a member" message then ⟨.notAMember, .notFound, message⟩
    else if code = .notFound ∧ occursIn "client" message then ⟨.clientNotFound, .notFound, message⟩
    else if code = .notFound ∧ occursIn "channel" message then ⟨.channelNotFound, .notFound, message⟩
    else if code = .invalidArgument then ⟨.invalidArgument, .invalidArgument, message⟩
    else if code = .unavailable then ⟨.unavailable, .unavailable, message⟩
    else ⟨.unknown, code, message⟩
  | .other text => ⟨.unknown, .unknown, text⟩

def isClientNotFound (err : BroadcastError) : Bool := err.kind = .clientNotFound

/-! ### `stores/auth-store.ts` -/

inductive AuthStatus
  | idle | connecting | connected | disconnected
deriving DecidableEq

structure AuthState where
  status : AuthStatus
  clientId : Option ClientId
  username : Option Bytes

namespace AuthState

def initial : AuthState := ⟨.idle, none, none⟩

def reset : AuthState := ⟨.disconnected, none, none⟩

inductive Action
  | setConnecting
  | setConnected (clientId : ClientId) (username : Bytes)
  | setDisconnected
  | reset

def apply : Action → AuthState → AuthState
  | .setConnecting, state => { state with status := .connecting }
  | .setConnected clientId username, _ => ⟨.connected, some clientId, some username⟩
  | .setDisconnected, _ => ⟨.disconnected, none, none⟩
  | .reset, _ => reset

end AuthState

/-! ### The hook -/

/-- A run of the effect: the signal of its `AbortController`, and its loop. -/
structure EffectRun where
  clientId : ClientId
  aborted : Bool
  reading : Bool
  /-- How many events the loop has processed. -/
  taken : Nat

structure Tab where
  auth : AuthState
  channels : ChannelsState
  error : Option BroadcastError
  /-- The hook's argument at the last commit, while it is mounted. -/
  mounted : Option (Option ClientId)
  runs : StreamId → Option EffectRun
  /-- The run that has a cleanup due. -/
  current : Option StreamId

namespace Tab

def initial : Tab := ⟨.initial, initialState, none, none, fun _ => none, none⟩

def cleanup (tab : Tab) : Tab :=
  match tab.current with
  | none => tab
  | some w => { tab with
      runs := Function.update tab.runs w ((tab.runs w).map ({ · with aborted := true }))
      channels := initialState
      current := none }

/-- Without a client the effect returns at once, and leaves no cleanup. -/
def effect (tab : Tab) (w : StreamId) : Tab :=
  match tab.auth.clientId with
  | none => tab
  | some clientId => { tab with
      error := none
      runs := Function.update tab.runs w (some ⟨clientId, false, true, 0⟩)
      current := some w }

/-- A render and its commit; `w` is the stream that is opened, if one is. -/
def commit (tab : Tab) (w : StreamId) : Tab :=
  if tab.mounted = some tab.auth.clientId then tab
  else { tab.cleanup.effect w with mounted := some tab.auth.clientId }

def unmount (tab : Tab) : Tab := { tab.cleanup with mounted := none, error := none }

/-- The loop of the run gets the next event. -/
def next (tab : Tab) (w : StreamId) (run : EffectRun) (event : ChannelListEvent) : Tab :=
  if run.aborted then { tab with runs := Function.update tab.runs w (some { run with reading := false }) }
  else { tab with
    channels := processChannelListEvent event tab.channels
    runs := Function.update tab.runs w (some { run with taken := run.taken + 1 }) }

/-- The loop of the run is at the end of its stream. -/
def ended (tab : Tab) (w : StreamId) (run : EffectRun) : Tab :=
  { tab with runs := Function.update tab.runs w (some { run with reading := false }) }

/-- The loop of the run is left by an error. -/
def throws (tab : Tab) (w : StreamId) (run : EffectRun) (err : Thrown) : Tab :=
  if run.aborted then tab.ended w run
  else { tab.ended w run with
    error := some (mapError err)
    auth := if isClientNotFound (mapError err) then .reset else tab.auth }

end Tab

/-! ### A map and the channels that events bring -/

section
variable {k : ChannelId} {ch : Channel} {events : List ChannelListEvent} {event : ChannelListEvent}

theorem lookup_insertAll {channels : List Channel} {map : Finmap fun _ : ChannelId => Channel}
    (h : (channels.foldl (fun map ch => map.insert ch.id ch) map).lookup k = some ch) :
    (ch ∈ channels ∧ ch.id = k) ∨ map.lookup k = some ch := by
  induction channels generalizing map with
  | nil => exact .inr h
  | cons head channels ih =>
    rcases ih h with ⟨hmem, hid⟩ | hmap
    · exact .inl ⟨List.mem_cons_of_mem _ hmem, hid⟩
    by_cases hk : k = head.id
    · subst hk
      rw [Finmap.lookup_insert] at hmap
      cases hmap
      exact .inl ⟨List.mem_cons_self .., rfl⟩
    · rw [Finmap.lookup_insert_of_ne _ hk] at hmap
      exact .inr hmap

theorem lookup_insertAll_ne_none (ch : Channel) {channels : List Channel}
    {map : Finmap fun _ : ChannelId => Channel} (h : ch ∈ channels ∨ map.lookup ch.id ≠ none) :
    (channels.foldl (fun map ch => map.insert ch.id ch) map).lookup ch.id ≠ none := by
  induction channels generalizing map with
  | nil => exact h.resolve_left List.not_mem_nil
  | cons head channels ih =>
    refine ih ?_
    by_cases hid : ch.id = head.id
    · rw [hid, Finmap.lookup_insert]
      exact .inr (Option.some_ne_none _)
    · rw [Finmap.lookup_insert_of_ne _ hid]
      rcases h with hmem | hmap
      · rcases List.mem_cons.1 hmem with rfl | hmem
        · exact absurd rfl hid
        · exact .inl hmem
      · exact .inr hmap

/-- What the store has, an event has brought. -/
theorem brought_of_lookup (h : (fold events).channels.lookup k = some ch) :
    ch.id = k ∧ (k, ch.name) ∈ broughtChannels events := by
  induction events using List.reverseRecOn generalizing ch with
  | nil => cases (Finmap.lookup_empty k).symm.trans h
  | append_singleton events event ih =>
    rw [fold_snoc] at h
    simp only [broughtChannels, List.flatMap_append, List.mem_append]
    cases event with
    | snapshot channels =>
      rcases lookup_insertAll h with ⟨hmem, hid⟩ | hempty
      · obtain ⟨summary, hsummary, rfl⟩ := List.mem_map.1 hmem
        refine ⟨hid, .inr ?_⟩
        rw [← hid]
        simp only [List.flatMap_cons, List.flatMap_nil, List.append_nil, ChannelListEvent.pairs, List.mem_map]
        exact ⟨summary, hsummary, rfl⟩
      · cases (Finmap.lookup_empty k).symm.trans hempty
    | created summary =>
      rw [processChannelListEvent, lookup_applyCreated] at h
      split at h
      · cases h
        exact ⟨(‹k = _›).symm, .inr (by simp [ChannelListEvent.pairs, ‹k = _›, toChannel])⟩
      · obtain ⟨hid, hold⟩ := ih h
        exact ⟨hid, .inl hold⟩
    | memberCountChanged changed count =>
      rw [processChannelListEvent, lookup_applyMemberCountChanged] at h
      split at h
      · obtain ⟨old, hlookup, rfl⟩ := Option.map_eq_some_iff.1 h
        obtain ⟨hid, hold⟩ := ih hlookup
        exact ⟨hid, .inl hold⟩
      · obtain ⟨hid, hold⟩ := ih h
        exact ⟨hid, .inl hold⟩

/-- Only a snapshot can take a channel out. -/
theorem lookup_kept (hevent : ¬ event.IsSnapshot) {state : ChannelsState}
    (h : state.channels.lookup k ≠ none) : (processChannelListEvent event state).channels.lookup k ≠ none := by
  cases event with
  | snapshot channels => exact absurd trivial hevent
  | created summary =>
    rw [processChannelListEvent, lookup_applyCreated]
    split
    · exact Option.some_ne_none _
    · exact h
  | memberCountChanged changed count =>
    rw [processChannelListEvent, lookup_applyMemberCountChanged]
    split
    · rwa [ne_eq, Option.map_eq_none_iff]
    · exact h

/-- What an event has brought, the store has, under the name of some event. -/
theorem lookup_of_brought (hopened : Opened events) {name : Bytes} (h : (k, name) ∈ broughtChannels events) :
    (fold events).channels.lookup k ≠ none := by
  obtain ⟨channels, rest, rfl, hrest⟩ := hopened
  induction rest using List.reverseRecOn with
  | nil =>
    simp only [broughtChannels, List.flatMap_cons, List.flatMap_nil, List.append_nil, ChannelListEvent.pairs,
      List.mem_map] at h
    obtain ⟨summary, hsummary, hpair⟩ := h
    cases hpair
    exact lookup_insertAll_ne_none (toChannel summary) (.inl (List.mem_map_of_mem hsummary))
  | append_singleton rest event ih =>
    rw [← List.cons_append, broughtChannels, List.flatMap_append, List.mem_append] at h
    rw [← List.cons_append, fold_snoc]
    have hlast := hrest event (List.mem_append_right _ (List.mem_singleton_self _))
    rcases h with hold | hnew
    · exact lookup_kept hlast (ih (fun e he => hrest e (List.mem_append_left _ he)) hold)
    · cases event with
      | snapshot channels => exact absurd trivial hlast
      | created summary =>
        simp only [List.flatMap_cons, List.flatMap_nil, List.append_nil, ChannelListEvent.pairs,
          List.mem_singleton] at hnew
        cases hnew
        rw [processChannelListEvent, lookup_applyCreated]
        exact fun hnone => by simp [toChannel] at hnone
      | memberCountChanged changed count =>
        simp [ChannelListEvent.pairs] at hnew

end

end Bcmd.Web
