import Bcmd.Lib.Keyed
import Bcmd.Lib.Strip
import Bcmd.Shared
import Mathlib.Data.Finset.Card

/-!
# `domain/`: value objects, aggregates and the router

A value object keeps the proof of its own validation, so it can only come from its `create`. The
times at which a channel or a session was created are left out: nothing reads them.
-/

namespace Bcmd

/-! ### Value objects -/

namespace Username

def minLength : Nat := 1
def maxLength : Nat := 32

def isAllowedChar (c : UInt8) : Bool := isalnum c || c == 95 || c == 45

def Valid (raw : Bytes) : Prop :=
  ¬ (raw.length < minLength ∨ raw.length > maxLength) ∧ ∀ c ∈ raw, isAllowedChar c

instance (raw : Bytes) : Decidable (Valid raw) :=
  @instDecidableAnd _ _ inferInstance (List.decidableBAll (isAllowedChar · = true) raw)

end Username

/-- 1-32 characters from `[a-zA-Z0-9_-]`. -/
structure Username where
  value : Bytes
  valid : Username.Valid value
deriving DecidableEq

def Username.create (raw : Bytes) : Option Username :=
  if h : Username.Valid raw then some ⟨raw, h⟩ else none

namespace ChannelName

def minLength : Nat := 1
def maxLength : Nat := 64

def isAllowedChar (c : UInt8) : Bool := isalnum c || c == 45

def Valid (raw : Bytes) : Prop :=
  ¬ (raw.length < minLength ∨ raw.length > maxLength) ∧ ∀ c ∈ raw, isAllowedChar c

instance (raw : Bytes) : Decidable (Valid raw) :=
  @instDecidableAnd _ _ inferInstance (List.decidableBAll (isAllowedChar · = true) raw)

end ChannelName

/-- 1-64 characters from `[a-zA-Z0-9-]`. -/
structure ChannelName where
  value : Bytes
  valid : ChannelName.Valid value
deriving DecidableEq

def ChannelName.create (raw : Bytes) : Option ChannelName :=
  if h : ChannelName.Valid raw then some ⟨raw, h⟩ else none

namespace MessageContent

def maxLength : Nat := 4096

/-- The class has a `trim` of its own, over its own `isWhitespace`. -/
def isWhitespace (c : UInt8) : Bool := isspace c

def trim (raw : Bytes) : Bytes := (raw.dropWhile isWhitespace).rdropWhile isWhitespace

/-- What `create` has checked of the trimmed text it stores. -/
def Valid (value : Bytes) : Prop :=
  value ≠ [] ∧ value.length ≤ maxLength ∧ value.head? ≠ some 47 ∧ trim value = value

instance (value : Bytes) : Decidable (Valid value) := inferInstanceAs (Decidable (_ ∧ _))

end MessageContent

structure MessageContent where
  value : Bytes
  valid : MessageContent.Valid value

namespace MessageContent

theorem trim_trim (raw : Bytes) : trim (trim raw) = trim raw := Strip.strip_strip

def create (raw : Bytes) : Result MessageContent :=
  if h₁ : trim raw = [] then .error .messageEmpty
  else if h₂ : (trim raw).length > maxLength then .error .messageTooLong
  else if h₃ : (trim raw).head? = some 47 then .error .messageInvalidPrefix
  else .ok ⟨trim raw, h₁, Nat.le_of_not_lt h₂, h₃, trim_trim raw⟩

/-- The text of the messages in runs on fixed inputs. -/
theorem valid_hi : Valid (ascii "hi") := by decide

instance : DecidableEq MessageContent := fun a b =>
  decidable_of_iff (a.value = b.value) ⟨fun h => by cases a; cases b; cases h; rfl, fun h => h ▸ rfl⟩

end MessageContent

/-! ### Aggregates -/

/-- A channel and its members. -/
structure Channel where
  id : ChannelId
  name : ChannelName
  members : Finset ClientId
deriving DecidableEq

namespace Channel

def new (id : ChannelId) (name : ChannelName) : Channel := ⟨id, name, ∅⟩

def memberCount (ch : Channel) : Nat := ch.members.card

def hasMember (ch : Channel) (clientId : ClientId) : Bool := clientId ∈ ch.members

/-- Fails when the client is in the channel, so that the caller can choose to ignore it. -/
def addMember (ch : Channel) (clientId : ClientId) : Result Channel :=
  if clientId ∈ ch.members then .error .alreadyMember
  else .ok { ch with members := insert clientId ch.members }

def removeMember (ch : Channel) (clientId : ClientId) : Result Channel :=
  if clientId ∈ ch.members then .ok { ch with members := ch.members.erase clientId }
  else .error .notAMember

variable {ch ch' : Channel} {c : ClientId}

@[simp] theorem hasMember_iff : ch.hasMember c = true ↔ c ∈ ch.members := by simp [hasMember]

theorem addMember_ok : ch.addMember c = .ok ch' ↔
    c ∉ ch.members ∧ ch' = { ch with members := insert c ch.members } := by
  unfold addMember; split <;> simp_all [eq_comm]

theorem removeMember_ok : ch.removeMember c = .ok ch' ↔
    c ∈ ch.members ∧ ch' = { ch with members := ch.members.erase c } := by
  unfold removeMember; split <;> simp_all [eq_comm]

theorem removeMember_error {e : Error} : ch.removeMember c = .error e ↔ c ∉ ch.members ∧ e = .notAMember := by
  unfold removeMember; split <;> simp_all [eq_comm]

end Channel

/-- A connected client. `joinedChannels` says again what the channels' member sets say. -/
structure ClientSession where
  id : ClientId
  username : Username
  joinedChannels : Finset ChannelId
  lastHeartbeatAt : Int
deriving DecidableEq

namespace ClientSession

def new (id : ClientId) (username : Username) (now : Int) : ClientSession := ⟨id, username, ∅, now⟩

def touch (session : ClientSession) (now : Int) : ClientSession := { session with lastHeartbeatAt := now }

def isExpired (session : ClientSession) (deadline : Int) : Bool := session.lastHeartbeatAt < deadline

def joinChannel (session : ClientSession) (channelId : ChannelId) : ClientSession :=
  { session with joinedChannels := insert channelId session.joinedChannels }

def leaveChannel (session : ClientSession) (channelId : ChannelId) : ClientSession :=
  { session with joinedChannels := session.joinedChannels.erase channelId }

end ClientSession

structure Message where
  id : MessageId
  senderId : ClientId
  channelId : ChannelId
  content : MessageContent
  sentAt : Int
deriving DecidableEq

/-! ### `message_router.cpp` -/

inductive EchoPolicy
  | excludeSender
  | includeSender
deriving DecidableEq

/-- The members in the order of the channel's set, without the sender if the policy says so. -/
def recipientsFor (order : IterOrder ClientId) (channel : Channel) (message : Message)
    (echoPolicy : EchoPolicy) : List ClientId :=
  (order.enum channel.members).filter fun memberId =>
    ¬ (echoPolicy = .excludeSender ∧ memberId = message.senderId)

theorem mem_recipientsFor_include {order : IterOrder ClientId} {channel : Channel} {message : Message}
    {c : ClientId} : c ∈ recipientsFor order channel message .includeSender ↔ c ∈ channel.members := by
  simp [recipientsFor]

end Bcmd
