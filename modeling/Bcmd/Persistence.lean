import Bcmd.Domain
import Mathlib.Data.List.DropRight

/-!
# `adapter/persistence/`: the three in-memory stores

Every function is one critical section of the source and so one atomic step. A write returns its
answer and the new store. Generated ids and clock readings are arguments.
-/

namespace Bcmd

/-! ### `in_memory_channel_repository.cpp` -/

structure InMemoryChannelRepository where
  channelsById : Keyed Channel.id
  nameToId : Finmap fun _ : Bytes => ChannelId

namespace InMemoryChannelRepository

def empty : InMemoryChannelRepository := ⟨∅, ∅⟩

def findById (repo : InMemoryChannelRepository) (channelId : ChannelId) : Result Channel :=
  match repo.channelsById.find channelId with
  | none => .error .channelNotFound
  | some channel => .ok channel

def findByName (repo : InMemoryChannelRepository) (name : ChannelName) : Result Channel :=
  match repo.nameToId.lookup name.value with
  | none => .error .channelNotFound
  | some id => repo.findById id

def listAll (repo : InMemoryChannelRepository) (order : IterOrder ChannelId) : List Channel :=
  repo.channelsById.values order

def save (repo : InMemoryChannelRepository) (channel : Channel) : VoidResult × InMemoryChannelRepository :=
  (.ok (), ⟨repo.channelsById.put channel, repo.nameToId.insert channel.name.value channel.id⟩)

def create (repo : InMemoryChannelRepository) (generated : ChannelId) (name : ChannelName) :
    Result Channel × InMemoryChannelRepository :=
  match repo.nameToId.lookup name.value with
  | some _ => (.error .channelAlreadyExists, repo)
  | none =>
    let channel := Channel.new generated name
    (.ok channel, ⟨repo.channelsById.emplace channel, repo.nameToId.insert channel.name.value channel.id⟩)

variable {repo : InMemoryChannelRepository} {k k' : ChannelId} {ch : Channel} {e : Error} {name : ChannelName}

theorem findById_ok : repo.findById k = .ok ch ↔ repo.channelsById.find k = some ch := by
  unfold findById; split <;> simp_all

theorem findById_error : repo.findById k = .error e ↔
    repo.channelsById.find k = none ∧ e = .channelNotFound := by
  unfold findById; cases repo.channelsById.find k <;> simp [eq_comm]

theorem id_of_findById (h : repo.findById k = .ok ch) : ch.id = k := Keyed.key_of_find (findById_ok.1 h)

theorem findByName_ok (h : repo.findByName name = .ok ch) : repo.channelsById.find ch.id = some ch := by
  unfold findByName at h
  split at h
  · cases h
  · rwa [id_of_findById h, ← findById_ok]

@[simp] theorem find_save (repo : InMemoryChannelRepository) (ch : Channel) (k : ChannelId) :
    (repo.save ch).2.channelsById.find k = if k = ch.id then some ch else repo.channelsById.find k :=
  Keyed.find_put ..

theorem create_cases (repo : InMemoryChannelRepository) (g : ChannelId) (name : ChannelName) :
    repo.create g name = (.error .channelAlreadyExists, repo) ∨
      (repo.create g name).1 = .ok (.new g name) ∧
        ∀ k, (repo.create g name).2.channelsById.find k =
          if k = g ∧ repo.channelsById.find k = none then some (.new g name)
          else repo.channelsById.find k := by
  unfold create
  split
  · exact .inl rfl
  · exact .inr ⟨rfl, fun k => Keyed.find_emplace _ _ _⟩

end InMemoryChannelRepository

/-! ### `in_memory_client_registry.cpp` -/

structure InMemoryClientRegistry where
  clientsById : Keyed ClientSession.id
  usernameToId : Finmap fun _ : Bytes => ClientId
  historicalUsernames : Finmap fun _ : ClientId => Username

namespace InMemoryClientRegistry

def empty : InMemoryClientRegistry := ⟨∅, ∅, ∅⟩

def findById (reg : InMemoryClientRegistry) (clientId : ClientId) : Result ClientSession :=
  match reg.clientsById.find clientId with
  | none => .error .clientNotFound
  | some session => .ok session

def findByUsername (reg : InMemoryClientRegistry) (name : Username) : Result ClientSession :=
  match reg.usernameToId.lookup name.value with
  | none => .error .clientNotFound
  | some id => reg.findById id

def lookupUsername (reg : InMemoryClientRegistry) (clientId : ClientId) : Result Username :=
  match reg.historicalUsernames.lookup clientId with
  | none => .error .clientNotFound
  | some username => .ok username

def registerClient (reg : InMemoryClientRegistry) (generated : ClientId) (now : Int) (username : Username) :
    Result ClientSession × InMemoryClientRegistry :=
  match reg.usernameToId.lookup username.value with
  | some _ => (.error .clientAlreadyExists, reg)
  | none =>
    let session := ClientSession.new generated username now
    (.ok session, ⟨reg.clientsById.emplace session, reg.usernameToId.insert username.value session.id,
      reg.historicalUsernames.insert session.id session.username⟩)

def save (reg : InMemoryClientRegistry) (session : ClientSession) : VoidResult × InMemoryClientRegistry :=
  (.ok (), ⟨reg.clientsById.put session, reg.usernameToId.insert session.username.value session.id,
    reg.historicalUsernames.insert session.id session.username⟩)

def remove (reg : InMemoryClientRegistry) (clientId : ClientId) : VoidResult × InMemoryClientRegistry :=
  match reg.clientsById.find clientId with
  | none => (.error .clientNotFound, reg)
  | some session => (.ok (), { reg with
      clientsById := reg.clientsById.erase clientId
      usernameToId := reg.usernameToId.erase session.username.value })

/-- The three changes of a session in place: find it, change it, or report that it is gone. -/
def modify (reg : InMemoryClientRegistry) (clientId : ClientId) (change : ClientSession → ClientSession) :
    VoidResult × InMemoryClientRegistry :=
  match reg.clientsById.find clientId with
  | none => (.error .clientNotFound, reg)
  | some session => (.ok (), { reg with clientsById := reg.clientsById.put (change session) })

def touchHeartbeat (reg : InMemoryClientRegistry) (now : Int) (clientId : ClientId) :=
  reg.modify clientId (·.touch now)

def joinChannelAtomic (reg : InMemoryClientRegistry) (clientId : ClientId) (channelId : ChannelId) :=
  reg.modify clientId (·.joinChannel channelId)

def leaveChannelAtomic (reg : InMemoryClientRegistry) (clientId : ClientId) (channelId : ChannelId) :=
  reg.modify clientId (·.leaveChannel channelId)

def collectExpired (reg : InMemoryClientRegistry) (order : IterOrder ClientId) (deadline : Int) :
    List ClientSession :=
  (reg.clientsById.values order).filter (·.isExpired deadline)

variable {reg : InMemoryClientRegistry} {c d : ClientId} {session : ClientSession} {e : Error}

theorem findById_ok : reg.findById c = .ok session ↔ reg.clientsById.find c = some session := by
  unfold findById; split <;> simp_all

theorem findById_error : reg.findById c = .error e ↔ reg.clientsById.find c = none ∧ e = .clientNotFound := by
  unfold findById; cases reg.clientsById.find c <;> simp [eq_comm]

theorem find_remove (reg : InMemoryClientRegistry) (c d : ClientId) :
    (reg.remove c).2.clientsById.find d = if d = c then none else reg.clientsById.find d := by
  unfold remove
  split
  · split
    · subst ‹d = c›; assumption
    · rfl
  · exact Keyed.find_erase ..

theorem remove_fst (reg : InMemoryClientRegistry) (c : ClientId) :
    (reg.remove c).1 = if reg.clientsById.find c = none then .error .clientNotFound else .ok () := by
  unfold remove; cases reg.clientsById.find c <;> rfl

section
variable {f : ClientSession → ClientSession}

theorem find_modify (hid : ∀ s, (f s).id = s.id) (reg : InMemoryClientRegistry) (c d : ClientId) :
    (reg.modify c f).2.clientsById.find d =
      if d = c then (reg.clientsById.find d).map f else reg.clientsById.find d := by
  unfold modify
  split
  · rename_i h
    split
    · subst ‹d = c›; simp [h]
    · rfl
  · rename_i s h
    rw [Keyed.find_put, hid, Keyed.key_of_find h]
    split
    · subst ‹d = c›; rw [h]; rfl
    · rfl

theorem modify_fst (reg : InMemoryClientRegistry) (c : ClientId) (f : ClientSession → ClientSession) :
    (reg.modify c f).1 = if reg.clientsById.find c = none then .error .clientNotFound else .ok () := by
  unfold modify; cases reg.clientsById.find c <;> rfl

end

theorem find_touchHeartbeat (reg : InMemoryClientRegistry) (now : Int) (c d : ClientId) :
    (reg.touchHeartbeat now c).2.clientsById.find d =
      if d = c then (reg.clientsById.find d).map (·.touch now) else reg.clientsById.find d :=
  find_modify (f := (·.touch now)) (fun _ => rfl) ..

theorem find_joinChannelAtomic (reg : InMemoryClientRegistry) (c d : ClientId) (k : ChannelId) :
    (reg.joinChannelAtomic c k).2.clientsById.find d =
      if d = c then (reg.clientsById.find d).map (·.joinChannel k) else reg.clientsById.find d :=
  find_modify (f := (·.joinChannel k)) (fun _ => rfl) ..

theorem find_leaveChannelAtomic (reg : InMemoryClientRegistry) (c d : ClientId) (k : ChannelId) :
    (reg.leaveChannelAtomic c k).2.clientsById.find d =
      if d = c then (reg.clientsById.find d).map (·.leaveChannel k) else reg.clientsById.find d :=
  find_modify (f := (·.leaveChannel k)) (fun _ => rfl) ..

/-- A session may be changed before it is removed. -/
theorem remove_leaveChannelAtomic (reg : InMemoryClientRegistry) (c : ClientId) (k : ChannelId) :
    ((reg.leaveChannelAtomic c k).2.remove c).2 = (reg.remove c).2 := by
  unfold leaveChannelAtomic modify
  rcases hcs : reg.clientsById.find c with _ | cs
  · rfl
  · have hkey : cs.id = c := Keyed.key_of_find hcs
    have hid : (cs.leaveChannel k).id = c := hkey
    have hfind : (reg.clientsById.put (cs.leaveChannel k)).find c = some (cs.leaveChannel k) := by
      rw [Keyed.find_put, if_pos hid.symm]
    have herase : (reg.clientsById.put (cs.leaveChannel k)).erase c = reg.clientsById.erase c := by
      refine Keyed.ext_find fun d => ?_
      rw [Keyed.find_erase, Keyed.find_erase, Keyed.find_put, hid]
      split <;> rfl
    unfold remove
    simp only [hfind, hcs, herase]
    rfl

theorem registerClient_cases (reg : InMemoryClientRegistry) (g : ClientId) (now : Int) (name : Username) :
    reg.registerClient g now name = (.error .clientAlreadyExists, reg) ∨
      (reg.registerClient g now name).1 = .ok (.new g name now) ∧
        ∀ c, (reg.registerClient g now name).2.clientsById.find c =
          if c = g ∧ reg.clientsById.find c = none then some (.new g name now)
          else reg.clientsById.find c := by
  unfold registerClient
  split
  · exact .inl rfl
  · exact .inr ⟨rfl, fun k => Keyed.find_emplace _ _ _⟩

theorem mem_collectExpired {order : IterOrder ClientId} {deadline : Int} :
    session ∈ reg.collectExpired order deadline ↔
      reg.clientsById.find session.id = some session ∧ session.lastHeartbeatAt < deadline := by
  simp [collectExpired, Keyed.mem_values, ClientSession.isExpired]

end InMemoryClientRegistry

/-! ### `in_memory_message_repository.cpp` -/

/-- `while (buffer.size() > cap) buffer.pop_front()`. -/
def popFrontWhileOver {α : Type} (cap : Nat) : List α → List α
  | [] => []
  | m :: buffer => if (m :: buffer).length > cap then popFrontWhileOver cap buffer else m :: buffer

theorem popFrontWhileOver_eq {α : Type} (cap : Nat) (buffer : List α) :
    popFrontWhileOver cap buffer = buffer.drop (buffer.length - cap) := by
  induction buffer with
  | nil => simp [popFrontWhileOver]
  | cons m buffer ih =>
    unfold popFrontWhileOver
    split
    · rename_i h
      have hlen : (m :: buffer).length - cap = buffer.length - cap + 1 := by
        simp only [List.length_cons] at h ⊢; omega
      rw [ih, hlen, List.drop_succ_cons]
    · rename_i h
      rw [Nat.sub_eq_zero_of_le (Nat.le_of_not_lt h), List.drop_zero]

structure InMemoryMessageRepository where
  cap : UInt32
  cap_ne : cap ≠ 0
  buffers : Finmap fun _ : ChannelId => List Message

namespace InMemoryMessageRepository

def kDefaultCap : UInt32 := 200

def new (cap : UInt32) : InMemoryMessageRepository :=
  if h : cap = 0 then ⟨kDefaultCap, by decide, ∅⟩ else ⟨cap, h, ∅⟩

/-- What `buffers_[channel_id]` holds, empty when there is no such entry yet. -/
def buffer (repo : InMemoryMessageRepository) (channelId : ChannelId) : List Message :=
  (repo.buffers.lookup channelId).getD []

def save (repo : InMemoryMessageRepository) (message : Message) : VoidResult × InMemoryMessageRepository :=
  let buffer := popFrontWhileOver repo.cap.toNat (repo.buffer message.channelId ++ [message])
  (.ok (), { repo with buffers := repo.buffers.insert message.channelId buffer })

def recent (repo : InMemoryMessageRepository) (channelId : ChannelId) (count : UInt32) : List Message :=
  match repo.buffers.lookup channelId with
  | none => []
  | some buffer =>
    if count = 0 then []
    else
      let take := min count.toNat buffer.length
      buffer.drop (buffer.length - take)

def listBefore (repo : InMemoryMessageRepository) (channelId : ChannelId) (beforeMessageId : MessageId)
    (count : UInt32) : List Message :=
  match repo.buffers.lookup channelId with
  | none => []
  | some buffer =>
    if count = 0 then []
    else
      match buffer.findIdx? fun message => message.id = beforeMessageId with
      | none => []
      | some distance =>
        let take := min count.toNat distance
        (buffer.take distance).drop (distance - take)

variable {repo : InMemoryMessageRepository} {k : ChannelId}

theorem buffer_new (historyCap : UInt32) (k : ChannelId) : (new historyCap).buffer k = [] := by
  unfold new
  split <;> rfl

theorem buffer_save (repo : InMemoryMessageRepository) (m : Message) (k : ChannelId) :
    (repo.save m).2.buffer k =
      if k = m.channelId then popFrontWhileOver repo.cap.toNat (repo.buffer k ++ [m]) else repo.buffer k := by
  unfold buffer save
  split
  · subst ‹k = _›; simp [buffer]
  · simp [Finmap.lookup_insert_of_ne _ ‹k ≠ _›]

/-- `recent` is the end of the buffer, and an absent buffer reads as an empty one. -/
theorem recent_eq (repo : InMemoryMessageRepository) (k : ChannelId) (count : UInt32) :
    repo.recent k count = (repo.buffer k).drop ((repo.buffer k).length - count.toNat) := by
  unfold recent buffer
  cases repo.buffers.lookup k with
  | none => simp
  | some b =>
    simp only [Option.getD_some]
    split
    · subst ‹count = 0›; simp
    · congr 1; omega

end InMemoryMessageRepository

end Bcmd
