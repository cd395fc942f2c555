import Bcmd.Lib.Serial
import Bcmd.Locking

/-!
# The critical sections of the repositories

`adapter/persistence/` once more, line by line: what each method does to its hash tables between taking
`mutex_` and releasing it. Run without interruption, the lines of a method are its atomic step of
`Persistence.lean`; and by `Lib/Serial.lean` no thread can tell a run of lines from a run of atomic steps.
-/

namespace Bcmd

inductive Repository
  | channels
  | clients
  | messages
deriving DecidableEq

/-! ### `in_memory_channel_repository.cpp` -/

inductive ChannelMethod
  | findById (channelId : ChannelId)
  | findByName (name : ChannelName)
  | listAll (order : IterOrder ChannelId)
  | save (channel : Channel)
  | create (generated : ChannelId) (name : ChannelName)

@[reducible] def ChannelMethod.Res : ChannelMethod → Type
  | findById _ | findByName _ | create _ _ => Result Channel
  | listAll _ => List Channel
  | save _ => VoidResult

/-- `std::shared_lock` for what only reads, `std::unique_lock` for the rest. -/
def ChannelMethod.mode : ChannelMethod → LockMode
  | findById _ | findByName _ | listAll _ => .shared
  | save _ | create _ _ => .exclusive

inductive ChannelLine
  /-- `channels_by_id_.find(id)`, and what is found there. -/
  | findChannel (id : ChannelId)
  | findName (name : Bytes)
  | containsName (name : Bytes)
  /-- Where a range-based `for` will come by. -/
  | walk (order : IterOrder ChannelId)
  | assignChannel (channel : Channel)
  | assignName (name : Bytes) (id : ChannelId)
  | emplaceChannel (channel : Channel)
  | emplaceName (name : Bytes) (id : ChannelId)

@[reducible] def ChannelLine.Res : ChannelLine → Type
  | findChannel _ => Option Channel
  | findName _ => Option ChannelId
  | containsName _ => Bool
  | walk _ => List ChannelId
  | assignChannel _ | assignName _ _ | emplaceChannel _ | emplaceName _ _ => Unit

namespace InMemoryChannelRepository

def line : (a : ChannelLine) → InMemoryChannelRepository → a.Res × InMemoryChannelRepository
  | .findChannel id, repo => (repo.channelsById.find id, repo)
  | .findName name, repo => (repo.nameToId.lookup name, repo)
  | .containsName name, repo => ((repo.nameToId.lookup name).isSome, repo)
  | .walk order, repo => (order.enum repo.channelsById.map.keys, repo)
  | .assignChannel channel, repo => ((), { repo with channelsById := repo.channelsById.put channel })
  | .assignName name id, repo => ((), { repo with nameToId := repo.nameToId.insert name id })
  | .emplaceChannel channel, repo => ((), { repo with channelsById := repo.channelsById.emplace channel })
  | .emplaceName name id, repo =>
    ((), if repo.nameToId.lookup name = none then { repo with nameToId := repo.nameToId.insert name id }
      else repo)

def lines : Machine InMemoryChannelRepository ChannelLine ChannelLine.Res := { handle := line }

abbrev Body (α : Type) := Prog ChannelLine ChannelLine.Res α

abbrev step (a : ChannelLine) : Body a.Res := .perform a

/-- The turns of the loop of `listAll`. -/
def pushBackAll : List ChannelId → List Channel → Body (List Channel)
  | [], channels => return channels
  | id :: walk, channels => do
    let channel ← step (.findChannel id)
    pushBackAll walk (channels ++ channel.toList)

/-- The end of both lookups. -/
def found (channelId : ChannelId) : Body (Result Channel) := do
  match ← step (.findChannel channelId) with
  | none => return .error .channelNotFound
  | some channel => return .ok channel

def body : (o : ChannelMethod) → Body o.Res
  | .findById channelId => found channelId
  | .findByName name => do
    match ← step (.findName name.value) with
    | none => return .error .channelNotFound
    | some id => found id
  | .listAll order => do
    let walk ← step (.walk order)
    pushBackAll walk []
  | .save channel => do
    step (.assignChannel channel)
    step (.assignName channel.name.value channel.id)
    return .ok ()
  | .create generated name => do
    let taken ← step (.containsName name.value)
    if taken then
      return .error .channelAlreadyExists
    else
      let channel := Channel.new generated name
      step (.emplaceChannel channel)
      step (.emplaceName channel.name.value channel.id)
      return .ok channel

/-- A method at once. -/
def method : (o : ChannelMethod) → InMemoryChannelRepository → o.Res × InMemoryChannelRepository
  | .findById channelId, repo => (repo.findById channelId, repo)
  | .findByName name, repo => (repo.findByName name, repo)
  | .listAll order, repo => (repo.listAll order, repo)
  | .save channel, repo => repo.save channel
  | .create generated name, repo => repo.create generated name

variable (repo : InMemoryChannelRepository)

theorem exec_pushBackAll (walk : List ChannelId) (channels : List Channel) :
    lines.exec (pushBackAll walk channels) repo =
      (channels ++ walk.filterMap repo.channelsById.find, repo) := by
  induction walk generalizing channels with
  | nil => rw [List.filterMap_nil, List.append_nil]; rfl
  | cons id walk ih =>
    show lines.exec (pushBackAll walk (channels ++ (repo.channelsById.find id).toList)) repo = _
    rw [ih, List.append_assoc]
    cases hid : repo.channelsById.find id with
    | none => rw [List.filterMap_cons_none hid]; rfl
    | some channel => rw [List.filterMap_cons_some hid]; rfl

theorem exec_found (id : ChannelId) : lines.exec (found id) repo = (repo.findById id, repo) := by
  simp only [found, findById, Machine.exec_bind, Machine.exec_perform, lines, line]
  cases repo.channelsById.find id <;> rfl

theorem exec_body (o : ChannelMethod) : lines.exec (body o) repo = method o repo := by
  cases o with
  | findById channelId => exact exec_found repo channelId
  | findByName name =>
    unfold method findByName
    simp only [body, Machine.exec_bind, Machine.exec_perform]
    have hname : (lines.handle (.findName name.value) repo).1 = repo.nameToId.lookup name.value := rfl
    rw [hname]
    cases repo.nameToId.lookup name.value with
    | none => rfl
    | some id => exact exec_found repo id
  | listAll order => exact exec_pushBackAll repo _ []
  | save channel => rfl
  | create generated name =>
    unfold method create
    cases hname : repo.nameToId.lookup name.value with
    | some id =>
      simp only [body, Machine.exec_bind, Machine.exec_perform, lines, line, hname, Option.isSome_some,
        if_true]
      rfl
    | none =>
      have hfree : repo.nameToId.lookup (Channel.new generated name).name.value = none := hname
      simp only [body, Machine.exec_bind, Machine.exec_perform, lines, line, hname, hfree,
        Option.isSome_none, Bool.false_eq_true, if_false, if_true]
      rfl

/-- A line that changes nothing. -/
def Reads (a : ChannelLine) : Prop := ∀ repo, (lines.handle a repo).2 = repo

theorem reads_pushBackAll (walk : List ChannelId) (channels : List Channel) :
    (pushBackAll walk channels).Calls Reads := by
  induction walk generalizing channels with
  | nil => trivial
  | cons id walk ih => exact ⟨fun _ => rfl, fun _ => ih _⟩

theorem reads_found (id : ChannelId) : (found id).Calls Reads := by
  refine ⟨fun _ => rfl, fun r => ?_⟩
  cases r <;> trivial

theorem reads_body (o : ChannelMethod) (h : o.mode = .shared) : (body o).Calls Reads := by
  cases o with
  | findById channelId => exact reads_found channelId
  | findByName name =>
    refine ⟨fun _ => rfl, fun r => ?_⟩
    cases r with
    | none => trivial
    | some id => exact reads_found id
  | listAll order => exact ⟨fun _ => rfl, fun walk => reads_pushBackAll walk []⟩
  | save channel => cases h
  | create generated name => cases h

end InMemoryChannelRepository

/-! ### `in_memory_client_registry.cpp` -/

inductive ClientMethod
  | findById (clientId : ClientId)
  | findByUsername (name : Username)
  | lookupUsername (clientId : ClientId)
  | registerClient (generated : ClientId) (now : Int) (username : Username)
  | save (session : ClientSession)
  | remove (clientId : ClientId)
  | touchHeartbeat (now : Int) (clientId : ClientId)
  | joinChannelAtomic (clientId : ClientId) (channelId : ChannelId)
  | leaveChannelAtomic (clientId : ClientId) (channelId : ChannelId)
  | collectExpired (order : IterOrder ClientId) (deadline : Int)

@[reducible] def ClientMethod.Res : ClientMethod → Type
  | findById _ | findByUsername _ | registerClient _ _ _ => Result ClientSession
  | lookupUsername _ => Result Username
  | save _ | remove _ | touchHeartbeat _ _ | joinChannelAtomic _ _ | leaveChannelAtomic _ _ => VoidResult
  | collectExpired _ _ => List ClientSession

def ClientMethod.mode : ClientMethod → LockMode
  | findById _ | findByUsername _ | lookupUsername _ | collectExpired _ _ => .shared
  | registerClient _ _ _ | save _ | remove _ | touchHeartbeat _ _ | joinChannelAtomic _ _
  | leaveChannelAtomic _ _ => .exclusive

inductive ClientLine
  | findClient (id : ClientId)
  | findUsername (name : Bytes)
  | containsUsername (name : Bytes)
  | findHistorical (id : ClientId)
  | walk (order : IterOrder ClientId)
  | emplaceClient (session : ClientSession)
  | emplaceUsername (name : Bytes) (id : ClientId)
  | assignClient (session : ClientSession)
  | assignUsername (name : Bytes) (id : ClientId)
  | assignHistorical (id : ClientId) (username : Username)
  | eraseUsername (name : Bytes)
  | eraseClient (id : ClientId)
  /-- `found->second.touch()` -/
  | touch (id : ClientId) (now : Int)
  | joinChannel (id : ClientId) (channelId : ChannelId)
  | leaveChannel (id : ClientId) (channelId : ChannelId)

@[reducible] def ClientLine.Res : ClientLine → Type
  | findClient _ => Option ClientSession
  | findUsername _ => Option ClientId
  | containsUsername _ => Bool
  | findHistorical _ => Option Username
  | walk _ => List ClientId
  | emplaceClient _ | emplaceUsername _ _ | assignClient _ | assignUsername _ _ | assignHistorical _ _
  | eraseUsername _ | eraseClient _ | touch _ _ | joinChannel _ _ | leaveChannel _ _ => Unit

namespace InMemoryClientRegistry

/-- A session changes where it is stored. -/
def changed (reg : InMemoryClientRegistry) (id : ClientId) (change : ClientSession → ClientSession) :
    InMemoryClientRegistry :=
  match reg.clientsById.find id with
  | none => reg
  | some session => { reg with clientsById := reg.clientsById.put (change session) }

def line : (a : ClientLine) → InMemoryClientRegistry → a.Res × InMemoryClientRegistry
  | .findClient id, reg => (reg.clientsById.find id, reg)
  | .findUsername name, reg => (reg.usernameToId.lookup name, reg)
  | .containsUsername name, reg => ((reg.usernameToId.lookup name).isSome, reg)
  | .findHistorical id, reg => (reg.historicalUsernames.lookup id, reg)
  | .walk order, reg => (order.enum reg.clientsById.map.keys, reg)
  | .emplaceClient session, reg => ((), { reg with clientsById := reg.clientsById.emplace session })
  | .emplaceUsername name id, reg =>
    ((), if reg.usernameToId.lookup name = none then
        { reg with usernameToId := reg.usernameToId.insert name id }
      else reg)
  | .assignClient session, reg => ((), { reg with clientsById := reg.clientsById.put session })
  | .assignUsername name id, reg => ((), { reg with usernameToId := reg.usernameToId.insert name id })
  | .assignHistorical id username, reg =>
    ((), { reg with historicalUsernames := reg.historicalUsernames.insert id username })
  | .eraseUsername name, reg => ((), { reg with usernameToId := reg.usernameToId.erase name })
  | .eraseClient id, reg => ((), { reg with clientsById := reg.clientsById.erase id })
  | .touch id now, reg => ((), reg.changed id (·.touch now))
  | .joinChannel id channelId, reg => ((), reg.changed id (·.joinChannel channelId))
  | .leaveChannel id channelId, reg => ((), reg.changed id (·.leaveChannel channelId))

def lines : Machine InMemoryClientRegistry ClientLine ClientLine.Res := { handle := line }

abbrev Body (α : Type) := Prog ClientLine ClientLine.Res α

abbrev step (a : ClientLine) : Body a.Res := .perform a

/-- The turns of the loop of `collectExpired`. -/
def pushBackExpired (deadline : Int) : List ClientId → List ClientSession → Body (List ClientSession)
  | [], expired => return expired
  | id :: walk, expired => do
    let session ← step (.findClient id)
    pushBackExpired deadline walk (expired ++ session.toList.filter (·.isExpired deadline))

/-- The end of both lookups. -/
def found (clientId : ClientId) : Body (Result ClientSession) := do
  match ← step (.findClient clientId) with
  | none => return .error .clientNotFound
  | some session => return .ok session

/-- The three changes of a session in place. -/
def inPlace (clientId : ClientId) (change : Body Unit) : Body VoidResult := do
  match ← step (.findClient clientId) with
  | none => return .error .clientNotFound
  | some _ => do
    change
    return .ok ()

def body : (o : ClientMethod) → Body o.Res
  | .findById clientId => found clientId
  | .findByUsername name => do
    match ← step (.findUsername name.value) with
    | none => return .error .clientNotFound
    | some id => found id
  | .lookupUsername clientId => do
    match ← step (.findHistorical clientId) with
    | none => return .error .clientNotFound
    | some username => return .ok username
  | .registerClient generated now username => do
    let taken ← step (.containsUsername username.value)
    if taken then
      return .error .clientAlreadyExists
    else
      let session := ClientSession.new generated username now
      step (.emplaceClient session)
      step (.emplaceUsername session.username.value session.id)
      step (.assignHistorical session.id session.username)
      return .ok session
  | .save session => do
    step (.assignClient session)
    step (.assignUsername session.username.value session.id)
    step (.assignHistorical session.id session.username)
    return .ok ()
  | .remove clientId => do
    match ← step (.findClient clientId) with
    | none => return .error .clientNotFound
    | some session => do
      step (.eraseUsername session.username.value)
      step (.eraseClient clientId)
      return .ok ()
  | .touchHeartbeat now clientId => inPlace clientId (step (.touch clientId now))
  | .joinChannelAtomic clientId channelId => inPlace clientId (step (.joinChannel clientId channelId))
  | .leaveChannelAtomic clientId channelId => inPlace clientId (step (.leaveChannel clientId channelId))
  | .collectExpired order deadline => do
    let walk ← step (.walk order)
    pushBackExpired deadline walk []

/-- A method at once. -/
def method : (o : ClientMethod) → InMemoryClientRegistry → o.Res × InMemoryClientRegistry
  | .findById clientId, reg => (reg.findById clientId, reg)
  | .findByUsername name, reg => (reg.findByUsername name, reg)
  | .lookupUsername clientId, reg => (reg.lookupUsername clientId, reg)
  | .registerClient generated now username, reg => reg.registerClient generated now username
  | .save session, reg => reg.save session
  | .remove clientId, reg => reg.remove clientId
  | .touchHeartbeat now clientId, reg => reg.touchHeartbeat now clientId
  | .joinChannelAtomic clientId channelId, reg => reg.joinChannelAtomic clientId channelId
  | .leaveChannelAtomic clientId channelId, reg => reg.leaveChannelAtomic clientId channelId
  | .collectExpired order deadline, reg => (reg.collectExpired order deadline, reg)

variable (reg : InMemoryClientRegistry)

theorem exec_pushBackExpired (deadline : Int) (walk : List ClientId) (expired : List ClientSession) :
    lines.exec (pushBackExpired deadline walk expired) reg =
      (expired ++ (walk.filterMap reg.clientsById.find).filter (·.isExpired deadline), reg) := by
  induction walk generalizing expired with
  | nil =>
    rw [List.filterMap_nil, List.filter_nil, List.append_nil]
    rfl
  | cons id walk ih =>
    show lines.exec (pushBackExpired deadline walk
      (expired ++ (reg.clientsById.find id).toList.filter (·.isExpired deadline))) reg = _
    rw [ih, List.append_assoc]
    cases hid : reg.clientsById.find id with
    | none =>
      rw [List.filterMap_cons_none hid]
      rfl
    | some session =>
      rw [List.filterMap_cons_some hid, ← List.filter_append]
      rfl

theorem exec_found (id : ClientId) : lines.exec (found id) reg = (reg.findById id, reg) := by
  simp only [found, findById, Machine.exec_bind, Machine.exec_perform, lines, line]
  cases reg.clientsById.find id <;> rfl

theorem exec_inPlace (id : ClientId) {change : Body Unit} {f : ClientSession → ClientSession}
    (hchange : lines.exec change reg = ((), reg.changed id f)) :
    lines.exec (inPlace id change) reg = reg.modify id f := by
  unfold inPlace modify
  simp only [Machine.exec_bind, Machine.exec_perform]
  have hfind : (lines.handle (.findClient id) reg).1 = reg.clientsById.find id := rfl
  have hsame : (lines.handle (.findClient id) reg).2 = reg := rfl
  rw [hfind, hsame]
  cases hid : reg.clientsById.find id with
  | none => rfl
  | some session =>
    simp only [Machine.exec_bind, hchange, changed, hid]
    rfl

theorem exec_body (o : ClientMethod) : lines.exec (body o) reg = method o reg := by
  cases o with
  | findById clientId => exact exec_found reg clientId
  | findByUsername name =>
    unfold method findByUsername
    simp only [body, Machine.exec_bind, Machine.exec_perform]
    have hname : (lines.handle (.findUsername name.value) reg).1 = reg.usernameToId.lookup name.value := rfl
    rw [hname]
    cases reg.usernameToId.lookup name.value with
    | none => rfl
    | some id => exact exec_found reg id
  | lookupUsername clientId =>
    simp only [body, method, lookupUsername, Machine.exec_bind, Machine.exec_perform, lines, line]
    cases reg.historicalUsernames.lookup clientId <;> rfl
  | registerClient generated now username =>
    unfold method registerClient
    cases hname : reg.usernameToId.lookup username.value with
    | some id =>
      simp only [body, Machine.exec_bind, Machine.exec_perform, lines, line, hname, Option.isSome_some,
        if_true]
      rfl
    | none =>
      have hfree : reg.usernameToId.lookup (ClientSession.new generated username now).username.value = none :=
        hname
      simp only [body, Machine.exec_bind, Machine.exec_perform, lines, line, hname, hfree,
        Option.isSome_none, Bool.false_eq_true, if_false, if_true]
      rfl
  | save session => rfl
  | remove clientId =>
    simp only [body, method, remove, Machine.exec_bind, Machine.exec_perform, lines, line]
    cases reg.clientsById.find clientId <;> rfl
  | touchHeartbeat now clientId => exact exec_inPlace reg clientId rfl
  | joinChannelAtomic clientId channelId => exact exec_inPlace reg clientId rfl
  | leaveChannelAtomic clientId channelId => exact exec_inPlace reg clientId rfl
  | collectExpired order deadline => exact exec_pushBackExpired reg deadline _ []

def Reads (a : ClientLine) : Prop := ∀ reg, (lines.handle a reg).2 = reg

theorem reads_pushBackExpired (deadline : Int) (walk : List ClientId) (expired : List ClientSession) :
    (pushBackExpired deadline walk expired).Calls Reads := by
  induction walk generalizing expired with
  | nil => trivial
  | cons id walk ih => exact ⟨fun _ => rfl, fun _ => ih _⟩

theorem reads_found (id : ClientId) : (found id).Calls Reads := by
  refine ⟨fun _ => rfl, fun r => ?_⟩
  cases r <;> trivial

theorem reads_body (o : ClientMethod) (h : o.mode = .shared) : (body o).Calls Reads := by
  cases o with
  | findById clientId => exact reads_found clientId
  | findByUsername name =>
    refine ⟨fun _ => rfl, fun r => ?_⟩
    cases r with
    | none => trivial
    | some id => exact reads_found id
  | lookupUsername clientId =>
    refine ⟨fun _ => rfl, fun r => ?_⟩
    cases r <;> trivial
  | collectExpired order deadline => exact ⟨fun _ => rfl, fun walk => reads_pushBackExpired deadline walk []⟩
  | _ => cases h

end InMemoryClientRegistry

/-! ### `in_memory_message_repository.cpp` -/

inductive MessageLine
  /-- `cap_` -/
  | cap
  /-- `buffers_[channel_id]`, which puts an empty buffer there if there is none. -/
  | subscript (channelId : ChannelId)
  | pushBack (channelId : ChannelId) (message : Message)
  | size (channelId : ChannelId)
  | popFront (channelId : ChannelId)
  | contains (channelId : ChannelId)
  /-- What an iterator into the buffer points at. -/
  | element (channelId : ChannelId) (index : Nat)

@[reducible] def MessageLine.Res : MessageLine → Type
  | cap => UInt32
  | subscript _ | pushBack _ _ | popFront _ => Unit
  | size _ => Nat
  | contains _ => Bool
  | element _ _ => Option Message

namespace InMemoryMessageRepository

def assign (repo : InMemoryMessageRepository) (channelId : ChannelId) (buffer : List Message) :
    InMemoryMessageRepository :=
  { repo with buffers := repo.buffers.insert channelId buffer }

def line : (a : MessageLine) → InMemoryMessageRepository → a.Res × InMemoryMessageRepository
  | .cap, repo => (repo.cap, repo)
  | .subscript channelId, repo => ((), repo.assign channelId (repo.buffer channelId))
  | .pushBack channelId message, repo => ((), repo.assign channelId (repo.buffer channelId ++ [message]))
  | .size channelId, repo => ((repo.buffer channelId).length, repo)
  | .popFront channelId, repo => ((), repo.assign channelId (repo.buffer channelId).tail)
  | .contains channelId, repo => ((repo.buffers.lookup channelId).isSome, repo)
  | .element channelId index, repo => ((repo.buffer channelId)[index]?, repo)

def lines : Machine InMemoryMessageRepository MessageLine MessageLine.Res := { handle := line }

abbrev Body (α : Type) := Prog MessageLine MessageLine.Res α

abbrev step (a : MessageLine) : Body a.Res := .perform a

/-- `while (buffer.size() > cap_) buffer.pop_front()`, with a bound on its turns. -/
def popWhileOver (channelId : ChannelId) : Nat → Body Unit
  | 0 => return ()
  | turns + 1 => do
    let size ← step (.size channelId)
    let cap ← step .cap
    if size > cap.toNat then
      step (.popFront channelId)
      popWhileOver channelId turns
    else return ()

/-- The elements of a range of iterators. -/
def copy (channelId : ChannelId) : Nat → Nat → List Message → Body (List Message)
  | _, 0, copied => return copied
  | first, count + 1, copied => do
    let message ← step (.element channelId first)
    copy channelId (first + 1) count (copied ++ message.toList)

/-- `std::ranges::find_if` from some index on, with the number of elements from there. -/
def findIf (channelId : ChannelId) (beforeMessageId : MessageId) : Nat → Nat → Body (Option Nat)
  | _, 0 => return none
  | index, left + 1 => do
    match ← step (.element channelId index) with
    | none => return none
    | some message =>
      if message.id = beforeMessageId then return some index
      else findIf channelId beforeMessageId (index + 1) left

def body : (o : IMessageRepository) → Body o.Res
  | .save message => do
    step (.subscript message.channelId)
    step (.pushBack message.channelId message)
    let turns ← step (.size message.channelId)
    popWhileOver message.channelId turns
    return .ok ()
  | .recent channelId count => do
    let found ← step (.contains channelId)
    if found = false ∨ count = 0 then return []
    else
      let size ← step (.size channelId)
      let take := min count.toNat size
      copy channelId (size - take) take []
  | .listBefore channelId beforeMessageId count => do
    let found ← step (.contains channelId)
    if found = false ∨ count = 0 then return []
    else
      let size ← step (.size channelId)
      match ← findIf channelId beforeMessageId 0 size with
      | none => return []
      | some distance =>
        let take := min count.toNat distance
        copy channelId (distance - take) take []

/-- A method at once. -/
def method : (o : IMessageRepository) → InMemoryMessageRepository → o.Res × InMemoryMessageRepository
  | .save message, repo => repo.save message
  | .recent channelId count, repo => (repo.recent channelId count, repo)
  | .listBefore channelId beforeMessageId count, repo => (repo.listBefore channelId beforeMessageId count, repo)

variable (repo : InMemoryMessageRepository) (k : ChannelId)

@[simp] theorem buffer_assign (b : List Message) : (repo.assign k b).buffer k = b := by
  simp [assign, buffer]

@[simp] theorem assign_assign (b b' : List Message) : (repo.assign k b).assign k b' = repo.assign k b' := by
  simp [assign, Finmap.insert_insert]

theorem exec_copy (first count : Nat) (copied : List Message) :
    lines.exec (copy k first count copied) repo =
      (copied ++ ((repo.buffer k).drop first).take count, repo) := by
  induction count generalizing first copied with
  | zero =>
    rw [List.take_zero, List.append_nil]
    rfl
  | succ count ih =>
    show lines.exec (copy k (first + 1) count (copied ++ ((repo.buffer k)[first]?).toList)) repo = _
    rw [ih, List.append_assoc]
    cases hfirst : (repo.buffer k)[first]? with
    | none =>
      have hlen := List.getElem?_eq_none_iff.1 hfirst
      rw [List.drop_eq_nil_of_le hlen, List.drop_eq_nil_of_le (Nat.le_succ_of_le hlen)]
      simp
    | some message =>
      obtain ⟨hlt, hget⟩ := List.getElem?_eq_some_iff.1 hfirst
      rw [List.drop_eq_getElem_cons hlt, hget]
      rfl

theorem exec_findIf (before : MessageId) (index left : Nat) (h : index + left = (repo.buffer k).length) :
    lines.exec (findIf k before index left) repo =
      ((((repo.buffer k).drop index).findIdx? fun message => message.id = before).map (index + ·), repo) := by
  induction left generalizing index with
  | zero =>
    rw [List.drop_eq_nil_of_le (by omega)]
    rfl
  | succ left ih =>
    have hlt : index < (repo.buffer k).length := by omega
    have hget : (repo.buffer k)[index]? = some (repo.buffer k)[index] := List.getElem?_eq_getElem hlt
    have helement : (lines.handle (.element k index) repo).1 = some (repo.buffer k)[index] := hget
    unfold findIf
    simp only [Machine.exec_bind, Machine.exec_perform]
    rw [helement, List.drop_eq_getElem_cons hlt, List.findIdx?_cons]
    by_cases hid : (repo.buffer k)[index].id = before
    · simp only [hid, if_true, decide_true]
      rfl
    · have hrest := ih (index + 1) (by omega)
      simp only [hid, if_false, decide_false, Bool.false_eq_true]
      refine hrest.trans ?_
      rw [Option.map_map]
      congr 2
      funext n
      show index + 1 + n = index + (n + 1)
      omega

theorem exec_popWhileOver (b : List Message) (turns : Nat) (h : b.length ≤ turns) :
    lines.exec (popWhileOver k turns) (repo.assign k b) =
      ((), repo.assign k (popFrontWhileOver repo.cap.toNat b)) := by
  induction turns generalizing b with
  | zero =>
    rw [List.length_eq_zero_iff.1 (Nat.le_zero.1 h)]
    rfl
  | succ turns ih =>
    have hsize : (lines.handle (.size k) (repo.assign k b)).1 = b.length := by
      show ((repo.assign k b).buffer k).length = _
      rw [buffer_assign]
    have hpop : (lines.handle (.popFront k) (repo.assign k b)).2 = repo.assign k b.tail := by
      show (repo.assign k b).assign k ((repo.assign k b).buffer k).tail = _
      rw [buffer_assign, assign_assign]
    unfold popWhileOver
    simp only [Machine.exec_bind, Machine.exec_perform, hsize]
    show lines.exec (if b.length > repo.cap.toNat then _ else _) (repo.assign k b) = _
    cases b with
    | nil =>
      rw [if_neg (by simp)]
      rfl
    | cons m b =>
      unfold popFrontWhileOver
      by_cases hover : (m :: b).length > repo.cap.toNat
      · rw [if_pos hover, if_pos hover]
        simp only [Machine.exec_bind, Machine.exec_perform, hpop]
        refine ih b ?_
        simp only [List.length_cons] at h
        omega
      · rw [if_neg hover, if_neg hover]
        rfl

theorem exec_body (o : IMessageRepository) : lines.exec (body o) repo = method o repo := by
  cases o with
  | save message =>
    have hpushed : ((lines.handle (.pushBack message.channelId message)
        (lines.handle (.subscript message.channelId) repo).2)).2 =
          repo.assign message.channelId (repo.buffer message.channelId ++ [message]) := by
      show (repo.assign message.channelId _).assign message.channelId
        ((repo.assign message.channelId _).buffer message.channelId ++ [message]) = _
      rw [buffer_assign, assign_assign]
    have hsize : (lines.handle (.size message.channelId)
        (repo.assign message.channelId (repo.buffer message.channelId ++ [message]))).1 =
          (repo.buffer message.channelId ++ [message]).length := by
      show ((repo.assign message.channelId _).buffer message.channelId).length = _
      rw [buffer_assign]
    simp only [body, Machine.exec_bind, Machine.exec_perform, hpushed, hsize]
    show lines.exec _ (lines.exec (popWhileOver message.channelId _) (repo.assign message.channelId _)).2 = _
    rw [exec_popWhileOver repo message.channelId _ _ (le_refl _)]
    rfl
  | recent channelId count =>
    show _ = (repo.recent channelId count, repo)
    unfold recent
    cases hbuffer : repo.buffers.lookup channelId with
    | none =>
      have hfound : (lines.handle (.contains channelId) repo).1 = false := congrArg Option.isSome hbuffer
      simp only [body, Machine.exec_bind, Machine.exec_perform, hfound, true_or, if_true]
      rfl
    | some b =>
      have hfound : (lines.handle (.contains channelId) repo).1 = true := congrArg Option.isSome hbuffer
      have hb : repo.buffer channelId = b := by rw [buffer, hbuffer, Option.getD_some]
      by_cases hcount : count = 0
      · simp only [body, Machine.exec_bind, Machine.exec_perform, hcount, or_true, if_true]
        rfl
      · simp only [body, Machine.exec_bind, Machine.exec_perform, hfound, Bool.true_eq_false, hcount, or_self,
          if_false]
        refine (exec_copy repo channelId _ _ []).trans ?_
        rw [List.nil_append]
        show ((List.drop ((repo.buffer channelId).length - min count.toNat (repo.buffer channelId).length)
          (repo.buffer channelId)).take (min count.toNat (repo.buffer channelId).length), repo) = _
        rw [hb, List.take_of_length_le (by rw [List.length_drop]; omega)]
  | listBefore channelId beforeMessageId count =>
    show _ = (repo.listBefore channelId beforeMessageId count, repo)
    unfold listBefore
    cases hbuffer : repo.buffers.lookup channelId with
    | none =>
      have hfound : (lines.handle (.contains channelId) repo).1 = false := congrArg Option.isSome hbuffer
      simp only [body, Machine.exec_bind, Machine.exec_perform, hfound, true_or, if_true]
      rfl
    | some b =>
      have hfound : (lines.handle (.contains channelId) repo).1 = true := congrArg Option.isSome hbuffer
      have hb : repo.buffer channelId = b := by rw [buffer, hbuffer, Option.getD_some]
      have hfind : lines.exec (findIf channelId beforeMessageId 0 (repo.buffer channelId).length) repo =
          (b.findIdx? fun message => message.id = beforeMessageId, repo) := by
        rw [exec_findIf repo channelId beforeMessageId 0 _ (Nat.zero_add _), hb, List.drop_zero]
        simp
      have hsize : lines.handle (.size channelId) repo = ((repo.buffer channelId).length, repo) := rfl
      have hsame : (lines.handle (.contains channelId) repo).2 = repo := rfl
      by_cases hcount : count = 0
      · simp only [body, Machine.exec_bind, Machine.exec_perform, hcount, or_true, if_true]
        rfl
      · simp only [body, Machine.exec_bind, Machine.exec_perform, hfound, Bool.true_eq_false, hcount, or_self,
          if_false, hsame, hsize, hfind]
        cases hidx : b.findIdx? fun message => message.id = beforeMessageId with
        | none => rfl
        | some distance =>
          refine (exec_copy repo channelId _ _ []).trans ?_
          have hle : min count.toNat distance ≤ distance := Nat.min_le_right ..
          have htake : distance - (distance - min count.toNat distance) = min count.toNat distance := by omega
          show _ = ((b.take distance).drop (distance - min count.toNat distance), repo)
          rw [List.nil_append, hb, List.drop_take, htake]

def Reads (a : MessageLine) : Prop := ∀ repo, (lines.handle a repo).2 = repo

theorem reads_copy (first count : Nat) (copied : List Message) : (copy k first count copied).Calls Reads := by
  induction count generalizing first copied with
  | zero => trivial
  | succ count ih => exact ⟨fun _ => rfl, fun _ => ih _ _⟩

theorem reads_findIf (before : MessageId) (index left : Nat) : (findIf k before index left).Calls Reads := by
  induction left generalizing index with
  | zero => trivial
  | succ left ih =>
    refine (Prog.Calls.perform fun _ => rfl).bind fun r => ?_
    cases r with
    | none => trivial
    | some message =>
      show (if message.id = before then _ else _ : Body (Option Nat)).Calls Reads
      split
      · trivial
      · exact ih _

theorem reads_body (o : IMessageRepository) (h : o.mode = .shared) : (body o).Calls Reads := by
  cases o with
  | save message => cases h
  | recent channelId count =>
    refine (Prog.Calls.perform fun _ => rfl).bind fun found => ?_
    split
    · trivial
    · exact ⟨fun _ => rfl, fun _ => reads_copy ..⟩
  | listBefore channelId beforeMessageId count =>
    refine (Prog.Calls.perform fun _ => rfl).bind fun found => ?_
    split
    · trivial
    · refine ⟨fun _ => rfl, fun size => (reads_findIf ..).bind fun r => ?_⟩
      cases r with
      | none => trivial
      | some distance => exact reads_copy ..

end InMemoryMessageRepository

/-! ### The three of them -/

namespace Repository

@[reducible] def State : Repository → Type
  | channels => InMemoryChannelRepository
  | clients => InMemoryClientRegistry
  | messages => InMemoryMessageRepository

@[reducible] def Method : Repository → Type
  | channels => ChannelMethod
  | clients => ClientMethod
  | messages => IMessageRepository

@[reducible] def Line : Repository → Type
  | channels => ChannelLine
  | clients => ClientLine
  | messages => MessageLine

@[reducible] def LineRes : (l : Repository) → l.Line → Type
  | channels => ChannelLine.Res
  | clients => ClientLine.Res
  | messages => MessageLine.Res

@[reducible] def MethodRes : (l : Repository) → l.Method → Type
  | channels => ChannelMethod.Res
  | clients => ClientMethod.Res
  | messages => IMessageRepository.Res

/-- The method of `Persistence.lean`. -/
def method : (l : Repository) → (o : l.Method) → l.State → l.MethodRes o × l.State
  | channels => InMemoryChannelRepository.method
  | clients => InMemoryClientRegistry.method
  | messages => InMemoryMessageRepository.method

end Repository

/-- Each repository behind its `mutex_`. -/
def repositories : Monitors Repository.State Repository.Method Repository.Line Repository.LineRes
    Repository.MethodRes where
  line
    | .channels => InMemoryChannelRepository.lines
    | .clients => InMemoryClientRegistry.lines
    | .messages => InMemoryMessageRepository.lines
  mode {l} o :=
    match l, o with
    | .channels, o => ChannelMethod.mode o
    | .clients, o => ClientMethod.mode o
    | .messages, o => IMessageRepository.mode o
  body {l} o :=
    match l, o with
    | .channels, o => InMemoryChannelRepository.body o
    | .clients, o => InMemoryClientRegistry.body o
    | .messages, o => InMemoryMessageRepository.body o
  reads {l} o :=
    match l, o with
    | .channels, o => InMemoryChannelRepository.reads_body o
    | .clients, o => InMemoryClientRegistry.reads_body o
    | .messages, o => InMemoryMessageRepository.reads_body o

/-- The methods as atomic steps of `Persistence.lean`. -/
def atomicMethods : Machine (∀ l : Repository, l.State) (Σ l : Repository, l.Method)
    (fun o => o.1.MethodRes o.2) where
  handle o s := ((o.1.method o.2 (s o.1)).1, Function.update s o.1 (o.1.method o.2 (s o.1)).2)

theorem methods_repositories : repositories.methods = atomicMethods := by
  have hbody : ∀ (l : Repository) (o : l.Method) (s : l.State),
      (repositories.line l).exec (repositories.body o) s = l.method o s := by
    intro l o s
    cases l with
    | channels => exact InMemoryChannelRepository.exec_body s o
    | clients => exact InMemoryClientRegistry.exec_body s o
    | messages => exact InMemoryMessageRepository.exec_body s o
  unfold Monitors.methods atomicMethods
  congr 1
  funext o s
  rw [hbody]

section
variable {ι α : Type} [DecidableEq ι]

/-- Threads that use the repositories, line by line. -/
abbrev LineByLine (s : ∀ l : Repository, l.State)
    (programs : ι → Prog (Σ l : Repository, l.Method) (fun o => o.1.MethodRes o.2) α) :
    repositories.Fine ι α :=
  ⟨LockState.new s, fun i => Prog.as i (repositories.expand (programs i))⟩

/-- However the lines of the repositories' methods interleave in any number of threads, it is a run of
atomic methods, in the order in which the threads take the locks: all threads that are through have the
results of that run, and once all are, the stores are those of that run. Until then some thread can go on. -/
theorem repositories_atomic (s : ∀ l : Repository, l.State)
    (programs : ι → Prog (Σ l : Repository, l.Method) (fun o => o.1.MethodRes o.2) α)
    {tr : List (LockEvent (∀ l : Repository, l.State) ι Repository (Σ l : Repository, l.Line)
      (fun a => a.1.LineRes a.2) α)} {m : repositories.Fine ι α}
    (h : Run repositories.lines.locked (fun _ _ => False) (LineByLine s programs) tr m) :
    (∃ tr' c, Run atomicMethods (fun _ _ => False) ⟨s, programs⟩ tr' c ∧
      Monitors.called tr' = Monitors.acquired tr ∧
      (∀ i r, m.threads i = .ret r → c.threads i = .ret r) ∧
      ((∀ i, ∃ r, m.threads i = .ret r) → c.state = m.state.state)) ∧
    ((∀ i, ∃ r, m.threads i = .ret r) ∨
      ∃ i a, (m.threads i).next = some a ∧ repositories.lines.locked.enabled a m.state) := by
  obtain ⟨tr', c, hrun, htr, hsim⟩ := Monitors.serializable h
  rw [methods_repositories] at hrun
  exact ⟨⟨tr', c, hrun, htr, fun i r => hsim.result, hsim.final⟩, hsim.progress⟩

end

/-- The repositories of a server. -/
def Server.repositories (s : Server) : ∀ l : Repository, l.State
  | .channels => s.channels
  | .clients => s.clients
  | .messages => s.messages

/-- One thread removes a client that the other looks for. -/
def removeAndFind : Bool → Prog (Σ l : Repository, l.Method) (fun o => o.1.MethodRes o.2) Bool
  | true => .call ⟨.clients, ClientMethod.remove ⟨2⟩⟩ fun removed => .ret (Except.isOk removed)
  | false => .call ⟨.clients, ClientMethod.findById ⟨2⟩⟩ fun found => .ret (Except.isOk found)

/-- The one who looks is in the middle of it when the other comes and has to wait: the client is found, and is
removed then. -/
theorem repositories_atomic_removeAndFind :
    ∃ tr' c, Run atomicMethods (fun _ _ => False) ⟨oneConnected.server.repositories, removeAndFind⟩ tr' c ∧
      Monitors.called tr' = [(false, .clients), (true, .clients)] ∧
      c.threads false = .ret true ∧ c.threads true = .ret true ∧
      (c.state .clients).clientsById.find ⟨2⟩ = none := by
  let waits := schedule repositories.lines.locked (LineByLine oneConnected.server.repositories removeAndFind)
    [false, true, false, false, true, true, true, true, true, true]
  have hrun : Run repositories.lines.locked (fun _ _ => False)
      (LineByLine oneConnected.server.repositories removeAndFind) waits.1 waits.2 := run_schedule ..
  obtain ⟨⟨tr', c, hc, htr, hthreads, hstate⟩, -⟩ :=
    repositories_atomic oneConnected.server.repositories removeAndFind hrun
  have hfound : waits.2.threads false = .ret true := by rfl
  have hremoved : waits.2.threads true = .ret true := by rfl
  have hdone : ∀ i, ∃ r, waits.2.threads i = .ret r := by
    intro i
    cases i
    · exact ⟨_, hfound⟩
    · exact ⟨_, hremoved⟩
  refine ⟨tr', c, hc, htr.trans rfl, hthreads false true hfound, hthreads true true hremoved, ?_⟩
  rw [hstate hdone]
  decide +kernel

end Bcmd
