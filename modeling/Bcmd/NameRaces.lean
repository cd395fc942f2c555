import Bcmd.Delivery

/-!
# Races for a name

Any number of Connect and CreateChannel requests for the same names at once, beside everything else. Looking a
name up and taking it is one call, so of all the requests for one channel name one succeeds at most, and the
others are refused only if the name was taken before or one of them has it.
-/

namespace Bcmd
open Server

/-- A request takes no name but its own, without the whitespace around it. -/
def Request.Takes (r : Request) : Call → Prop
  | .clients (.registerClient name) => ∃ username, r = .connect username ∧ name.value = trim username
  | .channels (.create name) =>
    ∃ clientId channelName, r = .createChannel clientId channelName ∧ name.value = trim channelName
  | _ => True

abbrev Transcript := List (Σ o : Call, o.Res)

/-- What the answer to a request for a name says of its calls. -/
structure Naming (r : Request) (response : Response) (calls : Transcript) : Prop where
  connected : ∀ {username c}, r = .connect username → response = .connected (.ok c) →
    ∃ name cs, name.value = trim username ∧ cs.id = c ∧ ⟨.clients (.registerClient name), .ok cs⟩ ∈ calls
  notConnected : ∀ {username}, r = .connect username →
    response = .connected (.error (errorToStatus .clientAlreadyExists)) →
    (∃ name, name.value = trim username ∧
      ⟨.clients (.registerClient name), .error .clientAlreadyExists⟩ ∈ calls) ∧
      ∀ name cs, ⟨.clients (.registerClient name), .ok cs⟩ ∉ calls
  created : ∀ {clientId channelName k n}, r = .createChannel clientId channelName →
    response = .created (.ok (k, n)) → n = trim channelName ∧
    ∃ name ch, name.value = n ∧ ch.id = k ∧ ⟨.channels (.create name), .ok ch⟩ ∈ calls
  notCreated : ∀ {clientId channelName}, r = .createChannel clientId channelName →
    response = .created (.error (errorToStatus .channelAlreadyExists)) →
    ((∃ c, ⟨.clients (.findById c), .error .channelAlreadyExists⟩ ∈ calls) ∨
      ∃ name, name.value = trim channelName ∧
        ⟨.channels (.create name), .error .channelAlreadyExists⟩ ∈ calls) ∧
      ∀ name ch, ⟨.channels (.create name), .ok ch⟩ ∉ calls

theorem errorToStatus_injective {e e' : Error} (h : errorToStatus e = errorToStatus e') : e = e' := by
  cases e <;> cases e' <;> first | rfl | (revert h; decide)

section
variable {uuid : UuidLib} {r : Request}

theorem username_of_create {raw : Bytes} {name : Username} (h : Username.create raw = some name) :
    name.value = raw := by
  unfold Username.create at h
  split at h
  · cases h
    rfl
  · cases h

theorem channelName_of_create {raw : Bytes} {name : ChannelName} (h : ChannelName.create raw = some name) :
    name.value = raw := by
  unfold ChannelName.create at h
  split at h
  · cases h
    rfl
  · cases h

theorem obeys_connect (order : BucketOrder) (username : Bytes) :
    (Monitor.transcript (Request.connect username).Takes).Obeys (Naming (.connect username))
      ((Request.connect username).run uuid order) [] := by
  have hrefused : ∀ (e : Error) (calls : Transcript), (e = .clientAlreadyExists → ∃ name,
      name.value = trim username ∧ ⟨.clients (.registerClient name), .error .clientAlreadyExists⟩ ∈ calls) →
      (∀ name cs, ⟨.clients (.registerClient name), .ok cs⟩ ∉ calls) →
      Naming (.connect username) (.connected (.error (errorToStatus e))) calls := by
    intro e calls h hno
    refine ⟨fun _ hok => ?_, fun hr herr => ?_, fun hr => ?_, fun hr => ?_⟩
    · cases hok
    · cases hr
      exact ⟨h (errorToStatus_injective (Except.error.inj (Response.connected.inj herr))), hno⟩
    · cases hr
    · cases hr
  simp only [Request.run, BroadcastService.Connect]
  rcases hname : Username.create (trim username) with _ | name
  · refine hrefused .invalidUsername [] (fun h => ?_) fun _ _ h => ?_
    · cases h
    · cases h
  have hvalue := username_of_create hname
  refine ⟨⟨username, rfl, hvalue⟩, fun result => ?_⟩
  rcases result with e | cs
  · refine hrefused e _ (fun h => ?_) fun _ _ h => ?_
    · subst h
      exact ⟨name, hvalue, List.mem_singleton_self _⟩
    · cases List.mem_singleton.1 h
  · refine ⟨fun hr hok => ?_, fun _ herr => ?_, fun hr => ?_, fun hr => ?_⟩
    · cases hr
      cases hok
      exact ⟨name, cs, hvalue, rfl, List.mem_singleton_self _⟩
    · cases herr
    · cases hr
    · cases hr

theorem naming_notCreated {clientId channelName : Bytes} {e : Error} {calls : Transcript}
    (h : e = .channelAlreadyExists → (∃ c, ⟨.clients (.findById c), .error .channelAlreadyExists⟩ ∈ calls) ∨
      ∃ name, name.value = trim channelName ∧
        ⟨.channels (.create name), .error .channelAlreadyExists⟩ ∈ calls)
    (hno : ∀ name ch, ⟨.channels (.create name), .ok ch⟩ ∉ calls) :
    Naming (.createChannel clientId channelName) (.created (.error (errorToStatus e))) calls := by
  refine ⟨fun hr => ?_, fun hr => ?_, fun _ hok => ?_, fun hr herr => ?_⟩
  · cases hr
  · cases hr
  · cases hok
  · cases hr
    exact ⟨h (errorToStatus_injective (Except.error.inj (Response.created.inj herr))), hno⟩

/-- The use case, for the client and the name that the request gives. -/
theorem obeys_createExecute (c : ClientId) (clientId channelName : Bytes) :
    (Monitor.transcript (Request.createChannel clientId channelName).Takes).Obeys
      (fun a calls => Naming (.createChannel clientId channelName)
        (.created (toReply (a.map fun k => (k, trim channelName)))) calls)
      (CreateChannel.execute c (trim channelName)) [] := by
  simp only [CreateChannel.execute, Prog.perform_bind]
  refine ⟨trivial, fun session => ?_⟩
  rcases session with e | session
  · refine naming_notCreated (fun h => .inl ⟨c, ?_⟩) fun _ _ h => ?_
    · subst h
      exact List.mem_singleton_self _
    · cases List.mem_singleton.1 h
  dsimp only
  rcases hname : ChannelName.create (trim (trim channelName)) with _ | name
  · refine naming_notCreated (e := .invalidChannelName) (fun h => ?_) fun _ _ h => ?_
    · cases h
    · cases List.mem_singleton.1 h
  have hvalue : name.value = trim channelName :=
    (channelName_of_create hname).trans (MessageContent.trim_trim channelName)
  refine ⟨⟨clientId, channelName, rfl, hvalue⟩, fun result => ?_⟩
  rcases result with e | ch
  · refine naming_notCreated (fun h => .inr ⟨name, hvalue, ?_⟩) fun _ _ h => ?_
    · subst h
      exact List.mem_append_right _ (List.mem_singleton_self _)
    · rcases List.mem_append.1 h with h | h
      · cases List.mem_singleton.1 h
      · cases List.mem_singleton.1 h
  refine ⟨trivial, fun _ => ⟨fun hr => ?_, fun hr => ?_, fun hr hok => ?_, fun _ herr => ?_⟩⟩
  · cases hr
  · cases hr
  · cases hr
    cases hok
    exact ⟨rfl, name, ch, hvalue, rfl, List.mem_append_left _ (List.mem_append_right _
      (List.mem_singleton_self _))⟩
  · cases herr

theorem obeys_createChannel (order : BucketOrder) (clientId channelName : Bytes) :
    (Monitor.transcript (Request.createChannel clientId channelName).Takes).Obeys
      (Naming (.createChannel clientId channelName))
      ((Request.createChannel clientId channelName).run uuid order) [] := by
  simp only [Request.run, BroadcastService.CreateChannel]
  rcases BroadcastService.parseClient uuid clientId with _ | c
  · exact naming_notCreated (e := .clientNotFound) (fun h => by cases h) fun _ _ h => by cases h
  refine Monitor.Obeys.bind (Q := fun reply calls => Naming (.createChannel clientId channelName)
    (.created reply) calls) (.bind (obeys_createExecute c clientId channelName) fun a calls h => ?_)
    fun _ _ h => h
  rcases a with e | k <;> exact h

/-- A request for no name takes none. -/
theorem obeys_unnamed (order : BucketOrder) (hconnect : ∀ username, r ≠ .connect username)
    (hcreate : ∀ clientId channelName, r ≠ .createChannel clientId channelName) :
    (Monitor.transcript r.Takes).Obeys (Naming r) (r.run uuid order) [] := by
  refine .of_calls (I := fun _ => True) (fun q o _ ho => ⟨?_, fun _ => trivial⟩)
    (fun a q _ => ⟨fun h => absurd h (hconnect _), fun h => absurd h (hconnect _),
      fun h => absurd h (hcreate _ _), fun h => absurd h (hcreate _ _)⟩) (may_request uuid order r) trivial
  show r.Takes o
  rcases o with (_ | _ | _ | _ | _) | (_ | _ | _ | _ | _ | _ | _ | _) | (_ | _ | _) | _ | _ | _ | _
  case channels.create =>
    obtain ⟨clientId, channelName, h⟩ := ho
    exact absurd h (hcreate _ _)
  case clients.registerClient =>
    obtain ⟨username, h⟩ := ho
    exact absurd h (hconnect _)
  all_goals trivial

theorem obeys_names (order : BucketOrder) (r : Request) :
    (Monitor.transcript r.Takes).Obeys (Naming r) (r.run uuid order) [] := by
  by_cases hconnect : ∃ username, r = .connect username
  · obtain ⟨username, rfl⟩ := hconnect
    exact obeys_connect order username
  by_cases hcreate : ∃ clientId channelName, r = .createChannel clientId channelName
  · obtain ⟨clientId, channelName, rfl⟩ := hcreate
    exact obeys_createChannel order clientId channelName
  · exact obeys_unnamed order (fun username h => hconnect ⟨username, h⟩)
      fun clientId channelName h => hcreate ⟨clientId, channelName, h⟩

end

/-! ### Calls in a run -/

section
variable {ι : Type} [DecidableEq ι] {uuid : UuidLib} {order : ι → BucketOrder} {requests : ι → Request}
  {s : Server} {tr tr₁ tr₂ : List (Event Server ι Call Call.Res Response)}
  {e e' : Event Server ι Call Call.Res Response} {m : Config Server ι Call Call.Res Response} {i j : ι}
  {response : Response} {name name' : ChannelName} {ch ch' : Channel}

/-- The calls of a request, with their responses. -/
def callsOf (requests : ι → Request) (i : ι) (tr : List (Event Server ι Call Call.Res Response)) :
    Transcript :=
  (Monitor.transcript (requests i).Takes).after ports i [] tr

theorem naming_of (h : Run ports Env (serving uuid order requests s) tr m)
    (hret : m.threads i = .ret response) : Naming (requests i) response (callsOf requests i tr) :=
  Monitor.result_run h (obeys_names (order i) (requests i)) hret

theorem takes_of (h : Run ports Env (serving uuid order requests s) tr m) (he : e ∈ tr) :
    (requests e.thread).Takes e.call := by
  obtain ⟨tr₁, tr₂, rfl⟩ := List.append_of_mem he
  exact Monitor.allowed h (obeys_names (order e.thread) (requests e.thread)) rfl

variable (requests) in
theorem done_of {o : Call} {result : o.Res} (he : e ∈ tr) (hcall : e.call = o)
    (hresult : (handle o e.pre.state).1 = result) : ⟨o, result⟩ ∈ callsOf requests e.thread tr := by
  subst hcall hresult
  exact Monitor.transcript_mem he rfl

omit [DecidableEq ι] in
theorem knows_serving (hs : s.Indexed) (i : ι) :
    KnowsNames ((serving uuid order requests s).threads i) s :=
  (given_request uuid (order i) (requests i)).knows hs fun _ hd => absurd hd (Set.notMem_empty _)

/-- No name is lost after a call. -/
theorem names_after (hs : s.Indexed) (h : Run ports Env (serving uuid order requests s) (tr₁ ++ e :: tr₂) m) :
    e.pre.state.Indexed ∧ KeepsNames (handle e.call e.pre.state).2 m.state := by
  obtain ⟨h1, hn, hen, h2⟩ := h.at_event
  obtain ⟨hkeep, -⟩ := names_run h1 fun i => knows_serving hs i
  obtain ⟨-, hknows⟩ := names_run (h1.step hn hen) fun i => knows_serving hs i
  have hlater := (names_run h2 hknows).1
  rw [Config.advance_state hn] at hlater
  exact ⟨hkeep.indexed hs, hlater⟩

/-! ### Channels -/

/-- A creation that succeeds finds the name free, and stores the channel under it. -/
theorem create_ok (hs : s.Indexed) (hok : (handle (.channels (.create name)) s).1 = .ok ch) :
    s.idOf name.value = none ∧ ch.id = ⟨s.nextUuid⟩ ∧
      (handle (.channels (.create name)) s).2.nameOf ch.id = some name := by
  rcases create_name s name with ⟨k, -, herr, -⟩ | ⟨hfree, hnew, -⟩
  · cases herr.symm.trans hok
  · cases hnew.symm.trans hok
    exact ⟨hfree, rfl, nameOf_handsOut hs (d := (⟨s.nextUuid⟩, name)) ⟨_, hok, rfl⟩⟩

/-- Two creations that succeed, one after the other, create two channels with two names. -/
theorem created_apart (hs : s.Indexed)
    (h : Run ports Env (serving uuid order requests s) (tr₁ ++ e :: tr₂) m) (he' : e' ∈ tr₂)
    (hcall : e.call = .channels (.create name))
    (hok : (handle (.channels (.create name)) e.pre.state).1 = .ok ch)
    (hok' : (handle (.channels (.create name')) e'.pre.state).1 = .ok ch') :
    ch.id ≠ ch'.id ∧ name.value ≠ name'.value := by
  obtain ⟨tr₃, tr₄, rfl⟩ := List.append_of_mem he'
  have hlt := drawn_before h (by rw [hcall]; exact Nat.lt_succ_self _) he'
  rw [← List.cons_append, ← List.append_assoc] at h
  obtain ⟨hindexed, hkeep⟩ := names_after hs h.at_event.1
  obtain ⟨-, hid, hstored⟩ := create_ok hindexed hok
  obtain ⟨hindexed', -⟩ := names_after hs h
  obtain ⟨hfree, hid', -⟩ := create_ok hindexed' hok'
  rw [hcall] at hkeep
  have hnamed := hkeep.nameOf ((KeepsNames.create e.pre.state name).indexed hindexed) hstored
  constructor
  · rw [hid, hid']
    intro heq
    have hsame := congrArg StrongId.value heq
    dsimp only at hsame
    omega
  · intro heq
    rw [← heq, hindexed'.idOf hnamed] at hfree
    cases hfree

/-- A name that is stored has been from the start, or a request has created the channel since. -/
theorem stored_since (hs : s.Indexed) (h : Run ports Env (serving uuid order requests s) tr m)
    {k : ChannelId} (hk : m.state.nameOf k = some name) : s.nameOf k = some name ∨
      ∃ e ∈ tr, e.call = .channels (.create name) ∧
        ∃ ch, (handle (.channels (.create name)) e.pre.state).1 = .ok ch := by
  refine h.since (K := fun s => s.nameOf k = some name) (fun s s' he hk => ?_) ?_ hk
  · rwa [Server.nameOf, Server.channel, he.channels] at hk
  intro tr m j o hrun hn hen hk
  obtain ⟨hkeep, hknows⟩ := names_run hrun fun i => knows_serving hs i
  by_cases hsave : ∃ ch, o = .channels (.save ch)
  · obtain ⟨ch, rfl⟩ := hsave
    have hsaved : m.state.nameOf ch.id = some ch.name := (hknows j).act KeepsNames.refl hn
    rw [show (ports.handle (.channels (.save ch)) m.state).2.nameOf k = m.state.nameOf k from
      (KeepsNames.names_save (hkeep.indexed hs) hsaved).1 k] at hk
    exact .inl hk
  by_cases hcreate : ∃ name', o = .channels (.create name')
  · obtain ⟨name', rfl⟩ := hcreate
    rcases create_name m.state name' with ⟨-, -, -, hsame⟩ | ⟨-, hok, hchannel, -⟩
    · rw [show (ports.handle (.channels (.create name')) m.state).2 = _ from hsame] at hk
      exact .inl hk
    · rw [Server.nameOf, show (ports.handle (.channels (.create name')) m.state).2.channel k = _ from
        hchannel k] at hk
      split at hk
      · obtain rfl : name' = name := Option.some.inj hk
        exact .inr ⟨rfl, _, hok⟩
      · exact .inl hk
  · rw [show (ports.handle o m.state).2.nameOf k = m.state.nameOf k from nameOf_handle o
      (fun ch h => hsave ⟨ch, h⟩) (fun name h => hcreate ⟨name, h⟩) m.state k] at hk
    exact .inl hk

/-- However requests interleave: a channel that a request has created is new, stored, and under the name that
was asked for, and no other request creates a channel with its id or its name. A request is refused the name only
if it was taken at the start, or another request has created the channel. -/
theorem creations_race {historyCap : UInt32} {systemNow steadyNow : Int} {host : Host}
    (hhost : Host.Reached uuid (.initial historyCap systemNow steadyNow) host)
    (h : Run ports Env (serving uuid order requests host.server) tr m) {clientId channelName : Bytes}
    (hi : requests i = .createChannel clientId channelName) :
    (∀ k n, m.threads i = .ret (.created (.ok (k, n))) → n = trim channelName ∧ host.server.channel k = none ∧
      (∃ ch, m.state.channel k = some ch ∧ ch.name.value = n) ∧
      ∀ j clientId' channelName' k' n', j ≠ i → requests j = .createChannel clientId' channelName' →
        m.threads j = .ret (.created (.ok (k', n'))) → k ≠ k' ∧ n ≠ n') ∧
    (m.threads i = .ret (.created (.error (errorToStatus .channelAlreadyExists))) →
      (∃ k ch, host.server.channel k = some ch ∧ ch.name.value = trim channelName) ∨
      ∃ j clientId' channelName', j ≠ i ∧ requests j = .createChannel clientId' channelName' ∧
        trim channelName' = trim channelName ∧
        ∃ name ch, ⟨.channels (.create name), .ok ch⟩ ∈ callsOf requests j tr) := by
  have hs := indexed_reached hhost
  -- the call that created the channel
  have hevent : ∀ {i clientId channelName k n}, requests i = .createChannel clientId channelName →
      m.threads i = .ret (.created (.ok (k, n))) → n = trim channelName ∧ ∃ e ∈ tr, e.thread = i ∧ ∃ name ch,
        name.value = n ∧ ch.id = k ∧ e.call = .channels (.create name) ∧
          (handle (.channels (.create name)) e.pre.state).1 = .ok ch := by
    intro i clientId channelName k n hi hret
    obtain ⟨hn, name, ch, hvalue, hid, hmem⟩ := (naming_of h hret).created hi rfl
    obtain ⟨e, he, hthread, hcall, hok⟩ := Monitor.mem_transcript hmem
    exact ⟨hn, e, he, hthread, name, ch, hvalue, hid, hcall, hok⟩
  refine ⟨fun k n hret => ?_, fun hret => ?_⟩
  · obtain ⟨hn, e, he, hthread, name, ch, hvalue, hid, hcall, hok⟩ := hevent hi hret
    have hstored : host.server.channel k = none ∧ m.state.nameOf k = some name := by
      obtain ⟨tr₁, tr₂, rfl⟩ := List.append_of_mem he
      obtain ⟨hindexed, hkeep⟩ := names_after hs h
      obtain ⟨-, hnew, hnamed⟩ := create_ok hindexed hok
      rw [hcall] at hkeep
      have hindexed' := (KeepsNames.create e.pre.state name).indexed hindexed
      refine ⟨?_, hid ▸ hkeep.nameOf hindexed' hnamed⟩
      by_contra hold
      have hlt := hs.fresh hold
      have hle := nextUuid_run h.at_event.1
      have hk : k.value = e.pre.state.nextUuid := by rw [← hid, hnew]
      change host.server.nextUuid ≤ _ at hle
      omega
    obtain ⟨ch', hch', hname'⟩ := channel_of_nameOf hstored.2
    refine ⟨hn, hstored.1, ⟨ch', hch', by rw [hname', hvalue]⟩, ?_⟩
    intro j clientId' channelName' k' n' hij hj hret'
    obtain ⟨-, e', he', hthread', name', ch₂, rfl, rfl, hcall', hok'⟩ := hevent hj hret'
    subst hid hvalue
    have hne : e ≠ e' := by
      rintro rfl
      exact hij (hthread'.symm.trans hthread)
    rcases earlier_or_later he he' hne with ⟨tr₁, tr₂, rfl, hlater⟩ | ⟨tr₁, tr₂, rfl, hlater⟩
    · exact created_apart hs h hlater hcall hok hok'
    · obtain ⟨hids, hnames⟩ := created_apart hs h hlater hcall' hok' hok
      exact ⟨hids.symm, hnames.symm⟩
  · obtain ⟨hcalls, hnone⟩ := (naming_of h hret).notCreated hi rfl
    rcases hcalls with ⟨c, hmem⟩ | ⟨name, hvalue, hmem⟩
    · -- the lookup of the client is refused for another reason
      obtain ⟨e, -, -, -, herr⟩ := Monitor.mem_transcript hmem
      cases (InMemoryClientRegistry.findById_error.1 herr).2
    obtain ⟨e, he, hthread, hcall, herr⟩ := Monitor.mem_transcript hmem
    obtain ⟨tr₁, tr₂, rfl⟩ := List.append_of_mem he
    obtain ⟨hindexed, -⟩ := names_after hs h
    have htaken : ∃ k, e.pre.state.idOf name.value = some k := by
      rcases create_name e.pre.state name with ⟨k, hk, -⟩ | ⟨-, hok, -⟩
      · exact ⟨k, hk⟩
      · cases hok.symm.trans herr
    obtain ⟨k, hk⟩ := htaken
    obtain ⟨name', hvalue', hnamed⟩ := hindexed.nameOf hk
    rcases stored_since hs h.at_event.1 hnamed with hold | ⟨e', he', hcall', ch, hok⟩
    · obtain ⟨ch, hch, rfl⟩ := channel_of_nameOf hold
      exact .inl ⟨k, ch, hch, hvalue'.trans hvalue⟩
    · have hmem' : e' ∈ tr₁ ++ e :: tr₂ := List.mem_append_left _ he'
      have htakes := takes_of h hmem'
      rw [hcall'] at htakes
      obtain ⟨clientId', channelName', hj, hname⟩ := htakes
      have hdone := done_of requests hmem' hcall' hok
      refine .inr ⟨e'.thread, clientId', channelName', fun heq => ?_, hj, ?_, name', ch, hdone⟩
      · rw [heq] at hdone
        exact hnone _ _ hdone
      · rw [← hname, hvalue', hvalue]

/-! ### Names of clients -/

omit [DecidableEq ι] in
/-- A registration that succeeds finds the name free, and gives it to a client that had none. -/
theorem register_ok {name : Username} {cs : ClientSession}
    (hok : (handle (.clients (.registerClient name)) s).1 = .ok cs) :
    s.ownerOf name.value = none ∧ cs.id = ⟨s.nextUuid⟩ ∧
      (handle (.clients (.registerClient name)) s).2.nameGiven cs.id = some name := by
  rcases register_name s name with ⟨c, -, herr, -⟩ | ⟨hfree, hnew, -, -, hnamed⟩
  · cases herr.symm.trans hok
  · cases hnew.symm.trans hok
    exact ⟨hfree, rfl, (hnamed _).trans (if_pos rfl)⟩

/-- A session that is live has been from the start, or a request has registered it since. -/
theorem live_since (h : Run ports Env (serving uuid order requests s) tr m) {c : ClientId} {name : Username}
    (hc : (m.state.session c).map ClientSession.username = some name) :
    (s.session c).map ClientSession.username = some name ∨ ∃ e ∈ tr, e.call = .clients (.registerClient name) ∧
      ∃ cs, (handle (.clients (.registerClient name)) e.pre.state).1 = .ok cs := by
  refine h.since (K := fun s => (s.session c).map ClientSession.username = some name) (fun s s' he hc => ?_) ?_ hc
  · rwa [session, he.clients] at hc
  intro tr m j o hrun hn hen hc
  change ((handle o m.state).2.session c).map _ = _ at hc
  by_cases hr : ∃ name', o = .clients (.registerClient name')
  · obtain ⟨name', rfl⟩ := hr
    rcases register_name m.state name' with ⟨-, -, -, hsame⟩ | ⟨-, hok, hsession, -⟩
    · rw [hsame] at hc
      exact .inl hc
    · rw [hsession] at hc
      split at hc
      · obtain rfl : name' = name := Option.some.inj hc
        exact .inr ⟨rfl, _, hok⟩
      · exact .inl hc
  by_cases hd : ∃ d, o = .clients (.remove d)
  · obtain ⟨d, rfl⟩ := hd
    rw [session_remove] at hc
    split at hc
    · cases hc
    · exact .inl hc
  · rw [(names_handle (fun name h => hr ⟨name, h⟩) (fun c h => hd ⟨c, h⟩) m.state).2.2] at hc
    exact .inl hc

/-- However requests interleave: a client that a request has connected is new and has the name that was asked for,
and no other request connects a client under its id, nor under its name as long as it is live. A request is
refused the name only if a client had it at the start, or another request has connected one under it. -/
theorem connections_race {historyCap : UInt32} {systemNow steadyNow : Int} {host : Host}
    (hhost : Host.Reached uuid (.initial historyCap systemNow steadyNow) host)
    (h : Run ports Env (serving uuid order requests host.server) tr m) {username : Bytes}
    (hi : requests i = .connect username) :
    (∀ c, m.threads i = .ret (.connected (.ok c)) → host.server.nameGiven c = none ∧
      (∃ name, m.state.nameGiven c = some name ∧ name.value = trim username) ∧
      ∀ j username' c', j ≠ i → requests j = .connect username' →
        m.threads j = .ret (.connected (.ok c')) → c ≠ c' ∧
          (trim username = trim username' → m.state.session c = none ∨ m.state.session c' = none)) ∧
    (m.threads i = .ret (.connected (.error (errorToStatus .clientAlreadyExists))) →
      (∃ c cs, host.server.session c = some cs ∧ cs.username.value = trim username) ∨
      ∃ j username', j ≠ i ∧ requests j = .connect username' ∧ trim username' = trim username ∧
        ∃ name cs, ⟨.clients (.registerClient name), .ok cs⟩ ∈ callsOf requests j tr) := by
  have hs := registered_reached hhost
  have hend := registered_run h hs
  -- the call that registered the client
  have hevent : ∀ {i username c}, requests i = .connect username →
      m.threads i = .ret (.connected (.ok c)) → ∃ e ∈ tr, e.thread = i ∧
        host.server.nextUuid ≤ c.value ∧ c = ⟨e.pre.state.nextUuid⟩ ∧
        ∃ name, name.value = trim username ∧ e.call = .clients (.registerClient name) ∧
          m.state.nameGiven c = some name := by
    intro i username c hi hret
    obtain ⟨name, cs, hvalue, rfl, hmem⟩ := (naming_of h hret).connected hi rfl
    obtain ⟨e, he, hthread, hcall, hok⟩ := Monitor.mem_transcript hmem
    obtain ⟨tr₁, tr₂, rfl⟩ := List.append_of_mem he
    obtain ⟨h1, hn, hen, h2⟩ := h.at_event
    have hpre := registered_run h1 hs
    obtain ⟨-, hid, hnamed⟩ := register_ok hok
    refine ⟨e, he, hthread, ?_, hid, name, hvalue, hcall, nameGiven_run h2 ?_ ?_⟩
    · rw [hid]
      exact nextUuid_run h1
    · rw [Config.advance_state hn]
      exact hpre.handle _
    · rw [Config.advance_state hn, hcall]
      exact hnamed
  refine ⟨fun c hret => ?_, fun hret => ?_⟩
  · obtain ⟨e, he, hthread, hle, hid, name, hvalue, hcall, hnamed⟩ := hevent hi hret
    refine ⟨?_, ⟨name, hnamed, hvalue⟩, fun j username' c' hij hj hret' => ?_⟩
    · by_contra hold
      have hlt := hs.fresh hold
      omega
    obtain ⟨e', he', hthread', -, hid', name', hvalue', hcall', hnamed'⟩ := hevent hj hret'
    have hne : c ≠ c' := by
      rw [hid, hid']
      intro heq
      obtain rfl := draws_once h he he' (by rw [hcall]; exact Nat.lt_succ_self _)
        (by rw [hcall']; exact Nat.lt_succ_self _) (congrArg StrongId.value heq)
      exact hij (hthread'.symm.trans hthread)
    refine ⟨hne, fun hsame => ?_⟩
    by_contra hlive
    obtain ⟨hc, hc'⟩ := not_or.1 hlive
    obtain ⟨cs, hcs⟩ := Option.ne_none_iff_exists'.1 hc
    obtain ⟨cs', hcs'⟩ := Option.ne_none_iff_exists'.1 hc'
    have hname := (hend.named hcs).symm.trans hnamed
    have hname' := (hend.named hcs').symm.trans hnamed'
    refine hne (hend.unique hcs hcs' ?_)
    rw [Option.some.inj hname, Option.some.inj hname', hvalue, hvalue', hsame]
  · obtain ⟨⟨name, hvalue, hmem⟩, hnone⟩ := (naming_of h hret).notConnected hi rfl
    obtain ⟨e, he, -, -, herr⟩ := Monitor.mem_transcript hmem
    obtain ⟨tr₁, tr₂, rfl⟩ := List.append_of_mem he
    have htaken : ∃ c, e.pre.state.ownerOf name.value = some c := by
      rcases register_name e.pre.state name with ⟨c, hc, -⟩ | ⟨-, hok, -⟩
      · exact ⟨c, hc⟩
      · cases hok.symm.trans herr
    obtain ⟨c, hc⟩ := htaken
    obtain ⟨cs, hcs, hname⟩ := (registered_run h.at_event.1 hs).owner.1 hc
    rcases live_since h.at_event.1 (by rw [hcs]; rfl) with hold | ⟨e', he', hcall', cs', hok⟩
    · obtain ⟨cs₀, hcs₀, hsame⟩ := Option.map_eq_some_iff.1 hold
      exact .inl ⟨c, cs₀, hcs₀, by rw [hsame, hname, hvalue]⟩
    · have hmem' : e' ∈ tr₁ ++ e :: tr₂ := List.mem_append_left _ he'
      have htakes := takes_of h hmem'
      rw [hcall'] at htakes
      obtain ⟨username', hj, hvalue'⟩ := htakes
      have hdone := done_of requests hmem' hcall' hok
      refine .inr ⟨e'.thread, username', fun heq => ?_, hj, ?_, _, cs', hdone⟩
      · rw [heq] at hdone
        exact hnone _ _ hdone
      · rw [← hvalue', hname, hvalue]

end

/-! ### Two clients want one name -/

/-- Two want the channel `games`, and two the name `carol`. -/
def contending : Bool × Bool → Request
  | (true, true) => .createChannel (ascii "00000000-0000-0000-0000-000000000002") (ascii "games")
  | (true, false) => .createChannel (ascii "00000000-0000-0000-0000-000000000003") (ascii " games")
  | (false, true) => .connect (ascii "carol")
  | (false, false) => .connect (ascii " carol ")

def contended := schedule ports (serving .canonical (fun _ => .byId) contending twoConnected.server)
  [(true, false), (true, true), (false, true), (true, true), (true, false), (false, false), (true, true)]

theorem contended_run : Run ports Env (serving .canonical (fun _ => .byId) contending twoConnected.server)
    contended.1 contended.2 := run_schedule ..

theorem creations_race_contended :
    (∃ ch, contended.2.state.channel ⟨5⟩ = some ch ∧ ch.name.value = ascii "games") ∧
    ((∃ k ch, twoConnected.server.channel k = some ch ∧ ch.name.value = trim (ascii " games")) ∨
      ∃ i clientId channelName, i ≠ (true, false) ∧ contending i = .createChannel clientId channelName) := by
  have hwon : contended.2.threads (true, true) = .ret (.created (.ok (⟨5⟩, ascii "games"))) := by rfl
  have hlost : contended.2.threads (true, false) =
      .ret (.created (.error (errorToStatus .channelAlreadyExists))) := by rfl
  refine ⟨((creations_race twoConnected_reached contended_run rfl).1 ⟨5⟩ _ hwon).2.2.1, ?_⟩
  obtain hstart | ⟨i, clientId, channelName, hne, hi, -⟩ :=
    (creations_race twoConnected_reached contended_run (i := (true, false)) rfl).2 hlost
  · exact .inl hstart
  · exact .inr ⟨i, clientId, channelName, hne, hi⟩

theorem connections_race_contended : (∃ name, contended.2.state.nameGiven ⟨4⟩ = some name ∧
      name.value = trim (ascii "carol")) ∧
    ((∃ c cs, twoConnected.server.session c = some cs ∧ cs.username.value = trim (ascii " carol ")) ∨
      ∃ i username, i ≠ (false, false) ∧ contending i = .connect username) := by
  have hwon : contended.2.threads (false, true) = .ret (.connected (.ok ⟨4⟩)) := by rfl
  have hlost : contended.2.threads (false, false) =
      .ret (.connected (.error (errorToStatus .clientAlreadyExists))) := by rfl
  refine ⟨((connections_race twoConnected_reached contended_run rfl).1 ⟨4⟩ hwon).2.1, ?_⟩
  obtain hstart | ⟨i, username, hne, hi, -⟩ :=
    (connections_race twoConnected_reached contended_run (i := (false, false)) rfl).2 hlost
  · exact .inl hstart
  · exact .inr ⟨i, username, hne, hi⟩

end Bcmd
