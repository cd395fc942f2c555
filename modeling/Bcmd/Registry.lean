import Bcmd.Operations

/-!
# The three maps of the client registry

`clients_by_id_` and `username_to_id_` are inverse to each other, whatever runs beside whatever, and
`historical_usernames_` keeps the name of every session there ever was. The heartbeat of a live session is
the time of its last registration or touch in the trace.
-/

namespace Bcmd
open Server

namespace Server

/-- The id that `username_to_id_` has for the name. -/
def ownerOf (s : Server) (name : Bytes) : Option ClientId := s.clients.usernameToId.lookup name

/-- The name that the history has for the client. -/
def nameGiven (s : Server) (c : ClientId) : Option Username := s.clients.historicalUsernames.lookup c

/-- The maps agree, and the next id has not been given to a client yet. -/
structure Registered (s : Server) : Prop where
  owner : ∀ {u c}, s.ownerOf u = some c ↔ ∃ cs, s.session c = some cs ∧ cs.username.value = u
  named : ∀ {c cs}, s.session c = some cs → s.nameGiven c = some cs.username
  fresh : ∀ {c}, s.nameGiven c ≠ none → c.value < s.nextUuid

variable {s s' : Server} {c d : ClientId} {cs cs' : ClientSession} {u : Bytes} {o : Call}

theorem lookupUsername_of_nameGiven {name : Username} (h : s.nameGiven c = some name) :
    s.clients.lookupUsername c = .ok name := by
  unfold InMemoryClientRegistry.lookupUsername
  rw [show s.clients.historicalUsernames.lookup c = some name from h]

theorem username_injective {name name' : Username} (h : name.value = name'.value) : name = name' := by
  cases name; cases name'; cases h; rfl

namespace Registered

/-- No two live sessions have one name. -/
theorem unique (h : s.Registered) (hc : s.session c = some cs) (hd : s.session d = some cs')
    (hname : cs.username.value = cs'.username.value) : c = d := by
  have howner := h.owner.2 ⟨cs, hc, hname⟩
  rw [h.owner.2 ⟨cs', hd, rfl⟩] at howner
  exact (Option.some.inj howner).symm

/-- A name is free exactly when no live session has it. -/
theorem free_iff (h : s.Registered) : s.ownerOf u = none ↔ ∀ c cs, s.session c = some cs →
    cs.username.value ≠ u := by
  constructor
  · intro hfree c cs hcs hname
    rw [h.owner.2 ⟨cs, hcs, hname⟩] at hfree
    cases hfree
  · intro hno
    rcases howner : s.ownerOf u with _ | c
    · rfl
    · obtain ⟨cs, hcs, hname⟩ := h.owner.1 howner
      exact absurd hname (hno c cs hcs)

theorem findByUsername_iff (h : s.Registered) {name : Username} :
    s.clients.findByUsername name = .ok cs ↔ s.session cs.id = some cs ∧ cs.username = name := by
  have hfind : s.clients.findByUsername name = .ok cs ↔ ∃ c, s.ownerOf name.value = some c ∧
      s.session c = some cs := by
    unfold InMemoryClientRegistry.findByUsername ownerOf
    rcases s.clients.usernameToId.lookup name.value with _ | c
    · simp
    · simp [InMemoryClientRegistry.findById_ok, session]
  rw [hfind]
  constructor
  · rintro ⟨c, howner, hcs⟩
    obtain ⟨cs', hcs', hname⟩ := h.owner.1 howner
    rw [hcs] at hcs'
    cases hcs'
    rw [id_of_session hcs]
    exact ⟨hcs, username_injective hname⟩
  · rintro ⟨hcs, rfl⟩
    exact ⟨cs.id, h.owner.2 ⟨cs, hcs, rfl⟩, hcs⟩

/-- Where the registry is as it was, or as good as, and no id is given back. -/
theorem congr (h : s.Registered)
    (hs : ∀ c, (s'.session c).map ClientSession.username = (s.session c).map ClientSession.username)
    (hu : ∀ u, s'.ownerOf u = s.ownerOf u) (hn : ∀ c, s'.nameGiven c = s.nameGiven c)
    (hid : s.nextUuid ≤ s'.nextUuid) :
    s'.Registered := by
  have hsame : ∀ {c : ClientId} {name : Username}, (∃ cs, s'.session c = some cs ∧ cs.username = name) ↔
      ∃ cs, s.session c = some cs ∧ cs.username = name := by
    intro c name
    rw [← Option.map_eq_some_iff, ← Option.map_eq_some_iff, hs]
  refine ⟨fun {u c} => ?_, fun {c cs} hcs => ?_, fun {c} hc => ?_⟩
  · rw [hu, h.owner]
    constructor
    · rintro ⟨cs, hcs, rfl⟩
      obtain ⟨cs', hcs', hname⟩ := hsame.2 ⟨cs, hcs, rfl⟩
      exact ⟨cs', hcs', by rw [hname]⟩
    · rintro ⟨cs, hcs, rfl⟩
      obtain ⟨cs', hcs', hname⟩ := hsame.1 ⟨cs, hcs, rfl⟩
      exact ⟨cs', hcs', by rw [hname]⟩
  · obtain ⟨cs', hcs', hname⟩ := hsame.1 ⟨cs, hcs, rfl⟩
    rw [hn, h.named hcs', hname]
  · rw [hn] at hc
    exact lt_of_lt_of_le (h.fresh hc) hid

end Registered

/-! ### The calls -/

/-- A registration stores the session and both its names, or finds its name taken and changes nothing. -/
theorem register_name (s : Server) (name : Username) :
    (∃ c, s.ownerOf name.value = some c ∧
      (handle (.clients (.registerClient name)) s).1 = .error .clientAlreadyExists ∧
      (handle (.clients (.registerClient name)) s).2 = { s with nextUuid := s.nextUuid + 1 }) ∨
    s.ownerOf name.value = none ∧
      (handle (.clients (.registerClient name)) s).1 = .ok (.new ⟨s.nextUuid⟩ name s.steadyNow) ∧
      (∀ c, (handle (.clients (.registerClient name)) s).2.session c =
        if c = ⟨s.nextUuid⟩ ∧ s.session c = none then some (.new ⟨s.nextUuid⟩ name s.steadyNow) else
          s.session c) ∧
      (∀ u, (handle (.clients (.registerClient name)) s).2.ownerOf u =
        if u = name.value then some ⟨s.nextUuid⟩ else s.ownerOf u) ∧
      ∀ c, (handle (.clients (.registerClient name)) s).2.nameGiven c =
        if c = ⟨s.nextUuid⟩ then some name else s.nameGiven c := by
  rcases howner : s.ownerOf name.value with _ | c
  · right
    have hregister : s.clients.registerClient
      ⟨s.nextUuid⟩ s.steadyNow name = (.ok (.new ⟨s.nextUuid⟩ name s.steadyNow),
        ⟨s.clients.clientsById.emplace (.new ⟨s.nextUuid⟩ name s.steadyNow),
          s.clients.usernameToId.insert name.value ⟨s.nextUuid⟩, s.clients.historicalUsernames.insert
            ⟨s.nextUuid⟩ name⟩) := by
      unfold InMemoryClientRegistry.registerClient
      rw [show s.clients.usernameToId.lookup name.value = none from howner]
      rfl
    refine ⟨rfl, congrArg Prod.fst hregister, fun c => ?_, fun u => ?_, fun c => ?_⟩
    · show (s.clients.registerClient ⟨s.nextUuid⟩ s.steadyNow name).2.clientsById.find c = _
      rw [hregister]
      exact Keyed.find_emplace ..
    · show (s.clients.registerClient ⟨s.nextUuid⟩ s.steadyNow name).2.usernameToId.lookup u = _
      rw [hregister]
      split
      · subst ‹u = _›
        exact Finmap.lookup_insert _
      · exact Finmap.lookup_insert_of_ne _ ‹u ≠ _›
    · show (s.clients.registerClient ⟨s.nextUuid⟩ s.steadyNow name).2.historicalUsernames.lookup c = _
      rw [hregister]
      split
      · subst ‹c = _›
        exact Finmap.lookup_insert _
      · exact Finmap.lookup_insert_of_ne _ ‹c ≠ _›
  · left
    have hregister : s.clients.registerClient
        ⟨s.nextUuid⟩ s.steadyNow name = (.error .clientAlreadyExists, s.clients) := by
      unfold InMemoryClientRegistry.registerClient
      rw [show s.clients.usernameToId.lookup name.value = some c from howner]
    refine ⟨c, rfl, congrArg Prod.fst hregister, ?_⟩
    show { s with
      clients := (s.clients.registerClient ⟨s.nextUuid⟩ s.steadyNow name).2, nextUuid := s.nextUuid + 1 } = _
    rw [hregister]

theorem ownerOf_remove (s : Server) (c : ClientId) (u : Bytes) :
    (handle (.clients (.remove c)) s).2.ownerOf u =
      if (s.session c).map (·.username.value) = some u then none else s.ownerOf u := by
  show (s.clients.remove c).2.usernameToId.lookup u = _
  unfold InMemoryClientRegistry.remove
  rcases hcs : s.session c with _ | cs
  · rw [show s.clients.clientsById.find c = none from hcs]
    simp [ownerOf]
  · rw [show s.clients.clientsById.find c = some cs from hcs]
    by_cases hu : u = cs.username.value
    · subst hu
      simp
    · have hne : ¬ (some cs).map (·.username.value) = some u := fun h => hu (Option.some.inj h).symm
      rw [if_neg hne]
      exact Finmap.lookup_erase_ne hu

theorem nameGiven_remove (s : Server) (c d : ClientId) :
    (handle (.clients (.remove c)) s).2.nameGiven d = s.nameGiven d := by
  show (s.clients.remove c).2.historicalUsernames.lookup d = _
  unfold InMemoryClientRegistry.remove
  split <;> rfl

/-- Only a registration and a removal change the maps by name. -/
theorem names_handle (hr : ∀ name, o ≠ .clients (.registerClient name))
    (hd : ∀ c, o ≠ .clients (.remove c)) (s : Server) :
    (∀ u, (handle o s).2.ownerOf u = s.ownerOf u) ∧ (∀ c, (handle o s).2.nameGiven c = s.nameGiven c) ∧
      ∀ c, ((handle o s).2.session c).map ClientSession.username =
        (s.session c).map ClientSession.username := by
  have hmodify : ∀ (d : ClientId) (f : ClientSession → ClientSession), (∀ cs, (f cs).id = cs.id) →
      (∀ cs, (f cs).username = cs.username) → ∀ s' : Server, s'.clients = (s.clients.modify d f).2 →
      (∀ u, s'.ownerOf u = s.ownerOf u) ∧ (∀ c, s'.nameGiven c = s.nameGiven c) ∧
        ∀ c, (s'.session c).map ClientSession.username = (s.session c).map ClientSession.username := by
    intro d f hid hf s' hs'
    have hnames : (s.clients.modify d f).2.usernameToId = s.clients.usernameToId ∧
        (s.clients.modify d f).2.historicalUsernames = s.clients.historicalUsernames := by
      unfold InMemoryClientRegistry.modify
      split <;> exact ⟨rfl, rfl⟩
    refine ⟨fun u => ?_, fun c => ?_, fun c => ?_⟩
    · rw [ownerOf, hs', hnames.1]
      rfl
    · rw [nameGiven, hs', hnames.2]
      rfl
    · rw [session, hs', InMemoryClientRegistry.find_modify hid]
      split
      · rw [Option.map_map, show ClientSession.username ∘ f = ClientSession.username from funext hf]
        rfl
      · rfl
  have hsame : ∀ s' : Server, s'.clients = s.clients → (∀ u, s'.ownerOf u = s.ownerOf u) ∧
      (∀ c, s'.nameGiven c = s.nameGiven c) ∧
      ∀ c, (s'.session c).map ClientSession.username = (s.session c).map ClientSession.username := by
    intro s' hs'
    refine ⟨fun u => ?_, fun c => ?_, fun c => ?_⟩
    · rw [ownerOf, hs']; rfl
    · rw [nameGiven, hs']; rfl
    · rw [session, hs']; rfl
  rcases o with o | (_ | _ | name | c | c | ⟨c, k⟩ | ⟨c, k⟩ | _) | o | o | o | _ | _
  case channels => exact hsame _ (handle_channels_clients s o)
  case messages => exact hsame _ (handle_messages_clients s o)
  case clients.registerClient => exact absurd rfl (hr name)
  case clients.remove => exact absurd rfl (hd c)
  case clients.touchHeartbeat => exact hmodify c (·.touch s.steadyNow) (fun _ => rfl) (fun _ => rfl) _ rfl
  case clients.joinChannelAtomic => exact hmodify c (·.joinChannel k) (fun _ => rfl) (fun _ => rfl) _ rfl
  case clients.leaveChannelAtomic => exact hmodify c (·.leaveChannel k) (fun _ => rfl) (fun _ => rfl) _ rfl
  all_goals exact hsame _ rfl

/-! ### Any call -/

namespace Registered

theorem env (h : s.Registered) (he : Env s s') : s'.Registered := by
  refine h.congr (fun c => ?_) (fun u => ?_) (fun c => ?_) he.nextUuid
  · rw [session, he.clients]; rfl
  · rw [ownerOf, he.clients]; rfl
  · rw [nameGiven, he.clients]; rfl

theorem register (h : s.Registered) (name : Username) :
    (handle (.clients (.registerClient name)) s).2.Registered := by
  rcases register_name s name with ⟨c, -, -, hs⟩ | ⟨hfree, -, hsession, howner, hnamed⟩
  · rw [hs]
    exact h.congr (fun _ => rfl) (fun _ => rfl) (fun _ => rfl) (Nat.le_succ _)
  · generalize hs' : (handle (.clients (.registerClient name)) s).2 = s' at hsession howner hnamed
    have hid : s'.nextUuid = s.nextUuid + 1 := by rw [← hs']; rfl
    have hnone : s.session ⟨s.nextUuid⟩ = none := by
      rcases hcs : s.session ⟨s.nextUuid⟩ with _ | cs
      · rfl
      · have hlt := h.fresh (by rw [h.named hcs]; nofun)
        exact absurd hlt (Nat.lt_irrefl _)
    have hnew : s'.session ⟨s.nextUuid⟩ = some (.new ⟨s.nextUuid⟩ name s.steadyNow) := by
      rw [hsession, if_pos ⟨rfl, hnone⟩]
    have hold : ∀ {c}, c ≠ ⟨s.nextUuid⟩ → s'.session c = s.session c :=
      fun hc => by rw [hsession, if_neg fun h => hc h.1]
    refine ⟨fun {u c} => ?_, fun {c cs} hcs => ?_, fun {c} hc => ?_⟩
    · rw [howner]
      by_cases hu : u = name.value
      · subst hu
        rw [if_pos rfl]
        constructor
        · intro hc
          cases hc
          exact ⟨_, hnew, rfl⟩
        · rintro ⟨cs, hcs, hname⟩
          by_cases hc : c = ⟨s.nextUuid⟩
          · rw [hc]
          · rw [hold hc] at hcs
            exact absurd hname (h.free_iff.1 hfree c cs hcs)
      · rw [if_neg hu, h.owner]
        by_cases hc : c = ⟨s.nextUuid⟩
        · subst hc
          rw [hnew, hnone]
          constructor
          · rintro ⟨cs, hcs, -⟩
            cases hcs
          · rintro ⟨cs, hcs, hname⟩
            cases hcs
            exact absurd hname.symm hu
        · rw [hold hc]
    · rw [hnamed]
      by_cases hc : c = ⟨s.nextUuid⟩
      · subst hc
        rw [hnew] at hcs
        cases hcs
        exact if_pos rfl
      · rw [hold hc] at hcs
        rw [if_neg hc, h.named hcs]
    · rw [hid]
      rw [hnamed] at hc
      by_cases hc' : c = ⟨s.nextUuid⟩
      · rw [hc']
        exact Nat.lt_succ_self _
      · rw [if_neg hc'] at hc
        exact Nat.lt_succ_of_lt (h.fresh hc)

theorem remove (h : s.Registered) (c : ClientId) : (handle (.clients (.remove c)) s).2.Registered := by
  have hsession := session_remove s
  generalize hs' : (handle (.clients (.remove c)) s).2 = s'
  have hcs' : ∀ d, s'.session d = if d = c then none else s.session d := fun d => by rw [← hs', hsession]
  have howner : ∀ u, s'.ownerOf u =
      if (s.session c).map (·.username.value) = some u then none else s.ownerOf u := by
    intro u
    rw [← hs', ownerOf_remove]
  refine ⟨fun {u d} => ?_, fun {d cs} hcs => ?_, fun {d} hd => ?_⟩
  · rw [howner, hcs']
    by_cases hd : d = c
    · subst hd
      rw [if_pos rfl]
      constructor
      · intro hu
        split at hu
        · cases hu
        · exact absurd (Option.map_eq_some_iff.2 (h.owner.1 hu)) ‹_›
      · rintro ⟨cs, hcs, -⟩
        cases hcs
    · rw [if_neg hd, ← h.owner]
      split
      · -- the name that became free was another's
        obtain ⟨cs, hcs, hname⟩ := Option.map_eq_some_iff.1 ‹_ = some u›
        constructor
        · nofun
        · intro hu
          obtain ⟨cs', hcs', hname'⟩ := h.owner.1 hu
          exact absurd (h.unique hcs' hcs (hname'.trans hname.symm)) hd
      · exact Iff.rfl
  · rw [hcs'] at hcs
    split at hcs
    · cases hcs
    · rw [← hs', nameGiven_remove]
      exact h.named hcs
  · rw [← hs', nameGiven_remove] at hd
    rw [← hs']
    exact h.fresh hd

theorem handle (h : s.Registered) (o : Call) : (handle o s).2.Registered := by
  by_cases hr : ∃ name, o = .clients (.registerClient name)
  · obtain ⟨name, rfl⟩ := hr
    exact h.register name
  by_cases hd : ∃ c, o = .clients (.remove c)
  · obtain ⟨c, rfl⟩ := hd
    exact h.remove c
  obtain ⟨hu, hn, hs⟩ := names_handle (fun name h => hr ⟨name, h⟩) (fun c h => hd ⟨c, h⟩) s
  exact h.congr hs hu hn (nextUuid_handle o s)

theorem of_empty (h : s.clients = .empty) : s.Registered := by
  have hnone : ∀ c, s.session c = none := fun c => by rw [session, h]; exact Keyed.find_empty c
  have howner : ∀ u, s.ownerOf u = none := fun u => by rw [ownerOf, h]; exact Finmap.lookup_empty u
  have hnamed : ∀ c, s.nameGiven c = none := fun c => by rw [nameGiven, h]; exact Finmap.lookup_empty c
  constructor
  · simp [hnone, howner]
  · simp [hnone]
  · simp [hnamed]

end Registered

theorem nameGiven_env (he : Env s s') {name : Username} (hc : s.nameGiven c = some name) :
    s'.nameGiven c = some name := by
  rwa [nameGiven, he.clients]

/-- A name once given is kept for ever. -/
theorem nameGiven_handle (h : s.Registered) {name : Username} (hc : s.nameGiven c = some name) (o : Call) :
    (Server.handle o s).2.nameGiven c = some name := by
  by_cases hr : ∃ name', o = .clients (.registerClient name')
  · obtain ⟨name', rfl⟩ := hr
    rcases register_name s name' with ⟨-, -, -, hs⟩ | ⟨-, -, -, -, hnamed⟩
    · rw [hs]
      exact hc
    · have hlt := h.fresh (by rw [hc]; nofun)
      rw [hnamed, if_neg (by rintro rfl; exact Nat.lt_irrefl _ hlt), hc]
  by_cases hd : ∃ c', o = .clients (.remove c')
  · obtain ⟨c', rfl⟩ := hd
    rw [nameGiven_remove, hc]
  · rw [(names_handle (fun name h => hr ⟨name, h⟩) (fun c h => hd ⟨c, h⟩) s).2.1, hc]

/-- The sessions determine the index of their usernames. -/
theorem clients_ext {s₁ s₂ : Server} (h₁ : s₁.Registered) (h₂ : s₂.Registered)
    (h : ∀ c, s₁.session c = s₂.session c) (hgiven : ∀ c, s₁.nameGiven c = s₂.nameGiven c) :
    s₁.clients = s₂.clients := by
  have hindex : s₁.clients.usernameToId = s₂.clients.usernameToId := by
    refine Finmap.ext_lookup fun u => Option.ext fun c => ?_
    show s₁.ownerOf u = some c ↔ s₂.ownerOf u = some c
    rw [h₁.owner, h₂.owner, h c]
  have htable : s₁.clients.clientsById = s₂.clients.clientsById := Keyed.ext_find h
  have hnames : s₁.clients.historicalUsernames = s₂.clients.historicalUsernames := Finmap.ext_lookup hgiven
  rcases hc₁ : s₁.clients with ⟨t₁, u₁, n₁⟩
  rcases hc₂ : s₂.clients with ⟨t₂, u₂, n₂⟩
  rw [hc₁, hc₂] at hindex htable hnames
  cases hindex
  cases htable
  cases hnames
  rfl

end Server

/-! ### Operations one after the other -/

section
variable {uuid : UuidLib} {historyCap : UInt32} {systemNow steadyNow : Int} {host host' : Host} {c : ClientId}

theorem registered_reached (h : Host.Reached uuid (.initial historyCap systemNow steadyNow) host) :
    host.server.Registered :=
  h.server_inv (fun o _ hs => hs.handle o) (fun _ _ he hs => hs.env he) (.of_empty (Host.initial_clients ..))

theorem nameGiven_reached (h : Host.Reached uuid host host') (hs : host.server.Registered) {name : Username}
    (hc : host.server.nameGiven c = some name) : host'.server.nameGiven c = some name :=
  (h.server_inv (I := fun s => s.Registered ∧ s.nameGiven c = some name)
    (fun o _ hs => ⟨hs.1.handle o, nameGiven_handle hs.1 hs.2 o⟩)
      (fun _ _ he hs => ⟨hs.1.env he, nameGiven_env he hs.2⟩)
    ⟨hs, hc⟩).2

/-- Only a Connect gives names. -/
theorem nameGiven_step {order : BucketOrder} {op : Operation} (hop : ∀ username, op ≠ .connect username)
    (c : ClientId) :
    (host.step uuid order op).server.nameGiven c = host.server.nameGiven c := by
  refine Host.step_may (I := fun s => s.nameGiven c = host.server.nameGiven c) (fun o s ho hs => ?_)
    (fun s s' he hs => ?_) rfl
  · by_cases hd : ∃ c', o = .clients (.remove c')
    · obtain ⟨c', rfl⟩ := hd
      rw [nameGiven_remove, hs]
    · refine Eq.trans ((names_handle ?_ (fun c h => hd ⟨c, h⟩) s).2.1 c) hs
      rintro name rfl
      obtain ⟨username, hconnect⟩ := ho
      exact hop username hconnect
  · rw [nameGiven, he.clients]
    exact hs

end

/-! ### Runs -/

section
variable {ι α : Type} [DecidableEq ι] {start m final : Config Server ι Call Call.Res α}
  {tr tr' : List (Event Server ι Call Call.Res α)} {c : ClientId} {cs : ClientSession}

theorem registered_run (h : Run ports Env start tr m) (hs : start.state.Registered) : m.state.Registered :=
  h.state_inv hs (fun _ _ hs he => hs.env he) fun e _ hs _ => hs.handle e.call

theorem nameGiven_run (h : Run ports Env start tr m) (hs : start.state.Registered) {name : Username}
    (hc : start.state.nameGiven c = some name) : m.state.nameGiven c = some name :=
  (h.state_inv (I := fun s => s.Registered ∧ s.nameGiven c = some name) ⟨hs, hc⟩
    (fun _ _ hs he => ⟨hs.1.env he, nameGiven_env he hs.2⟩)
    fun e _ hs _ => ⟨hs.1.handle e.call, nameGiven_handle hs.1 hs.2 e.call⟩).2

/-- A session that nobody removes stays live, under its name. -/
theorem session_run (h : Run ports Env start tr m) (hs : start.state.Registered)
    (hcs : start.state.session c = some cs) (hkept : ∀ e ∈ tr, e.call ≠ .clients (.remove c)) :
    ∃ cs', m.state.session c = some cs' ∧ cs'.username = cs.username := by
  have hinv : m.state.Registered ∧ (m.state.session c).map ClientSession.username = some cs.username := by
    refine h.state_inv
      (I := fun s => s.Registered ∧ (s.session c).map ClientSession.username = some cs.username)
      ⟨hs, by rw [hcs]; rfl⟩ (fun s s' hs he => ⟨hs.1.env he, by rw [session, he.clients]; exact hs.2⟩)
      fun e he hs _ => ?_
    refine ⟨hs.1.handle e.call, ?_⟩
    by_cases hr : ∃ name, e.call = .clients (.registerClient name)
    · obtain ⟨name, ho⟩ := hr
      rw [show ports.handle e.call e.pre.state = Server.handle e.call e.pre.state from rfl, ho]
      rcases register_name e.pre.state name with ⟨-, -, -, hs'⟩ | ⟨-, -, hsession, -⟩
      · rw [hs']
        exact hs.2
      · rw [hsession, if_neg, hs.2]
        rintro ⟨-, hnone⟩
        rw [hnone] at hs
        cases hs.2
    by_cases hd : ∃ d, e.call = .clients (.remove d)
    · obtain ⟨d, ho⟩ := hd
      have hne : c ≠ d := fun heq => hkept e he (by rw [ho, heq])
      rw [show ports.handle e.call e.pre.state = Server.handle e.call e.pre.state from rfl, ho,
        session_remove, if_neg hne, hs.2]
    · exact ((names_handle (fun name h => hr ⟨name, h⟩) (fun c h => hd ⟨c, h⟩) _).2.2 c).trans hs.2
  exact Option.map_eq_some_iff.1 hinv.2

/-! ### Heartbeats -/

/-- The registration or touch of the client that the event is, with its time. -/
def beatOf (c : ClientId) (e : Event Server ι Call Call.Res α) : Option Int :=
  match e.call with
  | .clients (.registerClient name) =>
    if c = ⟨e.pre.state.nextUuid⟩ ∧ e.pre.state.ownerOf name.value = none then some e.pre.state.steadyNow
    else none
  | .clients (.touchHeartbeat d) => if c = d then some e.pre.state.steadyNow else none
  | _ => none

/-- The time of the latest registration or touch of the client in the trace. -/
def lastBeat (c : ClientId) (tr : List (Event Server ι Call Call.Res α)) : Option Int :=
  (tr.filterMap (beatOf c)).getLast?

omit [DecidableEq ι] in
theorem lastBeat_snoc (c : ClientId) (tr : List (Event Server ι Call Call.Res α))
    (e : Event Server ι Call Call.Res α) :
    lastBeat c (tr ++ [e]) = (beatOf c e).or (lastBeat c tr) := by
  unfold lastBeat
  rcases hb : beatOf c e with _ | n <;> simp [List.filterMap_append, hb]

omit [DecidableEq ι] in
/-- After an event a live session has the time of the event, if that is a beat of its, or the time it
had. -/
theorem beat_step {e : Event Server ι Call Call.Res α} (hs : e.pre.state.Registered)
    (hcs : (handle e.call e.pre.state).2.session c = some cs) :
    beatOf c e = some cs.lastHeartbeatAt ∨
      beatOf c e = none ∧ ∃ old, e.pre.state.session c = some old ∧
        old.lastHeartbeatAt = cs.lastHeartbeatAt := by
  obtain ⟨pre, i, o⟩ := e
  have hsame : (handle o pre.state).2.session c = pre.state.session c → beatOf c ⟨pre, i, o⟩ = none →
      beatOf c ⟨pre, i, o⟩ = some cs.lastHeartbeatAt ∨ beatOf c ⟨pre, i, o⟩ = none ∧
        ∃ old, pre.state.session c = some old ∧ old.lastHeartbeatAt = cs.lastHeartbeatAt := by
    intro hold hno
    exact .inr ⟨hno, cs, by rw [← hold]; exact hcs, rfl⟩
  -- a change in place of the session of `d` that keeps its time
  have hmodify : ∀ (d : ClientId) (f : ClientSession → ClientSession),
    (∀ cs, (f cs).lastHeartbeatAt = cs.lastHeartbeatAt) →
      (handle o pre.state).2.session c = (if c = d then
        (pre.state.session c).map f else pre.state.session c) →
      beatOf c ⟨pre, i, o⟩ = none →
      beatOf c ⟨pre, i, o⟩ = some cs.lastHeartbeatAt ∨ beatOf c ⟨pre, i, o⟩ = none ∧
        ∃ old, pre.state.session c = some old ∧ old.lastHeartbeatAt = cs.lastHeartbeatAt := by
    intro d f hf hchange hno
    by_cases hc : c = d
    · have hnew : (pre.state.session c).map f = some cs := by
        rw [← hcs, hchange, if_pos hc]
      obtain ⟨old, hold, rfl⟩ := Option.map_eq_some_iff.1 hnew
      exact .inr ⟨hno, old, hold, (hf old).symm⟩
    · exact hsame (hchange.trans (if_neg hc)) hno
  by_cases ht : touches c o
  · rcases o with o | (_ | _ | name | d | d | ⟨d, k⟩ | ⟨d, k⟩ | _) | o | o | o | _ | _
    case clients.registerClient =>
      rcases register_name pre.state name with ⟨d, hd, -, hs'⟩ | ⟨hfree, -, hsession, -⟩
      · refine hsame (by rw [hs']; rfl) ?_
        simp [beatOf, hd]
      · by_cases hnew : c = ⟨pre.state.nextUuid⟩ ∧ pre.state.session c = none
        · rw [hsession, if_pos hnew] at hcs
          cases hcs
          exact .inl (by simp [beatOf, hnew.1, hfree, ClientSession.new])
        · have hold : (handle (.clients (.registerClient name)) pre.state).2.session c =
              pre.state.session c := by
            rw [hsession, if_neg hnew]
          refine hsame hold ?_
          have hne : c ≠ ⟨pre.state.nextUuid⟩ := by
            rintro rfl
            have hlive := hold.symm.trans hcs
            exact absurd (hs.fresh (by rw [hs.named hlive]; nofun)) (Nat.lt_irrefl _)
          simp [beatOf, hne]
    case clients.touchHeartbeat =>
      have hc : c = d := ht.symm
      rw [session_touchHeartbeat, if_pos hc] at hcs
      obtain ⟨old, -, rfl⟩ := Option.map_eq_some_iff.1 hcs
      exact .inl (by simp [beatOf, hc, ClientSession.touch])
    case clients.remove =>
      rw [session_remove, if_pos ht.symm] at hcs
      cases hcs
    case clients.joinChannelAtomic =>
      exact hmodify d (·.joinChannel k) (fun _ => rfl) (session_joinChannelAtomic ..) rfl
    case clients.leaveChannelAtomic =>
      exact hmodify d (·.leaveChannel k) (fun _ => rfl) (session_leaveChannelAtomic ..) rfl
    all_goals exact ht.elim
  · refine hsame (session_handle o ht pre.state) ?_
    rcases o with o | (_ | _ | _ | d | d | _ | _ | _) | o | o | o | _ | _
    case clients.registerClient => exact absurd trivial ht
    case clients.touchHeartbeat => exact if_neg (Ne.symm ht)
    all_goals rfl

theorem lastBeat_run (h : Run ports Env start tr m) (hempty : start.state.clients = .empty)
    (hcs : m.state.session c = some cs) : lastBeat c tr = some cs.lastHeartbeatAt := by
  have hinv : m.state.Registered ∧ ∀ c cs, m.state.session c = some cs →
      lastBeat c tr = some cs.lastHeartbeatAt := by
    refine h.trace_inv (I := fun tr m => m.state.Registered ∧
      ∀ c cs, m.state.session c = some cs → lastBeat c tr = some cs.lastHeartbeatAt)
        ⟨.of_empty hempty, fun c cs hcs => ?_⟩
      (fun tr₁ m s' _ hI he => ⟨hI.1.env he, fun c cs hcs => ?_⟩) fun tr₁ m i o _ hn _ hI =>
        ⟨?_, fun c cs hcs => ?_⟩
    · rw [session, hempty] at hcs
      cases (Keyed.find_empty c).symm.trans hcs
    · have hsame : m.state.session c = some cs := by rwa [session, he.clients] at hcs
      exact hI.2 c cs hsame
    · rw [Config.advance_state hn]
      exact hI.1.handle o
    · rw [Config.advance_state hn] at hcs
      rw [lastBeat_snoc]
      rcases beat_step (e := ⟨m, i, o⟩) hI.1 hcs with hb | ⟨hb, old, hold, htime⟩
      · rw [hb, Option.some_or]
      · rw [hb, Option.none_or, hI.2 c old hold, htime]
  exact hinv.2 c cs hcs

/-- The registry after any calls in any order: the maps by id and by name are inverse to each other, no
two live sessions share a name, a name can be registered exactly when no live session has it, it is free
right after the removal of its session and taken as long as that is not removed, the name of a
registration is found ever after, and a live session's heartbeat is its latest registration or touch. -/
theorem registry_kept (h : Run ports Env start tr m) (hempty : start.state.clients = .empty) :
    (∀ u c, m.state.ownerOf u = some c ↔ ∃ cs, m.state.session c = some cs ∧ cs.username.value = u) ∧
      (∀ c d cs cs', m.state.session c = some cs → m.state.session d = some cs' →
        cs.username = cs'.username → c = d) ∧
      (∀ name, (∃ cs, (handle (.clients (.registerClient name)) m.state).1 = .ok cs) ↔
        ∀ c cs, m.state.session c = some cs → cs.username ≠ name) ∧
      (∀ c cs, m.state.session c = some cs →
        (handle (.clients (.remove c)) m.state).2.ownerOf cs.username.value = none ∧
          ∀ tr' final, Run ports Env m tr' final → (∀ e ∈ tr', e.call ≠ .clients (.remove c)) →
            final.state.ownerOf cs.username.value = some c) ∧
      (∀ e ∈ tr, ∀ name cs, e.call = .clients (.registerClient name) →
        (handle (.clients (.registerClient name)) e.pre.state).1 = .ok cs →
          m.state.clients.lookupUsername cs.id = .ok name) ∧
      ∀ c cs, m.state.session c = some cs → lastBeat c tr = some cs.lastHeartbeatAt := by
  have hm := registered_run h (.of_empty hempty)
  refine ⟨fun u c => hm.owner, fun c d cs cs' hc hd hname => hm.unique hc hd (by rw [hname]), fun name => ?_,
    fun c cs hcs => ⟨?_, fun tr' final h' hkept => ?_⟩, fun e he name cs ho hok => ?_, fun c cs hcs =>
      lastBeat_run h hempty hcs⟩
  · have hfree : m.state.ownerOf name.value = none ↔ ∀ c cs, m.state.session c = some cs →
        cs.username ≠ name := by
      rw [hm.free_iff]
      refine forall₃_congr fun c cs _ => not_congr ⟨username_injective, fun hname => by rw [hname]⟩
    rw [← hfree]
    rcases register_name m.state name with ⟨c, hc, herr, -⟩ | ⟨hnone, hok, -⟩
    · rw [hc, herr]
      simp
    · rw [hnone, hok]
      simp
  · rw [ownerOf_remove, hcs]
    exact if_pos rfl
  · obtain ⟨cs', hcs', hname⟩ := session_run h' hm hcs hkept
    exact (registered_run h' hm).owner.2 ⟨cs', hcs', by rw [hname]⟩
  · obtain ⟨tr₁, tr₂, rfl⟩ := List.append_of_mem he
    obtain ⟨h₁, hn, -, h₂⟩ := h.at_event
    have hpre := registered_run h₁ (.of_empty hempty)
    have hstate := Config.advance_state (M := ports) hn
    rw [ho] at hstate
    rcases register_name e.pre.state name with ⟨d, -, herr, -⟩ | ⟨-, hnew, -, -, hnamed⟩
    · rw [herr] at hok
      cases hok
    · rw [hnew] at hok
      cases hok
      have hreg : (e.pre.advance ports e.thread).state.Registered := by rw [hstate]; exact hpre.handle _
      refine lookupUsername_of_nameGiven (nameGiven_run h₂ hreg ?_)
      rw [hstate]
      exact (hnamed _).trans (if_pos rfl)

end

/-! A connection and a heartbeat of the client that it makes. -/

def connecting : List (Event Server Bool Call Call.Res (Reply Unit)) × Config Server Bool Call Call.Res
    (Reply Unit) :=
  schedule ports ⟨⟨.empty, .empty, .new 200, .empty, .empty, ∅, 0, 0, 1⟩, fun
    | false => do
      let _ ← BroadcastService.Connect (ascii "ann")
      return .ok ()
    | true => BroadcastService.Heartbeat .canonical (ascii "00000000-0000-0000-0000-000000000001")⟩
      [false, true]

theorem registry_kept_connecting :
    connecting.2.state.ownerOf (ascii "ann") = some ⟨1⟩ ↔
      ∃ cs, connecting.2.state.session ⟨1⟩ = some cs ∧ cs.username.value = ascii "ann" :=
  (registry_kept (run_schedule (E := Env) ..) rfl).1 (ascii "ann") ⟨1⟩

end Bcmd
