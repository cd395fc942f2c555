import Bcmd.MembershipRequest

/-!
# A client is removed while its own requests run

A removal, by `Disconnect` or by an expiry sweep, works from the session as it was at its first call.
From there on it puts the client out of every channel the session names. What stays behind is what a
Join puts in after that call, or had put in before it without a word in the session yet.
-/

namespace Bcmd
open Server

/-- No channel has `c` that did not have it before. -/
def NoGrow (c : ClientId) (s s' : Server) : Prop := ∀ k, c ∈ s'.members k → c ∈ s.members k

/-- What the requests of `c` may do meanwhile: put it out of channels, and keep its session. -/
structure Shrinks (c : ClientId) (s s' : Server) : Prop where
  members : NoGrow c s s'
  session : s.session c ≠ none → s'.session c ≠ none

/-- The call saves a channel that has `c`. -/
def SavesMember (c : ClientId) : Call → Prop
  | .channels (.save ch) => c ∈ ch.members
  | _ => False

instance (c : ClientId) : ∀ o, Decidable (SavesMember c o)
  | .channels (.save ch) => inferInstanceAs (Decidable (c ∈ ch.members))
  | .channels (.findById _) | .channels (.findByName _) | .channels (.listAll _) | .channels (.create _)
  | .clients _ | .messages _ | .publisher _ | .channelList _ | .newMessage _ _ _ | .awaitCancelled _ =>
    inferInstanceAs (Decidable False)

namespace Shrinks
variable {c : ClientId} {s s₁ s' : Server}

theorem refl (s : Server) : Shrinks c s s := ⟨fun _ h => h, fun h => h⟩

theorem trans (h : Shrinks c s s₁) (h' : Shrinks c s₁ s') : Shrinks c s s' :=
  ⟨fun k hk => h.members k (h'.members k hk), fun hs => h'.session (h.session hs)⟩

theorem env (h : Env s s') : Shrinks c s s' where
  members k hk := by rwa [Server.members, Server.channel, h.channels] at hk
  session hs := by rw [Server.session, h.clients]; exact hs

/-- A plain call that saves `c` nowhere. -/
theorem handle {o : Call} (ho : Plain o) (hs : ¬ SavesMember c o) (s : Server) :
    Shrinks c s (handle o s).2 where
  members k hk := by
    by_cases hsave : ∃ ch, o = .channels (.save ch)
    · obtain ⟨ch, rfl⟩ := hsave
      rw [members_save] at hk
      split at hk
      · exact absurd hk hs
      · exact hk
    · rwa [members_handle o fun ch h => hsave ⟨ch, h⟩] at hk
  session h h' := h ((session_eq_none_iff ho s c).1 h')

end Shrinks

section
variable {c : ClientId} {s : Server} {α : Type}

/-- `Safe` for the code of the removal, which no assumption is made about. -/
abbrev Puts (c : ClientId) (Q : α → Server → Prop) (p : Task α) (s : Server) : Prop :=
  Safe ports (Shrinks c) (fun _ _ => True) (fun _ _ => True) Q p s

theorem Puts.ret {Q : α → Server → Prop} {a : α} (h : ∀ s', Shrinks c s s' → Q a s') :
    Puts c Q (.ret a) s := h

theorem Puts.call {Q : α → Server → Prop} {o : Call} {f : o.Res → Task α} (ho : Plain o)
    (hs : ¬ SavesMember c o)
    (h : ∀ s' r, Shrinks c s s' → Puts c Q (f r) s') : Puts c Q (.call o f) s :=
  fun s₁ h₁ => ⟨trivial, fun _ _ => h _ _ (h₁.trans (Shrinks.handle ho hs s₁))⟩

/-- The copy was read after `s`, so what it says of `c` was so in `s`. -/
theorem puts_removeMemberAndBroadcast (cs : ClientSession) (k : ChannelId) :
    Puts c (fun _ s' => Shrinks c s s' ∧ (cs.id = c → c ∉ s'.members k))
      (removeMemberAndBroadcast cs k) s := by
  simp only [removeMemberAndBroadcast, Prog.perform_bind, Prog.pure_eq]
  refine safe_findChannel (fun _ _ => trivial) (fun s₁ h₁ hnone => ?_) fun s₁ ch h₁ hch => ?_
  · refine Puts.ret fun s₂ h₂ => ⟨h₁.trans h₂, fun _ hk => ?_⟩
    have hk₁ := h₂.members k hk
    rw [members_of_none hnone] at hk₁
    exact Finset.notMem_empty c hk₁
  · rcases hr : ch.removeMember cs.id with e | ch'
    · obtain ⟨hnot, rfl⟩ := Channel.removeMember_error.1 hr
      simp only [hr]
      refine Puts.ret fun s₂ h₂ => ⟨h₁.trans h₂, fun hc hk => hnot ?_⟩
      rw [hc, ← members_of_channel hch]
      exact h₂.members k hk
    · obtain ⟨-, rfl⟩ := Channel.removeMember_ok.1 hr
      simp only [hr]
      refine fun s₂ h₂ => ⟨trivial, fun _ _ => ?_⟩
      have hid := id_of_channel hch
      have hsave : ∀ k',
          (handle (.channels (.save { ch with members := ch.members.erase cs.id })) s₂).2.members k' =
            if k' = k then ch.members.erase cs.id else s₂.members k' := fun k' => by rw [members_save, hid]
      have h₃ :
          Shrinks c s (handle (.channels (.save { ch with members := ch.members.erase cs.id })) s₂).2 := by
        refine ⟨fun k' hk' => ?_, fun hs => ?_⟩
        · rw [hsave] at hk'
          split at hk'
          · subst ‹k' = k›
            refine h₁.members k' ?_
            rw [members_of_channel hch]
            exact Finset.mem_of_mem_erase hk'
          · exact (h₁.trans h₂).members k' hk'
        · exact fun hnone => (h₁.trans h₂).session hs
            ((session_eq_none_iff (o := .channels (.save _)) trivial s₂ c).1 hnone)
      refine Puts.call trivial id fun s₄ _ h₄ => Puts.ret fun s₅ h₅ =>
        ⟨h₃.trans (h₄.trans h₅), fun hc hk => ?_⟩
      have hk₃ := (h₄.trans h₅).members k hk
      rw [show (ports.handle _ s₂).2.members k = _ from hsave k, if_pos rfl, hc] at hk₃
      exact Finset.notMem_erase c _ hk₃

/-! ### Disconnect -/

theorem puts_leaveChannel (k : ChannelId) (hs : s.session c ≠ none) :
    Puts c (fun _ s' => Shrinks c s s' ∧ c ∉ s'.members k) (LeaveChannel.execute c k) s := by
  simp only [LeaveChannel.execute, Prog.perform_bind, Prog.pure_eq]
  refine safe_findSession (fun _ _ => trivial) (fun s₁ h₁ hnone => absurd hnone (h₁.session hs))
    fun s₁ cs h₁ hcs => ?_
  refine Safe.bind Shrinks.refl ((puts_removeMemberAndBroadcast cs k).mono ?_)
  rintro r s₂ ⟨h₂, hmem⟩
  have hout : c ∉ s₂.members k := hmem (id_of_session hcs)
  have hret : ∀ (r' : VoidResult) s₃, Shrinks c s₂ s₃ →
      Puts c (fun _ s' => Shrinks c s s' ∧ c ∉ s'.members k) (.ret r' : Task VoidResult) s₃ :=
    fun r' s₃ h₃ => Puts.ret fun s₄ h₄ =>
      ⟨h₁.trans (h₂.trans (h₃.trans h₄)), fun hk => hout ((h₃.trans h₄).members k hk)⟩
  rcases r with e | _
  · exact hret _ s₂ (.refl s₂)
  refine Puts.call trivial id fun s₃ r₃ h₃ => ?_
  rcases tolerate [.clientNotFound] r₃ with e | _
  · exact hret _ s₃ h₃
  refine Puts.call trivial id fun s₄ r₄ h₄ => ?_
  rcases r₄ with e | ch
  · exact hret _ s₄ (h₃.trans h₄)
  · exact Puts.call trivial id fun s₅ _ h₅ => hret _ s₅ (h₃.trans (h₄.trans h₅))

theorem puts_leaveEach (ks : List ChannelId) (hs : s.session c ≠ none) :
    Puts c (fun _ s' => Shrinks c s s' ∧ ∀ k ∈ ks, c ∉ s'.members k) (BroadcastService.leaveEach c ks) s := by
  induction ks generalizing s with
  | nil => exact Puts.ret fun s' h => ⟨h, nofun⟩
  | cons k ks ih =>
    refine Safe.bind Shrinks.refl ((puts_leaveChannel k hs).mono ?_)
    rintro _ s₁ ⟨h₁, hk⟩
    refine (ih (h₁.session hs)).mono ?_
    rintro _ s₂ ⟨h₂, hks⟩
    refine ⟨h₁.trans h₂, fun k' hk' => ?_⟩
    rcases List.mem_cons.1 hk' with rfl | hk'
    · exact fun hm => hk (h₂.members k' hm)
    · exact hks k' hk'

/-! ### The sweep -/

theorem puts_removeFromEach (cs : ClientSession) (ks : List ChannelId) :
    Puts c (fun _ s' => Shrinks c s s' ∧ (cs.id = c → ∀ k ∈ ks, c ∉ s'.members k))
      (ExpireInactiveClients.removeFromEach cs ks) s := by
  induction ks generalizing s with
  | nil => exact Puts.ret fun s' h => ⟨h, nofun⟩
  | cons k ks ih =>
    refine Safe.bind Shrinks.refl ((puts_removeMemberAndBroadcast cs k).mono ?_)
    rintro _ s₁ ⟨h₁, hk⟩
    refine ih.mono ?_
    rintro _ s₂ ⟨h₂, hks⟩
    refine ⟨h₁.trans h₂, fun hc k' hk' => ?_⟩
    rcases List.mem_cons.1 hk' with rfl | hk'
    · exact fun hm => hk hc (h₂.members k' hm)
    · exact hks hc k' hk'

/-- Whom the sweep removes, it has put out of the channels of the session it had collected. -/
theorem puts_expireEach (order : BucketOrder) (count : Nat) (expired : List ClientSession) :
    Puts c (fun _ s' => NoGrow c s s' ∧ ∀ cs ∈ expired, cs.id = c → ∀ k ∈ cs.joinedChannels, c ∉ s'.members k)
      (ExpireInactiveClients.expireEach order count expired) s := by
  induction expired generalizing s count with
  | nil => exact Puts.ret fun s' h => ⟨h.members, nofun⟩
  | cons cs expired ih =>
    simp only [ExpireInactiveClients.expireEach, Prog.perform_bind]
    refine Safe.bind Shrinks.refl ((puts_removeFromEach cs _).mono ?_)
    rintro _ s₁ ⟨h₁, hks⟩
    refine fun s₂ h₂ => ⟨trivial, fun _ _ => ?_⟩
    refine Puts.call trivial id fun s₃ _ h₃ => (ih (count + 1)).mono ?_
    rintro _ s₄ ⟨h₄, hrest⟩
    have hgrow : NoGrow c s₁ s₄ := fun k hk => by
      have hk₂ := h₃.members k (h₄ k hk)
      rw [show (ports.handle _ s₂).2.members k = _ from members_handle
        (.clients (.remove cs.id)) nofun s₂ k] at hk₂
      exact h₂.members k hk₂
    refine ⟨fun k hk => h₁.members k (hgrow k hk), fun cs' hcs' hc k hk => ?_⟩
    rcases List.mem_cons.1 hcs' with rfl | hcs'
    · exact fun hm => hks hc k (by simpa using hk) (hgrow k hm)
    · exact hrest cs' hcs' hc k hk

end

/-! ### The removal among the client's requests -/

inductive Removal
  | disconnect
  | sweep (deadline : Int)

namespace Removal

def task (order : BucketOrder) (c : ClientId) : Removal → Task Unit
  | disconnect => do
    let _ ← BroadcastService.disconnectClient order c
    return ()
  | sweep deadline => do
    let _ ← ExpireInactiveClients.run order deadline
    return ()

/-- `Disconnect` is for `c`; a sweep is a removal of `c` if it collects `c`. -/
def Takes (c : ClientId) (s : Server) : Removal → Prop
  | disconnect => True
  | sweep deadline => ∀ cs, s.session c = some cs → cs.isExpired deadline

end Removal

/-- The removal is the thread `none`, and the requests are the others. -/
def removing {ι : Type} (order : Option ι → BucketOrder) (c : ClientId) (removal : Removal)
    (requests : ι → MembershipRequest) (s : Server) : Config Server (Option ι) Call Call.Res Unit where
  state := s
  threads
    | none => removal.task (order none) c
    | some i => do
      let _ ← (requests i).run (order (some i)) c
      return ()

/-- A run from the first call of the removal on. -/
def fromRemoval {ι : Type} [DecidableEq ι] (tr : List (Event Server (Option ι) Call Call.Res Unit)) :=
  tr.dropWhile (·.thread ≠ none)

/-- The removal is one of `c`. -/
def Collects {ι : Type} [DecidableEq ι] (c : ClientId) (removal : Removal)
    (tr : List (Event Server (Option ι) Call Call.Res Unit)) : Prop :=
  match fromRemoval tr with
  | [] => True
  | e :: _ => removal.Takes c e.pre.state

instance {ι : Type} [DecidableEq ι] (c : ClientId) (tr : List (Event Server (Option ι) Call Call.Res Unit)) :
    Decidable (Collects c .disconnect tr) := by
  unfold Collects
  split <;> exact inferInstanceAs (Decidable True)

/-- When the removal makes its first call, the session names every channel that has `c`, and from then
on no request saves `c` into a channel. -/
def CleanRemoval {ι : Type} [DecidableEq ι] (c : ClientId)
    (tr : List (Event Server (Option ι) Call Call.Res Unit)) : Prop :=
  match fromRemoval tr with
  | [] => True
  | e :: rest => e.pre.state.channelsOf c ⊆ e.pre.state.joined c ∧
      ∀ e' ∈ rest, e'.thread ≠ none → ¬ SavesMember c e'.call

instance {ι : Type} [DecidableEq ι] (c : ClientId) (tr : List (Event Server (Option ι) Call Call.Res Unit)) :
    Decidable (CleanRemoval c tr) := by
  unfold CleanRemoval
  split <;> infer_instance

section
variable {ι : Type} [DecidableEq ι] {order : Option ι → BucketOrder} {c : ClientId} {removal : Removal}
  {requests : ι → MembershipRequest} {s : Server} {tr : List (Event Server (Option ι) Call Call.Res Unit)}
  {final : Config Server (Option ι) Call Call.Res Unit}

/-- The removal goes on from its first call, made in a state in which the sessions speak for `c`. -/
theorem puts_afterFirst (order : BucketOrder) (removal : Removal) {o : Call} {f : o.Res → Task Unit}
    (ho : removal.task order c = .call o f) (htakes : removal.Takes c s)
    (hspeak : s.channelsOf c ⊆ s.joined c) :
    Puts c (fun _ s' => ∀ k, c ∉ s'.members k) (f (handle o s).1) (handle o s).2 := by
  cases removal with
  | disconnect =>
    simp only [Removal.task, BroadcastService.disconnectClient, Prog.perform_bind, Prog.call_bind] at ho
    cases ho
    show Puts c _ (_ >>= _) s
    rcases hr : ((handle (.clients (.findById c)) s).1 : Result ClientSession) with e | cs
    · have hnone : s.session c = none := (InMemoryClientRegistry.findById_error.1 hr).1
      refine Puts.ret fun s' h k hk => ?_
      have hjoined := hspeak (mem_channelsOf.2 (h.members k hk))
      rw [joined_of_none hnone] at hjoined
      exact Finset.notMem_empty k hjoined
    · have hcs : s.session c = some cs := InMemoryClientRegistry.findById_ok.1 hr
      refine Safe.bind Shrinks.refl ?_
      refine Safe.bind Shrinks.refl ((puts_leaveEach _ (by rw [hcs]; exact Option.some_ne_none cs)).mono ?_)
      rintro _ s₁ ⟨h₁, hout⟩
      have hempty : ∀ s₂, NoGrow c s₁ s₂ → ∀ k, c ∉ s₂.members k := fun s₂ hgrow k hk => by
        have hjoined := hspeak (mem_channelsOf.2 (h₁.members k (hgrow k hk)))
        rw [joined_of_session hcs] at hjoined
        exact hout k (by simpa using hjoined) (hgrow k hk)
      -- the rest of the removal touches no member set
      refine fun s₂ h₂ => ⟨trivial, fun _ _ => ?_⟩
      have h₃ : NoGrow c s₁ (handle (.clients (.remove c)) s₂).2 := fun k hk => by
        rw [members_handle (.clients (.remove c)) (by simp)] at hk
        exact h₂.members k hk
      generalize (ports.handle (.clients (.remove c)) s₂).1 = r
      rcases r with e | _
      · exact Puts.ret fun s₄ h₄ => Puts.ret fun s₅ h₅ =>
          hempty s₅ fun k hk => h₃ k (h₄.members k (h₅.members k hk))
      · refine Puts.call trivial id fun s₄ _ h₄ => Puts.ret fun s₅ h₅ => Puts.ret fun s₆ h₆ => ?_
        exact hempty s₆ fun k hk => h₃ k (h₄.members k (h₅.members k (h₆.members k hk)))
  | sweep deadline =>
    simp only [Removal.task, ExpireInactiveClients.run, Prog.perform_bind, Prog.call_bind] at ho
    cases ho
    show Puts c _ (_ >>= _) s
    refine Safe.bind Shrinks.refl ((puts_expireEach order 0 _).mono ?_)
    rintro _ s₁ ⟨hgrow, hout⟩
    refine Puts.ret fun s₂ h₂ k hk => ?_
    have hjoined := hspeak (mem_channelsOf.2 (hgrow k (h₂.members k hk)))
    rcases hcs : s.session c with _ | cs
    · rw [joined_of_none hcs] at hjoined
      exact Finset.notMem_empty k hjoined
    rw [joined_of_session hcs] at hjoined
    have hid := id_of_session hcs
    refine hout cs (InMemoryClientRegistry.mem_collectExpired.2 ⟨?_, ?_⟩) hid k hjoined (h₂.members k hk)
    · rw [hid]; exact hcs
    · simpa [ClientSession.isExpired] using htakes cs hcs

/-- After the first call of the removal, every step of a request is one that `Shrinks` allows. -/
theorem shrinks_request {e : Event Server (Option ι) Call Call.Res Unit}
    (h : Run ports Env (removing order c removal requests s) tr final) (he : e ∈ tr)
    (hthread : e.thread ≠ none) (hsave : ¬ SavesMember c e.call) :
    Shrinks c e.pre.state (handle e.call e.pre.state).2 := by
  obtain ⟨i, hi⟩ := Option.ne_none_iff_exists'.1 hthread
  have hplain : ((removing order c removal requests s).threads (some i)).Calls Plain :=
    .bind ((requests i).plain_run (order (some i)) c) fun _ => trivial
  exact Shrinks.handle ((h.calls hplain).2 e he hi) hsave _

theorem no_ghost_member (h : Run ports Env (removing order c removal requests s) tr final)
    (hret : final.threads none = .ret ()) (hcollects : Collects c removal tr) (hclean : CleanRemoval c tr)
    (k : ChannelId) : c ∉ final.state.members k := by
  -- the run up to the first call of the removal, and from there
  have hcall : ∃ o f, removal.task (order none) c = .call o f := by cases removal <;> exact ⟨_, _, rfl⟩
  obtain ⟨o, f, hof⟩ := hcall
  have hstart : (removing order c removal requests s).threads none = .call o f := hof
  have hmoved : final.threads none ≠ (removing order c removal requests s).threads none := by
    rw [hret, hstart]; nofun
  obtain ⟨tr₁, e, tr₂, rfl, he, htr₁⟩ := h.first_event hmoved
  have hfrom : fromRemoval (tr₁ ++ e :: tr₂) = e :: tr₂ := by
    unfold fromRemoval
    rw [List.dropWhile_append_of_pos fun e' he' => by simpa using htr₁ e' he',
      List.dropWhile_cons_of_neg (by simpa using he)]
  unfold Collects at hcollects
  unfold CleanRemoval at hclean
  rw [hfrom] at hcollects hclean
  obtain ⟨hspeak, hsaves⟩ := hclean
  have hothers : ∀ e' ∈ tr₂, e'.thread ≠ none →
      ports.enabled e'.call e'.pre.state → Shrinks c e'.pre.state (handle e'.call e'.pre.state).2 :=
    fun e' he' hne _ => shrinks_request h (List.mem_append_right _ (List.mem_cons_of_mem e he')) hne
      (hsaves e' he' hne)
  obtain ⟨hpre, -, -, hpost⟩ := h.at_event
  -- from its first call on, the removal is `Puts` among them
  rw [he] at hpost
  have hthread : e.pre.threads none = .call o f := by rw [hpre.threads_eq htr₁, hstart]
  have hputs : Puts c (fun _ s' => ∀ k, c ∉ s'.members k) ((e.pre.advance ports none).threads none)
      (e.pre.advance ports none).state := by
    have hnext : (e.pre.threads none).next = some o := by rw [hthread]; rfl
    rw [Config.advance_threads_self hthread, Config.advance_state hnext]
    exact puts_afterFirst (order none) removal hof hcollects hspeak
  exact Run.safe_ret Shrinks.refl Shrinks.trans (fun _ _ => Shrinks.env) hpost hputs
    (fun _ _ _ => trivial) hothers
    hret k

end

/-! One client and the one channel: it is removed after its Leave, or between the reads and the save of
its Join. -/

/-- `Disconnect` of the client and one request of it, under a schedule. -/
def disconnecting (host : Host) (request : MembershipRequest) (is : List (Option Unit)) :=
  schedule ports (removing (fun _ => .byId) ⟨2⟩ .disconnect (fun _ => request) host.server) is

theorem disconnecting_run (host : Host) (request : MembershipRequest) (is : List (Option Unit)) :
    Run ports Env (removing (fun _ => .byId) ⟨2⟩ .disconnect (fun _ => request) host.server)
      (disconnecting host request is).1 (disconnecting host request is).2 :=
  run_schedule ..

/-- The Leave has read the session when the removal starts, and saves before the removal does. -/
def leaveMeanwhile : List (Option Unit) := [some (), some (), none, some ()] ++ List.replicate 9 none ++
  List.replicate 4 (some ())

theorem no_ghost_member_leaveMeanwhile :
    (⟨2⟩ : ClientId) ∉ (disconnecting oneJoined (.leave ⟨1⟩) leaveMeanwhile).2.state.members ⟨1⟩ :=
  no_ghost_member (disconnecting_run ..) (Prog.result_eq_some.1 (by decide +kernel)) (by decide +kernel)
    (by decide +kernel) ⟨1⟩

/-- The Join has read the session and the channel when the removal starts. -/
def joinMeanwhile : List (Option Unit) := [some (), some ()] ++ List.replicate 3 none ++
    List.replicate 2 (some ())

theorem ghost_member : ¬ ∀ (uuid : UuidLib) (host : Host),
    Host.Reached uuid (.initial 200 0 0) host →
    ∀ (ι : Type) [DecidableEq ι] (order : Option ι → BucketOrder) (c : ClientId) (removal : Removal)
      (requests : ι → MembershipRequest) (tr : List (Event Server (Option ι) Call Call.Res Unit))
      (final : Config Server (Option ι) Call Call.Res Unit),
      Run ports Env (removing order c removal requests host.server) tr final →
      (∀ t, final.threads t = .ret ()) → Collects c removal tr → final.state.session c = none →
      ∀ k, c ∉ final.state.members k := by
  intro hall
  have hret : ∀ t, (disconnecting oneConnected (.join ⟨1⟩) joinMeanwhile).2.threads t = .ret () := by
    intro t
    rcases t with _ | t
    · exact Prog.result_eq_some.1 (by decide +kernel)
    · obtain rfl : t = () := rfl
      exact Prog.result_eq_some.1 (by decide +kernel)
  exact hall _ _ oneConnected_reached _ _ _ _ _ _ _ (disconnecting_run ..) hret (by decide +kernel)
    (by decide +kernel) ⟨1⟩
    (by decide +kernel)

end Bcmd
