import Bcmd.MembershipRequest

/-!
# Join and Leave requests of several clients at once

Each client runs a script of Join and Leave requests, one after the other, and the port calls of
different clients interleave. A request changes a copy of a channel that it read some calls earlier
and saves the whole copy, so what it may lose are the memberships of the other clients. As long as
every saved copy is current for those, each client's memberships are its own requests' doing.
-/

namespace Bcmd
open Server

/-- Nothing happened to `c` between `s` and `s'`, save for its membership in the channels `K`. -/
structure Keeps (c : ClientId) (K : Set ChannelId) (s s' : Server) : Prop where
  members : ∀ k ∉ K, (c ∈ s'.members k ↔ c ∈ s.members k)
  session : s'.session c = none ↔ s.session c = none
  channel : ∀ k, s.channel k ≠ none → s'.channel k ≠ none

namespace Keeps
variable {c : ClientId} {K K' : Set ChannelId} {s s₁ s' : Server}

theorem refl (s : Server) : Keeps c K s s := ⟨fun _ _ => Iff.rfl, Iff.rfl, fun _ h => h⟩

theorem trans (h : Keeps c K s s₁) (h' : Keeps c K s₁ s') : Keeps c K s s' where
  members k hk := (h'.members k hk).trans (h.members k hk)
  session := h'.session.trans h.session
  channel k hk := h'.channel k (h.channel k hk)

theorem mono (h : Keeps c K s s') (hK : K ⊆ K') : Keeps c K' s s' :=
  ⟨fun k hk => h.members k fun hk' => hk (hK hk'), h.session, h.channel⟩

theorem any (h : Keeps c ∅ s s') : Keeps c K s s' := h.mono (Set.empty_subset K)

theorem env (h : Env s s') : Keeps c K s s' where
  members k _ := by rw [Server.members, Server.channel, h.channels]; rfl
  session := by rw [Server.session, h.clients]; rfl
  channel k hk := by rw [Server.channel, h.channels]; exact hk

end Keeps

/-- What a plain call may change for `c`: its membership in the channel that is saved. -/
theorem keeps_handle {o : Call} (ho : Plain o) (s : Server) (c : ClientId) {K : Set ChannelId}
    (hK : ∀ ch, o = .channels (.save ch) → ch.id ∈ K ∨ (c ∈ ch.members ↔ c ∈ s.members ch.id)) :
    Keeps c K s (handle o s).2 where
  members k hk := by
    by_cases hs : ∃ ch, o = .channels (.save ch)
    · obtain ⟨ch, rfl⟩ := hs
      rw [members_save]
      split
      · subst ‹k = ch.id›
        exact (hK ch rfl).resolve_left hk
      · exact Iff.rfl
    · rw [members_handle o fun ch h => hs ⟨ch, h⟩]
  session := session_eq_none_iff ho s c
  channel _ hk := channel_ne_none o hk

/-- The copy that `c`'s request saves agrees with the stored channel on everybody else. -/
def SavesCurrent (c : ClientId) (s : Server) : Call → Prop
  | .channels (.save ch) => ch.members.erase c = (s.members ch.id).erase c
  | _ => True

instance (c : ClientId) (s : Server) : ∀ o, Decidable (SavesCurrent c s o)
  | .channels (.save ch) => inferInstanceAs (Decidable (ch.members.erase c = (s.members ch.id).erase c))
  | .channels (.findById _) | .channels (.findByName _) | .channels (.listAll _) | .channels (.create _)
  | .clients _ | .messages _ | .publisher _ | .channelList _ | .newMessage _ _ _ | .awaitCancelled _ =>
    inferInstanceAs (Decidable True)

theorem SavesCurrent.mem_iff {c d : ClientId} {s : Server} {ch : Channel}
    (h : SavesCurrent c s (.channels (.save ch)))
    (hd : d ≠ c) : d ∈ ch.members ↔ d ∈ s.members ch.id := by
  have he : d ∈ ch.members.erase c ↔ d ∈ (s.members ch.id).erase c := by
    rw [show ch.members.erase c = _ from h]
  simpa [hd] using he

/-- A call of `c`'s that keeps to the condition does nothing to the others. -/
theorem keeps_others {c d : ClientId} {s : Server} {o : Call} (hd : d ≠ c) (ho : Plain o)
    (hok : SavesCurrent c s o) : Keeps d ∅ s (handle o s).2 :=
  keeps_handle ho s d fun ch h => by subst h; exact .inr (hok.mem_iff hd)

/-! ### What `c`'s own requests do -/

section
variable {c : ClientId} {s : Server} {α : Type}

/-- `Safe` for the code of `c`'s requests: the others do nothing to `c`. -/
abbrev Does (c : ClientId) (Q : α → Server → Prop) (p : Task α) (s : Server) : Prop :=
  Safe ports (Keeps c ∅) (fun _ _ => True) (fun _ => Plain) Q p s

theorem Does.ret {Q : α → Server → Prop} {a : α} (h : ∀ s', Keeps c ∅ s s' → Q a s') :
    Does c Q (.ret a) s := h

/-- A call that saves nothing and whose answer does not matter. -/
theorem Does.call {Q : α → Server → Prop} {o : Call} {f : o.Res → Task α} (ho : Plain o)
    (hs : ∀ ch, o ≠ .channels (.save ch)) (h : ∀ s' r, Keeps c ∅ s s' → Does c Q (f r) s') :
    Does c Q (.call o f) s :=
  fun s₁ h₁ => ⟨ho, fun _ _ => h _ _ (h₁.trans (keeps_handle ho s₁ c fun ch h => absurd h (hs ch)))⟩

theorem Does.save {Q : α → Server → Prop} {ch : Channel} {f : VoidResult → Task α}
    (h : ∀ s', Keeps c {ch.id} s s' → (c ∈ s'.members ch.id ↔ c ∈ ch.members) → Does c Q (f (.ok ())) s') :
    Does c Q (.call (.channels (.save ch)) f) s := by
  refine fun s₁ h₁ => ⟨trivial, fun _ _ => h _ (h₁.any.trans ?_) ?_⟩
  · exact keeps_handle (o := .channels (.save ch)) trivial s₁ c fun ch' h => by cases h; exact .inl rfl
  · rw [show (ports.handle _ s₁).2.members ch.id = _ from members_save .., if_pos rfl]

theorem does_removeMemberAndBroadcast {cs : ClientSession} (hcs : cs.id = c) (k : ChannelId) :
    Does c (fun r s' => Keeps c {k} s s' ∧ c ∉ s'.members k ∧
        (r = .ok () ∧ s'.channel k ≠ none ∨
          (r = .error .notAMember ∨ r = .error .channelNotFound) ∧ Keeps c ∅ s s'))
      (removeMemberAndBroadcast cs k) s := by
  simp only [removeMemberAndBroadcast, Prog.perform_bind, Prog.pure_eq]
  refine safe_findChannel (fun _ _ => trivial) (fun s₁ h₁ hnone => ?_) fun s₁ ch h₁ hch => ?_
  · refine Does.ret fun s₂ h₂ => ⟨(h₁.trans h₂).any, ?_, .inr ⟨.inr rfl, h₁.trans h₂⟩⟩
    rw [h₂.members k (Set.notMem_empty k), members_of_none hnone]
    exact Finset.notMem_empty c
  · rcases hr : ch.removeMember cs.id with e | ch'
    · obtain ⟨hnot, rfl⟩ := Channel.removeMember_error.1 hr
      simp only [hr]
      refine Does.ret fun s₂ h₂ => ⟨(h₁.trans h₂).any, ?_, .inr ⟨.inl rfl, h₁.trans h₂⟩⟩
      rw [h₂.members k (Set.notMem_empty k), members_of_channel hch, ← hcs]
      exact hnot
    · obtain ⟨-, rfl⟩ := Channel.removeMember_ok.1 hr
      simp only [hr]
      refine Does.save fun s₂ h₂ hmem => Does.call trivial (by simp) fun s₃ _ h₃ => Does.ret fun s₄ h₄ => ?_
      rw [show ({ ch with members := _ } : Channel).id = k from id_of_channel hch] at h₂ hmem
      have hstored : s₄.channel k ≠ none :=
        (h₂.trans (h₃.trans h₄).any).channel k (by rw [hch]; exact Option.some_ne_none ch)
      refine ⟨(h₁.any.trans h₂).trans (h₃.trans h₄).any, ?_, .inl ⟨rfl, hstored⟩⟩
      rw [(h₃.trans h₄).members k (Set.notMem_empty k), hmem, ← hcs]
      exact Finset.notMem_erase _ _

open JoinChannel in
theorem does_leaveEach {cs : ClientSession} (hcs : cs.id = c) (ks : List ChannelId) (s : Server) :
    Does c (fun r s' => r = .ok () ∧ Keeps c {k | k ∈ ks} s s') (leaveEach cs ks) s := by
  induction ks generalizing s with
  | nil => exact Does.ret fun s' h => ⟨rfl, h.any⟩
  | cons k ks ih =>
    simp only [leaveEach, publishCountIfStored]
    refine Safe.bind Keeps.refl ((does_removeMemberAndBroadcast hcs k).mono ?_)
    rintro r s₁ ⟨h₁, -, hr⟩
    have htol : tolerate [.notAMember, .channelNotFound] r = .ok () := by
      rcases hr with ⟨rfl, -⟩ | ⟨rfl | rfl, -⟩ <;> rfl
    simp only [htol, Prog.perform_bind, Prog.pure_eq, Prog.call_bind]
    refine safe_leaveChannelAtomic (fun _ _ => trivial) fun s₂ r₂ h₂ htol₂ => ?_
    simp only [htol₂]
    have h₂' : Keeps c ∅ s₁ (handle (.clients (.leaveChannelAtomic cs.id k)) s₂).2 :=
      h₂.trans (keeps_handle (o := .clients (.leaveChannelAtomic cs.id k)) trivial s₂ c (by simp))
    -- whether the count is published does not matter here
    refine Does.call trivial (by simp) fun s₃ r₃ h₃ => ?_
    have hrest : ∀ s₄, Keeps c ∅ s₃ s₄ →
        Does c (fun r s' => r = .ok () ∧ Keeps c {k' | k' ∈ k :: ks} s s') (leaveEach cs ks) s₄ := by
      intro s₄ h₄
      refine (ih s₄).mono ?_
      rintro r s' ⟨hr, h'⟩
      refine ⟨hr, ?_⟩
      have hk : Keeps c {k' | k' ∈ k :: ks} s s₁ := h₁.mono (by rintro _ rfl; simp)
      exact (hk.trans (h₂'.trans (h₃.trans h₄)).any).trans (h'.mono fun k' hk' => List.mem_cons_of_mem k hk')
    cases r₃ with
    | error e => exact hrest s₃ (.refl s₃)
    | ok ch => exact Does.call trivial (by simp) fun s₄ _ h₄ => hrest s₄ h₄

open JoinChannel in
theorem does_leaveOtherChannels {cs : ClientSession} (hcs : cs.id = c) (order : BucketOrder) (k : ChannelId) :
    Does c (fun r s' => r = .ok () ∧ Keeps c {k' | k' ≠ k} s s') (leaveOtherChannels order cs k) s :=
  (does_leaveEach hcs _ s).mono fun r s' ⟨hr, h⟩ => ⟨hr, h.mono fun k' hk' => by
    simpa using (List.mem_filter.1 hk').2⟩

open JoinChannel in
/-- A Join that has found its session and its channel succeeds. -/
theorem does_joinFound {cs : ClientSession} {ch : Channel} {k : ChannelId} (order : BucketOrder)
    (hcs : cs.id = c) (hs : s.session c ≠ none) (hch : s.channel k = some ch) :
    Does c (fun r s' => r = .ok () ∧ c ∈ s'.members k) (joinFound order c cs k ch) s := by
  have hid := id_of_channel hch
  simp only [joinFound]
  refine Safe.bind Keeps.refl ((does_leaveOtherChannels hcs order k).mono ?_)
  rintro _ s₁ ⟨rfl, h₁⟩
  have hmem₁ : c ∈ s₁.members k ↔ c ∈ ch.members := by rw [h₁.members k (by simp), members_of_channel hch]
  have hs₁ : s₁.session c ≠ none := fun hnone => hs (h₁.session.1 hnone)
  by_cases hm : c ∈ ch.members
  · simp only [Channel.hasMember_iff.2 hm, if_true, Prog.pure_eq, Prog.ret_bind, Prog.perform_bind]
    refine safe_joinChannelAtomic (fun _ _ => trivial)
      (fun s₂ h₂ hnone => absurd (h₂.session.1 hnone) hs₁) fun s₂ h₂ _ => Does.ret fun s₃ h₃ => ⟨rfl, ?_⟩
    have h₂' : Keeps c ∅ s₁ (handle (.clients (.joinChannelAtomic c k)) s₂).2 :=
      h₂.trans (keeps_handle (o := .clients (.joinChannelAtomic c k)) trivial s₂ c (by simp))
    rw [(h₂'.trans h₃).members k (Set.notMem_empty k)]
    exact hmem₁.2 hm
  · have hadd : ch.addMember c = .ok { ch with members := insert c ch.members } :=
      Channel.addMember_ok.2 ⟨hm, rfl⟩
    have hno : ch.hasMember c = false := by simpa [Channel.hasMember] using hm
    simp only [hno, addAndSave, hadd, Prog.pure_eq, Prog.perform_bind, Prog.call_bind, Bool.false_eq_true,
      if_false]
    refine Does.save fun s₂ h₂ hmem₂ => ?_
    rw [show ({ ch with members := _ } : Channel).id = k from hid] at h₂ hmem₂
    refine safe_joinChannelAtomic (fun _ _ => trivial)
      (fun s₃ h₃ hnone => absurd (h₂.session.1 (h₃.session.1 hnone)) hs₁) fun s₃ h₃ _ => ?_
    have h₃' : Keeps c ∅ s₂ (handle (.clients (.joinChannelAtomic c k)) s₃).2 :=
      h₃.trans (keeps_handle (o := .clients (.joinChannelAtomic c k)) trivial s₃ c (by simp))
    refine Does.call trivial (by simp) fun s₄ _ h₄ => Does.call trivial (by simp) fun s₅ _ h₅ =>
      Does.ret fun s₆ h₆ => ⟨rfl, ?_⟩
    rw [((h₃'.trans h₄).trans (h₅.trans h₆)).members k (Set.notMem_empty k)]
    exact hmem₂.2 (Finset.mem_insert_self c _)

theorem does_join (order : BucketOrder) (k : ChannelId) :
    Does c (fun r s' => r = .ok () ∧ c ∈ s'.members k ∨ (∃ e, r = .error e) ∧ Keeps c ∅ s s')
      (JoinChannel.execute order c k) s := by
  simp only [JoinChannel.execute, Prog.perform_bind, Prog.pure_eq]
  refine safe_findSession (fun _ _ => trivial)
    (fun s₁ h₁ _ => Does.ret fun s₂ h₂ => .inr ⟨⟨_, rfl⟩, h₁.trans h₂⟩) fun s₁ cs h₁ hcs => ?_
  refine safe_findChannel (fun _ _ => trivial)
    (fun s₂ h₂ _ => Does.ret fun s₃ h₃ => .inr ⟨⟨_, rfl⟩, h₁.trans (h₂.trans h₃)⟩) fun s₂ ch h₂ hch => ?_
  have hs₂ : s₂.session c ≠ none := fun hnone => by rw [h₂.session.1 hnone] at hcs; cases hcs
  exact (does_joinFound order (id_of_session hcs) hs₂ hch).mono fun r s' h => .inl h

theorem does_joinByName (order : BucketOrder) (name : Bytes) :
    Does c (fun r s' => (∃ k, r = .ok k ∧ c ∈ s'.members k) ∨ (∃ e, r = .error e) ∧ Keeps c ∅ s s')
      (JoinChannel.executeByName order c name) s := by
  simp only [JoinChannel.executeByName, Prog.perform_bind, Prog.pure_eq]
  refine safe_findSession (fun _ _ => trivial)
    (fun s₁ h₁ _ => Does.ret fun s₂ h₂ => .inr ⟨⟨_, rfl⟩, h₁.trans h₂⟩) fun s₁ cs h₁ hcs => ?_
  rcases ChannelName.create (trim name) with _ | validatedName
  · exact Does.ret fun s₂ h₂ => .inr ⟨⟨_, rfl⟩, h₁.trans h₂⟩
  refine safe_findByName (fun _ _ => trivial)
    (fun s₂ e h₂ => Does.ret fun s₃ h₃ => .inr ⟨⟨_, rfl⟩, h₁.trans (h₂.trans h₃)⟩) fun s₂ ch h₂ hch => ?_
  have hs₂ : s₂.session c ≠ none := fun hnone => by rw [h₂.session.1 hnone] at hcs; cases hcs
  refine Safe.bind Keeps.refl ((does_joinFound order (id_of_session hcs) hs₂ hch).mono ?_)
  rintro _ s₃ ⟨rfl, hmem⟩
  exact Does.ret fun s₄ h₄ => .inl ⟨_, rfl, (h₄.members _ (Set.notMem_empty _)).2 hmem⟩

theorem does_leave (k : ChannelId) :
    Does c (fun r s' => r = .ok () ∧ c ∉ s'.members k ∨ (∃ e, r = .error e) ∧ Keeps c ∅ s s')
      (LeaveChannel.execute c k) s := by
  simp only [LeaveChannel.execute, Prog.perform_bind, Prog.pure_eq]
  refine safe_findSession (fun _ _ => trivial)
    (fun s₁ h₁ _ => Does.ret fun s₂ h₂ => .inr ⟨⟨_, rfl⟩, h₁.trans h₂⟩) fun s₁ cs h₁ hcs => ?_
  refine Safe.bind Keeps.refl ((does_removeMemberAndBroadcast (id_of_session hcs) k).mono ?_)
  rintro r s₂ ⟨h₂, hmem, ⟨rfl, hstored⟩ | ⟨hr, h₂'⟩⟩
  · refine safe_leaveChannelAtomic (fun _ _ => trivial) fun s₃ r₃ h₃ htol => ?_
    have h₃' : Keeps c ∅ s₂ (handle (.clients (.leaveChannelAtomic c k)) s₃).2 :=
      h₃.trans (keeps_handle (o := .clients (.leaveChannelAtomic c k)) trivial s₃ c (by simp))
    simp only [htol]
    refine safe_findChannel (fun _ _ => trivial)
      (fun s₄ h₄ hnone => absurd hnone ((h₃'.trans h₄).channel k hstored)) fun s₄ ch h₄ hch => ?_
    refine Does.call trivial (by simp) fun s₅ _ h₅ => Does.ret fun s₆ h₆ => .inl ⟨rfl, ?_⟩
    rw [((h₃'.trans h₄).trans (h₅.trans h₆)).members k (Set.notMem_empty k)]
    exact hmem
  · have hr' : ∃ e, r = .error e := by rcases hr with rfl | rfl <;> exact ⟨_, rfl⟩
    obtain ⟨e, rfl⟩ := hr'
    exact Does.ret fun s₃ h₃ => .inr ⟨⟨e, rfl⟩, h₁.trans (h₂'.trans h₃)⟩

end

/-! ### Scripts of requests -/

/-- The outcome of the last request that was not refused. -/
def lastSuccess : List Outcome → Option Outcome
  | [] => none
  | o :: os => (lastSuccess os).or (if o = .refused then none else some o)

/-- What the outcomes of `c`'s requests say of its memberships holds in `s'`. -/
def TookEffect (c : ClientId) (s s' : Server) (os : List Outcome) : Prop :=
  match lastSuccess os with
  | some (.joined k) => c ∈ s'.members k
  | some (.left k) => c ∉ s'.members k
  | _ => ∀ k, c ∈ s'.members k ↔ c ∈ s.members k

theorem lastSuccess_ne_refused (os : List Outcome) : lastSuccess os ≠ some .refused := by
  induction os with
  | nil => nofun
  | cons o os ih =>
    unfold lastSuccess
    rcases hos : lastSuccess os with _ | o'
    · split
      · nofun
      · simpa using ‹o ≠ .refused›
    · rw [Option.some_or, ← hos]; exact ih

section
variable {c : ClientId} {s s₁ s' : Server} {o : Outcome} {os : List Outcome}

theorem TookEffect.keeps (h : TookEffect c s s₁ os) (h' : Keeps c ∅ s₁ s') : TookEffect c s s' os := by
  have hm : ∀ k, c ∈ s'.members k ↔ c ∈ s₁.members k := fun k => h'.members k (Set.notMem_empty k)
  unfold TookEffect at h ⊢
  simpa only [hm] using h

theorem TookEffect.cons (ho : TookEffect c s s₁ [o]) (hos : TookEffect c s₁ s' os) :
    TookEffect c s s' (o :: os) := by
  unfold TookEffect at ho hos ⊢
  rcases hlast : lastSuccess os with _ | o'
  · -- nothing succeeded after `o`, so what `o` did still stands
    have hm : ∀ k, c ∈ s'.members k ↔ c ∈ s₁.members k := by simpa only [hlast] using hos
    have hcons : lastSuccess (o :: os) = lastSuccess [o] := by simp only [lastSuccess, hlast]
    simp only [hcons, hm]
    exact ho
  · have hcons : lastSuccess (o :: os) = some o' := by simp only [lastSuccess, hlast, Option.some_or]
    rw [hlast] at hos
    rw [hcons]
    cases o' with
    | refused => exact absurd hlast (lastSuccess_ne_refused os)
    | joined k => exact hos
    | left k => exact hos

theorem does_run (order : BucketOrder) (r : MembershipRequest) :
    Does c (fun o s' => TookEffect c s s' [o]) (r.run order c) s := by
  have hrefused : ∀ {s₁}, Keeps c ∅ s s₁ → Does c (fun o s' => TookEffect c s s' [o]) (.ret .refused) s₁ :=
    fun h => Does.ret fun s₂ h₂ k => (h.trans h₂).members k (Set.notMem_empty k)
  cases r with
  | join k =>
    refine Safe.bind Keeps.refl ((does_join order k).mono ?_)
    rintro _ s₁ (⟨rfl, hmem⟩ | ⟨⟨e, rfl⟩, h⟩)
    · exact Does.ret fun s₂ h₂ => (h₂.members k (Set.notMem_empty k)).2 hmem
    · exact hrefused h
  | joinByName name =>
    refine Safe.bind Keeps.refl ((does_joinByName order name).mono ?_)
    rintro _ s₁ (⟨k, rfl, hmem⟩ | ⟨⟨e, rfl⟩, h⟩)
    · exact Does.ret fun s₂ h₂ => (h₂.members k (Set.notMem_empty k)).2 hmem
    · exact hrefused h
  | leave k =>
    refine Safe.bind Keeps.refl ((does_leave k).mono ?_)
    rintro _ s₁ (⟨rfl, hmem⟩ | ⟨⟨e, rfl⟩, h⟩)
    · exact Does.ret fun s₂ h₂ h => hmem ((h₂.members k (Set.notMem_empty k)).1 h)
    · exact hrefused h

/-- The script of a client, run among those of others that keep to the condition. -/
theorem does_runAll (order : BucketOrder) (rs : List MembershipRequest) (s : Server) :
    Does c (fun os s' => TookEffect c s s' os) (MembershipRequest.runAll order c rs) s := by
  induction rs generalizing s with
  | nil => exact Does.ret fun s' h k => h.members k (Set.notMem_empty k)
  | cons r rs ih =>
    refine Safe.bind Keeps.refl ((does_run order r).mono fun o s₁ ho => ?_)
    refine Safe.bind Keeps.refl ((ih s₁).mono fun os s₂ hos => ?_)
    exact Does.ret fun s₃ h₃ => (ho.cons hos).keeps h₃

end

/-! ### Any number of clients -/

/-- Every client starts its script in the state `s`. -/
def scripts (order : ClientId → BucketOrder) (requests : ClientId → List MembershipRequest) (s : Server) :
    Config Server ClientId Call Call.Res (List Outcome) :=
  ⟨s, fun c => MembershipRequest.runAll (order c) c (requests c)⟩

/-- The copies that are saved in a run are current for all but the client whose request saves them. -/
def SavesCurrentIn (tr : List (Event Server ClientId Call Call.Res (List Outcome))) : Prop :=
  ∀ e ∈ tr, SavesCurrent e.thread e.pre.state e.call

instance (tr : List (Event Server ClientId Call Call.Res (List Outcome))) : Decidable (SavesCurrentIn tr) :=
  inferInstanceAs (Decidable (∀ e ∈ tr, _))

theorem runs_safe {order : ClientId → BucketOrder} {requests : ClientId → List MembershipRequest} {s : Server}
    {tr : List (Event Server ClientId Call Call.Res (List Outcome))}
    {final : Config Server ClientId Call Call.Res (List Outcome)}
    (h : Run ports Env (scripts order requests s) tr final) (hok : SavesCurrentIn tr) (c : ClientId) :
    Safe ports (Keeps c ∅) (SavesCurrent c) (fun _ => Plain) (fun os s' => TookEffect c s s' os)
      (final.threads c)
      final.state := by
  have hstart : ∀ c, Safe ports (Keeps c ∅) (SavesCurrent c) (fun _ => Plain)
    (fun os s' => TookEffect c s s' os)
      ((scripts order requests s).threads c) s := fun c =>
    (does_runAll (order c) (requests c) s).weaken (fun _ _ h => h) (fun _ _ _ => trivial) fun _ _ h => h
  exact Run.safe_pool (fun _ => Keeps.refl) (fun _ _ _ _ => Keeps.trans)
    (fun _ _ _ => Keeps.env) (fun _ _ _ _ hij _ ho hp => keeps_others hij hp ho) h hstart hok c

/-- Once all requests have returned: a client whose last success is a Join is a member of that channel,
one whose last success is a Leave is not, and one that made no request has the memberships it had. -/
def MembershipsFollow (requests : ClientId → List MembershipRequest) (outs : ClientId → List Outcome)
    (s s' : Server) : Prop :=
  ∀ c, (∀ k, lastSuccess (outs c) = some (.joined k) → c ∈ s'.members k) ∧
    (∀ k, lastSuccess (outs c) = some (.left k) → c ∉ s'.members k) ∧
    (requests c = [] → ∀ k, c ∈ s'.members k ↔ c ∈ s.members k)

section
variable {order : ClientId → BucketOrder} {requests : ClientId → List MembershipRequest} {s : Server}
  {tr : List (Event Server ClientId Call Call.Res (List Outcome))}
  {final : Config Server ClientId Call Call.Res (List Outcome)} {outs : ClientId → List Outcome}

theorem memberships_follow (h : Run ports Env (scripts order requests s) tr final)
    (hret : ∀ c, final.threads c = .ret (outs c)) (hok : SavesCurrentIn tr) :
    MembershipsFollow requests outs s final.state := by
  intro c
  have hc := runs_safe h hok c
  rw [hret c] at hc
  have heffect : TookEffect c s final.state (outs c) := hc _ (Keeps.refl _)
  refine ⟨fun k hk => ?_, fun k hk => ?_, fun hnone => ?_⟩
  · unfold TookEffect at heffect; rwa [hk] at heffect
  · unfold TookEffect at heffect; rwa [hk] at heffect
  · have hstart : (scripts order requests s).threads c = .ret [] := by simp only [scripts, hnone]; rfl
    have houts : outs c = [] := by
      have := (h.threads_ret hstart).1
      rw [hret c] at this
      exact Prog.ret.inj this
    unfold TookEffect at heffect
    rwa [houts] at heffect

end

/-! Two clients join the one channel: one after the other, or both before either has saved. -/

def bothJoin (c : ClientId) : List MembershipRequest := if c = ⟨2⟩ ∨ c = ⟨3⟩ then [.join ⟨1⟩] else []

def bothJoined (c : ClientId) : List Outcome := if c = ⟨2⟩ ∨ c = ⟨3⟩ then [.joined ⟨1⟩] else []

/-- The two scripts under a schedule. -/
def joining (is : List ClientId) := schedule ports (scripts (fun _ => .byId) bothJoin twoConnected.server) is

theorem joining_run (is : List ClientId) :
    Run ports Env (scripts (fun _ => .byId) bothJoin twoConnected.server) (joining is).1 (joining is).2 :=
  run_schedule ..

theorem joining_returned {is : List ClientId} (h₂ : ((joining is).2.threads ⟨2⟩).result = some [.joined ⟨1⟩])
    (h₃ : ((joining is).2.threads ⟨3⟩).result = some [.joined ⟨1⟩]) (c : ClientId) :
    (joining is).2.threads c = .ret (bothJoined c) := by
  by_cases hc : c = ⟨2⟩ ∨ c = ⟨3⟩
  · rcases hc with rfl | rfl
    · exact Prog.result_eq_some.1 h₂
    · exact Prog.result_eq_some.1 h₃
  · have hstart : (scripts (fun _ => .byId) bothJoin twoConnected.server).threads c = .ret
        (bothJoined c) := by
      simp only [scripts, bothJoin, bothJoined, if_neg hc]; rfl
    exact ((joining_run is).threads_ret hstart).1

def oneByOne : List ClientId := List.replicate 6 ⟨2⟩ ++ List.replicate 6 ⟨3⟩

/-- Both have read the channel when the first of them saves it. -/
def readBeforeSave : List ClientId := [⟨2⟩, ⟨2⟩, ⟨3⟩, ⟨3⟩] ++ List.replicate 4 ⟨2⟩ ++ List.replicate 4 ⟨3⟩

theorem memberships_follow_oneByOne :
    MembershipsFollow bothJoin bothJoined twoConnected.server (joining oneByOne).2.state :=
  memberships_follow (joining_run oneByOne) (joining_returned (by decide +kernel) (by decide +kernel))
    (by decide +kernel)

theorem membership_lost : ¬ ∀ (uuid : UuidLib) (host : Host),
    Host.Reached uuid (.initial 200 0 0) host →
    ∀ (order : ClientId → BucketOrder) (requests : ClientId → List MembershipRequest)
      (tr : List (Event Server ClientId Call Call.Res (List Outcome)))
      (final : Config Server ClientId Call Call.Res (List Outcome)) (outs : ClientId → List Outcome),
      Run ports Env (scripts order requests host.server) tr final →
      (∀ c, final.threads c = .ret (outs c)) →
      MembershipsFollow requests outs host.server final.state := by
  intro hall
  have hret := @joining_returned readBeforeSave (by decide +kernel) (by decide +kernel)
  have hmem := (hall _ _ twoConnected_reached _ _ _ _ _ (joining_run readBeforeSave) hret ⟨2⟩).1 ⟨1⟩
    (by decide)
  exact absurd hmem (by decide +kernel)

end Bcmd
