import Bcmd.Sequential

/-!
# What the code publishes

An event is a call of one of the two publishers. `published` is the list of the events of a piece of code
that runs alone, and `Server.tell` what the events do to the tables of streams.
-/

namespace Bcmd
open Server

namespace Call

/-- The calls by which someone is told of something. -/
def isEvent : Call → Bool
  | .publisher (.publish _ _) | .publisher (.broadcastMemberJoined _ _ _ _)
  | .publisher (.broadcastMemberLeft _ _ _ _) | .channelList (.publishChannelCreated _)
  | .channelList (.publishMemberCountChanged _ _) => true
  | _ => false

end Call

/-- The events of the code, in order. -/
def published {α : Type} (task : Task α) (s : Server) : List Call :=
  (ports.trace task s).filter Call.isEvent

/-- The events take place one after the other. -/
def Server.tell (s : Server) (events : List Call) : Server := events.foldl (fun s e => (handle e s).2) s

section
variable {α β : Type} {s s' : Server} {o : Call}

@[simp] theorem published_ret (a : α) (s : Server) : published (.ret a) s = [] := rfl

theorem published_call (f : o.Res → Task α) (s : Server) : published (.call o f) s =
    if o.isEvent then o :: published (f (handle o s).1) (handle o s).2
    else published (f (handle o s).1) (handle o s).2 := by
  unfold published
  rw [Machine.trace_call, List.filter_cons]
  rfl

theorem published_event (f : o.Res → Task α) (s : Server) (ho : o.isEvent = true) :
    published (.call o f) s = o :: published (f (handle o s).1) (handle o s).2 := by
  rw [published_call, if_pos ho]

theorem published_other (f : o.Res → Task α) (s : Server) (ho : o.isEvent = false) :
    published (.call o f) s = published (f (handle o s).1) (handle o s).2 := by
  rw [published_call, ho, if_neg Bool.false_ne_true]

@[simp] theorem published_bind (p : Task α) (f : α → Task β) (s : Server) :
    published (p >>= f) s = published p s ++ published (f (ports.exec p s).1) (ports.exec p s).2 := by
  simp only [published, Machine.trace_bind, List.filter_append]

theorem published_findChannel {k : ChannelId} (f : Result Channel → Task α) :
    published (.call (.channels (.findById k)) f) s =
      match s.channel k with
      | none => published (f (.error .channelNotFound)) s
      | some ch => published (f (.ok ch)) s := by
  rw [published_other (o := .channels (.findById k)) f s rfl]
  show published (f (s.channels.findById k)) s = _
  unfold InMemoryChannelRepository.findById channel
  cases s.channels.channelsById.find k <;> rfl

theorem published_findSession {c : ClientId} (f : Result ClientSession → Task α) :
    published (.call (.clients (.findById c)) f) s =
      match s.session c with
      | none => published (f (.error .clientNotFound)) s
      | some cs => published (f (.ok cs)) s := by
  rw [published_other (o := .clients (.findById c)) f s rfl]
  show published (f (s.clients.findById c)) s = _
  unfold InMemoryClientRegistry.findById session
  cases s.clients.clientsById.find c <;> rfl

/-! ### What reaches the streams -/

@[simp] theorem tell_nil (s : Server) : s.tell [] = s := rfl

@[simp] theorem tell_cons (s : Server) (e : Call) (es : List Call) :
    s.tell (e :: es) = (handle e s).2.tell es := rfl

/-- The two tables of streams are the same. -/
def SameStreams (s s' : Server) : Prop :=
  s'.publisher = s.publisher ∧ s'.channelList = s.channelList

/-- A call that writes to streams only what it carries, if it writes at all, and opens and ends none. -/
def Broadcasts : Call → Prop
  | .publisher (.broadcastMemberJoined _ _ _ _) | .publisher (.broadcastMemberLeft _ _ _ _)
  | .channelList (.publishChannelCreated _) | .channelList (.publishMemberCountChanged _ _) => True
  | .publisher _ | .channelList _ => False
  | _ => True

theorem sameStreams_handle (h : SameStreams s s') {o : Call} (ho : Broadcasts o) :
    SameStreams (handle o s).2 (handle o s').2 := by
  obtain ⟨hp, hl⟩ := h
  rcases o with (_ | _ | _ | _ | _) | (_ | _ | _ | _ | _ | _ | _ | _) | (_ | _ | _) |
    (_ | _ | _ | _ | _) | (_ | _ | _ | _) | _ | _
  case publisher.broadcastMemberJoined =>
    exact ⟨congrArg (GrpcClientPublisher.broadcastMemberJoined · _ _ _ _) hp, hl⟩
  case publisher.broadcastMemberLeft =>
    exact ⟨congrArg (GrpcClientPublisher.broadcastMemberLeft · _ _ _ _) hp, hl⟩
  case channelList.publishChannelCreated =>
    exact ⟨hp, congrArg (GrpcChannelListPublisher.publishChannelCreated · _) hl⟩
  case channelList.publishMemberCountChanged =>
    exact ⟨hp, congrArg (GrpcChannelListPublisher.publishMemberCountChanged · _ _) hl⟩
  all_goals first | exact ho.elim | exact ⟨hp, hl⟩

/-- What is no event leaves the streams alone. -/
theorem sameStreams_other {o : Call} (ho : Broadcasts o) (he : o.isEvent = false) (s : Server) :
    SameStreams s (handle o s).2 := by
  rcases o with (_ | _ | _ | _ | _) | (_ | _ | _ | _ | _ | _ | _ | _) | (_ | _ | _) |
    (_ | _ | _ | _ | _) | (_ | _ | _ | _) | _ | _
  all_goals first | exact ho.elim | exact ⟨rfl, rfl⟩ | exact absurd he (by simp [Call.isEvent])

theorem sameStreams_tell (h : SameStreams s s') {es : List Call} (hes : ∀ e ∈ es, Broadcasts e) :
    SameStreams (s.tell es) (s'.tell es) := by
  induction es generalizing s s' with
  | nil => exact h
  | cons e es ih =>
    exact ih (sameStreams_handle h (hes e (List.mem_cons_self ..)))
      fun e' he' => hes e' (List.mem_cons_of_mem e he')

theorem broadcasts_published {p : Task α} (hp : p.Calls Broadcasts) (s : Server) :
    ∀ e ∈ published p s, Broadcasts e := by
  induction p generalizing s with
  | ret a => exact fun _ h => absurd h List.not_mem_nil
  | call o f ih =>
    rw [published_call]
    intro e he
    split at he
    · rcases List.mem_cons.1 he with rfl | he
      · exact hp.1
      · exact ih _ (hp.2 _) _ e he
    · exact ih _ (hp.2 _) _ e he

/-- Code that only broadcasts does to the streams what its events do. -/
theorem sameStreams_exec {p : Task α} (hp : p.Calls Broadcasts) (s : Server) :
    SameStreams (s.tell (published p s)) (ports.exec p s).2 := by
  induction p generalizing s with
  | ret a => exact ⟨rfl, rfl⟩
  | call o f ih =>
    have hrest := ih (handle o s).1 (hp.2 _) (handle o s).2
    rcases he : o.isEvent with _ | _
    · rw [published_other f s he]
      have hsame := sameStreams_tell (sameStreams_other hp.1 he s)
        (broadcasts_published (hp.2 (handle o s).1) (handle o s).2)
      exact ⟨hrest.1.trans hsame.1, hrest.2.trans hsame.2⟩
    · rw [published_event f s he]
      exact hrest

end

end Bcmd
