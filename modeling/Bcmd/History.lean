import Bcmd.Members

/-!
# The history of a channel

`log` is all that was ever saved to a channel; its buffer holds the end of the log.
-/

namespace Bcmd
open Server

/-- The message a call saves to the channel. -/
def savedBy (k : ChannelId) : Call → Option Message
  | .messages (.save m) => if m.channelId = k then some m else none
  | _ => none

theorem mem_savedBy {k : ChannelId} {o : Call} {m : Message} :
    m ∈ savedBy k o ↔ o = .messages (.save m) ∧ m.channelId = k := by
  rcases o with _ | _ | (m' | _ | _) | _ | _ | _ | _
  case messages.save =>
    by_cases hk : m'.channelId = k
    · simp only [savedBy, if_pos hk, Option.mem_some_iff]
      constructor
      · rintro rfl
        exact ⟨rfl, hk⟩
      · rintro ⟨h, -⟩
        cases h; rfl
    · simp only [savedBy, if_neg hk, Option.not_mem_none, false_iff]
      rintro ⟨h, hk'⟩
      cases h
      exact hk hk'
  all_goals exact ⟨nofun, nofun⟩

/-- The messages saved to the channel in a run, in order. -/
def saved {ι α : Type} (k : ChannelId) (tr : List (Event Server ι Call Call.Res α)) : List Message :=
  tr.filterMap fun e => savedBy k e.call

/-- Only a save changes the history. -/
theorem messages_handle (o : Call) (ho : ∀ m, o ≠ .messages (.save m)) (s : Server) :
    (handle o s).2.messages = s.messages := by
  rcases o with o | o | (m | _ | _) | o | o | _ | _
  case channels => exact handle_channels_messages s o
  case clients => exact handle_clients_messages s o
  case messages.save => exact absurd rfl (ho m)
  all_goals rfl

theorem buffer_save (m : Message) (s : Server) (k : ChannelId) :
    (handle (.messages (.save m)) s).2.messages.buffer k =
    if k = m.channelId then popFrontWhileOver s.messages.cap.toNat (s.messages.buffer k ++ [m])
    else s.messages.buffer k :=
  InMemoryMessageRepository.buffer_save ..

theorem buffer_handle_of_none {o : Call} {k : ChannelId} (h : savedBy k o = none) (s : Server) :
    (handle o s).2.messages.buffer k = s.messages.buffer k := by
  by_cases hm : ∃ m, o = .messages (.save m)
  · obtain ⟨m, rfl⟩ := hm
    have hk : ¬ k = m.channelId := fun hk => by simp [savedBy, hk] at h
    rw [buffer_save, if_neg hk]
  · rw [messages_handle o (fun m h => hm ⟨m, h⟩)]

/-- A buffer holds the end of what it held with what has been saved. -/
theorem buffer_handle (o : Call) (s : Server) (k : ChannelId) :
    (handle o s).2.messages.buffer k <:+ s.messages.buffer k ++ (savedBy k o).toList := by
  rcases h : savedBy k o with _ | m
  · rw [buffer_handle_of_none h]
    simp
  · obtain ⟨rfl, rfl⟩ := mem_savedBy.1 h
    rw [buffer_save, if_pos rfl, popFrontWhileOver_eq]
    exact List.drop_suffix _ _

section
variable {ι α : Type} {k : ChannelId} {s : Server} {tr tr' : List (Event Server ι Call Call.Res α)}
  {e : Event Server ι Call Call.Res α}

/-- All messages the channel held at the start of the run or got in it, in the order in which they were
saved. -/
def log (k : ChannelId) (s : Server) (tr : List (Event Server ι Call Call.Res α)) : List Message :=
  s.messages.buffer k ++ saved k tr

theorem saved_append : saved k (tr ++ tr') = saved k tr ++ saved k tr' := List.filterMap_append ..

theorem saved_snoc : saved k (tr ++ [e]) = saved k tr ++ (savedBy k e.call).toList := by
  rw [saved_append]
  rfl

theorem log_append : log k s (tr ++ tr') = log k s tr ++ saved k tr' := by
  rw [log, log, saved_append, List.append_assoc]

theorem log_snoc : log k s (tr ++ [e]) = log k s tr ++ (savedBy k e.call).toList := by
  rw [log, log, saved_snoc, List.append_assoc]

/-- The buffer holds the end of the log. -/
theorem buffer_suffix_log [DecidableEq ι] {m : Config Server ι Call Call.Res α}
    {c : Config Server ι Call Call.Res α}
    (h : Run ports Env c tr m) : m.state.messages.buffer k <:+ log k c.state tr := by
  induction h with
  | refl => simp [log, saved]
  | env _ he ih => rw [he.messages]; exact ih
  | @step tr m i o _ hn _ ih =>
    rw [Config.advance_state hn, log_snoc]
    refine (buffer_handle o m.state k).trans ?_
    obtain ⟨t, ht⟩ := ih
    exact ⟨t, by rw [← List.append_assoc, ht]⟩

theorem buffer_of_saved_nil [DecidableEq ι] {m : Config Server ι Call Call.Res α}
    {c : Config Server ι Call Call.Res α}
    (h : Run ports Env c tr m) (hs : saved k tr = []) :
    m.state.messages.buffer k = c.state.messages.buffer k := by
  refine h.state_inv (I := fun s => s.messages.buffer k = c.state.messages.buffer k) rfl
    (fun s s' hs he => by rw [he.messages]; exact hs) fun e he hI _ => ?_
  have hnone : savedBy k e.call = none := List.filterMap_eq_nil_iff.1 hs e he
  exact (buffer_handle_of_none hnone e.pre.state).trans hI

end

/-! ### Sends -/

structure SendRequest where
  order : BucketOrder
  sender : ClientId
  channelId : ChannelId
  content : Bytes
  echoPolicy : EchoPolicy

def SendRequest.run (r : SendRequest) : Task (Result MessageId) :=
  SendMessage.execute r.order r.sender r.channelId r.content r.echoPolicy

/-- The calls of a send. -/
def SendCall : Call → Prop
  | .clients (.findById _) | .channels (.findById _) | .newMessage _ _ _ | .messages (.save _)
  | .publisher (.publish _ _) => True
  | _ => False

theorem SendRequest.calls_run (r : SendRequest) : r.run.Calls SendCall :=
  calls_sendMessage (fun _ => trivial) (fun _ => trivial) (fun _ _ _ => trivial) (fun _ => trivial)
    (fun _ _ => trivial) ..

theorem SendCall.ne_saveChannel {o : Call} (h : SendCall o) (ch : Channel) : o ≠ .channels (.save ch) := by
  rintro rfl
  exact h

/-- The only effect of a send on the streams is what it publishes. -/
theorem SendCall.publisher {o : Call} (h : SendCall o) :
    (∃ c m, o = .publisher (.publish c m)) ∨ ∀ s, (handle o s).2.publisher = s.publisher := by
  rcases o with o | o | o | (_ | _ | ⟨c, m⟩ | _ | _) | _ | _ | _
  case publisher.publish => exact .inl ⟨c, m, rfl⟩
  case channels => exact .inr fun s => handle_channels_publisher s o
  case clients => exact .inr fun s => handle_clients_publisher s o
  case messages => exact .inr fun s => handle_messages_publisher s o
  case newMessage => exact .inr fun _ => rfl
  all_goals exact h.elim

section
variable {α : Type}

/-- The message the program is about to save to the channel. -/
def toSave (k : ChannelId) (p : Task α) : Option Message := p.next.bind (savedBy k)

def publishedBy : Call → Option (ClientId × Message)
  | .publisher (.publish c m) => some (c, m)
  | _ => none

/-- The recipients the program goes on to publish to, with the message. -/
def toPublish : Task α → List (ClientId × Message)
  | .call (.publisher (.publish c m)) f => (c, m) :: toPublish (f ())
  | _ => []

theorem toPublish_publishEach (m : Message) (cs : List ClientId) (a : α) :
    toPublish (SendMessage.publishEach m cs >>= fun _ => .ret a) = cs.map fun c => (c, m) := by
  induction cs with
  | nil => rfl
  | cons c cs ih => exact congrArg ((c, m) :: ·) ih

end

end Bcmd
