import Bcmd.ClientSession
import Bcmd.InputRouting
import Bcmd.MessagePane

/-!
# `client-cli/`: messages out and in

What the session does with a typed message, and the thread that reads a subscription: `event_filter.cpp`, the
loop of `subscribeToChannel`, and the presenter's `showMessage`, which takes its lock and the queue's one after
the other. The ids in an event are the texts that the server has written for them (`write`).
-/

namespace Bcmd.Cli

/-! ### Out -/

namespace ClientSession

def sendMessage (write : Nat → Bytes) (session : ClientSession) (content : Bytes) : SessionTask Unit := do
  let channelId := session.activeChannelId
  if channelId = [] then showError (ascii "join a channel before sending")
  else
  match ← remote (GrpcServerGateway.sendMessage write session.clientId channelId content) with
  | .error e => showFailure e
  | .ok _ => return ()

/-- With an active channel, the message is one RPC, and only a failure is shown. -/
theorem sendMessage_eq (write : Nat → Bytes) {session : ClientSession} (content : Bytes)
    (hactive : session.activeChannelId ≠ []) : session.sendMessage write content =
      .call (.rpc (.sendMessage (trim session.clientId) (trim session.activeChannelId) (trim content)))
        fun reply => match reply with
          | .error status => showFailure (statusToError status)
          | .ok _ => .ret () := by
  unfold sendMessage
  simp only [if_neg hactive, GrpcServerGateway.sendMessage, Stub.SendMessage, Prog.perform_bind, remote,
    Prog.call_bind]
  congr 1
  funext reply
  rcases reply with status | messageId <;> rfl

end ClientSession

/-! ### In -/

section
variable (write : Nat → Bytes)

def shouldEmitEventForChannel (event : ChannelEvent) (subscribedChannelId : Bytes) : Bool :=
  match event with
  | .memberLeft channelId _ _ => write channelId.value = subscribedChannelId
  | .memberJoined channelId _ _ => write channelId.value = subscribedChannelId
  | .message _ => true

def messageText (message : MessageEvent) : InboxMessage where
  messageId := write message.messageId.value
  channelId := write message.channelId.value
  senderName := message.senderName
  content := message.content
  sentAtMs := message.sentAtMs
  isHistory := false

def systemText (channelId : ChannelId) (content : Bytes) (now : Int) : InboxMessage where
  messageId := []
  channelId := write channelId.value
  senderName := ascii "[system]"
  content := content
  sentAtMs := now
  isHistory := false

/-- One turn of the loop: what the callback is called with, if it is; `now` is the clock's reading. -/
def GrpcServerGateway.emitted (trimmedChannelId : Bytes) (now : Int) (event : ChannelEvent) :
    Option InboxMessage :=
  if ¬ shouldEmitEventForChannel write event trimmedChannelId then none
  else match event with
    | .message message => some (messageText write message)
    | .memberLeft channelId _ username =>
      some (systemText write channelId (username ++ ascii " left channel") now)
    | .memberJoined channelId _ username =>
      some (systemText write channelId (username ++ ascii " joined channel") now)

/-- A message passes the filter of every subscription. -/
theorem emitted_message (trimmedChannelId : Bytes) (now : Int) (message : MessageEvent) :
    GrpcServerGateway.emitted write trimmedChannelId now (.message message) =
      some (messageText write message) := rfl

/-- What is no message is shown without an id. -/
theorem emitted_other {trimmedChannelId : Bytes} {now : Int} {event : ChannelEvent} {text : InboxMessage}
    (hevent : ∀ message, event ≠ .message message)
    (h : GrpcServerGateway.emitted write trimmedChannelId now event = some text) : text.messageId = [] := by
  unfold GrpcServerGateway.emitted at h
  split at h
  · cases h
  · cases event with
    | message message => exact absurd rfl (hevent message)
    | memberJoined channelId clientId username =>
      cases h
      rfl
    | memberLeft channelId clientId username =>
      cases h
      rfl

end

/-! ### The presenter's part -/

namespace FtxuiPresenter

/-- The first half of `showMessage`, under the presenter's lock. -/
def followScroll (p : FtxuiPresenter) : FtxuiPresenter :=
  if p.autoScroll then { p with scrollOffset := 0 } else p

/-- The second half, under the queue's lock. -/
def enqueue (p : FtxuiPresenter) (message : InboxMessage) : FtxuiPresenter :=
  { p with inbox := p.inbox.push message }

theorem showMessage_eq (p : FtxuiPresenter) (message : InboxMessage) :
    p.showMessage message = p.followScroll.enqueue message := rfl

/-- The messages in the pane and those on their way to it. -/
def held (p : FtxuiPresenter) : List InboxMessage := p.messages ++ p.inbox.messages

/-- What changes the presenter besides new messages: the screen's loop, with what is typed into the input, and
the toasts. -/
inductive Screen (p : FtxuiPresenter) : FtxuiPresenter → Prop
  | render {p' rows} (h : p.render = some (p', rows)) : Screen p p'
  | event {p' handled} (event : UiEvent) (h : p.catchEvent event = some (p', handled)) : Screen p p'
  | input (text : Bytes) : Screen p { p with inputText := text }
  | submit : Screen p p.handleSubmit.1
  | showError (errorText : Bytes) : Screen p (p.showError errorText)
  | showInfo (infoText : Bytes) : Screen p (p.showInfo infoText)
  | followScroll : Screen p p.followScroll

section
variable {p p' : FtxuiPresenter}

@[simp] theorem held_initial : initial.held = [] := rfl

@[simp] theorem held_setActions (actions : Actions) : (p.setActions actions).held = p.held := rfl

@[simp] theorem held_enqueue (message : InboxMessage) : (p.enqueue message).held = p.held ++ [message] :=
  (List.append_assoc ..).symm

@[simp] theorem held_followScroll : p.followScroll.held = p.held := by
  unfold followScroll
  split <;> rfl

theorem held_clamp (h : p.clampScrollOffsetLocked = some p') : p'.held = p.held := by
  unfold clampScrollOffsetLocked at h
  rcases hmax : p.maxScrollOffset with _ | top
  · simp [hmax] at h
  · simp only [hmax, Option.bind_eq_bind, Option.bind_some, Option.pure_def, Option.some.injEq] at h
    rw [← h]
    rfl

theorem held_scrollBy {delta : Int} (h : p.scrollByLocked delta = some p') : p'.held = p.held := by
  unfold scrollByLocked at h
  rcases hmax : p.maxScrollOffset with _ | top
  · simp [hmax] at h
  rcases hadd : CheckedInt.add p.scrollOffset delta with _ | offset
  · simp [hmax, hadd] at h
  · simp only [hmax, hadd, Option.bind_eq_bind, Option.bind_some, Option.pure_def, Option.some.injEq] at h
    rw [← h]
    rfl

/-- A render takes messages from the queue to the pane. -/
theorem held_render {rows : List Row} (h : p.render = some (p', rows)) : p'.held = p.held := by
  rw [render_eq, Option.bind_eq_some_iff] at h
  obtain ⟨q, hclamp, hrows⟩ := h
  rw [Option.map_eq_some_iff] at hrows
  obtain ⟨rows', -, hpair⟩ := hrows
  cases hpair
  rw [held_clamp hclamp]
  show (p.messages ++ p.inbox.messages.take _) ++ p.inbox.messages.drop _ = _
  rw [List.append_assoc, List.take_append_drop]
  rfl

/-- A scroll moves the offset alone. -/
theorem held_handleScrollEvent {event : UiEvent} {handled : Bool}
    (h : p.handleScrollEvent event = some (p', handled)) : p'.held = p.held := by
  have hby : ∀ delta, ((p.scrollByLocked delta).bind fun q => some (q, true)) = some (p', handled) →
      p'.held = p.held := by
    intro delta hq
    obtain ⟨q, hscroll, hpair⟩ := Option.bind_eq_some_iff.1 hq
    cases hpair
    exact held_scrollBy hscroll
  have hback : ((CheckedInt.neg p.viewportHeightHint).bind fun delta =>
      (p.scrollByLocked delta).bind fun q => some (q, true)) = some (p', handled) → p'.held = p.held := by
    intro hq
    obtain ⟨delta, -, hq⟩ := Option.bind_eq_some_iff.1 hq
    exact hby delta hq
  have htop : (p.scrollToTopLocked.bind fun q => some (q, true)) = some (p', handled) → p'.held = p.held := by
    intro hq
    obtain ⟨q, hscroll, hpair⟩ := Option.bind_eq_some_iff.1 hq
    cases hpair
    unfold scrollToTopLocked at hscroll
    rcases hmax : p.maxScrollOffset with _ | top
    · simp [hmax] at hscroll
    · simp only [hmax, Option.bind_eq_bind, Option.bind_some, Option.pure_def, Option.some.injEq] at hscroll
      rw [← hscroll]
      rfl
  unfold handleScrollEvent at h
  by_cases hhelp : p.showHelp = true
  · simp only [hhelp, if_true] at h
    split at h <;> cases h <;> rfl
  simp only [hhelp] at h
  cases event with
  | pageUp => exact hby _ (by simpa using h)
  | pageDown => exact hback (by simpa using h)
  | home => exact htop (by simpa using h)
  | «end» =>
    simp only [or_true, true_or, Option.pure_def] at h
    cases h
    rfl
  | arrowUp => exact hby _ (by simpa using h)
  | arrowDown => exact hby _ (by simpa using h)
  | escape => cases h; rfl
  | character text => cases h; rfl
  | mouse button =>
    cases button with
    | wheelUp => exact hby _ (by simpa using h)
    | wheelDown => exact hby _ (by simpa using h)
    | other => cases h; rfl
  | custom => cases h; rfl

theorem held_catchEvent {event : UiEvent} {handled : Bool} (h : p.catchEvent event = some (p', handled)) :
    p'.held = p.held := by
  unfold catchEvent at h
  split at h
  · cases h
    split <;> rfl
  · split at h
    · cases h
      rfl
    · exact held_handleScrollEvent h

theorem held_handleSubmit (p : FtxuiPresenter) : p.handleSubmit.1.held = p.held := by
  unfold handleSubmit handleParsedCommandImpl
  dsimp only
  split
  · rfl
  · split <;> rfl

/-- Only new messages add to what the presenter holds, and nothing that it holds is lost. -/
theorem Screen.held (h : Screen p p') : p'.held = p.held := by
  cases h with
  | render h => exact held_render h
  | event event h => exact held_catchEvent h
  | input text => rfl
  | submit => exact held_handleSubmit p
  | showError errorText => rfl
  | showInfo infoText => rfl
  | followScroll => exact held_followScroll

end

end FtxuiPresenter

end Bcmd.Cli
