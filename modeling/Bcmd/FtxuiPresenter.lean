import Bcmd.CommandParser
import Bcmd.MessageView

/-!
# `client-cli/`: `ftxui_presenter.cpp`

Each function with its lock is one step. `none` is undefined behaviour. Of `render` the message pane is
modelled, not the status line and the channel list.
-/

namespace Bcmd.Cli
open CheckedInt

/-- Which of the callbacks are set. -/
structure Actions where
  sendMessage : Bool
  joinChannel : Bool
  createChannel : Bool
  leaveChannel : Bool
  listChannels : Bool
deriving DecidableEq

/-- What `main` passes to `setActions`. -/
def Actions.all : Actions := ⟨true, true, true, true, true⟩

/-- What a submit calls: one of the callbacks, or the closure that ends the loop. -/
inductive ActionCall
  | sendMessage (text : Bytes)
  | joinChannel (name : Bytes)
  | createChannel (name : Bytes)
  | leaveChannel
  | listChannels
  | exitLoop
deriving DecidableEq

inductive MouseButton
  | wheelUp
  | wheelDown
  | other
deriving DecidableEq

inductive UiEvent
  | pageUp
  | pageDown
  | home
  | «end»
  | arrowUp
  | arrowDown
  | escape
  | character (text : Bytes)
  | mouse (button : MouseButton)
  | custom
deriving DecidableEq

structure FtxuiPresenter where
  inbox : InboxQueue
  messages : List InboxMessage
  historyCount : Int
  showHelp : Bool
  errorToast : Bytes
  infoToast : Bytes
  inputText : Bytes
  scrollOffset : Int
  autoScroll : Bool
  viewportHeightHint : Int
  actions : Actions
deriving DecidableEq

namespace FtxuiPresenter

/-- As constructed, before `setActions`. -/
def initial : FtxuiPresenter where
  inbox := ⟨[]⟩
  messages := []
  historyCount := 0
  showHelp := false
  errorToast := []
  infoToast := []
  inputText := []
  scrollOffset := 0
  autoScroll := true
  viewportHeightHint := 20
  actions := ⟨false, false, false, false, false⟩

def setActions (p : FtxuiPresenter) (actions : Actions) : FtxuiPresenter := { p with actions := actions }

def showMessage (p : FtxuiPresenter) (message : InboxMessage) : FtxuiPresenter :=
  let p := if p.autoScroll then { p with scrollOffset := 0 } else p
  { p with inbox := p.inbox.push message }

def showError (p : FtxuiPresenter) (errorText : Bytes) : FtxuiPresenter :=
  { p with errorToast := errorText, infoToast := [] }

def showInfo (p : FtxuiPresenter) (infoText : Bytes) : FtxuiPresenter :=
  { p with infoToast := infoText, errorToast := [] }

def clearMessages (p : FtxuiPresenter) : FtxuiPresenter :=
  { p with
    scrollOffset := 0, autoScroll := true, messages := [], historyCount := 0, inbox := InboxQueue.clear }

/-! ### Input -/

def unknownCommand (text : Bytes) : Bytes := ascii "unknown command: " ++ text ++ ascii " - type ? for help"

def handleParsedCommandImpl (p : FtxuiPresenter) (parsed : ParsedCommand) (input : Bytes)
    (actions : Actions) : FtxuiPresenter × List ActionCall :=
  if parsed.type = .none ∧ input ≠ [] ∧ ascii "/" <+: input then (p.showError (unknownCommand input), [])
  else
    match parsed.type with
    | .join => (p, if actions.joinChannel then [.joinChannel parsed.arg] else [])
    | .create => (p, if actions.createChannel then [.createChannel parsed.arg] else [])
    | .quit => (p, [.exitLoop])
    | .leave => (p, if actions.leaveChannel then [.leaveChannel] else [])
    | .list => (p, if actions.listChannels then [.listChannels] else [])
    | .unknown => (p.showError (unknownCommand parsed.arg), [])
    | .none => (p, if input ≠ [] ∧ actions.sendMessage then [.sendMessage input] else [])

def handleSubmit (p : FtxuiPresenter) : FtxuiPresenter × List ActionCall :=
  let input := trim p.inputText
  let p := { p with inputText := [] }
  handleParsedCommandImpl p (parseCommand input) input p.actions

/-! ### Scrolling -/

def maxScrollOffset (p : FtxuiPresenter) : Option Int := do
  return max (← sub (ofSize p.messages.length) p.viewportHeightHint) 0

def scrollTo (p : FtxuiPresenter) (scrollOffset : Int) : FtxuiPresenter :=
  { p with scrollOffset := scrollOffset, autoScroll := scrollOffset = 0 }

def clampScrollOffsetLocked (p : FtxuiPresenter) : Option FtxuiPresenter := do
  let maxScrollOffset ← p.maxScrollOffset
  return p.scrollTo (clamp p.scrollOffset 0 maxScrollOffset)

def scrollByLocked (p : FtxuiPresenter) (delta : Int) : Option FtxuiPresenter := do
  let maxScrollOffset ← p.maxScrollOffset
  return p.scrollTo (clamp (← add p.scrollOffset delta) 0 maxScrollOffset)

def scrollToTopLocked (p : FtxuiPresenter) : Option FtxuiPresenter := do
  return p.scrollTo (← p.maxScrollOffset)

def scrollToBottomLocked (p : FtxuiPresenter) : FtxuiPresenter :=
  { p with scrollOffset := 0, autoScroll := true }

/-- The result is whether the event has been handled. -/
def handleScrollEvent (p : FtxuiPresenter) (event : UiEvent) : Option (FtxuiPresenter × Bool) := do
  let isMouseWheel : Bool := event = .mouse .wheelUp ∨ event = .mouse .wheelDown
  let isScrollEvent : Bool := event = .pageUp ∨ event = .pageDown ∨ event = .home ∨ event = .end ∨
    event = .arrowUp ∨ event = .arrowDown ∨ isMouseWheel
  if ¬ isScrollEvent then return (p, false)
  if p.showHelp then return (p, true)
  match event with
  | .pageUp => return (← p.scrollByLocked p.viewportHeightHint, true)
  | .pageDown => return (← p.scrollByLocked (← neg p.viewportHeightHint), true)
  | .arrowUp => return (← p.scrollByLocked 1, true)
  | .arrowDown => return (← p.scrollByLocked (-1), true)
  | .home => return (← p.scrollToTopLocked, true)
  | .end => return (p.scrollToBottomLocked, true)
  | .mouse .wheelUp => return (← p.scrollByLocked 3, true)
  | .mouse .wheelDown => return (← p.scrollByLocked (-3), true)
  | _ => return (p, false)

/-- The handler that `run` puts around the layout. -/
def catchEvent (p : FtxuiPresenter) (event : UiEvent) : Option (FtxuiPresenter × Bool) :=
  if event = .escape then some (if p.showHelp then { p with showHelp := false } else p, true)
  else if event = .character (ascii "?") then some ({ p with showHelp := ¬ p.showHelp }, true)
  else p.handleScrollEvent event

/-- The rows of the message pane. -/
def render (p : FtxuiPresenter) : Option (FtxuiPresenter × List Row) := do
  let (inbox, messages) := p.inbox.drainTo p.messages InboxQueue.defaultMaxCount
  let p := { p with inbox := inbox, messages := messages }
  let p := { p with historyCount := ofSize (p.messages.countP InboxMessage.isHistory) }
  let p ← p.clampScrollOffsetLocked
  let rows ← RenderMessageView p.messages p.historyCount p.scrollOffset p.viewportHeightHint
  return (p, rows)

end FtxuiPresenter

end Bcmd.Cli
