import Bcmd.Lib.CheckedInt
import Bcmd.Shared

/-!
# `client-cli/`: `inbox_queue.cpp` and `message_view.hpp`

`none` is undefined behaviour: an overflow, or an index out of range. How a time of day is written is left to
the terminal.
-/

namespace Bcmd.Cli
open CheckedInt

structure InboxMessage where
  messageId : Bytes
  channelId : Bytes
  senderName : Bytes
  content : Bytes
  sentAtMs : Int
  isHistory : Bool
deriving DecidableEq

/-! ### `InboxQueue` -/

structure InboxQueue where
  messages : List InboxMessage
deriving DecidableEq

namespace InboxQueue

def push (inbox : InboxQueue) (message : InboxMessage) : InboxQueue := ⟨inbox.messages ++ [message]⟩

/-- The loop of `drainTo`, with the number of turns that are left. -/
def drain : Nat → List InboxMessage → List InboxMessage → InboxQueue × List InboxMessage
  | 0, messages, out => (⟨messages⟩, out)
  | _ + 1, [], out => (⟨[]⟩, out)
  | count + 1, front :: messages, out => drain count messages (out ++ [front])

/-- The default of `max_count`. -/
def defaultMaxCount : Nat := 50

def drainTo (inbox : InboxQueue) (out : List InboxMessage) (maxCount : Nat) :
    InboxQueue × List InboxMessage :=
  drain maxCount inbox.messages out

def clear : InboxQueue := ⟨[]⟩

theorem drain_eq (count : Nat) (messages out : List InboxMessage) :
    drain count messages out = (⟨messages.drop count⟩, out ++ messages.take count) := by
  induction count generalizing messages out with
  | zero => simp [drain]
  | succ count ih =>
    rcases messages with _ | ⟨front, messages⟩
    · simp [drain]
    · simp [drain, ih]

end InboxQueue

/-! ### The window -/

structure ScrollWindow where
  first : Int
  last : Int
deriving DecidableEq

def computeScrollWindow (messageCount scrollOffset viewportHeight : Int) : Option ScrollWindow := do
  let clampedMessageCount := max messageCount 0
  if viewportHeight ≤ 0 then return ⟨0, clampedMessageCount⟩
  let maxScrollOffset := max (← sub clampedMessageCount viewportHeight) 0
  let clampedScrollOffset := clamp scrollOffset 0 maxScrollOffset
  let first := max (← sub (← sub clampedMessageCount viewportHeight) clampedScrollOffset) 0
  let last := min (← add first viewportHeight) clampedMessageCount
  return ⟨first, last⟩

def shouldRenderLiveSeparator (messageCount historyCount scrollOffset viewportHeight : Int) : Option Bool := do
  let showSeparator : Bool := historyCount > 0 ∧ historyCount < messageCount
  if ¬ showSeparator then return false
  if viewportHeight ≤ 0 then return true
  let window ← computeScrollWindow messageCount scrollOffset viewportHeight
  return window.first < historyCount ∧ historyCount < window.last

/-! ### The rows -/

inductive Row
  | live
  | message (sentAtMs : Int) (sender content : Bytes)
  | noMessagesYet
deriving DecidableEq

def messageRow (message : InboxMessage) : Row :=
  .message message.sentAtMs (if message.senderName = [] then ascii "unknown" else message.senderName)
    message.content

/-- `messages[static_cast<std::size_t>(idx)]`. -/
def messageAt (messages : List InboxMessage) (idx : Int) : Option InboxMessage :=
  if idx < 0 then none else messages[idx.toNat]?

/-- The loop over the window, with the number of turns that are left. -/
def renderRows (messages : List InboxMessage) (historyCount : Int) (showWindowSeparator : Bool) :
    Nat → Int → Option (List Row)
  | 0, _ => some []
  | count + 1, idx => do
    let separator := if showWindowSeparator ∧ idx = historyCount then [Row.live] else []
    let message ← messageAt messages idx
    let rows ← renderRows messages historyCount showWindowSeparator count (← add idx 1)
    return separator ++ messageRow message :: rows

def RenderMessageView (messages : List InboxMessage) (historyCount scrollOffset viewportHeight : Int) :
    Option (List Row) := do
  let window ← computeScrollWindow (ofSize messages.length) scrollOffset viewportHeight
  let useWindow : Bool := viewportHeight > 0
  let showWindowSeparator ←
    shouldRenderLiveSeparator (ofSize messages.length) historyCount scrollOffset viewportHeight
  let first := if useWindow then window.first else 0
  let last := if useWindow then window.last else ofSize messages.length
  let rows ← renderRows messages historyCount showWindowSeparator (last - first).toNat first
  return if rows = [] then [.noMessagesYet] else rows

end Bcmd.Cli
