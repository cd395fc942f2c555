import Bcmd.FtxuiPresenter
import Bcmd.ScrollWindow

/-!
# The message pane

The messages that were shown are first in the queue and then in the pane; the pane's offset counts from its
newest message. Only a render moves messages, fifty at a time, and every function that touches the offset keeps
it between the two ends.
-/

namespace Bcmd.Cli
open CheckedInt FtxuiPresenter

inductive PaneEvent
  | showMessage (message : InboxMessage)
  | render
  /-- A key or the mouse, with the help panel open or closed. -/
  | event (event : UiEvent)
  | clearMessages

namespace PaneEvent

def isShow : PaneEvent → Bool
  | showMessage _ => true
  | _ => false

/-- The messages shown since the last clear. -/
def keep (shown : List InboxMessage) : PaneEvent → List InboxMessage
  | showMessage message => shown ++ [message]
  | clearMessages => []
  | _ => shown

end PaneEvent

def shownSinceClear (events : List PaneEvent) : List InboxMessage := events.foldl PaneEvent.keep []

namespace FtxuiPresenter

def step (p : FtxuiPresenter) : PaneEvent → Option FtxuiPresenter
  | .showMessage message => some (p.showMessage message)
  | .render => p.render.map Prod.fst
  | .event event => (p.catchEvent event).map Prod.fst
  | .clearMessages => some p.clearMessages

def run (p : FtxuiPresenter) (events : List PaneEvent) : Option FtxuiPresenter := events.foldlM step p

/-- The offset's largest value. -/
def top (p : FtxuiPresenter) : Int := max (p.messages.length - p.viewportHeightHint) 0

/-- What holds between any two events, when these messages have been shown. -/
structure PaneOk (shown : List InboxMessage) (p : FtxuiPresenter) : Prop where
  messages : p.messages ++ p.inbox.messages = shown
  hint : p.viewportHeightHint = 20
  nonneg : 0 ≤ p.scrollOffset
  le_top : p.scrollOffset ≤ p.top
  autoScroll : p.autoScroll = true ↔ p.scrollOffset = 0

end FtxuiPresenter

/-! ### What one event does -/

namespace FtxuiPresenter
variable {shown : List InboxMessage} {p : FtxuiPresenter} {offset : Int}

theorem PaneOk.length_le (h : PaneOk shown p) : p.messages.length ≤ shown.length := by
  rw [← h.messages, List.length_append]
  omega

theorem PaneOk.initial : PaneOk [] initial := by
  constructor
  · rfl
  · rfl
  · decide
  · decide
  · decide

theorem PaneOk.showMessage (h : PaneOk shown p) (message : InboxMessage) :
    PaneOk (shown ++ [message]) (p.showMessage message) := by
  have hoffset : (p.showMessage message).scrollOffset = p.scrollOffset := by
    unfold FtxuiPresenter.showMessage
    split
    · exact (h.autoScroll.1 ‹_›).symm
    · rfl
  have hrest : (p.showMessage message).messages = p.messages ∧
      (p.showMessage message).autoScroll = p.autoScroll ∧
      (p.showMessage message).viewportHeightHint = p.viewportHeightHint ∧
      (p.showMessage message).inbox.messages = p.inbox.messages ++ [message] := by
    unfold FtxuiPresenter.showMessage
    split <;> exact ⟨rfl, rfl, rfl, rfl⟩
  obtain ⟨hmessages, hauto, hhint, hinbox⟩ := hrest
  constructor
  · rw [hmessages, hinbox, ← List.append_assoc, h.messages]
  · rw [hhint, h.hint]
  · rw [hoffset]
    exact h.nonneg
  · rw [top, hoffset, hmessages, hhint]
    exact h.le_top
  · rw [hauto, hoffset]
    exact h.autoScroll

theorem PaneOk.clearMessages (h : PaneOk shown p) : PaneOk [] p.clearMessages := by
  have htop : 0 ≤ p.clearMessages.top := le_max_right _ _
  constructor
  · rfl
  · exact h.hint
  · exact le_refl 0
  · exact htop
  · exact ⟨fun _ => rfl, fun _ => rfl⟩

theorem PaneOk.scrollTo (h : PaneOk shown p) (hoffset : 0 ≤ offset) (htop : offset ≤ p.top) :
    PaneOk shown (p.scrollTo offset) := by
  constructor
  · exact h.messages
  · exact h.hint
  · exact hoffset
  · exact htop
  · exact decide_eq_true_iff

theorem PaneOk.maxScrollOffset (h : PaneOk shown p) (hfew : shown.length < 1073741824) :
    p.maxScrollOffset = some p.top := by
  have hlen := h.length_le
  have hhint := h.hint
  unfold FtxuiPresenter.maxScrollOffset top
  rw [ofSize_eq (by omega), sub_eq (by unfold InRange; omega)]
  rfl

theorem PaneOk.clampScrollOffsetLocked (h : PaneOk shown p) (hfew : shown.length < 1073741824) :
    p.clampScrollOffsetLocked = some (p.scrollTo p.scrollOffset) := by
  have hclamp : clamp p.scrollOffset 0 p.top = p.scrollOffset := by
    have hnonneg := h.nonneg
    have htop := h.le_top
    rw [clamp_eq p.scrollOffset (show 0 ≤ p.top by omega)]
    omega
  unfold FtxuiPresenter.clampScrollOffsetLocked
  rw [h.maxScrollOffset hfew]
  exact congrArg (fun offset => some (p.scrollTo offset)) hclamp

theorem PaneOk.scrollByLocked (h : PaneOk shown p) (hfew : shown.length < 1073741824) (delta : Int)
    (hdelta : -20 ≤ delta ∧ delta ≤ 20) : ∃ p', p.scrollByLocked delta = some p' ∧ PaneOk shown p' := by
  have hlen := h.length_le
  have hhint := h.hint
  have hnonneg := h.nonneg
  have hle := h.le_top
  have htop : p.top = max (p.messages.length - p.viewportHeightHint) 0 := rfl
  have hadd : add p.scrollOffset delta = some (p.scrollOffset + delta) := add_eq (by unfold InRange; omega)
  have hclamp := clamp_eq (p.scrollOffset + delta) (show 0 ≤ p.top by omega)
  refine ⟨p.scrollTo (clamp (p.scrollOffset + delta) 0 p.top), ?_, h.scrollTo ?_ ?_⟩
  · unfold FtxuiPresenter.scrollByLocked
    rw [h.maxScrollOffset hfew, hadd]
    rfl
  · omega
  · omega

theorem PaneOk.handleScrollEvent (h : PaneOk shown p) (hfew : shown.length < 1073741824) (event : UiEvent) :
    ∃ p' handled, p.handleScrollEvent event = some (p', handled) ∧ PaneOk shown p' := by
  have hbottom : PaneOk shown p.scrollToBottomLocked := h.scrollTo (le_refl 0) (le_max_right _ _)
  have htop : p.scrollToTopLocked = some (p.scrollTo p.top) := by
    unfold scrollToTopLocked
    rw [h.maxScrollOffset hfew]
    rfl
  have hhint := h.hint
  have hneg : neg p.viewportHeightHint = some (-p.viewportHeightHint) := neg_eq (by unfold InRange; omega)
  unfold FtxuiPresenter.handleScrollEvent
  by_cases hhelp : p.showHelp = true
  · simp only [hhelp, if_true]
    split <;> exact ⟨p, _, rfl, h⟩
  simp only [hhelp, htop]
  have hby := h.scrollByLocked hfew
  cases event with
  | pageUp =>
    obtain ⟨p', hp', hok⟩ := hby p.viewportHeightHint (by omega)
    exact ⟨p', true, by simp [hp'], hok⟩
  | pageDown =>
    obtain ⟨p', hp', hok⟩ := hby (-p.viewportHeightHint) (by omega)
    refine ⟨p', true, ?_, hok⟩
    simp only [reduceCtorEq, or_false, if_false, Option.bind_eq_bind]
    rw [hneg, Option.bind_some, hp', Option.bind_some]
    rfl
  | home => exact ⟨_, true, by simp; rfl, h.scrollTo (le_max_right _ _) (le_refl _)⟩
  | «end» => exact ⟨_, true, by simp, hbottom⟩
  | arrowUp =>
    obtain ⟨p', hp', hok⟩ := hby 1 (by omega)
    exact ⟨p', true, by simp [hp'], hok⟩
  | arrowDown =>
    obtain ⟨p', hp', hok⟩ := hby (-1) (by omega)
    exact ⟨p', true, by simp [hp'], hok⟩
  | escape => exact ⟨p, false, by simp, h⟩
  | character text => exact ⟨p, false, by simp, h⟩
  | mouse button =>
    cases button with
    | wheelUp =>
      obtain ⟨p', hp', hok⟩ := hby 3 (by omega)
      exact ⟨p', true, by simp [hp'], hok⟩
    | wheelDown =>
      obtain ⟨p', hp', hok⟩ := hby (-3) (by omega)
      exact ⟨p', true, by simp [hp'], hok⟩
    | other => exact ⟨p, false, by simp, h⟩
  | custom => exact ⟨p, false, by simp, h⟩

theorem PaneOk.catchEvent (h : PaneOk shown p) (hfew : shown.length < 1073741824) (event : UiEvent) :
    ∃ p' handled, p.catchEvent event = some (p', handled) ∧ PaneOk shown p' := by
  have hhelp : ∀ showHelp, PaneOk shown { p with showHelp := showHelp } :=
    fun _ => ⟨h.messages, h.hint, h.nonneg, h.le_top, h.autoScroll⟩
  unfold FtxuiPresenter.catchEvent
  split
  · refine ⟨_, _, rfl, ?_⟩
    split
    · exact hhelp false
    · exact h
  · split
    · exact ⟨_, _, rfl, hhelp _⟩
    · exact h.handleScrollEvent hfew event

/-- What a render shows: the messages of a window, which ends at the newest one when the pane scrolls with the
messages. -/
structure Shows (p : FtxuiPresenter) (rows : List Row) (window : ScrollWindow) : Prop where
  eq : computeScrollWindow p.messages.length p.scrollOffset p.viewportHeightHint = some window
  first : 0 ≤ window.first
  first_le : window.first ≤ window.last
  last : window.last ≤ p.messages.length
  height : window.last - window.first = min (p.messages.length : Int) p.viewportHeightHint
  newest : window.last = p.messages.length ↔ p.autoScroll = true
  rows : rows.filter Row.isMessage =
    ((p.messages.drop window.first.toNat).take (window.last - window.first).toNat).map messageRow

/-- With up to fifty messages taken out of the queue. -/
def drained (p : FtxuiPresenter) : FtxuiPresenter :=
  { p with
    inbox := ⟨p.inbox.messages.drop InboxQueue.defaultMaxCount⟩
    messages := p.messages ++ p.inbox.messages.take InboxQueue.defaultMaxCount }

/-- With the history counted again. -/
def counted (p : FtxuiPresenter) : FtxuiPresenter :=
  { p with historyCount := ofSize (p.messages.countP InboxMessage.isHistory) }

theorem render_eq (p : FtxuiPresenter) : p.render = p.drained.counted.clampScrollOffsetLocked.bind fun p' =>
    (RenderMessageView p'.messages p'.historyCount p'.scrollOffset p'.viewportHeightHint).map fun rows =>
      (p', rows) := by
  have hdrain : p.inbox.drainTo p.messages InboxQueue.defaultMaxCount =
      (p.drained.inbox, p.drained.messages) :=
    InboxQueue.drain_eq ..
  unfold FtxuiPresenter.render
  rw [hdrain]
  show p.drained.counted.clampScrollOffsetLocked.bind _ = _
  congr 1
  funext p'
  show (RenderMessageView p'.messages p'.historyCount p'.scrollOffset p'.viewportHeightHint).bind _ = _
  rw [Option.map_eq_bind]
  rfl

theorem PaneOk.drained (h : PaneOk shown p) : PaneOk shown p.drained := by
  constructor
  · unfold FtxuiPresenter.drained
    rw [List.append_assoc, List.take_append_drop, h.messages]
  · exact h.hint
  · exact h.nonneg
  · refine h.le_top.trans ?_
    show max ((p.messages.length : Int) - p.viewportHeightHint) 0 ≤
      max (((p.messages ++ p.inbox.messages.take InboxQueue.defaultMaxCount).length : Int) -
        p.viewportHeightHint) 0
    rw [List.length_append]
    omega
  · exact h.autoScroll

theorem PaneOk.historyCount (h : PaneOk shown p) (historyCount : Int) :
    PaneOk shown { p with historyCount := historyCount } :=
  ⟨h.messages, h.hint, h.nonneg, h.le_top, h.autoScroll⟩

/-- The window of a pane with fewer than 2^30 messages. -/
theorem PaneOk.window (h : PaneOk shown p) (hfew : shown.length < 1073741824) :
    ScrollWindow.used p.messages.length p.scrollOffset p.viewportHeightHint =
        .ofOffset p.messages.length p.scrollOffset p.viewportHeightHint ∧
      computeScrollWindow p.messages.length p.scrollOffset p.viewportHeightHint =
        some (.ofOffset p.messages.length p.scrollOffset p.viewportHeightHint) := by
  have hlen := h.length_le
  have hhint := h.hint
  have hused : ScrollWindow.used p.messages.length p.scrollOffset p.viewportHeightHint =
      .ofOffset p.messages.length p.scrollOffset p.viewportHeightHint := by
    rw [ScrollWindow.used, if_neg (by omega), max_eq_left (by omega)]
  refine ⟨hused, ?_⟩
  rw [computeScrollWindow_eq_used (by unfold InRange; omega) (by unfold InRange; omega), hused]

theorem PaneOk.render (h : PaneOk shown p) (hfew : shown.length < 1073741824) :
    ∃ p' rows window, p.render = some (p', rows) ∧ PaneOk shown p' ∧ p'.Shows rows window := by
  have hcounted : PaneOk shown p.drained.counted := h.drained.historyCount _
  have hok := hcounted.scrollTo hcounted.nonneg hcounted.le_top
  have hclamp := hcounted.clampScrollOffsetLocked hfew
  generalize p.drained.counted.scrollTo p.drained.counted.scrollOffset = p' at hok hclamp
  have hlen := hok.length_le
  have hhint := hok.hint
  obtain ⟨hused, hwindow⟩ := hok.window hfew
  have hrows : RenderMessageView p'.messages p'.historyCount p'.scrollOffset p'.viewportHeightHint =
      some (rowsOf p'.messages p'.historyCount
        (.ofOffset p'.messages.length p'.scrollOffset p'.viewportHeightHint)) := by
    rw [RenderMessageView_eq_rowsOf (by omega) (by unfold InRange; omega), hused]
  have hrender : p.render = some (p', rowsOf p'.messages p'.historyCount
      (.ofOffset p'.messages.length p'.scrollOffset p'.viewportHeightHint)) := by
    rw [render_eq, hclamp, Option.bind_some, hrows, Option.map_some]
  obtain ⟨hfirst, hle, hlast, hrowcount⟩ := ScrollWindow.ofOffset_bounds p'.scrollOffset
    (show 0 ≤ (p'.messages.length : Int) by omega) (show 0 < p'.viewportHeightHint by omega)
  have hnewest := (ScrollWindow.ofOffset_newest hok.nonneg hok.le_top).trans hok.autoScroll.symm
  exact ⟨p', _, _, hrender, hok, hwindow, hfirst, hle, hlast, hrowcount, hnewest, filter_rowsOf hfirst⟩

theorem PaneOk.step (h : PaneOk shown p) (hfew : shown.length < 1073741824) (event : PaneEvent) :
    ∃ p', p.step event = some p' ∧ PaneOk (event.keep shown) p' := by
  cases event with
  | showMessage message => exact ⟨_, rfl, h.showMessage message⟩
  | render =>
    obtain ⟨p', rows, window, hrender, hok, -⟩ := h.render hfew
    exact ⟨p', by simp [FtxuiPresenter.step, hrender], hok⟩
  | event event =>
    obtain ⟨p', handled, hcatch, hok⟩ := h.catchEvent hfew event
    exact ⟨p', by simp [FtxuiPresenter.step, hcatch], hok⟩
  | clearMessages => exact ⟨_, rfl, h.clearMessages⟩

end FtxuiPresenter

section
variable {events : List PaneEvent}

theorem shownSinceClear_snoc (events : List PaneEvent) (event : PaneEvent) :
    shownSinceClear (events ++ [event]) = event.keep (shownSinceClear events) := by
  rw [shownSinceClear, List.foldl_append]
  rfl

theorem length_keep_le (shown : List InboxMessage) (event : PaneEvent) :
    (event.keep shown).length ≤ shown.length + [event].countP PaneEvent.isShow := by
  cases event with
  | showMessage message => exact (List.length_append).le
  | render => exact le_refl _
  | event event => exact le_refl _
  | clearMessages => exact Nat.zero_le _

theorem length_shownSinceClear_le (events : List PaneEvent) :
    (shownSinceClear events).length ≤ events.countP PaneEvent.isShow := by
  induction events using List.reverseRecOn with
  | nil => exact le_refl 0
  | append_singleton events event ih =>
    have hlast := length_keep_le (shownSinceClear events) event
    rw [shownSinceClear_snoc, List.countP_append]
    omega

theorem run_ok (hfew : events.countP PaneEvent.isShow < 1073741824) :
    ∃ p, initial.run events = some p ∧ PaneOk (shownSinceClear events) p := by
  induction events using List.reverseRecOn with
  | nil => exact ⟨_, rfl, .initial⟩
  | append_singleton events event ih =>
    rw [List.countP_append] at hfew
    obtain ⟨p, hrun, hok⟩ := ih (by omega)
    have hlen := length_shownSinceClear_le events
    obtain ⟨p', hstep, hok'⟩ := hok.step (by omega) event
    refine ⟨p', ?_, ?_⟩
    · unfold run at hrun ⊢
      rw [List.foldlM_append, hrun]
      simpa using hstep
    · rw [shownSinceClear_snoc]
      exact hok'

/-- For every sequence of messages, renders, keys and clears, with fewer than 2^30 messages: no step overflows;
the pane and the queue hold what was shown since the last clear, in order; the offset is between the two ends,
and the pane scrolls with the messages exactly at offset 0; and a render now reads no index out of bounds and
shows the messages of a window that is as high as it can be and ends at the newest message exactly when the
pane scrolls with them. -/
theorem pane_consistent (events : List PaneEvent) (hfew : events.countP PaneEvent.isShow < 1073741824) :
    ∃ p, initial.run events = some p ∧
      p.messages ++ p.inbox.messages = shownSinceClear events ∧
      0 ≤ p.scrollOffset ∧ p.scrollOffset ≤ max (p.messages.length - p.viewportHeightHint) 0 ∧
      (p.autoScroll = true ↔ p.scrollOffset = 0) ∧
      ∃ p' rows window, p.render = some (p', rows) ∧ p'.Shows rows window := by
  obtain ⟨p, hrun, hok⟩ := run_ok hfew
  have hlen := length_shownSinceClear_le events
  obtain ⟨p', rows, window, hrender, -, hshows⟩ := hok.render (by omega)
  exact ⟨p, hrun, hok.messages, hok.nonneg, hok.le_top, hok.autoScroll, p', rows, window, hrender, hshows⟩

/-- The message of some second. -/
def sentAt (second : Nat) : InboxMessage := ⟨[], [], [], ascii "hi", second, false⟩

/-- A message that is cleared, twenty-two more, a row up, and one that waits for the next render. -/
def scrollingBack : List PaneEvent :=
  [.showMessage (sentAt 0), .render, .clearMessages] ++
    (List.range 22).map (fun second => .showMessage (sentAt second)) ++
    [.render, .event .arrowUp, .showMessage (sentAt 22)]

theorem pane_consistent_scrollingBack :
    ∃ p, initial.run scrollingBack = some p ∧ p.messages ++ p.inbox.messages = (List.range 23).map sentAt ∧
      p.scrollOffset = 1 ∧ p.autoScroll ≠ true ∧
      ∃ p' rows window, p.render = some (p', rows) ∧ p'.Shows rows window := by
  obtain ⟨p, hrun, hmessages, -, -, hauto, hrender⟩ := pane_consistent scrollingBack (by decide)
  have hoffset : (initial.run scrollingBack).map scrollOffset = some 1 := by decide +kernel
  rw [hrun] at hoffset
  have hone : p.scrollOffset = 1 := Option.some.inj hoffset
  have hshown : shownSinceClear scrollingBack = (List.range 23).map sentAt := by decide +kernel
  refine ⟨p, hrun, hmessages.trans hshown, hone, fun hon => ?_, hrender⟩
  have hzero := hauto.1 hon
  omega

end

end Bcmd.Cli
