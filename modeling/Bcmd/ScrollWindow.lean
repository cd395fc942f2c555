import Bcmd.MessageView

/-!
# The scroll window

Over `n` messages the window is as high as it can be and stands `offset` rows above the newest message, as far
as there are rows above it (`ofOffset`). `computeScrollWindow` computes that window for all 32-bit arguments,
and the rows of the pane are the messages in it, with the separator between two of them.
-/

namespace Bcmd.Cli
open CheckedInt

namespace ScrollWindow

/-- The window of a viewport of some height. -/
def ofOffset (n offset height : Int) : ScrollWindow :=
  let first := max (n - height) 0 - max 0 (min offset (n - height))
  ⟨first, first + min n height⟩

/-- The rows that are rendered: without a viewport, all of them. -/
def used (messageCount scrollOffset viewportHeight : Int) : ScrollWindow :=
  if viewportHeight ≤ 0 then ⟨0, max messageCount 0⟩ else ofOffset (max messageCount 0) scrollOffset viewportHeight

section
variable {n offset height i : Int}

theorem ofOffset_bounds (offset : Int) (hn : 0 ≤ n) (hheight : 0 < height) :
    0 ≤ (ofOffset n offset height).first ∧ (ofOffset n offset height).first ≤ (ofOffset n offset height).last ∧
      (ofOffset n offset height).last ≤ n ∧
      (ofOffset n offset height).last - (ofOffset n offset height).first = min n height := by
  unfold ofOffset
  dsimp only
  omega

/-- The tail. -/
theorem ofOffset_tail (h : offset ≤ 0) : ofOffset n offset height = ⟨max (n - height) 0, n⟩ := by
  unfold ofOffset
  simp only [ScrollWindow.mk.injEq]
  omega

/-- The head. -/
theorem ofOffset_head (h : n - height ≤ offset) : ofOffset n offset height = ⟨0, min n height⟩ := by
  unfold ofOffset
  simp only [ScrollWindow.mk.injEq]
  omega

theorem ofOffset_succ (h : 0 ≤ offset) (h' : offset < n - height) :
    ofOffset n (offset + 1) height =
      ⟨(ofOffset n offset height).first - 1, (ofOffset n offset height).last - 1⟩ := by
  unfold ofOffset
  simp only [ScrollWindow.mk.injEq]
  omega

theorem ofOffset_last (h : 0 ≤ offset) (h' : offset ≤ max (n - height) 0) :
    (ofOffset n offset height).last = n - offset := by
  unfold ofOffset
  dsimp only
  omega

/-- Among the offsets that differ from one another, 0 is that of the newest message. -/
theorem ofOffset_newest (h : 0 ≤ offset) (h' : offset ≤ max (n - height) 0) :
    (ofOffset n offset height).last = n ↔ offset = 0 := by
  rw [ofOffset_last h h']
  omega

/-- The index is the last row of a window, or in the head. -/
theorem mem_ofOffset (hheight : 0 < height) (hi : 0 ≤ i) (hin : i < n) :
    (ofOffset n (n - 1 - i) height).first ≤ i ∧ i < (ofOffset n (n - 1 - i) height).last := by
  unfold ofOffset
  dsimp only
  omega

end

end ScrollWindow

section
variable {messageCount scrollOffset viewportHeight : Int}

/-- The arithmetic is exact. -/
theorem computeScrollWindow_eq_used (hcount : InRange messageCount) (hheight : InRange viewportHeight) :
    computeScrollWindow messageCount scrollOffset viewportHeight =
      some (.used messageCount scrollOffset viewportHeight) := by
  unfold InRange at hcount hheight
  unfold computeScrollWindow ScrollWindow.used
  split
  · rfl
  · generalize hn : max messageCount 0 = n
    have hsub : sub n viewportHeight = some (n - viewportHeight) := sub_eq (by unfold InRange; omega)
    have hclamp := clamp_eq scrollOffset (show 0 ≤ max (n - viewportHeight) 0 by omega)
    simp only [hsub, Option.pure_def, Option.bind_eq_bind, Option.bind_some]
    generalize clamp scrollOffset 0 (max (n - viewportHeight) 0) = clamped at hclamp
    have hsub' : sub (n - viewportHeight) clamped = some (n - viewportHeight - clamped) :=
      sub_eq (by unfold InRange; omega)
    have hadd : add (max (n - viewportHeight - clamped) 0) viewportHeight =
        some (max (n - viewportHeight - clamped) 0 + viewportHeight) := add_eq (by unfold InRange; omega)
    simp only [hsub', hadd, Option.bind_some, Option.some.injEq, ScrollWindow.ofOffset, ScrollWindow.mk.injEq]
    omega

end

/-! ### The rows -/

def Row.isMessage : Row → Bool
  | message .. => true
  | _ => false

@[simp] theorem isMessage_live : Row.live.isMessage = false := rfl

@[simp] theorem isMessage_messageRow (message : InboxMessage) : (messageRow message).isMessage = true := rfl

/-- The messages in the window. -/
def ScrollWindow.slice (window : ScrollWindow) (messages : List InboxMessage) : List InboxMessage :=
  (messages.drop window.first.toNat).take (window.last - window.first).toNat

section
variable {messages : List InboxMessage} {historyCount : Int} {sep : Bool} {count first : Nat}

theorem live_notMem (messages : List InboxMessage) : Row.live ∉ messages.map messageRow := by
  intro h
  obtain ⟨message, -, hmessage⟩ := List.mem_map.1 h
  exact absurd hmessage (by simp [messageRow])

theorem take_drop_succ (hlt : first < messages.length) (count : Nat) :
    (messages.drop first).take (count + 1) = messages[first] :: (messages.drop (first + 1)).take count := by
  rw [List.drop_eq_getElem_cons hlt, List.take_succ_cons]

/-- One turn of the loop. -/
theorem renderRows_succ (hlt : first < messages.length) (hlen : messages.length < 2147483648) :
    renderRows messages historyCount sep (count + 1) first =
      (renderRows messages historyCount sep count (first + 1 : Nat)).map fun rows =>
        (if sep ∧ (first : Int) = historyCount then [Row.live] else []) ++ messageRow messages[first] :: rows := by
  have hat : messageAt messages first = some messages[first] := by
    unfold messageAt
    rw [if_neg (by omega), Int.toNat_natCast, List.getElem?_eq_getElem hlt]
  have hnext : add first 1 = some ((first + 1 : Nat) : Int) := by
    rw [add_eq (by unfold InRange; omega)]
    rfl
  rw [renderRows, hat, hnext]
  simp only [Option.bind_eq_bind, Option.bind_some]
  cases renderRows messages historyCount sep count (first + 1 : Nat) <;> rfl

theorem renderRows_plain (first : Nat) (h : first + count ≤ messages.length) (hlen : messages.length < 2147483648)
    (hsep : sep = true → ¬ (first ≤ historyCount ∧ historyCount < first + count)) :
    renderRows messages historyCount sep count first =
      some (((messages.drop first).take count).map messageRow) := by
  induction count generalizing first with
  | zero => simp [renderRows]
  | succ count ih =>
    have hlt : first < messages.length := by omega
    have hno : ¬ (sep = true ∧ (first : Int) = historyCount) := by
      rintro ⟨hs, rfl⟩
      exact hsep hs (by omega)
    have hrest := ih (first + 1) (by omega) fun hs hin => hsep hs (by omega)
    rw [renderRows_succ hlt hlen, hrest, if_neg hno, take_drop_succ hlt]
    rfl

/-- The separator stands where the history ends. -/
theorem renderRows_live {before after : Nat} (first : Nat) (h : first + before + after ≤ messages.length)
    (hlen : messages.length < 2147483648) (hafter : 0 < after)
    (hcount : historyCount = (first + before : Nat)) :
    renderRows messages historyCount true (before + after) first =
      some (((messages.drop first).take before).map messageRow ++
        .live :: ((messages.drop (first + before)).take after).map messageRow) := by
  induction before generalizing first with
  | zero =>
    obtain ⟨count, rfl⟩ : ∃ count, after = count + 1 := ⟨after - 1, by omega⟩
    have hlt : first < messages.length := by omega
    have hrest : renderRows messages historyCount true count (first + 1 : Nat) =
        some (((messages.drop (first + 1)).take count).map messageRow) :=
      renderRows_plain (first + 1) (by omega) hlen (by omega)
    have hslice := take_drop_succ hlt count
    rw [Nat.zero_add, renderRows_succ hlt hlen, hrest, if_pos ⟨rfl, by omega⟩]
    show _ = some ([] ++ .live :: ((messages.drop first).take (count + 1)).map messageRow)
    rw [hslice]
    rfl
  | succ before ih =>
    have hlt : first < messages.length := by omega
    have hno : ¬ (true = true ∧ (first : Int) = historyCount) := by omega
    have hrest := ih (first + 1) (by omega) (by omega)
    rw [Nat.add_right_comm before 1 after, renderRows_succ hlt hlen, hrest, if_neg hno, take_drop_succ hlt,
      Nat.add_right_comm first 1 before]
    rfl

end

/-! ### The pane -/

section
variable {messages : List InboxMessage} {messageCount historyCount scrollOffset viewportHeight : Int}

theorem ScrollWindow.used_bounds (n scrollOffset viewportHeight : Int) (hn : 0 ≤ n) :
    0 ≤ (used n scrollOffset viewportHeight).first ∧
      (used n scrollOffset viewportHeight).first ≤ (used n scrollOffset viewportHeight).last ∧
      (used n scrollOffset viewportHeight).last ≤ n := by
  unfold used ofOffset
  split <;> dsimp only <;> omega

theorem shouldRenderLiveSeparator_eq (hcount : InRange messageCount) (hcount' : 0 ≤ messageCount)
    (hheight : InRange viewportHeight) :
    shouldRenderLiveSeparator messageCount historyCount scrollOffset viewportHeight =
      some (decide ((ScrollWindow.used messageCount scrollOffset viewportHeight).first < historyCount ∧
        historyCount < (ScrollWindow.used messageCount scrollOffset viewportHeight).last)) := by
  obtain ⟨hfirst, hle, hlast⟩ := ScrollWindow.used_bounds messageCount scrollOffset viewportHeight hcount'
  unfold shouldRenderLiveSeparator
  simp only [computeScrollWindow_eq_used hcount hheight, Option.bind_eq_bind, Option.bind_some, Option.pure_def]
  split_ifs with hshow hall
  · simp only [decide_eq_true_eq] at hshow
    rw [Option.some.injEq, eq_comm, decide_eq_true_eq, ScrollWindow.used, if_pos hall]
    dsimp only
    omega
  · rfl
  · -- the history ends at an end of the list, so not inside a window of it
    simp only [decide_eq_true_eq] at hshow
    rw [Option.some.injEq, eq_comm, decide_eq_false_iff_not]
    omega

/-- The rows of a window: its messages, with the separator where the history ends in it. -/
def rowsOf (messages : List InboxMessage) (historyCount : Int) (window : ScrollWindow) : List Row :=
  if window.first < historyCount ∧ historyCount < window.last then
    (ScrollWindow.slice ⟨window.first, historyCount⟩ messages).map messageRow ++
      .live :: (ScrollWindow.slice ⟨historyCount, window.last⟩ messages).map messageRow
  else if window.slice messages = [] then [.noMessagesYet]
  else (window.slice messages).map messageRow

theorem RenderMessageView_eq_rowsOf (hlen : messages.length < 2147483648) (hheight : InRange viewportHeight) :
    RenderMessageView messages historyCount scrollOffset viewportHeight =
      some (rowsOf messages historyCount (.used messages.length scrollOffset viewportHeight)) := by
  have hn : InRange messages.length := by unfold InRange; omega
  have hused : ∀ first last : Int, ScrollWindow.used messages.length scrollOffset viewportHeight = ⟨first, last⟩ →
      (if decide (viewportHeight > 0) then first else 0) = first ∧
        (if decide (viewportHeight > 0) then last else messages.length) = last := by
    intro first last h
    by_cases hgiven : 0 < viewportHeight
    · simp [hgiven]
    · rw [ScrollWindow.used, if_pos (by omega), ScrollWindow.mk.injEq] at h
      simp [hgiven]
      omega
  obtain ⟨hfirst, hle, hlast⟩ := ScrollWindow.used_bounds messages.length scrollOffset viewportHeight (by omega)
  unfold RenderMessageView
  simp only [ofSize_eq hlen, computeScrollWindow_eq_used hn hheight,
    shouldRenderLiveSeparator_eq hn (by omega) hheight, Option.bind_eq_bind, Option.bind_some, Option.pure_def]
  generalize ScrollWindow.used messages.length scrollOffset viewportHeight = window at *
  obtain ⟨first, last⟩ := window
  obtain ⟨hif, hif'⟩ := hused first last rfl
  rw [hif, hif']
  dsimp only at hfirst hle hlast
  lift first to ℕ using hfirst
  lift last to ℕ using by omega
  by_cases hlive : (first : Int) < historyCount ∧ historyCount < last
  · obtain ⟨before, hbefore⟩ : ∃ before : Nat, historyCount = (first + before : Nat) :=
      ⟨(historyCount - first).toNat, by omega⟩
    obtain ⟨after, hafter⟩ : ∃ after : Nat, last = first + before + after :=
      ⟨last - first - before, by omega⟩
    have hturns : ((last : Int) - first).toNat = before + after := by omega
    have hrows : renderRows messages historyCount true (before + after) first =
        some (((messages.drop first).take before).map messageRow ++
          .live :: ((messages.drop (first + before)).take after).map messageRow) :=
      renderRows_live first (by omega) hlen (by omega) hbefore
    have hupper : ScrollWindow.slice ⟨first, historyCount⟩ messages = (messages.drop first).take before := by
      rw [ScrollWindow.slice, Int.toNat_natCast, show (historyCount - first).toNat = before by omega]
    have hlower : ScrollWindow.slice ⟨historyCount, last⟩ messages =
        (messages.drop (first + before)).take after := by
      rw [ScrollWindow.slice, hbefore, Int.toNat_natCast,
        show ((last : Int) - (first + before : Nat)).toNat = after by omega]
    rw [decide_eq_true hlive, hturns, hrows, Option.bind_some, rowsOf, if_pos hlive, hupper, hlower,
      if_neg (by simp)]
  · have hrows : renderRows messages historyCount false ((last : Int) - first).toNat first =
        some (((messages.drop first).take ((last : Int) - first).toNat).map messageRow) :=
      renderRows_plain first (by omega) hlen (by simp)
    rw [decide_eq_false hlive, hrows, Option.bind_some, rowsOf, if_neg hlive, ScrollWindow.slice,
      Int.toNat_natCast]
    simp only [List.map_eq_nil_iff]

theorem filter_map_messageRow (messages : List InboxMessage) :
    (messages.map messageRow).filter Row.isMessage = messages.map messageRow := by
  rw [List.filter_eq_self]
  intro row hrow
  obtain ⟨message, -, rfl⟩ := List.mem_map.1 hrow
  exact isMessage_messageRow message

theorem filter_rowsOf {window : ScrollWindow} (hfirst : 0 ≤ window.first) :
    (rowsOf messages historyCount window).filter Row.isMessage =
      (window.slice messages).map messageRow := by
  unfold rowsOf
  split
  · -- what is above the separator and what is below it make up the window
    have hsplit : window.slice messages = ScrollWindow.slice ⟨window.first, historyCount⟩ messages ++
        ScrollWindow.slice ⟨historyCount, window.last⟩ messages := by
      unfold ScrollWindow.slice
      dsimp only
      rw [show (window.last - window.first).toNat =
        (historyCount - window.first).toNat + (window.last - historyCount).toNat by omega, List.take_add,
        List.drop_drop, show window.first.toNat + (historyCount - window.first).toNat = historyCount.toNat by omega]
    rw [hsplit, List.filter_append, List.filter_cons_of_neg (by simp), filter_map_messageRow,
      filter_map_messageRow, List.map_append]
  · split
    · rw [‹window.slice messages = []›]
      rfl
    · exact filter_map_messageRow _

/-! ### The separator -/

theorem ScrollWindow.mem_of_mem_slice {window : ScrollWindow} {message : InboxMessage}
    (h : message ∈ window.slice messages) : message ∈ messages :=
  List.mem_of_mem_drop (List.mem_of_mem_take h)

theorem ScrollWindow.slice_ne_nil {first last : Int} (hfirst : 0 ≤ first) (hlt : first < last)
    (hlast : last ≤ messages.length) : slice ⟨first, last⟩ messages ≠ [] := by
  apply List.ne_nil_of_length_pos
  rw [slice, List.length_take, List.length_drop]
  dsimp only
  omega

/-- The separator has a message above it and a message below it. -/
theorem live_between {window : ScrollWindow} {before after : List Row} (hfirst : 0 ≤ window.first)
    (hlast : window.last ≤ messages.length)
    (h : rowsOf messages historyCount window = before ++ .live :: after) :
    (∃ message ∈ messages, before.getLast? = some (messageRow message)) ∧
      ∃ message ∈ messages, after.head? = some (messageRow message) := by
  unfold rowsOf at h
  split at h
  · rw [List.append_cons_inj_of_notMem (live_notMem _) (live_notMem _)] at h
    obtain ⟨rfl, -, rfl⟩ := h
    have hupper : ScrollWindow.slice ⟨window.first, historyCount⟩ messages ≠ [] :=
      ScrollWindow.slice_ne_nil hfirst (by omega) (by omega)
    have hlower : ScrollWindow.slice ⟨historyCount, window.last⟩ messages ≠ [] :=
      ScrollWindow.slice_ne_nil (by omega) (by omega) hlast
    constructor
    · refine ⟨_, ScrollWindow.mem_of_mem_slice (List.getLast_mem hupper), ?_⟩
      rw [List.getLast?_map, List.getLast?_eq_some_getLast hupper, Option.map_some]
    · refine ⟨_, ScrollWindow.mem_of_mem_slice (List.head_mem hlower), ?_⟩
      rw [List.head?_map, List.head?_eq_some_head hlower, Option.map_some]
  · exfalso
    have hlive : Row.live ∉ before ++ .live :: after := by
      rw [← h]
      split
      · simp
      · exact live_notMem _
    simp at hlive

end

/-- For all 32-bit arguments: no addition or subtraction overflows. With a viewport the window is inside the
list and as high as it can be; offsets from 0 down give the tail, those from `n - viewportHeight` up the head,
one more in between moves it up by one row, and every row is in some window. So the pane is rendered for fewer
than 2^31 messages without an index out of range, and a separator in it stands between two messages. -/
theorem computeScrollWindow_exact (messageCount scrollOffset viewportHeight : Int)
    (hcount : InRange messageCount) (hheight : InRange viewportHeight) :
    (∃ window, computeScrollWindow messageCount scrollOffset viewportHeight = some window ∧
      (0 < viewportHeight →
        0 ≤ window.first ∧ window.first ≤ window.last ∧ window.last ≤ max messageCount 0 ∧
        window.last - window.first = min (max messageCount 0) viewportHeight ∧
        (scrollOffset ≤ 0 →
          window = ⟨max (max messageCount 0 - viewportHeight) 0, max messageCount 0⟩) ∧
        (max messageCount 0 - viewportHeight ≤ scrollOffset →
          window = ⟨0, min (max messageCount 0) viewportHeight⟩) ∧
        (0 ≤ scrollOffset → scrollOffset < max messageCount 0 - viewportHeight →
          computeScrollWindow messageCount (scrollOffset + 1) viewportHeight =
            some ⟨window.first - 1, window.last - 1⟩))) ∧
    (0 < viewportHeight → ∀ i, 0 ≤ i → i < max messageCount 0 → ∃ offset window, InRange offset ∧
      computeScrollWindow messageCount offset viewportHeight = some window ∧ window.first ≤ i ∧
      i < window.last) ∧
    ∀ (messages : List InboxMessage) (historyCount : Int), messages.length < 2147483648 →
      ∃ rows, RenderMessageView messages historyCount scrollOffset viewportHeight = some rows ∧
        ∀ before after, rows = before ++ .live :: after →
          (∃ message ∈ messages, before.getLast? = some (messageRow message)) ∧
          ∃ message ∈ messages, after.head? = some (messageRow message) := by
  have hwindow : ∀ offset, computeScrollWindow messageCount offset viewportHeight =
      some (.used messageCount offset viewportHeight) := fun _ => computeScrollWindow_eq_used hcount hheight
  have hn : 0 ≤ max messageCount 0 := le_max_right _ _
  refine ⟨⟨_, hwindow scrollOffset, fun hgiven => ?_⟩, fun hgiven i hi hin => ?_,
    fun messages historyCount hlen => ?_⟩
  · have hover : ∀ offset, ScrollWindow.used messageCount offset viewportHeight =
        .ofOffset (max messageCount 0) offset viewportHeight := fun _ => if_neg (by omega)
    rw [hwindow, hover, hover]
    obtain ⟨hfirst, hle, hlast, hrows⟩ := ScrollWindow.ofOffset_bounds scrollOffset hn hgiven
    refine ⟨hfirst, hle, hlast, hrows, ScrollWindow.ofOffset_tail, ScrollWindow.ofOffset_head, fun h h' => ?_⟩
    rw [ScrollWindow.ofOffset_succ h h']
  · refine ⟨max messageCount 0 - 1 - i, _, ?_, hwindow _, ?_⟩
    · unfold InRange at *
      omega
    · rw [ScrollWindow.used, if_neg (by omega)]
      exact ScrollWindow.mem_ofOffset hgiven hi hin
  · obtain ⟨hfirst, -, hlast⟩ := ScrollWindow.used_bounds messages.length scrollOffset viewportHeight (by omega)
    refine ⟨_, RenderMessageView_eq_rowsOf hlen hheight, fun before after h => ?_⟩
    exact live_between hfirst hlast h

theorem computeScrollWindow_exact_hundred : computeScrollWindow 100 6 10 = some ⟨84, 94⟩ := by
  obtain ⟨⟨window, hwindow, h⟩, -⟩ := computeScrollWindow_exact 100 5 10 (by decide) (by decide)
  have hfive : window = ⟨85, 95⟩ := Option.some.inj (hwindow.symm.trans (by decide))
  subst hfive
  obtain ⟨-, -, -, -, -, -, hup⟩ := h (by decide)
  exact hup (by decide) (by decide)

end Bcmd.Cli
