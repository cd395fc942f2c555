import Mathlib.Data.Set.Image
import Bcmd.MessagePane

/-!
# Reading back

Messages arrive while the pane is scrolled up. The offset stays, and counts from the newest message: the window
stays over the same messages as long as every render finds the queue empty, and moves down with every message
that a render takes out of it.
-/

namespace Bcmd.Cli
open CheckedInt FtxuiPresenter

/-- Neither input nor a clear. -/
def PaneEvent.isPassive : PaneEvent → Bool
  | showMessage _ => true
  | render => true
  | _ => false

namespace FtxuiPresenter
variable {p p₁ p₂ q : FtxuiPresenter} {events pre : List PaneEvent} {event : PaneEvent} {top : Int}
  {shown shown' : List InboxMessage}

/-- The messages in the window, each with its place in the pane. -/
def displayed (p : FtxuiPresenter) : Set (Nat × InboxMessage) :=
  {entry | ∃ window,
    computeScrollWindow (ofSize p.messages.length) p.scrollOffset p.viewportHeightHint = some window ∧
      window.first ≤ entry.1 ∧ entry.1 < window.last ∧ p.messages[entry.1]? = some entry.2}

/-- Any two renders display the same messages. -/
def Undisturbed (p : FtxuiPresenter) (events : List PaneEvent) : Prop :=
  ∀ pre mid post, events = pre ++ .render :: mid ++ .render :: post →
    ∀ p₁ p₂, p.run (pre ++ [.render]) = some p₁ → p.run (pre ++ .render :: mid ++ [.render]) = some p₂ →
      p₂.displayed = p₁.displayed

/-- Every render but the first begins with an empty queue. -/
def Quiet (p : FtxuiPresenter) (events : List PaneEvent) : Prop :=
  ∀ pre mid post, events = pre ++ .render :: mid ++ .render :: post →
    ∀ q, p.run (pre ++ .render :: mid) = some q → q.inbox.messages = []

theorem run_append (p : FtxuiPresenter) (pre post : List PaneEvent) :
    p.run (pre ++ post) = (p.run pre).bind (run · post) := List.foldlM_append

theorem run_singleton (p : FtxuiPresenter) (event : PaneEvent) : p.run [event] = p.step event := by
  show (p.step event).bind some = _
  exact Option.bind_fun_some _

theorem run_after (h : p.run (pre ++ [event]) = some q) (post : List PaneEvent) :
    p.run (pre ++ event :: post) = q.run post := by
  rw [← List.singleton_append, ← List.append_assoc, run_append, h]
  rfl

/-! ### A view that stays -/

/-- The parts that the window depends on, and the flag. -/
structure SameView (p q : FtxuiPresenter) : Prop where
  messages : q.messages = p.messages
  scrollOffset : q.scrollOffset = p.scrollOffset
  hint : q.viewportHeightHint = p.viewportHeightHint
  autoScroll : q.autoScroll = p.autoScroll

theorem SameView.refl (p : FtxuiPresenter) : SameView p p := ⟨rfl, rfl, rfl, rfl⟩

theorem SameView.displayed (h : SameView p q) : q.displayed = p.displayed := by
  unfold FtxuiPresenter.displayed
  rw [h.messages, h.scrollOffset, h.hint]

/-- The offset is clamped for the messages that are in the pane. -/
structure Settled (p : FtxuiPresenter) (top : Int) : Prop where
  maxScrollOffset : p.maxScrollOffset = some top
  clamped : clamp p.scrollOffset 0 top = p.scrollOffset
  autoScroll : p.autoScroll = decide (p.scrollOffset = 0)

theorem SameView.settled (h : SameView p q) (hp : p.Settled top) : q.Settled top := by
  constructor
  · rw [← hp.maxScrollOffset]
    unfold FtxuiPresenter.maxScrollOffset
    rw [h.messages, h.hint]
  · rw [h.scrollOffset, hp.clamped]
  · rw [h.autoScroll, h.scrollOffset, hp.autoScroll]

theorem clampScrollOffsetLocked_settles (h : p.clampScrollOffsetLocked = some q) : ∃ top, q.Settled top := by
  unfold clampScrollOffsetLocked at h
  obtain ⟨top, htop, hq⟩ := Option.bind_eq_some_iff.1 h
  obtain rfl := Option.some.inj hq
  have hnonneg : 0 ≤ top := by
    have hmax := htop
    unfold maxScrollOffset at hmax
    obtain ⟨above, -, hmax⟩ := Option.bind_eq_some_iff.1 hmax
    rw [← Option.some.inj hmax]
    exact le_max_right _ _
  refine ⟨top, htop, ?_, rfl⟩
  have hclamp := clamp_eq p.scrollOffset hnonneg
  show clamp (clamp p.scrollOffset 0 top) 0 top = clamp p.scrollOffset 0 top
  rw [clamp_eq _ hnonneg]
  omega

/-- What a render has done, when it was rendered. -/
theorem render_clamps {rows : List Row} (h : p.render = some (q, rows)) :
    p.drained.counted.clampScrollOffsetLocked = some q := by
  rw [render_eq] at h
  obtain ⟨p', hp', hrows⟩ := Option.bind_eq_some_iff.1 h
  obtain ⟨rows', -, hpair⟩ := Option.map_eq_some_iff.1 hrows
  rw [hp', (Prod.mk.inj hpair).1]

theorem step_render (h : p.step .render = some q) : p.drained.counted.clampScrollOffsetLocked = some q := by
  unfold step at h
  obtain ⟨⟨p', rows⟩, hrender, rfl⟩ := Option.map_eq_some_iff.1 h
  exact render_clamps hrender

theorem Settled.clampScrollOffsetLocked (h : p.Settled top) : p.clampScrollOffsetLocked = some p := by
  unfold FtxuiPresenter.clampScrollOffsetLocked
  rw [h.maxScrollOffset]
  show some (p.scrollTo (clamp p.scrollOffset 0 top)) = some p
  rw [h.clamped, scrollTo, ← h.autoScroll]

theorem SameView.historyCount (h : SameView p q) (historyCount : Int) :
    SameView p { q with historyCount := historyCount } :=
  ⟨h.messages, h.scrollOffset, h.hint, h.autoScroll⟩

theorem Settled.showMessage (h : p.Settled top) (message : InboxMessage) : SameView p (p.showMessage message) := by
  unfold FtxuiPresenter.showMessage
  split
  · have hzero : p.scrollOffset = 0 := by
      rw [h.autoScroll] at *
      exact of_decide_eq_true ‹_›
    exact ⟨rfl, hzero.symm, rfl, rfl⟩
  · exact ⟨rfl, rfl, rfl, rfl⟩

theorem SameView.drained (h : SameView p q) (hempty : q.inbox.messages = []) : SameView p q.drained := by
  refine ⟨?_, h.scrollOffset, h.hint, h.autoScroll⟩
  rw [FtxuiPresenter.drained, hempty, List.take_nil, List.append_nil, h.messages]

theorem SameView.step (h : SameView p p₁) (hp : p.Settled top) (hpassive : event.isPassive)
    (hempty : event = .render → p₁.inbox.messages = []) (hstep : p₁.step event = some q) : SameView p q := by
  cases event with
  | showMessage message =>
    obtain rfl := Option.some.inj hstep
    have hkept := (h.settled hp).showMessage message
    exact ⟨hkept.messages.trans h.messages, hkept.scrollOffset.trans h.scrollOffset, hkept.hint.trans h.hint,
      hkept.autoScroll.trans h.autoScroll⟩
  | render =>
    have hdrained : SameView p p₁.drained.counted := (h.drained (hempty rfl)).historyCount _
    have hclamp := step_render hstep
    rw [(hdrained.settled hp).clampScrollOffsetLocked] at hclamp
    rw [← Option.some.inj hclamp]
    exact hdrained
  | event event => exact absurd hpassive (by simp [PaneEvent.isPassive])
  | clearMessages => exact absurd hpassive (by simp [PaneEvent.isPassive])

/-- Between a render and the next message that is taken out of the queue. -/
theorem Settled.run (h : p.Settled top) (hpassive : ∀ event ∈ events, event.isPassive)
    (hquiet : ∀ pre post, events = pre ++ .render :: post → ∀ q, p.run pre = some q → q.inbox.messages = [])
    (hrun : p.run events = some q) : SameView p q := by
  induction events using List.reverseRecOn generalizing q with
  | nil =>
    obtain rfl := Option.some.inj hrun
    exact .refl p
  | append_singleton events event ih =>
    rw [run_append] at hrun
    obtain ⟨q', hrun', hstep⟩ := Option.bind_eq_some_iff.1 hrun
    rw [run_singleton] at hstep
    have hsame : SameView p q' := by
      refine ih (fun event' hmem => hpassive event' (List.mem_append_left _ hmem)) (fun pre post hsplit => ?_) hrun'
      refine hquiet pre (post ++ [event]) ?_
      rw [hsplit, List.append_assoc, List.cons_append]
    have hevent := hpassive event (List.mem_append_right _ (List.mem_singleton_self event))
    refine hsame.step h hevent ?_ hstep
    rintro rfl
    exact hquiet events [] rfl q' hrun'

theorem Quiet.undisturbed (hpassive : ∀ event ∈ events, event.isPassive) (h : p.Quiet events) :
    p.Undisturbed events := by
  intro pre mid post hsplit p₁ p₂ hfirst hlater
  have hsettled : ∃ top, p₁.Settled top := by
    rw [run_append] at hfirst
    obtain ⟨q, -, hstep⟩ := Option.bind_eq_some_iff.1 hfirst
    rw [run_singleton] at hstep
    exact clampScrollOffsetLocked_settles (step_render hstep)
  obtain ⟨top, hsettled⟩ := hsettled
  rw [List.append_assoc, List.cons_append, run_after hfirst] at hlater
  refine (hsettled.run (fun event hmem => hpassive event ?_) (fun a b hab q hq => ?_) hlater).displayed
  · rw [hsplit]
    simp only [List.mem_append, List.mem_cons, List.not_mem_nil, or_false] at hmem ⊢
    tauto
  · rw [← run_after hfirst] at hq
    refine h pre a (b ++ post) ?_ q hq
    have hmid : mid ++ .render :: post = a ++ .render :: (b ++ post) := by
      rw [← List.singleton_append, ← List.append_assoc, hab, List.append_assoc, List.cons_append]
    rw [hsplit, List.append_assoc, List.cons_append, hmid, List.append_assoc, List.cons_append]

/-! ### A view that moves -/

/-- The offset is the same, and no message is gone. -/
structure Trails (p q : FtxuiPresenter) : Prop where
  scrollOffset : q.scrollOffset = p.scrollOffset
  length_le : p.messages.length ≤ q.messages.length

theorem PaneOk.render_trails (h : PaneOk shown p) (hfew : shown.length < 1073741824)
    (hstep : p.step .render = some q) :
    q.scrollOffset = p.scrollOffset ∧
      q.messages = p.messages ++ p.inbox.messages.take InboxQueue.defaultMaxCount := by
  have hcounted : PaneOk shown p.drained.counted := h.drained.historyCount _
  have hclamp := step_render hstep
  rw [hcounted.clampScrollOffsetLocked hfew] at hclamp
  rw [← Option.some.inj hclamp]
  exact ⟨rfl, rfl⟩

theorem PaneOk.trails (h : PaneOk shown p) (hfew : shown.length < 1073741824)
    (hpassive : event.isPassive) (hstep : p.step event = some q) : Trails p q := by
  cases event with
  | showMessage message =>
    obtain rfl := Option.some.inj hstep
    unfold FtxuiPresenter.showMessage
    split
    · exact ⟨(h.autoScroll.1 ‹_›).symm, le_refl _⟩
    · exact ⟨rfl, le_refl _⟩
  | render =>
    obtain ⟨hoffset, hmessages⟩ := h.render_trails hfew hstep
    refine ⟨hoffset, ?_⟩
    rw [hmessages, List.length_append]
    omega
  | event event => exact absurd hpassive (by simp [PaneEvent.isPassive])
  | clearMessages => exact absurd hpassive (by simp [PaneEvent.isPassive])

theorem PaneOk.run_trails (h : PaneOk shown p) (more : List PaneEvent) (hpassive : ∀ event ∈ more, event.isPassive)
    (hfew : shown.length + more.countP PaneEvent.isShow < 1073741824) :
    ∃ q shown', p.run more = some q ∧ PaneOk shown' q ∧
      shown'.length ≤ shown.length + more.countP PaneEvent.isShow ∧ Trails p q := by
  induction more using List.reverseRecOn with
  | nil => exact ⟨p, shown, rfl, h, le_refl _, rfl, le_refl _⟩
  | append_singleton more event ih =>
    rw [List.countP_append] at hfew ⊢
    obtain ⟨q, shown', hq, hok, hlen, htrails⟩ :=
      ih (fun event' hmem => hpassive event' (List.mem_append_left _ hmem)) (by omega)
    obtain ⟨q', hstep, hok'⟩ := hok.step (by omega) event
    have hevent := hpassive event (List.mem_append_right _ (List.mem_singleton_self event))
    have hlast := hok.trails (by omega) hevent hstep
    have hkeep := length_keep_le shown' event
    refine ⟨q', event.keep shown', ?_, hok', by omega, hlast.scrollOffset.trans htrails.scrollOffset,
      htrails.length_le.trans hlast.length_le⟩
    rw [run_append, hq, Option.bind_some, run_singleton, hstep]

theorem PaneOk.mem_displayed (h : PaneOk shown p) (hfew : shown.length < 1073741824)
    (entry : Nat × InboxMessage) :
    entry ∈ p.displayed ↔
      (ScrollWindow.ofOffset p.messages.length p.scrollOffset p.viewportHeightHint).first ≤ entry.1 ∧
        entry.1 < p.messages.length - p.scrollOffset ∧ p.messages[entry.1]? = some entry.2 := by
  have hlen := h.length_le
  have hlast := ScrollWindow.ofOffset_last h.nonneg h.le_top
  obtain ⟨-, hwindow⟩ := h.window hfew
  unfold displayed
  rw [Set.mem_ofPred_eq, ofSize_eq (by omega), hwindow, ← hlast]
  constructor
  · rintro ⟨window, hsome, hin⟩
    rw [Option.some.inj hsome]
    exact hin
  · intro hin
    exact ⟨_, rfl, hin⟩

/-- A message that a render takes out of the queue is not displayed before, and the newest message of the
window is displayed only now. -/
theorem PaneOk.displayed_ne (h : PaneOk shown p) (h' : PaneOk shown' q)
    (hfew : shown.length < 1073741824) (hfew' : shown'.length < 1073741824)
    (hoffset : q.scrollOffset = p.scrollOffset) (hlt : p.messages.length < q.messages.length) :
    q.displayed ≠ p.displayed := by
  have hhint := h'.hint
  have hnonneg := h'.nonneg
  have htop : q.scrollOffset ≤ max (q.messages.length - q.viewportHeightHint) 0 := h'.le_top
  obtain ⟨i, hi⟩ : ∃ i : Nat, (i : Int) = q.messages.length - q.scrollOffset - 1 :=
    ⟨(q.messages.length - q.scrollOffset - 1).toNat, by omega⟩
  have hin : i < q.messages.length := by omega
  obtain ⟨-, hle, -, hheight⟩ := ScrollWindow.ofOffset_bounds q.scrollOffset
    (show 0 ≤ (q.messages.length : Int) by omega) (show 0 < q.viewportHeightHint by omega)
  have hlast := ScrollWindow.ofOffset_last h'.nonneg h'.le_top
  have hnow : (i, q.messages[i]) ∈ q.displayed :=
    (h'.mem_displayed hfew' _).2 ⟨by omega, by omega, List.getElem?_eq_getElem hin⟩
  intro heq
  rw [heq] at hnow
  obtain ⟨-, hbefore, -⟩ := (h.mem_displayed hfew _).1 hnow
  omega

theorem Undisturbed.quiet (hok : PaneOk shown p) (hpassive : ∀ event ∈ events, event.isPassive)
    (hfew : shown.length + events.countP PaneEvent.isShow < 1073741824) (h : p.Undisturbed events) :
    p.Quiet events := by
  rintro pre mid post rfl q hq
  by_contra hempty
  rw [List.append_assoc, List.cons_append, List.countP_append, List.countP_cons, List.countP_append] at hfew
  have hcount : (pre ++ [PaneEvent.render]).countP PaneEvent.isShow = pre.countP PaneEvent.isShow := by
    rw [List.countP_append]
    rfl
  obtain ⟨p₁, shown₁, hp₁, hok₁, hlen₁, -⟩ := hok.run_trails (pre ++ [.render])
    (fun event hmem => hpassive event (by simp at hmem ⊢; tauto)) (by omega)
  obtain ⟨q', shown', hmid, hok', hlen', htrails⟩ := hok₁.run_trails mid
    (fun event hmem => hpassive event (by simp [hmem])) (by omega)
  rw [run_after hp₁, hmid] at hq
  obtain rfl := Option.some.inj hq
  obtain ⟨p₂, hstep, hok₂⟩ := hok'.step (by omega) .render
  have hp₂ : p.run (pre ++ .render :: mid ++ [.render]) = some p₂ := by
    rw [run_append, run_after hp₁, hmid, Option.bind_some, run_singleton, hstep]
  obtain ⟨hoffset, hmessages⟩ := hok'.render_trails (by omega) hstep
  have htaken : 0 < (q'.inbox.messages.take InboxQueue.defaultMaxCount).length := by
    have hwaiting := List.length_pos_iff.2 hempty
    rw [List.length_take, InboxQueue.defaultMaxCount]
    omega
  have hlt : p₁.messages.length < p₂.messages.length := by
    have hle := htrails.length_le
    rw [hmessages, List.length_append]
    omega
  exact hok₁.displayed_ne hok₂ (by omega) (show shown'.length < 1073741824 by omega)
    (hoffset.trans htrails.scrollOffset) hlt (h pre mid post rfl p₁ p₂ hp₁ hp₂)

end FtxuiPresenter

/-- In every state, whether the pane scrolls with the messages or not: with only messages and renders to come, the
renders display the same messages as the first of them if they find the queue empty. In a state that a run
reaches, with fewer than 2^30 messages, no step overflows and the renders display the same messages only then. -/
theorem view_kept_iff (p : FtxuiPresenter) (more : List PaneEvent) (hpassive : ∀ event ∈ more, event.isPassive) :
    (p.Quiet more → p.Undisturbed more) ∧
      ∀ events, initial.run events = some p →
        events.countP PaneEvent.isShow + more.countP PaneEvent.isShow < 1073741824 →
        (∃ q, p.run more = some q) ∧ (p.Undisturbed more → p.Quiet more) := by
  refine ⟨Quiet.undisturbed hpassive, fun events hrun hfew => ?_⟩
  obtain ⟨p', hrun', hok⟩ := run_ok (show events.countP PaneEvent.isShow < 1073741824 by omega)
  obtain rfl := Option.some.inj (hrun'.symm.trans hrun)
  have hlen := length_shownSinceClear_le events
  obtain ⟨q, -, hq, -⟩ := hok.run_trails more hpassive (by omega)
  exact ⟨⟨q, hq⟩, Undisturbed.quiet hok hpassive (by omega)⟩

/-- Twenty-one messages, then one row up. -/
def scrollingUp : List PaneEvent :=
  (List.range 21).map (fun second => .showMessage (sentAt second)) ++ [.render, .event .arrowUp]

def scrolledUp (count : Nat) : FtxuiPresenter :=
  { initial with messages := (List.range count).map sentAt, scrollOffset := 1, autoScroll := false }

theorem scrollingUp_run : initial.run scrollingUp = some (scrolledUp 21) := by decide +kernel

/-- One more message, before two renders and between them. -/
theorem view_kept_iff_scrolledUp :
    (scrolledUp 21).Undisturbed [.showMessage (sentAt 21), .render, .render] ∧
      ¬ (scrolledUp 21).Undisturbed [.render, .showMessage (sentAt 21), .render] := by
  constructor
  · refine (view_kept_iff (scrolledUp 21) _ (by decide)).1 ?_
    have hfirst : (scrolledUp 21).run [.showMessage (sentAt 21), .render] = some (scrolledUp 22) := by
      decide +kernel
    intro pre mid post hsplit q hq
    have hlen : pre.length + mid.length + post.length = 1 := by
      have hlen := congrArg List.length hsplit
      simp only [List.length_append, List.length_cons, List.length_nil] at hlen
      omega
    have hparts : pre ++ .render :: mid = [.showMessage (sentAt 21), .render] := by
      rcases pre with _ | ⟨event, pre⟩
      · simp at hsplit
      · simp only [List.length_cons] at hlen
        obtain rfl : pre = [] := List.length_eq_zero_iff.1 (by omega)
        obtain rfl : mid = [] := List.length_eq_zero_iff.1 (by omega)
        have hhead := congrArg List.head? hsplit
        rw [← Option.some.inj hhead]
        rfl
    rw [hparts, hfirst] at hq
    rw [← Option.some.inj hq]
    rfl
  · intro h
    have hquiet := ((view_kept_iff (scrolledUp 21) _ (by decide)).2 scrollingUp scrollingUp_run (by decide)).2 h
    have hwaiting : (scrolledUp 21).run [.render, .showMessage (sentAt 21)] =
        some ((scrolledUp 21).showMessage (sentAt 21)) := by
      decide +kernel
    have hempty := hquiet [] [.showMessage (sentAt 21)] [] rfl _ hwaiting
    simp [FtxuiPresenter.showMessage, scrolledUp, InboxQueue.push] at hempty

/-- A message that arrives scrolls the pane whose `auto_scroll_` is off: the renders before and after it do not
display the same messages. -/
theorem view_disturbed :
    ¬ ∀ (events more : List PaneEvent) (p : FtxuiPresenter), initial.run events = some p → p.autoScroll = false →
      (∀ event ∈ more, event.isPassive) → ∀ pre mid post, more = pre ++ .render :: mid ++ .render :: post →
        ∀ p₁ p₂, p.run (pre ++ [.render]) = some p₁ → p.run (pre ++ .render :: mid ++ [.render]) = some p₂ →
          Prod.snd '' p₂.displayed = Prod.snd '' p₁.displayed := by
  intro h
  have hsame : Prod.snd '' (scrolledUp 22).displayed = Prod.snd '' (scrolledUp 21).displayed :=
    h scrollingUp [.render, .showMessage (sentAt 21), .render] (scrolledUp 21) scrollingUp_run rfl (by decide)
      [] [.showMessage (sentAt 21)] [] rfl _ _ (by decide +kernel) (by decide +kernel)
  have hnow : sentAt 20 ∈ Prod.snd '' (scrolledUp 22).displayed :=
    ⟨(20, sentAt 20), ⟨⟨1, 21⟩, by decide +kernel, by decide, by decide, rfl⟩, rfl⟩
  rw [hsame] at hnow
  obtain ⟨⟨i, message⟩, ⟨window, hwindow, hfirst, hlast, hat⟩, hmessage⟩ := hnow
  have hbefore : computeScrollWindow (ofSize (scrolledUp 21).messages.length) (scrolledUp 21).scrollOffset
      (scrolledUp 21).viewportHeightHint = some ⟨0, 20⟩ := by
    decide +kernel
  obtain rfl := Option.some.inj (hbefore.symm.trans hwindow)
  have hi : i < 20 := by
    dsimp only at hlast
    omega
  have hother : ∀ i < 20, (scrolledUp 21).messages[i]? ≠ some (sentAt 20) := by decide
  exact hother i hi (hat.trans (congrArg some hmessage))

end Bcmd.Cli
