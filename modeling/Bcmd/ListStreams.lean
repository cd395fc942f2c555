import Bcmd.ListSections
import Bcmd.MembershipRequest

/-!
# Channel-list streams beside the requests they hear of

Any number of `SubscribeToChannelList` handlers and of Create, Join and Leave requests, with the
channel-list publisher in its critical sections. Whatever the interleaving, the table stays tidy: an
entry that no registration holds belongs to a stream that began with its snapshot.
-/

namespace Bcmd

def ChannelListEvent.IsSnapshot : ChannelListEvent → Prop
  | .snapshot _ => True
  | .created _ | .memberCountChanged _ _ => False

/-- The snapshot comes first, and no other later. -/
def Opened (events : List ChannelListEvent) : Prop :=
  ∃ channels rest, events = .snapshot channels :: rest ∧ ∀ event ∈ rest, ¬ event.IsSnapshot

theorem Opened.append {events : List ChannelListEvent} {event : ChannelListEvent} (h : Opened events)
    (hevent : ¬ event.IsSnapshot) : Opened (events ++ [event]) := by
  obtain ⟨channels, rest, rfl, hrest⟩ := h
  refine ⟨channels, rest ++ [event], rfl, fun ev hev => ?_⟩
  rcases List.mem_append.1 hev with hev | hev
  · exact hrest ev hev
  · rw [List.mem_singleton.1 hev]
    exact hevent

namespace ListTable

/-- Some client has the entry. -/
def Listed (t : ListTable) (entry : EntryId) : Prop := ∃ c, t.writers.lookup c = some entry

/-- Nothing was done with the stream yet. -/
def Unused (t : ListTable) (w : StreamId) : Prop := (∀ entry, t.writer entry ≠ some w) ∧ t.written w = []

structure Tidy (t : ListTable) : Prop where
  armed : ∀ {entry}, t.Listed entry → t.writer entry ≠ none
  used : ∀ {entry w}, t.writer entry = some w → entry < t.nextEntry
  unique : ∀ {c d entry}, t.writers.lookup c = some entry → t.writers.lookup d = some entry → c = d
  own : ∀ {entry entry' w}, t.writer entry = some w → t.writer entry' = some w → entry = entry'
  opened : ∀ {entry w}, t.writer entry = some w → t.registering ≠ some entry → Opened (t.written w)
  unwritten : ∀ {entry w}, t.registering = some entry → t.writer entry = some w → t.written w = []

variable {t : ListTable} {entry entry' : EntryId} {c : ClientId} {w v : StreamId} {event : ChannelListEvent}

theorem Tidy.listed_used (h : t.Tidy) (hl : t.Listed entry) : entry < t.nextEntry := by
  obtain ⟨w, hw⟩ := Option.ne_none_iff_exists'.1 (h.armed hl)
  exact h.used hw

theorem tidy_empty : ListTable.empty.Tidy where
  armed := by rintro entry ⟨c, hc⟩; cases (Finmap.lookup_empty c).symm.trans hc
  used := nofun
  unique hc := by cases (Finmap.lookup_empty _).symm.trans hc
  own := nofun
  opened := nofun
  unwritten := nofun

theorem listed_insert (h : (t.insert c w).Listed entry) : entry = t.nextEntry ∨ t.Listed entry := by
  obtain ⟨d, hd⟩ := h
  rcases lookup_insert_cases hd with ⟨-, he⟩ | ⟨-, he⟩
  · exact .inl he
  · exact .inr ⟨d, he⟩

theorem writer_insert_cases (h : (t.insert c w).writer entry = some v) :
    entry = t.nextEntry ∧ v = w ∨ entry ≠ t.nextEntry ∧ t.writer entry = some v := by
  by_cases he : entry = t.nextEntry
  · have hnew : (t.insert c w).writer t.nextEntry = some w := Function.update_self ..
    rw [he, hnew] at h
    exact .inl ⟨he, (Option.some.inj h).symm⟩
  · exact .inr ⟨he, (Function.update_of_ne he _ _).symm.trans h⟩

@[simp] theorem writers_write : (t.write entry event).writers = t.writers := by unfold write; split <;> rfl
@[simp] theorem writer_write : (t.write entry event).writer = t.writer := by unfold write; split <;> rfl
@[simp] theorem nextEntry_write : (t.write entry event).nextEntry = t.nextEntry := by
  unfold write; split <;> rfl
@[simp] theorem registering_write : (t.write entry event).registering = t.registering := by
  unfold write; split <;> rfl

theorem written_write (t : ListTable) (entry : EntryId) (event : ChannelListEvent) (v : StreamId) :
    (t.write entry event).written v = if t.writer entry = some v then t.written v ++
      [event] else t.written v := by
  unfold write
  rcases hw : t.writer entry with _ | w
  · simp
  · show Function.update t.written w _ v = _
    rw [Function.update_apply]
    by_cases hv : v = w
    · subst hv
      simp
    · rw [if_neg hv, if_neg fun h => hv (Option.some.inj h).symm]

theorem writer_disarm (h : (t.disarm entry).writer entry' = some v) :
    entry' ≠ entry ∧ t.writer entry' = some v := by
  by_cases he : entry' = entry
  · subst he
    cases (Function.update_self ..).symm.trans h
  · exact ⟨he, (Function.update_of_ne he _ _).symm.trans h⟩

/-! ### What keeps the table tidy -/

theorem Tidy.insert (h : t.Tidy) (hfree : t.registering = none) (hw : t.Unused w) (c : ClientId) :
    (t.insert c w).Tidy where
  armed hl := by
    rcases listed_insert hl with rfl | hold
    · exact fun hnone => by cases (Function.update_self ..).symm.trans hnone
    · exact fun hnone => h.armed hold ((writer_insert_of_used (h.listed_used hold) c w).symm.trans hnone)
  used hv := by
    rcases writer_insert_cases hv with ⟨rfl, -⟩ | ⟨-, hv⟩
    · exact Nat.lt_succ_self _
    · exact Nat.lt_succ_of_lt (h.used hv)
  unique hc hd := by
    rcases lookup_insert_cases hc with ⟨rfl, rfl⟩ |
      ⟨-, hc'⟩ <;> rcases lookup_insert_cases hd with ⟨rfl, hn⟩ | ⟨-, hd'⟩
    · rfl
    · exact absurd (h.listed_used ⟨_, hd'⟩) (lt_irrefl _)
    · exact absurd (h.listed_used ⟨_, hc'⟩) (by rw [hn]; exact lt_irrefl _)
    · exact h.unique hc' hd'
  own hv hv' := by
    rcases writer_insert_cases hv with ⟨he, rfl⟩ | ⟨-, hv⟩ <;> rcases writer_insert_cases hv' with
      ⟨he', hw'⟩ | ⟨-, hv'⟩
    · rw [he, he']
    · exact absurd hv' (hw.1 _)
    · exact absurd (by rw [← hw']; exact hv) (hw.1 _)
    · exact h.own hv hv'
  opened hv hne := by
    rcases writer_insert_cases hv with ⟨rfl, -⟩ | ⟨-, hv⟩
    · exact absurd rfl hne
    · exact h.opened hv (by rw [hfree]; nofun)
  unwritten he hv := by
    obtain rfl := Option.some.inj he
    rcases writer_insert_cases hv with ⟨-, rfl⟩ | ⟨hne, -⟩
    · exact hw.2
    · exact absurd rfl hne

theorem Tidy.writeSnapshot (h : t.Tidy) (hreg : t.registering = some entry) (hevent : event.IsSnapshot) :
    Tidy { t.write entry event with registering := none } where
  armed hl := by
    simp only [Listed, writers_write] at hl
    rw [writer_write]
    exact h.armed hl
  used hv := by
    rw [nextEntry_write]
    exact h.used (by rwa [writer_write] at hv)
  unique hc hd := h.unique (by rwa [writers_write] at hc) (by rwa [writers_write] at hd)
  own hv hv' := h.own (by rwa [writer_write] at hv) (by rwa [writer_write] at hv')
  opened {entry' v} hv _ := by
    rw [writer_write] at hv
    show Opened ((t.write entry event).written v)
    rw [written_write]
    split
    · rcases event with channels | _ | _
      · exact ⟨channels, [], by rw [h.unwritten hreg ‹_›]; rfl, nofun⟩
      · exact hevent.elim
      · exact hevent.elim
    · refine h.opened hv fun he => ?_
      rw [hreg] at he
      exact absurd (by rw [Option.some.inj he]; exact hv) ‹¬ t.writer entry = some v›
  unwritten he := nomatch he

theorem Tidy.write (h : t.Tidy) (hreg : t.registering ≠ some entry) (hevent : ¬ event.IsSnapshot) :
    (t.write entry event).Tidy where
  armed hl := by
    simp only [Listed, writers_write] at hl
    rw [writer_write]
    exact h.armed hl
  used hv := by
    rw [nextEntry_write]
    exact h.used (by rwa [writer_write] at hv)
  unique hc hd := h.unique (by rwa [writers_write] at hc) (by rwa [writers_write] at hd)
  own hv hv' := h.own (by rwa [writer_write] at hv) (by rwa [writer_write] at hv')
  opened hv hne := by
    rw [writer_write] at hv
    rw [registering_write] at hne
    rw [written_write]
    split
    · exact (h.opened hv hne).append hevent
    · exact h.opened hv hne
  unwritten he hv := by
    rw [writer_write] at hv
    rw [registering_write] at he
    rw [written_write, if_neg fun hw => hreg (by rw [h.own hw hv]; exact he)]
    exact h.unwritten he hv

theorem Tidy.erase (h : t.Tidy) (c : ClientId) : Tidy { t with writers := t.writers.erase c } where
  armed := by
    rintro entry ⟨d, hd⟩
    exact h.armed ⟨d, (lookup_erase_cases hd).2⟩
  used := h.used
  unique hc hd := h.unique (lookup_erase_cases hc).2 (lookup_erase_cases hd).2
  own := h.own
  opened := h.opened
  unwritten := h.unwritten

theorem Tidy.disarm (h : t.Tidy) (hgone : ¬ t.Listed entry) : (t.disarm entry).Tidy where
  armed {entry'} hl := by
    have hne : entry' ≠ entry := fun he => hgone (by rw [← he]; exact hl)
    exact fun hnone => h.armed hl ((Function.update_of_ne hne _ _).symm.trans hnone)
  used hv := h.used (writer_disarm hv).2
  unique := h.unique
  own hv hv' := h.own (writer_disarm hv).2 (writer_disarm hv').2
  opened hv hne := h.opened (writer_disarm hv).2 hne
  unwritten he hv := h.unwritten he (writer_disarm hv).2

end ListTable

/-! ### What a section changes -/

/-- The entry and the event of a write. -/
def ListSection.brings : ListSection → Option (EntryId × ChannelListEvent)
  | writeSnapshot entry event | write entry event => some (entry, event)
  | _ => none

section
open ListTable
variable {x : ListSectioned} {o : ListSection} {entry : EntryId} {w : StreamId} {event : ChannelListEvent}

theorem written_handle (ho : o.brings = none) :
    (listSections.handle o x).2.table.written = x.table.written := by
  cases o with
  | writeSnapshot _ _ | write _ _ => cases ho
  | _ => rfl

theorem written_handle_brings (ho : o.brings = some (entry, event)) (w : StreamId) :
    (listSections.handle o x).2.table.written w =
      if x.table.writer entry = some w then x.table.written w ++ [event] else x.table.written w := by
  cases o with
  | writeSnapshot _ _ | write _ _ =>
    obtain ⟨rfl, rfl⟩ := Prod.mk.inj (Option.some.inj ho)
    exact written_write ..
  | _ => cases ho

theorem mem_written_handle (h : event ∈ (listSections.handle o x).2.table.written w) :
    event ∈ x.table.written w ∨ ∃ entry, o.brings = some (entry, event) := by
  rcases ho : o.brings with _ | ⟨entry, event'⟩
  · rw [written_handle ho] at h
    exact .inl h
  · rw [written_handle_brings ho] at h
    split at h
    · rcases List.mem_append.1 h with h | h
      · exact .inl h
      · rw [List.mem_singleton.1 h]
        exact .inr ⟨entry, rfl⟩
    · exact .inl h

/-- An entry comes into the table, and gets its writer, by an insertion only. -/
theorem listed_handle (hl : (listSections.handle o x).2.table.Listed entry)
    (hw : (listSections.handle o x).2.table.writer entry = some w) :
    (∃ c, o = .insert c w ∧ entry = x.table.nextEntry) ∨ x.table.Listed entry ∧
      x.table.writer entry = some w := by
  cases o with
  | port o => exact .inr ⟨hl, hw⟩
  | collect order => exact .inr ⟨hl, hw⟩
  | insert c v =>
    rcases writer_insert_cases hw with ⟨rfl, rfl⟩ | ⟨hne, hw⟩
    · exact .inl ⟨c, rfl, rfl⟩
    · exact .inr ⟨(listed_insert hl).resolve_left hne, hw⟩
  | writeSnapshot _ _ | write _ _ =>
    simp only [listSections, ListSectioned.handle, Listed, writers_write, writer_write] at hl hw
    exact .inr ⟨hl, hw⟩
  | erase c =>
    obtain ⟨d, hd⟩ := hl
    exact .inr ⟨⟨d, (lookup_erase_cases hd).2⟩, hw⟩
  | disarm entry' => exact .inr ⟨hl, (writer_disarm hw).2⟩

/-- A write leaves the writers and the server alone. -/
theorem writer_of_brings (ho : o.brings = some (entry, event))
    (hw : (listSections.handle o x).2.table.writer entry = some w) :
    x.table.writer entry = some w := by
  cases o with
  | writeSnapshot _ _ | write _ _ => simpa only [listSections, ListSectioned.handle, writer_write] using hw
  | _ => cases ho

theorem server_of_brings (ho : o.brings = some (entry, event)) :
    (listSections.handle o x).2.server = x.server := by
  cases o with
  | writeSnapshot _ _ | write _ _ => rfl
  | _ => cases ho

end

namespace ListTable

/-! ### What the others leave to a thread -/

/-- What the others do to the table, for a thread with the stream `own`. -/
structure Rely (own : Option StreamId) (t t' : ListTable) : Prop where
  next : t.nextEntry ≤ t'.nextEntry
  released : ∀ {entry}, entry < t.nextEntry → t.registering ≠ some entry → t'.registering ≠ some entry
  gone : ∀ {entry}, entry < t.nextEntry → ¬ t.Listed entry → ¬ t'.Listed entry
  mine : ∀ {w entry}, own = some w → t.registering = some entry → t.writer entry = some w →
    t'.registering = some entry ∧ t'.writer entry = some w
  unused : ∀ {w}, own = some w → t.Unused w → t'.Unused w

theorem Rely.refl (own : Option StreamId) (t : ListTable) : Rely own t t :=
  ⟨le_refl _, fun _ h => h, fun _ h => h, fun _ hr hw => ⟨hr, hw⟩, fun _ h => h⟩

theorem Rely.trans {own : Option StreamId} {t₁ t' : ListTable} (h : Rely own t t₁)
    (h' : Rely own t₁ t') : Rely own t t' where
  next := h.next.trans h'.next
  released he hr := h'.released (lt_of_lt_of_le he h.next) (h.released he hr)
  gone he hl := h'.gone (lt_of_lt_of_le he h.next) (h.gone he hl)
  mine ho hr hw := h'.mine ho (h.mine ho hr hw).1 (h.mine ho hr hw).2
  unused ho hu := h'.unused ho (h.unused ho hu)

/-- What a thread with the stream `own` does to the table. -/
def Guar (own : Option StreamId) (t : ListTable) : ListSection → Prop
  | .insert _ w => own = some w ∧ t.Unused w
  | .writeSnapshot entry event =>
    event.IsSnapshot ∧ t.registering = some entry ∧ ∃ w, own = some w ∧ t.writer entry = some w
  | .write entry event => ¬ event.IsSnapshot ∧ entry < t.nextEntry ∧ t.registering ≠ some entry
  | .disarm entry => ¬ t.Listed entry ∧ t.registering ≠ some entry
  | .port _ | .collect _ | .erase _ => True

end ListTable

section
open ListTable
variable {own other : Option StreamId} {x : ListSectioned} {o : ListSection}

theorem tidy_handle (ht : x.table.Tidy) (hen : ListSectioned.enabled o x) (hg : Guar own x.table o) :
    (ListSectioned.handle o x).2.table.Tidy := by
  cases o with
  | port o => exact ht
  | insert c w => exact ht.insert hen hg.2 c
  | writeSnapshot entry event => exact ht.writeSnapshot hg.2.1 hg.1
  | collect order => exact ht
  | write entry event => exact ht.write hg.2.2 hg.1
  | erase c => exact ht.erase c
  | disarm entry => exact ht.disarm hg.1

/-- What one thread does is within what another relies on, when they have not the same stream. -/
theorem rely_handle (hen : ListSectioned.enabled o x) (hg : Guar own x.table o)
    (hne : ∀ w, own = some w → other ≠ some w) : Rely other x.table (ListSectioned.handle o x).2.table := by
  cases o with
  | port o => exact .refl _ _
  | collect order => exact .refl _ _
  | insert c w =>
    have hfree : x.table.registering = none := hen
    refine ⟨Nat.le_succ _, fun he _ hreg => ?_, fun he hl hl' => ?_, fun _ hr => ?_, fun ho hu =>
      ⟨fun e hv => ?_, hu.2⟩⟩
    · exact absurd (Option.some.inj hreg) he.ne'
    · rcases listed_insert hl' with rfl | hold
      · exact lt_irrefl _ he
      · exact hl hold
    · rw [hfree] at hr
      cases hr
    · rcases writer_insert_cases hv with ⟨-, rfl⟩ | ⟨-, hv⟩
      · exact hne _ hg.1 ho
      · exact hu.1 e hv
  | writeSnapshot entry event =>
    obtain ⟨-, hreg, w, hown, hw⟩ := hg
    refine ⟨?_, fun _ _ => nofun, fun _ hl hl' => hl ?_, fun {v entry'} ho hr hv => ?_, fun {v} ho hu =>
      ⟨fun e hv => ?_, ?_⟩⟩
    · show x.table.nextEntry ≤ (x.table.write entry event).nextEntry
      rw [nextEntry_write]
    · simpa only [ListSectioned.handle, Listed, writers_write] using hl'
    · -- the registration that ends is this one, and it is not the other's
      rw [hreg] at hr
      rw [← Option.some.inj hr, hw] at hv
      exact absurd ho (hne v (by rw [hown]; exact hv))
    · exact hu.1 e (by simpa only [ListSectioned.handle, writer_write] using hv)
    · show (x.table.write entry event).written v = []
      rw [written_write, if_neg (hu.1 entry)]
      exact hu.2
  | write entry event =>
    refine ⟨?_, fun _ hr => ?_, fun _ hl hl' => hl ?_, fun _ hr hv => ⟨?_, ?_⟩, fun {v} ho hu =>
      ⟨fun e hv => ?_, ?_⟩⟩
    all_goals simp only [ListSectioned.handle, Listed, writers_write, nextEntry_write,
      registering_write, writer_write] at *
    · exact le_refl _
    · exact hr
    · exact hl'
    · exact hr
    · exact hv
    · exact hu.1 e hv
    · rw [written_write, if_neg (hu.1 entry)]
      exact hu.2
  | erase c =>
    refine ⟨le_refl _, fun _ hr => hr, fun _ hl hl' => hl ?_, fun _ hr hv => ⟨hr, hv⟩, fun _ hu => hu⟩
    obtain ⟨d, hd⟩ := hl'
    exact ⟨d, (lookup_erase_cases hd).2⟩
  | disarm entry =>
    refine ⟨le_refl _, fun _ hr => hr, fun _ hl hl' => hl hl', fun {v entry'} _ hr hv => ⟨hr, ?_⟩,
      fun _ hu => ⟨fun e hv => hu.1 e (writer_disarm hv).2, hu.2⟩⟩
    have he : entry' ≠ entry := fun he => hg.2 (by rw [← he]; exact hr)
    exact (Function.update_of_ne he _ _).trans hv

end

/-! ### The code of the threads -/

/-- `Safe` for the code of a thread with the stream `own`, as long as the table is tidy. -/
abbrev ListSafe {α : Type} (own : Option StreamId) (p : ListTask α) (x : ListSectioned) : Prop :=
  Safe listSections (fun x x' => ListTable.Rely own x.table x'.table) (fun x _ => x.table.Tidy)
    (fun x o => ListTable.Guar own x.table o) (fun _ _ => True) p x

/-- A call that neither opens nor ends a list stream. -/
def OpensNoList : Call → Prop
  | .channelList (.registerSubscriberWithSnapshot _ _ _) | .channelList (.unregisterSubscriber _) => False
  | _ => True

theorem Requesting.opensNoList {o : Call} (h : Requesting o) : OpensNoList o := by
  rcases o with _ | _ | _ | _ | (_ | _ | _ | _) | _ | _
  case channelList.registerSubscriberWithSnapshot => exact h.elim
  case channelList.unregisterSubscriber => exact h.elim
  all_goals trivial

section
open ListSections ListTable
variable {α : Type} {own : Option StreamId} {x : ListSectioned} {order : IterOrder ClientId}

theorem listSafe_writeEach {event : ChannelListEvent} (hevent : ¬ event.IsSnapshot) {targets : List EntryId}
    (htargets : ∀ entry ∈ targets, entry < x.table.nextEntry ∧ x.table.registering ≠ some entry) :
    ListSafe own (writeEach event targets) x := by
  induction targets generalizing x with
  | nil => exact fun _ _ => trivial
  | cons entry targets ih =>
    intro x₁ h₁
    have hkept : ∀ e ∈ entry :: targets, e < x₁.table.nextEntry ∧ x₁.table.registering ≠ some e := fun e he =>
      ⟨lt_of_lt_of_le (htargets e he).1 h₁.next, h₁.released (htargets e he).1 (htargets e he).2⟩
    refine ⟨⟨hevent, hkept entry (List.mem_cons_self ..)⟩, fun _ _ => ih fun e he => ?_⟩
    show e < (x₁.table.write entry event).nextEntry ∧ (x₁.table.write entry event).registering ≠ some e
    rw [nextEntry_write, registering_write]
    exact hkept e (List.mem_cons_of_mem entry he)

/-- When no registration goes on, all entries of the table are there to be written to. -/
theorem listSafe_publishToAll {event : ChannelListEvent} (hevent : ¬ event.IsSnapshot) :
    ListSafe own (publishToAll order event) x := by
  refine fun x₁ _ => ⟨trivial, fun hen ht => listSafe_writeEach hevent fun entry he => ?_⟩
  have hfree : x₁.table.registering = none := hen
  obtain ⟨c, -, hc⟩ := List.mem_filterMap.1 he
  refine ⟨ht.listed_used ⟨c, hc⟩, ?_⟩
  show x₁.table.registering ≠ some entry
  rw [hfree]
  nofun

theorem listSafe_expand {p : Task α} (hp : p.Calls OpensNoList) :
    ListSafe own (ListSections.expand order p) x := by
  induction p generalizing x with
  | ret a => exact fun _ _ => trivial
  | call o k ih =>
    have himpl : ListSafe own (ListSections.implement order o) x := by
      rcases o with _ | _ | _ | _ | (_ | _ | ch | ⟨k, n⟩) | _ | _
      case channelList.registerSubscriberWithSnapshot => exact hp.1.elim
      case channelList.unregisterSubscriber => exact hp.1.elim
      case channelList.publishChannelCreated => exact listSafe_publishToAll id
      case channelList.publishMemberCountChanged => exact listSafe_publishToAll id
      all_goals exact fun _ _ => ⟨trivial, fun _ _ _ _ => trivial⟩
    exact Safe.bind (fun x => Rely.refl own x.table) (himpl.mono fun r x' _ => ih r (hp.2 r))

theorem listSafe_unregister {w : StreamId} (c : ClientId) :
    ListSafe (some w) (ListSections.unregisterSubscriber c) x := by
  refine fun x₁ _ => ⟨trivial, fun hen ht => ?_⟩
  rcases hc : x₁.table.writers.lookup c with _ | entry
  · rw [show (listSections.handle (.erase c) x₁).1 = none from hc]
    exact fun _ _ => trivial
  · rw [show (listSections.handle (.erase c) x₁).1 = some entry from hc]
    have hfree : x₁.table.registering = none := hen
    have hused : entry < x₁.table.nextEntry := ht.listed_used ⟨c, hc⟩
    refine fun x₂ h₂ => ⟨⟨h₂.gone hused ?_, h₂.released hused ?_⟩, fun _ _ _ _ => trivial⟩
    · rintro ⟨d, hd⟩
      obtain ⟨hne, hd⟩ := lookup_erase_cases hd
      exact hne (ht.unique hd hc)
    · show x₁.table.registering ≠ some entry
      rw [hfree]
      nofun

theorem listSafe_register {w : StreamId} (hu : x.table.Unused w) (channelOrder : IterOrder ChannelId)
    (c : ClientId) :
    ListSafe (some w) (ListSections.registerSubscriberWithSnapshot channelOrder c w) x := by
  refine fun x₁ h₁ => ⟨⟨rfl, h₁.unused rfl hu⟩, fun _ _ => ?_⟩
  refine fun x₂ h₂ => ⟨trivial, fun _ _ => fun x₃ h₃ => ⟨?_, fun _ _ _ _ => trivial⟩⟩
  -- the entry is still held, and still the stream's
  have hheld : x₃.table.registering = some x₁.table.nextEntry ∧ x₃.table.writer x₁.table.nextEntry = some w :=
    (Rely.trans h₂ h₃).mine rfl rfl (Function.update_self ..)
  exact ⟨trivial, hheld.1, w, rfl, hheld.2⟩

/-- The handler of a stream, taken apart. -/
theorem expand_subscribe (bucketOrder : BucketOrder) (c : ClientId) (w : StreamId) :
    ListSections.expand order (BroadcastService.subscribeToChannelList bucketOrder c w) =
      .call (.port (.clients (.findById c))) fun
        | .error e => .ret (.error (errorToStatus e))
        | .ok _ => ListSections.registerSubscriberWithSnapshot bucketOrder.channels c w >>= fun _ =>
            .call (.port (.awaitCancelled w)) fun _ => ListSections.unregisterSubscriber c >>= fun _ =>
              .ret (.ok ()) := by
  refine congrArg (Prog.call (ListSection.port (.clients (.findById c)))) (funext fun r => ?_)
  rcases r with e | cs <;> rfl

theorem listSafe_subscribe {w : StreamId} (hu : x.table.Unused w) (uuid : UuidLib) (bucketOrder : BucketOrder)
    (clientId : Bytes) :
    ListSafe (some w) (ListSections.expand order
      (BroadcastService.SubscribeToChannelList uuid bucketOrder clientId w)) x := by
  unfold BroadcastService.SubscribeToChannelList
  rcases BroadcastService.parseClient uuid clientId with _ | c
  · exact fun _ _ => trivial
  have hrefl : ∀ x : ListSectioned, Rely (some w) x.table x.table := fun x => .refl _ _
  simp only [expand_subscribe]
  refine fun x₁ h₁ => ⟨trivial, fun _ _ => ?_⟩
  rcases (listSections.handle (.port (.clients (.findById c))) x₁).1 with e | cs
  · exact fun _ _ => trivial
  refine Safe.bind hrefl ((listSafe_register (h₁.unused rfl hu) bucketOrder.channels c).mono fun _ x₂ _ => ?_)
  refine fun x₃ _ => ⟨trivial, fun _ _ => ?_⟩
  exact Safe.bind hrefl ((listSafe_unregister c).mono fun _ _ _ _ _ => trivial)

end

/-! ### From calls to sections -/

/-- The event that a call publishes. -/
def Call.published : Call → Option ChannelListEvent
  | .channelList (.publishChannelCreated ch) => some (.created (populateChannelSummary ch))
  | .channelList (.publishMemberCountChanged k count) => some (.memberCountChanged k count)
  | _ => none

section
variable {α : Type} {order : IterOrder ClientId} {p : Task α}
open ListSections

theorem calls_writeEach {P : ListSection → Prop} {event : ChannelListEvent}
    (hw : ∀ entry, P (.write entry event))
    (targets : List EntryId) : (writeEach event targets).Calls P := by
  induction targets with
  | nil => trivial
  | cons entry targets ih => exact ⟨hw entry, fun _ => ih⟩

theorem calls_expand {P : Call → Prop} {P' : ListSection → Prop} (hport : ∀ o, P o → P' (.port o))
    (hcollect : ∀ order, P' (.collect order))
    (hwrite : ∀ o event, P o → o.published = some event → ∀ entry, P' (.write entry event))
    (hp : p.Calls P) (hno : p.Calls OpensNoList) : (ListSections.expand order p).Calls P' := by
  induction p with
  | ret a => trivial
  | call o k ih =>
    have himpl : (ListSections.implement order o).Calls P' := by
      rcases o with _ | _ | _ | _ | (_ | _ | ch | ⟨k, n⟩) | _ | _
      case channelList.registerSubscriberWithSnapshot => exact hno.1.elim
      case channelList.unregisterSubscriber => exact hno.1.elim
      case channelList.publishChannelCreated => exact ⟨hcollect _, calls_writeEach (hwrite _ _ hp.1 rfl)⟩
      case channelList.publishMemberCountChanged => exact ⟨hcollect _, calls_writeEach (hwrite _ _ hp.1 rfl)⟩
      all_goals exact .perform (hport _ hp.1)
    exact himpl.bind fun r => ih r (hp.2 r) (hno.2 r)

/-- What a program does beside others that do not look at the list, its sections do too. -/
theorem safe_expand {R : Server → Server → Prop} {Act : Server → Call → Prop} {Q : α → Server → Prop}
    {Act' : ListSectioned → ListSection → Prop} (hrefl : ∀ s, R s s)
    (htrans : ∀ {a b c}, R a b → R b c → R a c)
    (hlist : ∀ {s s' p}, R s s' → R { s with channelList := p } s')
    (hport : ∀ x o, Act x.server o → Act' x (.port o)) (hcollect : ∀ x order, Act' x (.collect order))
    (hwrite : ∀ s x o event, Act s o → o.published = some event → R s x.server →
      ∀ entry, Act' x (.write entry event))
    {x : ListSectioned} (hno : p.Calls OpensNoList) (h : Safe ports R (fun _ _ => True) Act Q p x.server) :
    Safe listSections (fun x x' => R x.server x'.server) (fun _ _ => True) Act' (fun a x => Q a x.server)
      (ListSections.expand order p) x := by
  have hpublish : ∀ o event x, Act x.server o → o.published = some event →
      Safe listSections (fun x x' => R x.server x'.server) (fun _ _ => True) Act'
        (fun _ x' => R x.server x'.server)
        (publishToAll order event) x := by
    intro o event x ho hev
    have heach : ∀ targets x₁, R x.server x₁.server →
        Safe listSections (fun x x' => R x.server x'.server) (fun _ _ => True) Act'
          (fun _ x' => R x.server x'.server)
          (writeEach event targets) x₁ := by
      intro targets
      induction targets with
      | nil => exact fun x₁ h₁ x₂ h₂ => htrans h₁ h₂
      | cons entry targets ih =>
        exact fun x₁ h₁ x₂ h₂ => ⟨hwrite _ x₂ o event ho hev (htrans h₁ h₂) entry, fun _ _ => ih _
          (htrans h₁ h₂)⟩
    exact fun x₁ h₁ => ⟨hcollect x₁ order, fun _ _ => heach _ _ h₁⟩
  induction p generalizing x with
  | ret a => exact fun x' hx => h x'.server hx
  | call o k ih =>
    have hgo : ∀ {r} {s : Server} {x' : ListSectioned} {q : GrpcChannelListPublisher}, R s x'.server →
        Safe ports R (fun _ _ => True) Act Q (k r) { s with channelList := q } →
        Safe listSections (fun x x' => R x.server x'.server) (fun _ _ => True) Act' (fun a x => Q a x.server)
          (ListSections.expand order (k r)) x' := fun hs hk => ih _ (hno.2 _) (hk.rely htrans (hlist hs))
    rcases o with _ | _ | _ | _ | (_ | _ | ch | ⟨k', n⟩) | _ | _
    case channelList.registerSubscriberWithSnapshot => exact hno.1.elim
    case channelList.unregisterSubscriber => exact hno.1.elim
    case channelList.publishChannelCreated =>
      obtain ⟨hact, hk⟩ := h _ (hrefl _)
      exact Safe.bind (fun x => hrefl x.server)
        ((hpublish _ _ x hact rfl).mono fun _ x' hx => hgo hx (hk trivial trivial))
    case channelList.publishMemberCountChanged =>
      obtain ⟨hact, hk⟩ := h _ (hrefl _)
      exact Safe.bind (fun x => hrefl x.server)
        ((hpublish _ _ x hact rfl).mono fun _ x' hx => hgo hx (hk trivial trivial))
    all_goals exact fun x' hx => ⟨hport _ _ (h _ hx).1, fun hen hok => ih _ (hno.2 _) ((h _ hx).2 hen hok)⟩

end

/-! ### The pool -/

inductive ListRequest
  | createChannel (clientId channelName : Bytes)
  | joinChannel (clientId channelId : Bytes)
  | leaveChannel (clientId channelId : Bytes)

namespace ListRequest

def run (uuid : UuidLib) (order : BucketOrder) : ListRequest → Task (Reply Unit)
  | createChannel clientId channelName => do
    match ← BroadcastService.CreateChannel uuid clientId channelName with
    | .error e => return .error e
    | .ok _ => return .ok ()
  | joinChannel clientId channelId => BroadcastService.JoinChannel uuid order clientId channelId
  | leaveChannel clientId channelId => BroadcastService.LeaveChannel uuid clientId channelId

theorem calls_run {P : Call → Prop} (hreq : ∀ o, Requesting o → P o)
    (hn : ∀ name, P (.channels (.create name)))
    (hp : ∀ ch, P (.channelList (.publishChannelCreated ch))) (uuid : UuidLib) (order : BucketOrder)
    (r : ListRequest) :
    (r.run uuid order).Calls P := by
  cases r with
  | createChannel clientId channelName =>
    refine .bind (calls_rpc_createChannel uuid (fun _ => hreq _ trivial) hn hp clientId channelName)
      fun r => ?_
    rcases r with e | _ <;> trivial
  | joinChannel clientId channelId => exact (requesting_joinRequest order uuid clientId channelId).mono hreq
  | leaveChannel clientId channelId => exact (requesting_leaveRequest uuid clientId channelId).mono hreq

theorem opensNoList (uuid : UuidLib) (order : BucketOrder) (r : ListRequest) :
    (r.run uuid order).Calls OpensNoList :=
  calls_run (fun _ => Requesting.opensNoList) (fun _ => trivial) (fun _ => trivial) uuid order r

end ListRequest

/-- The client of every stream, every request, and each one's way of walking the tables. -/
structure ListPublishing (ι : Type) where
  uuid : UuidLib
  clientIds : StreamId → Bytes
  requests : ι → ListRequest
  order : StreamId ⊕ ι → BucketOrder

abbrev ListConfig (ι : Type) := Config ListSectioned (StreamId ⊕ ι) ListSection ListSection.Res (Reply Unit)

abbrev ListEvents (ι : Type) := List
    (Event ListSectioned (StreamId ⊕ ι) ListSection ListSection.Res (Reply Unit))

section
variable {ι : Type}

/-- Streams and requests, from an empty table. -/
def ListPublishing.start (p : ListPublishing ι) (s : Server) : ListConfig ι where
  state := ⟨s, .empty⟩
  threads
    | .inl w => ListSections.expand (p.order (.inl w)).clients
        (BroadcastService.SubscribeToChannelList p.uuid (p.order (.inl w)) (p.clientIds w) w)
    | .inr i => ListSections.expand (p.order (.inr i)).clients ((p.requests i).run p.uuid (p.order (.inr i)))

/-- A run of the pool from the state `s`. -/
abbrev ListRun [DecidableEq ι] (p : ListPublishing ι) (s : Server) (tr : ListEvents ι)
    (m : ListConfig ι) : Prop :=
  Run listSections ListSectioned.Env (p.start s) tr m

/-- The stream that a thread registers. -/
def streamOf : StreamId ⊕ ι → Option StreamId := Sum.getLeft?

theorem streamOf_ne {i j : StreamId ⊕ ι} (hij : j ≠ i) : ∀ w, streamOf i = some w → streamOf j ≠ some w := by
  rintro w hi hj
  exact hij ((Sum.getLeft?_eq_some_iff.1 hj).trans (Sum.getLeft?_eq_some_iff.1 hi).symm)

variable [DecidableEq ι] {p : ListPublishing ι} {s : Server} {tr : ListEvents ι} {m : ListConfig ι}

/-- The table is tidy all along, and every section a thread enters is one it may. -/
theorem tidy_run (h : ListRun p s tr m) :
    m.state.table.Tidy ∧ ∀ i, ListSafe (streamOf i) (m.threads i) m.state := by
  have hrefl : ∀ own (x : ListSectioned), ListTable.Rely own x.table x.table := fun own x => .refl own x.table
  refine h.inv (I := fun m => m.state.table.Tidy ∧ ∀ i, ListSafe (streamOf i) (m.threads i) m.state)
    ⟨ListTable.tidy_empty, fun i => ?_⟩ (fun m s' hm he => ?_) fun e _ hI hn hen => ?_
  · rcases i with w | i
    · have hu : ListTable.empty.Unused w := ⟨fun _ => nofun, rfl⟩
      exact listSafe_subscribe hu ..
    · exact listSafe_expand ((p.requests i).opensNoList ..)
  · refine ⟨by rw [he.table]; exact hm.1, fun i => (hm.2 i).rely ListTable.Rely.trans ?_⟩
    rw [he.table]
    exact .refl ..
  · have hact := (hI.2 e.thread).act (hrefl _) hn
    rw [Config.advance_state hn]
    refine ⟨tidy_handle hI.1 hen hact, fun i => ?_⟩
    by_cases hi : i = e.thread
    · subst hi
      have hadv := (hI.2 e.thread).advance (hrefl _) hn hen hI.1
      rwa [Config.advance_state hn] at hadv
    · rw [Config.advance_threads_ne hi]
      exact (hI.2 i).rely ListTable.Rely.trans (rely_handle hen hact (streamOf_ne hi))

theorem tidy_at {e : Event ListSectioned (StreamId ⊕ ι) ListSection ListSection.Res (Reply Unit)}
    (h : ListRun p s tr m)
    (he : e ∈ tr) : e.pre.state.table.Tidy ∧ ListTable.Guar (streamOf e.thread) e.pre.state.table e.call ∧
      ListTable.Rely none e.pre.state.table (listSections.handle e.call e.pre.state).2.table := by
  obtain ⟨tr₁, tr₂, rfl⟩ := List.append_of_mem he
  obtain ⟨hpre, hn, hen, -⟩ := h.at_event
  obtain ⟨ht, hsafe⟩ := tidy_run hpre
  have hact := (hsafe e.thread).act (fun x => ListTable.Rely.refl _ x.table) hn
  exact ⟨ht, hact, rely_handle hen hact fun _ _ => nofun⟩

/-- Every stream begins with its snapshot, also one that has left the table. -/
theorem opened_run (h : ListRun p s tr m) (w : StreamId) :
    m.state.table.written w = [] ∨ Opened (m.state.table.written w) := by
  refine h.state_inv (I := fun x => x.table.written w = [] ∨ Opened (x.table.written w)) (.inl rfl) ?_ ?_
  · intro x x' hx he
    rwa [he.table]
  · intro e he hx _
    obtain ⟨ht, hguar, -⟩ := tidy_at h he
    rcases hb : e.call.brings with _ | ⟨entry, event⟩
    · rwa [written_handle hb]
    rw [written_handle_brings hb]
    split
    · rename_i hw
      right
      rcases e with ⟨m₀, i, o⟩
      cases o with
      | writeSnapshot entry' event' =>
        obtain ⟨rfl, rfl⟩ := Prod.mk.inj (Option.some.inj hb)
        obtain ⟨hsnap, hreg, -⟩ := hguar
        rw [ht.unwritten hreg hw]
        rcases event' with channels | _ | _
        · exact ⟨channels, [], rfl, nofun⟩
        · exact hsnap.elim
        · exact hsnap.elim
      | write _ _ =>
        obtain ⟨rfl, rfl⟩ := Prod.mk.inj (Option.some.inj hb)
        exact (ht.opened hw hguar.2.2).append hguar.1
      | _ => cases hb
    · exact hx

/-- An entry that is in the table at the end has not left it before. -/
theorem listed_kept {e : Event ListSectioned (StreamId ⊕ ι) ListSection ListSection.Res (Reply Unit)}
    (h : ListRun p s tr m)
    (he : e ∈ tr) {entry : EntryId} (hend : m.state.table.Listed entry)
    (hpre : e.pre.state.table.Listed entry) :
    (listSections.handle e.call e.pre.state).2.table.Listed entry := by
  by_contra hgone
  obtain ⟨ht, -, hrely⟩ := tidy_at h he
  obtain ⟨tr₁, tr₂, rfl⟩ := List.append_of_mem he
  obtain ⟨-, hn, -, hrest⟩ := h.at_event
  have hlater := hrest.state_inv (I := fun x => entry < x.table.nextEntry ∧ ¬ x.table.Listed entry) ?_ ?_ ?_
  · exact hlater.2 hend
  · rw [Config.advance_state hn]
    exact ⟨lt_of_lt_of_le (ht.listed_used hpre) hrely.next, hgone⟩
  · intro x x' hx henv
    rwa [henv.table]
  · intro e' he' hx _
    obtain ⟨-, -, hrely'⟩ := tidy_at h (List.mem_append_right _ (List.mem_cons_of_mem e he'))
    exact ⟨lt_of_lt_of_le hx.1 hrely'.next, hrely'.gone hx.1 hx.2⟩

end

end Bcmd
