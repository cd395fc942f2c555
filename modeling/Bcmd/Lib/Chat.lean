import Mathlib.Data.Set.Basic
import Mathlib.Logic.Function.Basic
import Mathlib.Tactic.Common

/-!
# Chats

People come under names that nobody else has, each is in one room at most, rooms have titles of their own, and
what is said in a room stays said. `Move` is what can happen to a chat, and `Sound` what holds of it between
moves. People, rooms, names, titles and remarks are any types.
-/

/-- Somebody who is there: the name, the room, and the time of the last sign of life. -/
structure Guest (K N : Type) where
  name : N
  room : Option K
  heard : Int

structure Chat (P K N T M : Type) where
  guest : P → Option (Guest K N)
  title : K → Option T
  said : K → List M
  /-- The names of all who ever came. -/
  knownAs : P → Option N
  clock : Int

namespace Chat
variable {P K N T M : Type}

/-- Nobody is there, and there is no room. -/
def empty (clock : Int) : Chat P K N T M := ⟨fun _ => none, fun _ => none, fun _ => [], fun _ => none, clock⟩

def roomOf (chat : Chat P K N T M) (p : P) : Option K := (chat.guest p).bind Guest.room

/-- Somebody who is there has the name. -/
def Taken (chat : Chat P K N T M) (name : N) : Prop := ∃ p g, chat.guest p = some g ∧ g.name = name

inductive Move (P K N T M : Type)
  | stay
  | arrive (p : P) (name : N)
  | depart (gone : Set P)
  | found (k : K) (title : T)
  | place (p : P) (room : Option K)
  | say (k : K) (m : M)
  | hear (p : P)

/-- When a move makes sense: who arrives is new and has a free name, a room that is founded is new and has a
free title, and the rooms that people go to or speak in are there. -/
def Allowed (chat : Chat P K N T M) : Move P K N T M → Prop
  | .arrive p name => chat.knownAs p = none ∧ ¬ chat.Taken name
  | .found k title => chat.title k = none ∧ ∀ l, chat.title l ≠ some title
  | .place _ room => ∀ k, room = some k → chat.title k ≠ none
  | .say k _ => chat.title k ≠ none
  | .stay | .depart _ | .hear _ => True

/-- Nobody comes, no room is founded and nothing is said. -/
def Move.Plain : Move P K N T M → Prop
  | .arrive _ _ | .found _ _ | .say _ _ => False
  | .stay | .depart _ | .place _ _ | .hear _ => True

def pass (chat : Chat P K N T M) (clock : Int) : Chat P K N T M := { chat with clock := clock }

/-! ### What holds between moves -/

structure Sound (chat : Chat P K N T M) : Prop where
  names : ∀ {p q g h}, chat.guest p = some g → chat.guest q = some h → g.name = h.name → p = q
  titles : ∀ {k l t}, chat.title k = some t → chat.title l = some t → k = l
  rooms : ∀ {p k}, chat.roomOf p = some k → chat.title k ≠ none
  known : ∀ {p g}, chat.guest p = some g → chat.knownAs p = some g.name
  said : ∀ {k}, chat.said k ≠ [] → chat.title k ≠ none
  heard : ∀ {p g}, chat.guest p = some g → g.heard ≤ chat.clock

section
variable {chat : Chat P K N T M} {p q : P} {k l : K} {g : Guest K N}

theorem roomOf_of_guest (h : chat.guest p = some g) : chat.roomOf p = g.room := by
  rw [roomOf, h, Option.bind_some]

theorem roomOf_eq_some : chat.roomOf p = some k ↔ ∃ g, chat.guest p = some g ∧ g.room = some k := by
  simp [roomOf, Option.bind_eq_some_iff]

theorem Sound.empty (clock : Int) : (Chat.empty clock : Chat P K N T M).Sound where
  names h := by simp [Chat.empty] at h
  titles h := by simp [Chat.empty] at h
  rooms h := by simp [Chat.empty, roomOf] at h
  known h := by simp [Chat.empty] at h
  said h := by simp [Chat.empty] at h
  heard h := by simp [Chat.empty] at h

theorem Sound.pass {clock : Int} (h : chat.Sound) (hclock : chat.clock ≤ clock) : (chat.pass clock).Sound where
  names := h.names
  titles := h.titles
  rooms := h.rooms
  known := h.known
  said := h.said
  heard hg := (h.heard hg).trans hclock

end

/-! ### What a move does -/

variable [DecidableEq P] [DecidableEq K]

open scoped Classical in
noncomputable def after (chat : Chat P K N T M) : Move P K N T M → Chat P K N T M
  | .stay => chat
  | .arrive p name => { chat with
      guest := Function.update chat.guest p (some ⟨name, none, chat.clock⟩)
      knownAs := Function.update chat.knownAs p (some name) }
  | .depart gone => { chat with guest := fun p => if p ∈ gone then none else chat.guest p }
  | .found k title => { chat with title := Function.update chat.title k (some title) }
  | .place p room => { chat with
      guest := Function.update chat.guest p ((chat.guest p).map fun g => { g with room := room }) }
  | .say k m => { chat with said := Function.update chat.said k (chat.said k ++ [m]) }
  | .hear p => { chat with
      guest := Function.update chat.guest p ((chat.guest p).map fun g => { g with heard := chat.clock }) }

section
variable {chat : Chat P K N T M} {k : K}

theorem after_plain (chat : Chat P K N T M) {move : Move P K N T M} (h : move.Plain) :
    (chat.after move).said = chat.said ∧ (chat.after move).knownAs = chat.knownAs ∧
      (chat.after move).title = chat.title := by
  cases move with
  | arrive p name => exact h.elim
  | found k title => exact h.elim
  | say k m => exact h.elim
  | stay | depart _ | place _ _ | hear _ => exact ⟨rfl, rfl, rfl⟩

omit [DecidableEq K] in
/-- A move that changes one guest at most, and leaves the name as it was. -/
theorem Sound.update_guest (h : chat.Sound) (p : P) {f : Guest K N → Guest K N}
    (hname : ∀ g, (f g).name = g.name)
    (hroom : ∀ g k, chat.guest p = some g → (f g).room = some k → chat.title k ≠ none)
    (hheard : ∀ g, chat.guest p = some g → (f g).heard ≤ chat.clock) :
    ({ chat with guest := Function.update chat.guest p ((chat.guest p).map f) } : Chat P K N T M).Sound := by
  -- whoever is there now was there before, under the name
  have hwas : ∀ {q g}, Function.update chat.guest p ((chat.guest p).map f) q = some g →
      ∃ g', chat.guest q = some g' ∧ g'.name = g.name ∧ (g = g' ∨ q = p ∧ g = f g') := by
    intro q g hg
    by_cases hq : q = p
    · subst hq
      rw [Function.update_self, Option.map_eq_some_iff] at hg
      obtain ⟨g', hg', rfl⟩ := hg
      exact ⟨g', hg', (hname g').symm, .inr ⟨rfl, rfl⟩⟩
    · rw [Function.update_of_ne hq] at hg
      exact ⟨g, hg, rfl, .inl rfl⟩
  constructor
  · intro q q' g g' hg hg' heq
    obtain ⟨g₁, hg₁, hname₁, -⟩ := hwas hg
    obtain ⟨g₂, hg₂, hname₂, -⟩ := hwas hg'
    exact h.names hg₁ hg₂ (by rw [hname₁, hname₂, heq])
  · exact h.titles
  · intro q k hk
    obtain ⟨g, hg, hin⟩ := roomOf_eq_some.1 hk
    obtain ⟨g', hg', -, rfl | ⟨rfl, rfl⟩⟩ := hwas hg
    · exact h.rooms (roomOf_eq_some.2 ⟨g, hg', hin⟩)
    · exact hroom g' k hg' hin
  · intro q g hg
    obtain ⟨g', hg', hsame, -⟩ := hwas hg
    rw [← hsame]
    exact h.known hg'
  · exact h.said
  · intro q g hg
    obtain ⟨g', hg', -, rfl | ⟨rfl, rfl⟩⟩ := hwas hg
    · exact h.heard hg'
    · exact hheard g' hg'

theorem Sound.arrive (h : chat.Sound) {name : N} (hfree : ¬ chat.Taken name) (p : P) :
    (chat.after (.arrive p name)).Sound := by
  have hcases : ∀ {q g}, (chat.after (.arrive p name)).guest q = some g →
      (q = p ∧ g = ⟨name, none, chat.clock⟩) ∨ (q ≠ p ∧ chat.guest q = some g) := by
    intro q g hg
    by_cases hq : q = p
    · subst hq
      simp only [after, Function.update_self, Option.some.injEq] at hg
      exact .inl ⟨rfl, hg.symm⟩
    · simp only [after, Function.update_of_ne hq] at hg
      exact .inr ⟨hq, hg⟩
  constructor
  · intro q q' g g' hg hg' heq
    rcases hcases hg with ⟨rfl, rfl⟩ | ⟨-, hold⟩ <;> rcases hcases hg' with ⟨rfl, rfl⟩ | ⟨-, hold'⟩
    · rfl
    · exact absurd ⟨q', g', hold', heq.symm⟩ hfree
    · exact absurd ⟨q, g, hold, heq⟩ hfree
    · exact h.names hold hold' heq
  · exact h.titles
  · intro q k hk
    obtain ⟨g, hg, hin⟩ := roomOf_eq_some.1 hk
    rcases hcases hg with ⟨rfl, rfl⟩ | ⟨-, hold⟩
    · cases hin
    · exact h.rooms (roomOf_eq_some.2 ⟨g, hold, hin⟩)
  · intro q g hg
    rcases hcases hg with ⟨rfl, rfl⟩ | ⟨hq, hold⟩
    · simp [after]
    · simp only [after, Function.update_of_ne hq]
      exact h.known hold
  · exact h.said
  · intro q g hg
    rcases hcases hg with ⟨rfl, rfl⟩ | ⟨-, hold⟩
    · exact le_refl _
    · exact h.heard hold

theorem Sound.depart (h : chat.Sound) (gone : Set P) : (chat.after (.depart gone)).Sound := by
  have hwas : ∀ {q g}, (chat.after (.depart gone)).guest q = some g → chat.guest q = some g := by
    intro q g hg
    simp only [after] at hg
    split at hg
    · cases hg
    · exact hg
  constructor
  · intro q q' g g' hg hg'
    exact h.names (hwas hg) (hwas hg')
  · exact h.titles
  · intro q k hk
    obtain ⟨g, hg, hin⟩ := roomOf_eq_some.1 hk
    exact h.rooms (roomOf_eq_some.2 ⟨g, hwas hg, hin⟩)
  · exact fun hg => h.known (hwas hg)
  · exact h.said
  · exact fun hg => h.heard (hwas hg)

theorem Sound.found (h : chat.Sound) {t : T} (hfree : ∀ l, chat.title l ≠ some t) (k : K) :
    (chat.after (.found k t)).Sound := by
  have hstays : ∀ {l}, chat.title l ≠ none → (chat.after (.found k t)).title l ≠ none := by
    intro l hl
    by_cases hlk : l = k
    · subst hlk
      simp [after]
    · simpa only [after, Function.update_of_ne hlk] using hl
  refine ⟨h.names, ?_, fun hp => hstays (h.rooms hp), h.known, fun hs => hstays (h.said hs), h.heard⟩
  intro l l' t' hl hl'
  by_cases hlk : l = k <;> by_cases hlk' : l' = k
  · rw [hlk, hlk']
  · simp only [after, hlk, Function.update_self, Function.update_of_ne hlk'] at hl hl'
    exact absurd (hl'.trans hl.symm) (hfree l')
  · simp only [after, hlk', Function.update_self, Function.update_of_ne hlk] at hl hl'
    exact absurd (hl.trans hl'.symm) (hfree l)
  · simp only [after, Function.update_of_ne hlk, Function.update_of_ne hlk'] at hl hl'
    exact h.titles hl hl'

theorem Sound.say (h : chat.Sound) (hk : chat.title k ≠ none) (m : M) : (chat.after (.say k m)).Sound := by
  refine ⟨h.names, h.titles, h.rooms, h.known, ?_, h.heard⟩
  intro l hl
  by_cases hlk : l = k
  · rwa [hlk]
  · simp only [after, Function.update_of_ne hlk] at hl
    exact h.said hl

/-- A move that makes sense keeps a chat sound. -/
theorem Sound.after (h : chat.Sound) {move : Move P K N T M} (hmove : chat.Allowed move) :
    (chat.after move).Sound := by
  cases move with
  | stay => exact h
  | arrive p name => exact h.arrive hmove.2 p
  | depart gone => exact h.depart gone
  | found k t => exact h.found hmove.2 k
  | place p room =>
    refine h.update_guest p (fun _ => rfl) (fun _ k _ hk => hmove k hk) fun g hg => ?_
    exact h.heard (g := g) hg
  | say k m => exact h.say hmove m
  | hear p =>
    exact h.update_guest p (fun _ => rfl) (fun g k hg hk => h.rooms (roomOf_eq_some.2 ⟨g, hg, hk⟩))
      fun _ _ => le_refl _

end

end Chat
