import Bcmd.Lib.Rely

/-!
# What a program has still to do

A program `Owes` a call of `P` when, whatever others do by `R`, it makes one before it returns. It
`Answers` when each call that raises a matter leaves it owing a call that answers the matter. In a pool
of such programs a matter that is open at the end is still owed by someone (`Run.owed`).
-/

section
variable {σ ι Call δ : Type} {Res : Call → Type} {α β : Type} (M : Machine σ Call Res) (R : σ → σ → Prop)
open Prog

def Owes (P : Call → Prop) : Prog Call Res α → σ → Prop
  | ret _, _ => False
  | call c k, s => P c ∨ ∀ s', R s s' → M.enabled c s' → Owes P (k (M.handle c s').1) (M.handle c s').2

def Answers (raises : σ → Call → δ → Prop) (answers : Call → δ → Prop) : Prog Call Res α → σ → Prop
  | ret _, _ => True
  | call c k, s => ∀ s', R s s' → M.enabled c s' →
      (∀ d, raises s' c d → Owes M R (answers · d) (k (M.handle c s').1) (M.handle c s').2) ∧
        Answers raises answers (k (M.handle c s').1) (M.handle c s').2

namespace Owes
variable {M R} {P : Call → Prop} {s s' : σ} {p : Prog Call Res α}

theorem rely (hR : ∀ {a b c}, R a b → R b c → R a c) (h : Owes M R P p s) (hs : R s s') :
    Owes M R P p s' := by
  cases p with
  | ret a => exact h
  | call c k => exact h.imp id fun h t ht => h t (hR hs ht)

theorem bind (h : Owes M R P p s) (f : α → Prog Call Res β) : Owes M R P (p >>= f) s := by
  induction p generalizing s with
  | ret a => exact h.elim
  | call c k ih => exact h.imp id fun h t ht he => ih _ (h t ht he)

/-- A program that can go on and makes no such call owes none. -/
theorem not_of_calls (hen : ∀ c s, ∃ s', R s s' ∧ M.enabled c s') (hp : p.Calls fun c => ¬ P c) :
    ¬ Owes M R P p s := by
  induction p generalizing s with
  | ret a => exact id
  | call c k ih =>
    rintro (hc | h)
    · exact hp.1 hc
    · obtain ⟨t, ht, he⟩ := hen c s
      exact ih _ (hp.2 _) (h t ht he)

end Owes

namespace Answers
variable {M R} {raises : σ → Call → δ → Prop} {answers : Call → δ → Prop} {s s' : σ} {p : Prog Call Res α}

theorem rely (hR : ∀ {a b c}, R a b → R b c → R a c) (h : Answers M R raises answers p s) (hs : R s s') :
    Answers M R raises answers p s' := by
  cases p with
  | ret a => exact h
  | call c k => exact fun t ht => h t (hR hs ht)

/-- A program that raises nothing has nothing to answer. -/
theorem of_calls {P : Call → Prop} (hP : ∀ s c d, P c → ¬ raises s c d) (hp : p.Calls P) :
    Answers M R raises answers p s := by
  induction p generalizing s with
  | ret a => trivial
  | call c k ih => exact fun t _ _ => ⟨fun d hd => absurd hd (hP t c d hp.1), ih _ (hp.2 _)⟩

/-- When the program's own calls are steps of the rely too, what follows may count on them. -/
theorem bind {P : Call → Prop} (hrefl : ∀ s, R s s) (htrans : ∀ {a b c}, R a b → R b c → R a c)
    (hkeep : ∀ s c, P c → R s (M.handle c s).2) (h : Answers M R raises answers p s) (hp : p.Calls P)
    {f : α → Prog Call Res β} (hf : ∀ a s', R s s' → Answers M R raises answers (f a) s') :
    Answers M R raises answers (p >>= f) s := by
  induction p generalizing s with
  | ret a => exact hf a s (hrefl s)
  | call c k ih =>
    refine fun t ht he => ⟨fun d hd => ((h t ht he).1 d hd).bind f, ?_⟩
    exact ih _ (h t ht he).2 (hp.2 _) fun a s' hs => hf a s' (htrans (htrans ht (hkeep t c hp.1)) hs)

end Answers

section
variable {M R} [DecidableEq ι] {E : σ → σ → Prop} {start final : Config σ ι Call Res α}
  {tr : List (Event σ ι Call Res α)} {raises : σ → Call → δ → Prop} {answers : Call → δ → Prop}
    {isOpen : σ → δ → Prop}

/-- A matter is open only as long as someone owes it, when every call that opens one raises it, and no
call that answers one leaves it open with nobody else owing it. -/
theorem Run.owed (hrefl : ∀ s, R s s) (htrans : ∀ {a b c}, R a b → R b c → R a c)
    (hE : ∀ s s', E s s' → R s s')
    (hopenE : ∀ s s' d, E s s' → isOpen s' d → isOpen s d) (h : Run M E start tr final)
    (hR : ∀ e ∈ tr, R e.pre.state (M.handle e.call e.pre.state).2)
    (hans : ∀ i, Answers M R raises answers (start.threads i) start.state)
    (h0 : ∀ d, isOpen start.state d → ∃ i, Owes M R (answers · d) (start.threads i) start.state)
    (hopen : ∀ e ∈ tr, ∀ d, isOpen (M.handle e.call e.pre.state).2 d →
      isOpen e.pre.state d ∨ raises e.pre.state e.call d ∨ answers e.call d)
    (hpaid : ∀ e ∈ tr, ∀ d, answers e.call d → isOpen (M.handle e.call e.pre.state).2 d →
      ∃ j ≠ e.thread, Owes M R (answers · d) (e.pre.threads j) e.pre.state) :
    ∀ d, isOpen final.state d → ∃ i, Owes M R (answers · d) (final.threads i) final.state := by
  have hinv : (∀ i, Answers M R raises answers (final.threads i) final.state) ∧
      ∀ d, isOpen final.state d → ∃ i, Owes M R (answers · d) (final.threads i) final.state := by
    refine h.inv (I := fun m => (∀ i, Answers M R raises answers (m.threads i) m.state) ∧
      ∀ d, isOpen m.state d → ∃ i, Owes M R (answers · d) (m.threads i) m.state) ⟨hans, h0⟩ ?_ ?_
    · rintro m s' ⟨hm, hd⟩ he
      refine ⟨fun i => (hm i).rely htrans (hE _ _ he), fun d hopen => ?_⟩
      obtain ⟨i, hi⟩ := hd d (hopenE _ _ d he hopen)
      exact ⟨i, hi.rely htrans (hE _ _ he)⟩
    · rintro e he ⟨hm, hd⟩ hn hen
      obtain ⟨k, hk⟩ := Prog.eq_call_of_next hn
      have hself := hm e.thread
      rw [hk] at hself
      obtain ⟨hraised, hrest⟩ := hself _ (hrefl _) hen
      have hother : ∀ {j d}, j ≠ e.thread → Owes M R (answers · d) (e.pre.threads j) e.pre.state →
          Owes M R (answers · d) ((e.pre.advance M e.thread).threads j) (e.pre.advance M e.thread).state := by
        intro j d hj ho
        rw [Config.advance_threads_ne hj, Config.advance_state hn]
        exact ho.rely htrans (hR e he)
      refine ⟨fun j => ?_, fun d hafter => ?_⟩
      · by_cases hj : j = e.thread
        · rw [hj, Config.advance_threads_self hk, Config.advance_state hn]
          exact hrest
        · rw [Config.advance_threads_ne hj, Config.advance_state hn]
          exact (hm j).rely htrans (hR e he)
      · rw [Config.advance_state hn] at hafter
        by_cases hpays : answers e.call d
        · obtain ⟨j, hj, ho⟩ := hpaid e he d hpays hafter
          exact ⟨j, hother hj ho⟩
        have hthis : Owes M R (answers · d) (k (M.handle e.call e.pre.state).1)
          (M.handle e.call e.pre.state).2 →
            ∃ i, Owes M R (answers · d) ((e.pre.advance M e.thread).threads i)
              (e.pre.advance M e.thread).state := by
          intro ho
          refine ⟨e.thread, ?_⟩
          rw [Config.advance_threads_self hk, Config.advance_state hn]
          exact ho
        rcases hopen e he d hafter with hbefore | hraises | hanswers
        · obtain ⟨j, ho⟩ := hd d hbefore
          by_cases hj : j = e.thread
          · -- the thread that moved owed it, and has not made the call
            rw [hj, hk] at ho
            exact hthis (ho.resolve_left hpays _ (hrefl _) hen)
          · exact ⟨j, hother hj ho⟩
        · exact hthis (hraised d hraises)
        · exact absurd hanswers hpays
  exact hinv.2

end

end
