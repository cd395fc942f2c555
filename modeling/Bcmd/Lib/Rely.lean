import Bcmd.Lib.Pool

/-!
# Rely and guarantee

`Safe` says what a program does while others move the state by `R`: every call it makes satisfies
`Act` in the state it is made in, and when it returns, its result satisfies `Q`. Calls made against
`ok` end the obligation, so `ok` is what a theorem assumes of the schedule. A thread that is `Safe`
stays so in every run whose other steps are steps of `R`.
-/

section
variable {σ ι Call : Type} {Res : Call → Type} {α β : Type} (M : Machine σ Call Res)
variable (R : σ → σ → Prop) (ok Act : σ → Call → Prop)
open Prog

/-- See the module doc; `Q` must hold of the result in every state others may lead to. -/
def Safe (Q : α → σ → Prop) : Prog Call Res α → σ → Prop
  | ret a, s => ∀ s', R s s' → Q a s'
  | call c k, s => ∀ s', R s s' → Act s' c ∧
      (M.enabled c s' → ok s' c → Safe Q (k (M.handle c s').1) (M.handle c s').2)

namespace Safe
variable {M R ok Act} {Q Q' : α → σ → Prop} {s s' : σ} {p : Prog Call Res α}

theorem rely (hR : ∀ {a b c}, R a b → R b c → R a c) (h : Safe M R ok Act Q p s) (hs : R s s') :
    Safe M R ok Act Q p s' := by
  cases p with
  | ret a => exact fun t ht => h t (hR hs ht)
  | call c k => exact fun t ht => h t (hR hs ht)

theorem mono (h : Safe M R ok Act Q p s) (hQ : ∀ a s, Q a s → Q' a s) : Safe M R ok Act Q' p s := by
  induction p generalizing s with
  | ret a => exact fun t ht => hQ _ _ (h t ht)
  | call c k ih => exact fun t ht => ⟨(h t ht).1, fun he ho => ih _ ((h t ht).2 he ho)⟩

theorem bind (hrefl : ∀ s, R s s) {f : α → Prog Call Res β} {Q' : β → σ → Prop}
    (h : Safe M R ok Act (fun a s => Safe M R ok Act Q' (f a) s) p s) :
    Safe M R ok Act Q' (p >>= f) s := by
  induction p generalizing s with
  | ret a => exact h s (hrefl s)
  | call c k ih => exact fun t ht => ⟨(h t ht).1, fun he ho => ih _ ((h t ht).2 he ho)⟩

/-- With others that may do less, under fewer schedules, and asked for less. -/
theorem weaken {R' : σ → σ → Prop} {ok' Act' : σ → Call → Prop} (h : Safe M R ok Act Q p s)
    (hR : ∀ s s', R' s s' → R s s') (hok : ∀ s c, ok' s c → ok s c) (hact : ∀ s c, Act s c → Act' s c) :
    Safe M R' ok' Act' Q p s := by
  induction p generalizing s with
  | ret a => exact fun t ht => h t (hR s t ht)
  | call c k ih =>
    intro t ht
    obtain ⟨hc, hk⟩ := h t (hR s t ht)
    exact ⟨hact t c hc, fun he ho => ih _ (hk he (hok t c ho))⟩

/-- What is known of the calls of the program anyhow. -/
theorem and_calls {P : Call → Prop} (h : Safe M R ok Act Q p s) (hp : p.Calls P) :
    Safe M R ok (fun s c => Act s c ∧ P c) Q p s := by
  induction p generalizing s with
  | ret a => exact h
  | call c k ih =>
    intro t ht
    obtain ⟨hc, hk⟩ := h t ht
    exact ⟨⟨hc, hp.1⟩, fun he ho => ih _ (hk he ho) (hp.2 _)⟩

/-- When the program's own calls are steps of the rely too, all that happens is. -/
theorem and_rely (hrefl : ∀ s, R s s) (htrans : ∀ {a b c}, R a b → R b c → R a c)
    (hact : ∀ s c, M.enabled c s → ok s c → Act s c → R s (M.handle c s).2) (h : Safe M R ok Act Q p s) :
    Safe M R ok Act (fun a s' => Q a s' ∧ R s s') p s := by
  have hall : ∀ s₀, R s₀ s → Safe M R ok Act (fun a s' => Q a s' ∧ R s₀ s') p s := by
    induction p generalizing s with
    | ret a => exact fun s₀ h₀ t ht => ⟨h t ht, htrans h₀ ht⟩
    | call c k ih =>
      intro s₀ h₀ t ht
      obtain ⟨hc, hk⟩ := h t ht
      exact ⟨hc, fun he ho => ih _ (hk he ho) s₀ (htrans (htrans h₀ ht) (hact t c he ho hc))⟩
  exact hall s (hrefl s)

/-- What the others keep and the program's own calls keep holds whenever it calls. -/
theorem and_inv {I : σ → Prop} (hR : ∀ s s', R s s' → I s → I s')
    (hact : ∀ s c, M.enabled c s → ok s c → Act s c → I s → I (M.handle c s).2)
    (h : Safe M R ok Act Q p s) (hs : I s) :
    Safe M R ok (fun s c => Act s c ∧ I s) Q p s := by
  induction p generalizing s with
  | ret a => exact h
  | call c k ih =>
    intro t ht
    obtain ⟨hc, hk⟩ := h t ht
    have hI := hR s t ht hs
    exact ⟨⟨hc, hI⟩, fun he ho => ih _ (hk he ho) (hact t c he ho hc hI)⟩

/-- Run alone, a safe program does what it does beside others. -/
theorem exec (hrefl : ∀ s, R s s) (h : Safe M R ok Act Q p s)
    (hp : p.Calls fun c => ∀ s, M.enabled c s ∧ ok s c) :
    Q (M.exec p s).1 (M.exec p s).2 := by
  induction p generalizing s with
  | ret a => exact h s (hrefl s)
  | call c k ih =>
    obtain ⟨he, ho⟩ := hp.1 s
    exact ih _ ((h s (hrefl s)).2 he ho) (hp.2 _)

/-- A program all of whose calls are harmless needs no argument about its order of calls. -/
theorem of_calls {P : Call → Prop} (hact : ∀ s c, P c → Act s c) (hQ : ∀ a s, Q a s)
    (hp : p.Calls P) : Safe M R ok Act Q p s := by
  induction p generalizing s with
  | ret a => exact fun t _ => hQ a t
  | call c k ih => exact fun t _ => ⟨hact t c hp.1, fun _ _ => ih _ (hp.2 _)⟩

end Safe

section
variable {M R ok Act} [DecidableEq ι] {E : σ → σ → Prop} {c c' : Config σ ι Call Res α}
  {tr : List (Event σ ι Call Res α)} {i : ι} {Q : α → σ → Prop}

theorem Safe.advance {o : Call} (h : Safe M R ok Act Q (c.threads i) c.state) (hrefl : ∀ s, R s s)
    (hn : (c.threads i).next = some o) (he : M.enabled o c.state) (ho : ok c.state o) :
    Safe M R ok Act Q ((c.advance M i).threads i) (c.advance M i).state := by
  obtain ⟨k, hk⟩ := Prog.eq_call_of_next hn
  rw [hk] at h
  rw [Config.advance_threads_self hk, Config.advance_state hn]
  exact (h _ (hrefl _)).2 he ho

omit [DecidableEq ι] in
theorem Safe.act {o : Call} (h : Safe M R ok Act Q (c.threads i) c.state) (hrefl : ∀ s, R s s)
    (hn : (c.threads i).next = some o) : Act c.state o := by
  obtain ⟨k, hk⟩ := Prog.eq_call_of_next hn
  rw [hk] at h
  exact (h _ (hrefl _)).1

/-! One safe thread, among any others whose calls are steps of its rely. -/
variable (hrefl : ∀ s, R s s) (htrans : ∀ {a b c}, R a b → R b c → R a c) (hE : ∀ s s', E s s' → R s s')
  (h : Run M E c tr c') (h0 : Safe M R ok Act Q (c.threads i) c.state)
  (hok : ∀ e ∈ tr, e.thread = i → ok e.pre.state e.call)
  (hothers : ∀ e ∈ tr, e.thread ≠ i → M.enabled e.call e.pre.state →
    R e.pre.state (M.handle e.call e.pre.state).2)
include hrefl htrans hE h h0 hok hothers

theorem Run.safe : Safe M R ok Act Q (c'.threads i) c'.state := by
  refine h.inv (I := fun m => Safe M R ok Act Q (m.threads i) m.state) h0
    (fun m s' hm he => hm.rely htrans (hE _ _ he)) fun e he hI hn hen => ?_
  by_cases hi : e.thread = i
  · subst hi
    exact hI.advance hrefl hn hen (hok e he rfl)
  · rw [Config.advance_threads_ne (Ne.symm hi), Config.advance_state hn]
    exact hI.rely htrans (hothers e he hi hen)

theorem Run.safe_act : ∀ e ∈ tr, e.thread = i → Act e.pre.state e.call := by
  intro e he hi
  obtain ⟨tr₁, tr₂, rfl⟩ := List.append_of_mem he
  obtain ⟨h1, hn, -, -⟩ := h.at_event
  subst hi
  refine (Run.safe hrefl htrans hE h1 h0 (fun e' he' => hok e' ?_) fun e' he' => hothers e' ?_).act hrefl hn
  all_goals exact List.mem_append_left _ he'

theorem Run.safe_ret {a : α} (ha : c'.threads i = .ret a) : Q a c'.state := by
  have hs := Run.safe hrefl htrans hE h h0 hok hothers
  rw [ha] at hs
  exact hs _ (hrefl _)

end

section
variable {M} [DecidableEq ι] {R : ι → σ → σ → Prop} {ok Act : ι → σ → Call → Prop} {E : σ → σ → Prop}
  {c c' : Config σ ι Call Res α} {tr : List (Event σ ι Call Res α)} {Q : ι → α → σ → Prop}

/-- A pool of safe threads, each of whose guarantees is within the relies of the others. -/
theorem Run.safe_pool (hrefl : ∀ i s, R i s s) (htrans : ∀ i {a b c}, R i a b → R i b c → R i a c)
    (hE : ∀ i s s', E s s' → R i s s')
    (hcompat : ∀ i j s o, i ≠ j → M.enabled o s → ok j s o → Act j s o → R i s (M.handle o s).2)
    (h : Run M E c tr c')
    (h0 : ∀ i, Safe M (R i) (ok i) (Act i) (Q i) (c.threads i) c.state)
    (hok : ∀ e ∈ tr, ok e.thread e.pre.state e.call) :
    ∀ i, Safe M (R i) (ok i) (Act i) (Q i) (c'.threads i) c'.state := by
  refine h.inv (I := fun m => ∀ i, Safe M (R i) (ok i) (Act i) (Q i) (m.threads i) m.state) h0
    (fun m s' hm he i => (hm i).rely (htrans i) (hE i _ _ he)) fun e he hI hn hen i => ?_
  by_cases hi : e.thread = i
  · subst hi
    exact (hI _).advance (hrefl _) hn hen (hok e he)
  · rw [Config.advance_threads_ne (Ne.symm hi), Config.advance_state hn]
    exact (hI i).rely (htrans i)
      (hcompat i _ _ _ (Ne.symm hi) hen (hok e he) ((hI e.thread).act (hrefl _) hn))

end

end
