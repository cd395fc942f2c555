import Bcmd.Lib.Pool
import Mathlib.Data.List.Induction

/-!
# Monitors

A `Monitor` watches the calls of one program: in each of its states it allows some calls, and it moves on
with every call and its response. A program that `Obeys` it does so whatever responses it gets, so in a run
the monitor of each thread can be followed along the trace (`Monitor.after`).
-/

structure Monitor (Call : Type) (Res : Call → Type) (φ : Type) where
  allows : φ → Call → Prop
  next : φ → (c : Call) → Res c → φ

namespace Monitor
variable {σ ι Call φ : Type} {Res : Call → Type} {α β : Type} (W : Monitor Call Res φ)

/-- Every call is allowed, and on return `Q` holds of the result and of where the monitor is. -/
def Obeys (Q : α → φ → Prop) : Prog Call Res α → φ → Prop
  | .ret a, q => Q a q
  | .call c k, q => W.allows q c ∧ ∀ r, Obeys Q (k r) (W.next q c r)

namespace Obeys
variable {W} {Q Q' : α → φ → Prop} {p : Prog Call Res α} {q : φ}

theorem mono (h : W.Obeys Q p q) (hQ : ∀ a q, Q a q → Q' a q) : W.Obeys Q' p q := by
  induction p generalizing q with
  | ret a => exact hQ a q h
  | call c k ih => exact ⟨h.1, fun r => ih r (h.2 r)⟩

theorem bind {f : α → Prog Call Res β} {Q' : β → φ → Prop} (h : W.Obeys Q p q)
    (hf : ∀ a q, Q a q → W.Obeys Q' (f a) q) : W.Obeys Q' (p >>= f) q := by
  induction p generalizing q with
  | ret a => exact hf a q h
  | call c k ih => exact ⟨h.1, fun r => ih r (h.2 r)⟩

/-- As long as the monitor is in `I`, it allows all that the program may call, and stays in `I`. -/
theorem of_calls {I : φ → Prop} {P : Call → Prop}
    (hP : ∀ q c, I q → P c → W.allows q c ∧ ∀ r, I (W.next q c r)) (hQ : ∀ a q, I q → Q a q)
    (hp : p.Calls P) (hq : I q) : W.Obeys Q p q := by
  induction p generalizing q with
  | ret a => exact hQ a q hq
  | call c k ih =>
    obtain ⟨hallows, hnext⟩ := hP q c hq hp.1
    exact ⟨hallows, fun r => ih r (hp.2 r) (hnext r)⟩

end Obeys

/-! ### Along a run -/

section
variable [DecidableEq ι] (M : Machine σ Call Res) (i : ι)

/-- Where the monitor of thread `i` is after the trace. -/
def after (q : φ) (tr : List (Event σ ι Call Res α)) : φ :=
  tr.foldl (fun q e => if e.thread = i then W.next q e.call (M.handle e.call e.pre.state).1 else q) q

variable {W M i} {E : σ → σ → Prop} {q : φ} {tr tr₁ tr₂ : List (Event σ ι Call Res α)}
  {e : Event σ ι Call Res α} {c c' : Config σ ι Call Res α} {Q : α → φ → Prop}

@[simp] theorem after_nil : W.after M i q ([] : List (Event σ ι Call Res α)) = q := rfl

theorem after_append : W.after M i q (tr₁ ++ tr₂) = W.after M i (W.after M i q tr₁) tr₂ :=
  List.foldl_append

theorem after_self (he : e.thread = i) : W.after M i q (tr ++ [e]) =
    W.next (W.after M i q tr) e.call (M.handle e.call e.pre.state).1 := by
  rw [after_append]
  exact if_pos he

theorem after_other (he : e.thread ≠ i) : W.after M i q (tr ++ [e]) = W.after M i q tr := by
  rw [after_append]
  exact if_neg he

/-- The event with which something becomes true of the monitor. -/
theorem after_becomes {P : φ → Prop} (h0 : ¬ P q) (h : P (W.after M i q tr)) :
    ∃ tr₁ e tr₂, tr = tr₁ ++ e :: tr₂ ∧ e.thread = i ∧ ¬ P (W.after M i q tr₁) ∧
      P (W.next (W.after M i q tr₁) e.call (M.handle e.call e.pre.state).1) := by
  induction tr using List.reverseRecOn with
  | nil => exact absurd h h0
  | append_singleton tr e ih =>
    by_cases hbefore : P (W.after M i q tr)
    · obtain ⟨tr₁, e', tr₂, rfl, hrest⟩ := ih hbefore
      exact ⟨tr₁, e', tr₂ ++ [e], by simp, hrest⟩
    · by_cases he : e.thread = i
      · rw [after_self he] at h
        exact ⟨tr, e, [], rfl, he, hbefore, h⟩
      · rw [after_other he] at h
        exact absurd h hbefore

theorem obeys_run (h : Run M E c tr c') (h0 : W.Obeys Q (c.threads i) q) :
    W.Obeys Q (c'.threads i) (W.after M i q tr) := by
  refine h.trace_inv (I := fun tr m => W.Obeys Q (m.threads i) (W.after M i q tr)) h0
    (fun _ _ _ _ hm _ => hm) fun tr m j o _ hn _ hm => ?_
  by_cases hj : j = i
  · subst hj
    obtain ⟨k, hk⟩ := Prog.eq_call_of_next hn
    rw [hk] at hm
    rw [Config.advance_threads_self hk, after_self (e := ⟨m, j, o⟩) rfl]
    exact hm.2 _
  · rw [Config.advance_threads_ne (Ne.symm hj), after_other (e := ⟨m, j, o⟩) hj]
    exact hm

/-- A thread that obeys the monitor makes no call that this does not allow. -/
theorem allowed (h : Run M E c (tr₁ ++ e :: tr₂) c') (h0 : W.Obeys Q (c.threads i) q)
    (he : e.thread = i) : W.allows (W.after M i q tr₁) e.call := by
  obtain ⟨h1, hn, -, -⟩ := h.at_event
  obtain ⟨k, hk⟩ := Prog.eq_call_of_next hn
  have hobeys := obeys_run h1 h0
  rw [← he, hk] at hobeys
  rw [← he]
  exact hobeys.1

/-- What every allowed call keeps true of the monitor stays true of it. -/
theorem after_stays {P : φ → Prop} (hP : ∀ q c s, W.allows q c → P q → P (W.next q c (M.handle c s).1))
    (h : Run M E c (tr₁ ++ tr₂) c') (h0 : W.Obeys Q (c.threads i) q) (h1 : P (W.after M i q tr₁)) :
    P (W.after M i q (tr₁ ++ tr₂)) := by
  generalize htr : tr₁ ++ tr₂ = tr at h
  have hinv : ∀ tr₃, tr = tr₁ ++ tr₃ → P (W.after M i q tr) := by
    refine h.trace_inv (I := fun tr _ => ∀ tr₃, tr = tr₁ ++ tr₃ → P (W.after M i q tr)) (fun tr₃ hnil => ?_)
      (fun _ _ _ _ hm _ => hm) fun tr m j o h hn he hm tr₃ htr => ?_
    · obtain ⟨rfl, rfl⟩ := List.append_eq_nil_iff.1 hnil.symm
      exact h1
    rcases List.eq_nil_or_concat tr₃ with rfl | ⟨tr₄, e, rfl⟩
    · rw [htr, List.append_nil]
      exact h1
    rw [List.concat_eq_append, ← List.append_assoc] at htr
    have hbefore := hm tr₄ (List.append_inj' htr rfl).1
    by_cases hj : j = i
    · subst hj
      rw [after_self (e := ⟨m, j, o⟩) rfl]
      exact hP _ _ _ (allowed (h.step hn he) h0 rfl) hbefore
    · rw [after_other (e := ⟨m, j, o⟩) hj]
      exact hbefore
  exact hinv tr₂ htr.symm

theorem result_run {a : α} (h : Run M E c tr c') (h0 : W.Obeys Q (c.threads i) q)
    (ha : c'.threads i = .ret a) : Q a (W.after M i q tr) := by
  have hobeys := obeys_run h h0
  rw [ha] at hobeys
  exact hobeys

end

/-! ### Transcripts -/

/-- The calls of `P` are allowed, and all are written down with their responses. -/
def transcript (P : Call → Prop) : Monitor Call Res (List (Σ o, Res o)) where
  allows _ o := P o
  next q o r := q ++ [⟨o, r⟩]

/-- What stands in the transcript of a thread has happened. -/
theorem mem_transcript [DecidableEq ι] {M : Machine σ Call Res} {i : ι} {P : Call → Prop} {o : Call} {r : Res o}
    {tr : List (Event σ ι Call Res α)} (h : ⟨o, r⟩ ∈ (transcript P).after M i [] tr) :
    ∃ e ∈ tr, e.thread = i ∧ e.call = o ∧ (M.handle o e.pre.state).1 = r := by
  induction tr using List.reverseRecOn with
  | nil => cases h
  | append_singleton tr e ih =>
    have hold : ⟨o, r⟩ ∈ (transcript P).after M i [] tr → ∃ e' ∈ tr ++ [e], e'.thread = i ∧ e'.call = o ∧
        (M.handle o e'.pre.state).1 = r := by
      intro hmem
      obtain ⟨e', he', hrest⟩ := ih hmem
      exact ⟨e', List.mem_append_left _ he', hrest⟩
    by_cases he : e.thread = i
    · rw [after_self he] at h
      rcases List.mem_append.1 h with hmem | hlast
      · exact hold hmem
      · cases List.mem_singleton.1 hlast
        exact ⟨e, by simp, he, rfl, rfl⟩
    · rw [after_other he] at h
      exact hold h

/-- What a thread has called stands in its transcript. -/
theorem transcript_mem [DecidableEq ι] {M : Machine σ Call Res} {i : ι} {P : Call → Prop}
    {tr : List (Event σ ι Call Res α)} {e : Event σ ι Call Res α} (he : e ∈ tr) (hi : e.thread = i) :
    ⟨e.call, (M.handle e.call e.pre.state).1⟩ ∈ (transcript P).after M i [] tr := by
  induction tr using List.reverseRecOn with
  | nil => cases he
  | append_singleton tr e' ih =>
    by_cases he' : e'.thread = i
    · rw [after_self he']
      rcases List.mem_append.1 he with hold | hlast
      · exact List.mem_append_left _ (ih hold)
      · cases List.mem_singleton.1 hlast
        exact List.mem_append_right _ (List.mem_singleton_self _)
    · rw [after_other he']
      rcases List.mem_append.1 he with hold | hlast
      · exact ih hold
      · cases List.mem_singleton.1 hlast
        exact absurd hi he'

end Monitor
