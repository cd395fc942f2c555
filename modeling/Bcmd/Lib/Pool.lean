import Bcmd.Lib.Prog

/-!
# Interleaving programs

A `Config` is a shared state and one program per thread. In a `Run` the threads take their calls in
any order, and between two calls the environment may change the state by `E`. The trace of a run
lists its calls, each as an `Event` that keeps the configuration the call was made in, so that what
was true at some moment of the run can be said afterwards.
-/

structure Config (σ ι Call : Type) (Res : Call → Type) (α : Type) where
  state : σ
  threads : ι → Prog Call Res α

/-- The call `call`, made by `thread` in the configuration `pre`. -/
structure Event (σ ι Call : Type) (Res : Call → Type) (α : Type) where
  pre : Config σ ι Call Res α
  thread : ι
  call : Call

section
variable {σ ι Call : Type} {Res : Call → Type} {α : Type} [DecidableEq ι]
variable (M : Machine σ Call Res) (E : σ → σ → Prop)

namespace Config

/-- Thread `i` makes its next call; a thread that has returned stays as it is. -/
def advance (c : Config σ ι Call Res α) (i : ι) : Config σ ι Call Res α :=
  match c.threads i with
  | .ret _ => c
  | .call o k => ⟨(M.handle o c.state).2, Function.update c.threads i (k (M.handle o c.state).1)⟩

variable {M} {c : Config σ ι Call Res α} {i j : ι} {o : Call}

theorem advance_of_call {k : Res o → Prog Call Res α} (h : c.threads i = .call o k) :
    c.advance M i = ⟨(M.handle o c.state).2, Function.update c.threads i (k (M.handle o c.state).1)⟩ := by
  simp only [advance, h]

theorem advance_state (h : (c.threads i).next = some o) : (c.advance M i).state = (M.handle o c.state).2 := by
  obtain ⟨k, hk⟩ := Prog.eq_call_of_next h
  rw [advance_of_call hk]

theorem advance_threads_self {k : Res o → Prog Call Res α} (h : c.threads i = .call o k) :
    (c.advance M i).threads i = k (M.handle o c.state).1 := by
  rw [advance_of_call h]; exact Function.update_self ..

theorem advance_threads_ne (h : j ≠ i) : (c.advance M i).threads j = c.threads j := by
  unfold advance; split
  · rfl
  · exact Function.update_of_ne h _ _

end Config

/-- `c'` is reached from `c` by the calls of the trace, in order, with steps of the environment anywhere. -/
inductive Run (c : Config σ ι Call Res α) : List (Event σ ι Call Res α) → Config σ ι Call Res α → Prop
  | refl : Run c [] c
  | env {tr m s'} (h : Run c tr m) (he : E m.state s') : Run c tr ⟨s', m.threads⟩
  | step {tr m i o} (h : Run c tr m) (hn : (m.threads i).next = some o) (he : M.enabled o m.state) :
      Run c (tr ++ [⟨m, i, o⟩]) (m.advance M i)

namespace Run
variable {M E} {c m c' : Config σ ι Call Res α} {tr tr' : List (Event σ ι Call Res α)}
  {e : Event σ ι Call Res α} {i : ι}

theorem trans (h : Run M E c tr m) (h' : Run M E m tr' c') : Run M E c (tr ++ tr') c' := by
  induction h' with
  | refl => simpa using h
  | env _ he ih => exact ih.env he
  | step _ hn he ih => rw [← List.append_assoc]; exact ih.step hn he

/-- What holds at the start of a run and is kept by the environment and by every call of the trace
holds at its end. -/
theorem inv {I : Config σ ι Call Res α → Prop} (h : Run M E c tr c') (h0 : I c)
    (henv : ∀ m s', I m → E m.state s' → I ⟨s', m.threads⟩)
    (hstep : ∀ e ∈ tr, I e.pre → (e.pre.threads e.thread).next = some e.call →
      M.enabled e.call e.pre.state → I (e.pre.advance M e.thread)) : I c' := by
  induction h with
  | refl => exact h0
  | env _ he ih => exact henv _ _ (ih hstep) he
  | @step _ m i o h hn he ih =>
    have hm := ih fun e he => hstep e (List.mem_append_left _ he)
    exact hstep ⟨m, i, o⟩ (by simp) hm hn he

/-- The same for what only speaks of the state. -/
theorem state_inv {I : σ → Prop} (h : Run M E c tr c') (h0 : I c.state)
    (henv : ∀ s s', I s → E s s' → I s')
    (hstep : ∀ e ∈ tr, I e.pre.state → M.enabled e.call e.pre.state → I (M.handle e.call e.pre.state).2) :
    I c'.state := by
  refine h.inv (I := fun m => I m.state) h0 (fun m s' hm he => henv _ _ hm he) fun e he hI hn hen => ?_
  rw [Config.advance_state hn]
  exact hstep e he hI hen

/-- An invariant that may also speak of the calls made so far. -/
theorem trace_inv {I : List (Event σ ι Call Res α) → Config σ ι Call Res α → Prop} (h : Run M E c tr c')
    (h0 : I [] c) (henv : ∀ tr₁ m s', Run M E c tr₁ m → I tr₁ m → E m.state s' → I tr₁ ⟨s', m.threads⟩)
    (hstep : ∀ tr₁ m i o, Run M E c tr₁ m → (m.threads i).next = some o → M.enabled o m.state → I tr₁ m →
      I (tr₁ ++ [⟨m, i, o⟩]) (m.advance M i)) : I tr c' := by
  induction h with
  | refl => exact h0
  | env h he ih => exact henv _ _ _ h ih he
  | step h hn he ih => exact hstep _ _ _ _ h hn he ih

/-- What is so at the end of a run was so at its start, or one of its calls has brought it about. -/
theorem since {K : σ → Prop} {P : Event σ ι Call Res α → Prop} (h : Run M E c tr c')
    (henv : ∀ s s', E s s' → K s' → K s)
    (hstep : ∀ tr₁ m i o, Run M E c tr₁ m → (m.threads i).next = some o → M.enabled o m.state →
      K (M.handle o m.state).2 → K m.state ∨ P ⟨m, i, o⟩) (hK : K c'.state) :
    K c.state ∨ ∃ e ∈ tr, P e := by
  refine h.trace_inv (I := fun tr m => K m.state → K c.state ∨ ∃ e ∈ tr, P e) .inl
    (fun _ _ _ _ hm he hK => hm (henv _ _ he hK)) (fun tr m i o hrun hn hen hm hK => ?_) hK
  rw [Config.advance_state hn] at hK
  rcases hstep _ _ _ _ hrun hn hen hK with hbefore | hnow
  · obtain hstart | ⟨e, he, hP⟩ := hm hbefore
    · exact .inl hstart
    · exact .inr ⟨e, List.mem_append_left _ he, hP⟩
  · exact .inr ⟨_, List.mem_append_right _ (List.mem_singleton_self _), hnow⟩

/-- A run at one of its events: it leads to the event's configuration, makes the call and goes on. -/
theorem at_event (h : Run M E c (tr ++ e :: tr') c') :
    Run M E c tr e.pre ∧ (e.pre.threads e.thread).next = some e.call ∧ M.enabled e.call e.pre.state ∧
      Run M E (e.pre.advance M e.thread) tr' c' := by
  generalize hT : tr ++ e :: tr' = T at h
  induction h generalizing tr' with
  | refl => simp at hT
  | env _ he ih =>
    obtain ⟨h1, hn, hen, h2⟩ := ih hT
    exact ⟨h1, hn, hen, h2.env he⟩
  | @step T' m i o h hn he ih =>
    rcases List.eq_nil_or_concat tr' with rfl | ⟨tr'', e', rfl⟩
    · obtain ⟨rfl, he'⟩ := List.append_inj' hT rfl
      rw [List.singleton_inj.1 he']
      exact ⟨h, hn, he, .refl⟩
    · rw [List.concat_eq_append, ← List.cons_append, ← List.append_assoc] at hT
      obtain ⟨hT, he'⟩ := List.append_inj' hT rfl
      obtain ⟨h1, hn', hen, h2⟩ := ih hT
      rw [List.concat_eq_append, List.singleton_inj.1 he']
      exact ⟨h1, hn', hen, h2.step hn he⟩

/-- A thread without events has not moved. -/
theorem threads_eq (h : Run M E c tr c') (hi : ∀ e ∈ tr, e.thread ≠ i) : c'.threads i = c.threads i :=
  h.inv (I := fun m => m.threads i = c.threads i) rfl (fun _ _ h _ => h) fun e he hI _ _ => by
    rw [Config.advance_threads_ne (hi e he).symm, hI]

/-- A thread that has returned makes no more calls. -/
theorem threads_ret {a : α} (h : Run M E c tr c') (hi : c.threads i = .ret a) :
    c'.threads i = .ret a ∧ ∀ e ∈ tr, e.thread ≠ i := by
  induction h with
  | refl => exact ⟨hi, by simp⟩
  | env _ _ ih => exact ih
  | @step tr m j o _ hn _ ih =>
    have hj : j ≠ i := by
      rintro rfl
      rw [ih.1] at hn; cases hn
    refine ⟨by rw [Config.advance_threads_ne hj.symm, ih.1], fun e he => ?_⟩
    rcases List.mem_append.1 he with he | he
    · exact ih.2 e he
    · rw [List.mem_singleton.1 he]; exact hj

/-- What a program keeps as it goes on, a thread keeps in a run. -/
theorem thread_inv {P : Prog Call Res α → Prop} (h : Run M E c tr c') (h0 : P (c.threads i))
    (hP : ∀ o k r, P (.call o k) → P (k r)) : P (c'.threads i) := by
  refine h.inv (I := fun m => P (m.threads i)) h0 (fun _ _ hm _ => hm) fun e he hI hn _ => ?_
  by_cases hi : e.thread = i
  · subst hi
    obtain ⟨k, hk⟩ := Prog.eq_call_of_next hn
    rw [hk] at hI
    rw [Config.advance_threads_self hk]
    exact hP _ _ _ hI
  · rw [Config.advance_threads_ne (Ne.symm hi)]
    exact hI

/-- The calls a thread makes in a run are among those its program can make. -/
theorem calls {P : Call → Prop} (h : Run M E c tr c') (hi : (c.threads i).Calls P) :
    (c'.threads i).Calls P ∧ ∀ e ∈ tr, e.thread = i → P e.call := by
  refine ⟨h.thread_inv hi fun _ _ _ hc => hc.2 _, fun e he hei => ?_⟩
  obtain ⟨tr₁, tr₂, rfl⟩ := List.append_of_mem he
  obtain ⟨h1, hn, -, -⟩ := h.at_event
  obtain ⟨k, hk⟩ := Prog.eq_call_of_next hn
  have hcalls := h1.thread_inv hi fun _ _ _ hc => hc.2 _
  rw [← hei, hk] at hcalls
  exact hcalls.1

/-- The step by which a thread comes to what it was not before. -/
theorem leaves {P : Prog Call Res α → Prop} (h : Run M E c tr c') (h0 : P (c.threads i))
    (h1 : ¬ P (c'.threads i)) :
    ∃ tr₁ e tr₂, tr = tr₁ ++ e :: tr₂ ∧ e.thread = i ∧ P (e.pre.threads i) ∧
      ¬ P ((e.pre.advance M i).threads i) := by
  by_contra hno
  refine h1 (h.inv (I := fun m => P (m.threads i)) h0 (fun _ _ hm _ => hm) fun e he hI _ _ => ?_)
  by_cases hi : e.thread = i
  · by_contra hstep
    obtain ⟨tr₁, tr₂, rfl⟩ := List.append_of_mem he
    exact hno ⟨tr₁, e, tr₂, rfl, hi, hI, by rw [← hi]; rwa [hi] at hstep ⊢⟩
  · rw [Config.advance_threads_ne (Ne.symm hi)]
    exact hI

/-- The first event of a thread that has moved. -/
theorem first_event (h : Run M E c tr c') (hi : c'.threads i ≠ c.threads i) :
    ∃ tr₁ e tr₂, tr = tr₁ ++ e :: tr₂ ∧ e.thread = i ∧ ∀ e' ∈ tr₁, e'.thread ≠ i := by
  have hex : ∃ e ∈ tr, e.thread = i := by
    by_contra hno
    exact hi (h.threads_eq fun e he hei => hno ⟨e, he, hei⟩)
  obtain ⟨e₀, he₀, hi₀⟩ := hex
  obtain ⟨e, tr₁, tr₂, h1, h2, h3, -⟩ :=
    @List.exists_of_eraseP _ (fun e => decide (e.thread = i)) _ _ he₀ (by simpa using hi₀)
  exact ⟨tr₁, e, tr₂, h3, by simpa using h2, fun e' he' => by simpa using h1 e' he'⟩

end Run

/-! ### Schedules -/

/-- Let the threads of a schedule move in its order, skipping one that has returned or may not call now. -/
def schedule [∀ o s, Decidable (M.enabled o s)] (c : Config σ ι Call Res α) :
    List ι → List (Event σ ι Call Res α) × Config σ ι Call Res α
  | [] => ([], c)
  | i :: is =>
    match (c.threads i).next with
    | none => schedule c is
    | some o =>
      if M.enabled o c.state then
        let r := schedule (c.advance M i) is
        (⟨c, i, o⟩ :: r.1, r.2)
      else schedule c is

theorem run_schedule [∀ o s, Decidable (M.enabled o s)] (c : Config σ ι Call Res α) (is : List ι) :
    Run M E c (schedule M c is).1 (schedule M c is).2 := by
  induction is generalizing c with
  | nil => exact .refl
  | cons i is ih =>
    unfold schedule
    split
    · exact ih c
    · rename_i o hn
      split
      · rename_i he
        exact (Run.refl.step hn he).trans (ih _)
      · exact ih c

theorem thread_of_schedule [∀ o s, Decidable (M.enabled o s)] {c : Config σ ι Call Res α} {is : List ι}
    {e : Event σ ι Call Res α} (he : e ∈ (schedule M c is).1) : e.thread ∈ is := by
  induction is generalizing c with
  | nil => cases he
  | cons i is ih =>
    unfold schedule at he
    split at he
    · exact List.mem_cons_of_mem i (ih he)
    · split at he
      · rcases List.mem_cons.1 he with rfl | he
        · exact List.mem_cons_self ..
        · exact List.mem_cons_of_mem i (ih he)
      · exact List.mem_cons_of_mem i (ih he)

end
