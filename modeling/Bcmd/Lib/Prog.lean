import Mathlib.Logic.Function.Basic
import Mathlib.Tactic.Common

/-!
# Programs over an interface of atomic calls

`Prog Call Res α` is a program that makes calls one after the other and continues with the response
of each, until it returns an `α`. A `Machine` says what one call does to a state, in one atomic
step. `Machine.exec` runs a program alone from start to end; `Pool.lean` interleaves several.
-/

/-- A program over the calls `Call`, the response to `c` being a `Res c`. -/
inductive Prog (Call : Type) (Res : Call → Type) (α : Type) where
  | ret (a : α)
  | call (c : Call) (k : Res c → Prog Call Res α)

namespace Prog
variable {Call : Type} {Res : Call → Type} {α β γ : Type}

protected def bind : Prog Call Res α → (α → Prog Call Res β) → Prog Call Res β
  | ret a, f => f a
  | call c k, f => call c fun r => (k r).bind f

instance : Monad (Prog Call Res) where
  pure := ret
  bind := Prog.bind

/-- The program that makes one call and returns its response. -/
def perform (c : Call) : Prog Call Res (Res c) := call c ret

/-- The call a program makes next, if it has not returned. -/
def next : Prog Call Res α → Option Call
  | ret _ => none
  | call c _ => some c

/-- The result of a program that has returned. -/
def result : Prog Call Res α → Option α
  | ret a => some a
  | call _ _ => none

@[simp] theorem pure_eq (a : α) : (pure a : Prog Call Res α) = ret a := rfl

@[simp] theorem ret_bind (a : α) (f : α → Prog Call Res β) : (ret a : Prog Call Res α) >>= f = f a := rfl

@[simp] theorem call_bind (c : Call) (k : Res c → Prog Call Res α) (f : α → Prog Call Res β) :
    call c k >>= f = call c fun r => k r >>= f := rfl

@[simp] theorem perform_bind (c : Call) (f : Res c → Prog Call Res β) :
    (perform c : Prog Call Res (Res c)) >>= f = call c f := rfl

theorem bind_assoc (p : Prog Call Res α) (f : α → Prog Call Res β) (g : β → Prog Call Res γ) :
    p >>= f >>= g = p >>= fun a => f a >>= g := by
  induction p with
  | ret a => rfl
  | call c k ih => simp only [call_bind, ih]

theorem bind_ret (p : Prog Call Res α) : p >>= ret = p := by
  induction p with
  | ret a => rfl
  | call c k ih => simp only [call_bind, ih]

instance : LawfulMonad (Prog Call Res) :=
  LawfulMonad.mk' _ bind_ret ret_bind bind_assoc

@[simp] theorem next_ret (a : α) : (ret a : Prog Call Res α).next = none := rfl

@[simp] theorem next_call (c : Call) (k : Res c → Prog Call Res α) : (call c k).next = some c := rfl

theorem result_eq_some {p : Prog Call Res α} {a : α} : p.result = some a ↔ p = ret a := by
  cases p <;> simp [result]

theorem eq_call_of_next {p : Prog Call Res α} {c : Call} (h : p.next = some c) : ∃ k, p = call c k := by
  cases p with
  | ret a => cases h
  | call c' k => cases h; exact ⟨k, rfl⟩

/-- Every call the program can make, whatever the responses, satisfies `P`. -/
def Calls (P : Call → Prop) : Prog Call Res α → Prop
  | ret _ => True
  | call c k => P c ∧ ∀ r, (k r).Calls P

namespace Calls
variable {P P' : Call → Prop}

theorem bind {p : Prog Call Res α} {f : α → Prog Call Res β} (hp : p.Calls P) (hf : ∀ a, (f a).Calls P) :
    (p >>= f).Calls P := by
  induction p with
  | ret a => exact hf a
  | call c k ih => exact ⟨hp.1, fun r => ih r (hp.2 r)⟩

theorem perform {c : Call} (h : P c) : (Prog.perform c : Prog Call Res (Res c)).Calls P :=
  ⟨h, fun _ => trivial⟩

theorem mono {p : Prog Call Res α} (hp : p.Calls P) (h : ∀ c, P c → P' c) : p.Calls P' := by
  induction p with
  | ret a => trivial
  | call c k ih => exact ⟨h c hp.1, fun r => ih r (hp.2 r)⟩

theorem and {p : Prog Call Res α} (hp : p.Calls P) (hp' : p.Calls P') : p.Calls fun c => P c ∧ P' c := by
  induction p with
  | ret a => trivial
  | call c k ih => exact ⟨⟨hp.1, hp'.1⟩, fun r => ih r (hp.2 r) (hp'.2 r)⟩

end Calls

end Prog

/-- What each call does to a state, atomically, and in which states it may be made at all. -/
structure Machine (σ Call : Type) (Res : Call → Type) where
  handle : (c : Call) → σ → Res c × σ
  enabled : Call → σ → Prop := fun _ _ => True

namespace Machine
variable {σ Call : Type} {Res : Call → Type} {α β : Type} (M : Machine σ Call Res)
open Prog

/-- Run a program alone, from start to end. -/
def exec : Prog Call Res α → σ → α × σ
  | ret a, s => (a, s)
  | call c k, s => exec (k (M.handle c s).1) (M.handle c s).2

@[simp] theorem exec_ret (a : α) (s : σ) : M.exec (ret a) s = (a, s) := rfl

@[simp] theorem exec_call (c : Call) (k : Res c → Prog Call Res α) (s : σ) :
    M.exec (call c k) s = M.exec (k (M.handle c s).1) (M.handle c s).2 := rfl

@[simp] theorem exec_perform (c : Call) (s : σ) : M.exec (perform c) s = M.handle c s := rfl

@[simp] theorem exec_bind (p : Prog Call Res α) (f : α → Prog Call Res β) (s : σ) :
    M.exec (p >>= f) s = M.exec (f (M.exec p s).1) (M.exec p s).2 := by
  induction p generalizing s with
  | ret a => rfl
  | call c k ih => exact ih _ _

/-- The calls a program makes when it runs alone, in order. -/
def trace : Prog Call Res α → σ → List Call
  | ret _, _ => []
  | call c k, s => c :: trace (k (M.handle c s).1) (M.handle c s).2

@[simp] theorem trace_ret (a : α) (s : σ) : M.trace (ret a : Prog Call Res α) s = [] := rfl

@[simp] theorem trace_call (c : Call) (k : Res c → Prog Call Res α) (s : σ) :
    M.trace (call c k) s = c :: M.trace (k (M.handle c s).1) (M.handle c s).2 := rfl

@[simp] theorem trace_perform (c : Call) (s : σ) : M.trace (perform c) s = [c] := rfl

@[simp] theorem trace_bind (p : Prog Call Res α) (f : α → Prog Call Res β) (s : σ) :
    M.trace (p >>= f) s = M.trace p s ++ M.trace (f (M.exec p s).1) (M.exec p s).2 := by
  induction p generalizing s with
  | ret a => rfl
  | call c k ih => simp only [call_bind, trace_call, exec_call, ih, List.cons_append]

/-- What every call keeps, a program run alone keeps. -/
theorem exec_preserves {P : Call → Prop} {I : σ → Prop} (h : ∀ c s, P c → I s → I (M.handle c s).2)
    {p : Prog Call Res α} (hp : p.Calls P) {s : σ} (hs : I s) : I (M.exec p s).2 := by
  induction p generalizing s with
  | ret a => exact hs
  | call c k ih => exact ih _ (hp.2 _) (h c s hp.1 hs)

end Machine
