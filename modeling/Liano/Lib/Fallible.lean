import Mathlib.Init

/-! Computations over a state that return a value or stop with an error. The state reached is kept in both
cases, as a device keeps what has been written to it. -/
namespace Liano.Lib

universe u

/-- A computation over states `σ` with errors `ε`. -/
abbrev Fallible (ε σ : Type u) (α : Type u) := ExceptT ε (StateM σ) α

namespace Fallible

variable {ε σ α β : Type u}

/-- The result and the state reached from `s`. -/
def exec (x : Fallible ε σ α) (s : σ) : Except ε α × σ := x.run.run s

def ignoring (x : Fallible ε σ α) : Fallible ε σ PUnit := ExceptT.mk fun s => (.ok ⟨⟩, (exec x s).2)

def lift (f : σ → α × σ) : Fallible ε σ α := ExceptT.mk fun s => (.ok (f s).1, (f s).2)

theorem exec_mk (f : σ → Except ε α × σ) (s : σ) : exec (ExceptT.mk f : Fallible ε σ α) s = f s := rfl

@[simp] theorem exec_pure (a : α) (s : σ) : exec (pure a : Fallible ε σ α) s = (.ok a, s) := rfl

@[simp] theorem exec_throw (e : ε) (s : σ) : exec (throw e : Fallible ε σ α) s = (.error e, s) := rfl

@[simp] theorem exec_ignoring (x : Fallible ε σ α) (s : σ) :
    exec (ignoring x) s = (.ok ⟨⟩, (exec x s).2) := rfl

@[simp] theorem exec_lift (f : σ → α × σ) (s : σ) :
    exec (lift f : Fallible ε σ α) s = (.ok (f s).1, (f s).2) := rfl

theorem exec_bind (x : Fallible ε σ α) (f : α → Fallible ε σ β) (s : σ) : exec (x >>= f) s =
      match exec x s with
      | (.ok a, s') => exec (f a) s'
      | (.error e, s') => (.error e, s') := by
  simp only [exec, ExceptT.run_bind, StateT.run_bind]
  cases hx : StateT.run (ExceptT.run x) s with
  | mk r s' => cases r <;> rfl

variable {x : Fallible ε σ α} {f : α → Fallible ε σ β}

theorem exec_bind_of_ok {s s' : σ} {a : α}
    (h : exec x s = (.ok a, s')) : exec (x >>= f) s = exec (f a) s' := by rw [exec_bind, h]

theorem exec_bind_ok {s s' : σ} {b : β} :
    exec (x >>= f) s = (.ok b, s') ↔ ∃ a t, exec x s = (.ok a, t) ∧ exec (f a) t = (.ok b, s') := by
  rw [exec_bind]
  constructor
  · intro h
    split at h
    · rename_i a t hx
      exact ⟨a, t, hx, h⟩
    · cases congrArg Prod.fst h
  · rintro ⟨a,t,hx,hf⟩
    rw [hx]
    exact hf

/-- `P` relates the state at the start to the state at the end of every run, whatever its result. -/
def Ends (x : Fallible ε σ α) (P : σ → σ → Prop) : Prop := ∀ s, P s (exec x s).2

theorem Ends.of_exec {P : σ → σ → Prop} {s s' : σ} {r : Except ε α} (h : Ends x P)
    (hs : exec x s = (r,s')) : P s s' := by
  have hP := h s
  rw [hs] at hP
  exact hP

theorem Ends.bind {P : σ → σ → Prop}
    (htrans : ∀ {a b c}, P a b → P b c → P a c) (hx : Ends x P) (hf : ∀ a, Ends (f a) P) :
    Ends (x >>= f) P := by
  intro s
  have h1 := hx s
  rw [exec_bind]
  cases hr : exec x s with
  | mk r t =>
    rw [hr] at h1
    cases r with
    | ok a => exact htrans h1 (hf a t)
    | error e => exact h1

end Fallible
end Liano.Lib
