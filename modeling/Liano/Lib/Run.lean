import Mathlib.Init

/-! Runs of a partial step function: the states reached by steps that meet a condition,
and the rule that carries an invariant along them. -/
namespace Liano.Run

variable {σ α : Type*}

/-- States reached from `s₀` by steps that are enabled and meet `P`. -/
inductive Reaches (step : σ → α → Option σ) (P : σ → α → Prop) (s₀ : σ) : σ → Prop
  | start : Reaches step P s₀ s₀
  | next {s s' : σ} {a : α} : Reaches step P s₀ s → P s a → step s a = some s' → Reaches step P s₀ s'

def run (step : σ → α → Option σ) : σ → List α → Option σ
  | s, [] => some s
  | s, a :: as => (step s a).bind fun s' => run step s' as

variable {step : σ → α → Option σ} {P : σ → α → Prop} {s₀ s : σ}

/-- What holds at the start and is kept by every step that meets `P` holds in every state reached. -/
theorem Reaches.invariant {I : σ → Prop} (h : Reaches step P s₀ s) (h0 : I s₀)
    (hstep : ∀ s a s', I s → P s a → step s a = some s' → I s') : I s := by
  induction h with
  | start => exact h0
  | next _ hp hs ih => exact hstep _ _ _ ih hp hs

theorem Reaches.trans {s₁ s₂ : σ} (h₁ : Reaches step P s₀ s₁) (h₂ : Reaches step P s₁ s₂) :
    Reaches step P s₀ s₂ := by
  induction h₂ with
  | start => exact h₁
  | next _ hp hs ih => exact ih.next hp hs

/-- Every action of a run meets `P` in the state it is taken in. -/
def Along (step : σ → α → Option σ) (P : σ → α → Prop) : σ → List α → Prop
  | _, [] => True
  | s, a :: as => P s a ∧ (step s a).elim True fun s' => Along step P s' as

instance [∀ s a, Decidable (P s a)] : (s : σ) → (as : List α) → Decidable (Along step P s as)
  | _, [] => .isTrue trivial
  | s, a :: as =>
    match h : step s a with
    | none => decidable_of_iff (P s a) (by simp [Along, h])
    | some s' =>
      have := instDecidableAlong s' as
      decidable_of_iff (P s a ∧ Along step P s' as) (by simp [Along, h])

theorem reaches_of_run_along {as : List α} (h : run step s₀ as = some s)
    (hP : Along step P s₀ as) : Reaches step P s₀ s := by
  induction as generalizing s₀ with
  | nil =>
    cases h
    exact .start
  | cons a as ih =>
    simp only [run, Option.bind_eq_some_iff] at h
    obtain ⟨s₁,h1,h2⟩ := h
    simp only [Along, h1, Option.elim_some] at hP
    exact Reaches.trans (.next .start hP.1 h1) (ih h2 hP.2)

theorem along_of_forall {as : List α} (h : ∀ a ∈ as, ∀ s, P s a) (s₀ : σ) : Along step P s₀ as := by
  induction as generalizing s₀ with
  | nil => trivial
  | cons a as ih =>
    refine ⟨h a List.mem_cons_self s₀, ?_⟩
    cases step s₀ a with
    | none => trivial
    | some s' => exact ih (fun b hb => h b (List.mem_cons_of_mem a hb)) s'

theorem along_true (s₀ : σ) (as : List α) : Along step (fun _ _ => True) s₀ as :=
  along_of_forall (fun _ _ _ => trivial) s₀

theorem reaches_of_run {as : List α} (h : run step s₀ as = some s) :
    Reaches step (fun _ _ => True) s₀ s := reaches_of_run_along h (along_true s₀ as)

/-- How many actions of a run meet `C` in the state they are taken in. -/
def count (step : σ → α → Option σ) (C : σ → α → Prop) [∀ s a, Decidable (C s a)] : σ → List α → Nat
  | _, [] => 0
  | s, a :: as => (if C s a then 1 else 0) + (step s a).elim 0 fun s' => count step C s' as

/-- A rank that no step raises and every step that counts lowers bounds how many of them are taken before the
goal. -/
theorem goal_of_count {C : σ → α → Prop} [∀ s a, Decidable (C s a)] {I G : σ → Prop} {rank : σ → Nat}
    (hgoal : ∀ s a s', G s → step s a = some s' → G s')
    (hstep : ∀ s a s', I s → P s a → step s a = some s' →
      G s' ∨ I s' ∧ rank s' ≤ rank s ∧ (C s a → rank s' < rank s))
    {as : List α} (h0 : I s₀) (h : run step s₀ as = some s) (hP : Along step P s₀ as)
    (hcount : rank s₀ < count step C s₀ as) : G s := by
  induction as generalizing s₀ with
  | nil => exact absurd hcount (Nat.not_lt_zero _)
  | cons a as ih =>
    simp only [run, Option.bind_eq_some_iff] at h
    obtain ⟨s₁,h1,h2⟩ := h
    simp only [Along, h1, Option.elim_some] at hP
    simp only [count, h1, Option.elim_some] at hcount
    obtain hG | ⟨hI,hle,hlt⟩ := hstep s₀ a s₁ h0 hP.1 h1
    · exact (reaches_of_run h2).invariant hG fun s a s' hs _ hs' => hgoal s a s' hs hs'
    · refine ih hI h2 hP.2 ?_
      split at hcount
      · rename_i hC
        have := hlt hC
        omega
      · omega

end Liano.Run
