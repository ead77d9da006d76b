import Mathlib.Logic.Basic

/-!
# Runs of calls and forward simulation

A component with a call interface is a function `step : σ → γ → ρ × σ`:
a call returns a result and leaves the next state.  `runCalls step s cs`
makes the calls `cs` from `s` in order and collects their results.

`runCalls_sim` is forward simulation between two such components over the
same calls and results: a relation between their states that every call
keeps, from related states returning the same result, makes every run from
related states return the same results and end in related states.  The
concrete component then cannot be told apart from the abstract one by what
its calls return.  Nothing here is specific to one program.
-/

namespace Simulation

universe u v w x

variable {σ : Type u} {τ : Type v} {γ : Type w} {ρ : Type x}

/-- The results of the calls `cs` made in order from `s`, and the state
after them. -/
def runCalls (step : σ → γ → ρ × σ) (s : σ) : List γ → List ρ × σ
  | [] => ([], s)
  | c :: cs => ((step s c).1 :: (runCalls step (step s c).2 cs).1, (runCalls step (step s c).2 cs).2)

@[simp] theorem runCalls_nil (step : σ → γ → ρ × σ) (s : σ) : runCalls step s [] = ([], s) := rfl

@[simp] theorem runCalls_cons (step : σ → γ → ρ × σ) (s : σ) (c : γ) (cs : List γ) :
    runCalls step s (c :: cs) =
      ((step s c).1 :: (runCalls step (step s c).2 cs).1, (runCalls step (step s c).2 cs).2) :=
  rfl

/-- Forward simulation: a relation kept by every call, with equal results
from related states, is kept by every run, which returns equal results. -/
theorem runCalls_sim {step₁ : σ → γ → ρ × σ} {step₂ : τ → γ → ρ × τ} (R : σ → τ → Prop)
    (hstep : ∀ s t c, R s t → (step₁ s c).1 = (step₂ t c).1 ∧ R (step₁ s c).2 (step₂ t c).2)
    {s : σ} {t : τ} (h : R s t) (cs : List γ) :
    (runCalls step₁ s cs).1 = (runCalls step₂ t cs).1 ∧
      R (runCalls step₁ s cs).2 (runCalls step₂ t cs).2 := by
  -- induction on the calls, the related pair moving along
  induction cs generalizing s t with
  | nil => exact ⟨rfl, h⟩
  | cons c cs ih =>
      obtain ⟨hr, hR⟩ := hstep s t c h
      obtain ⟨hrs, hend⟩ := ih hR
      refine ⟨?_, hend⟩
      simp only [runCalls_cons, hr, hrs]

end Simulation
