import System14.Lib.Run

/-!
# Traces and simulation

A trace lists the labels of the steps that lead from one state to another. If a
relation between the states of two systems is kept by matching steps, every
trace of the concrete system is one of the abstract system, and what the
abstract one says of a trace can be read off the concrete states at its end.
-/

namespace Simulation
open Run

variable {σ τ ε α : Type} {step : σ → ε → σ → Prop} {guard : σ → ε → Prop} {s t u : σ} {es es' : List ε} {e : ε}

/-- The labels `es` lead from `s` to the state, each step meeting `guard` in the state it leaves. -/
inductive Trace (step : σ → ε → σ → Prop) (guard : σ → ε → Prop) (s : σ) : List ε → σ → Prop where
  | nil : Trace step guard s [] s
  | snoc {es : List ε} {t u : σ} {e : ε} :
    Trace step guard s es t → guard t e → step t e u → Trace step guard s (es ++ [e]) u

theorem Trace.single (allowed : guard s e) (taken : step s e t) : Trace step guard s [e] t := Trace.nil.snoc allowed taken

theorem Trace.append (first : Trace step guard s es t) (rest : Trace step guard t es' u) :
    Trace step guard s (es ++ es') u := by
  induction rest with
  | nil =>
    rw [List.append_nil]
    exact first
  | snoc _ allowed taken ih =>
    rw [← List.append_assoc]
    exact ih.snoc allowed taken

/-- What each step keeps, a trace keeps. -/
theorem Trace.invariant {I : σ → Prop} (trace : Trace step guard s es t) (start : I s)
    (keep : ∀ s e t, I s → guard s e → step s e t → I t) : I t := by
  induction trace with
  | nil => exact start
  | snoc _ allowed taken ih => exact keep _ _ _ ih allowed taken

/-- `R` relates the states of two systems, and each step on the left has a step
with its label on the right that keeps the states related. -/
def Simulates (R : σ → τ → Prop) (step : σ → ε → σ → Prop) (guard : σ → ε → Prop) (abstract : τ → ε → τ → Prop) : Prop :=
  ∀ s a e t, R s a → guard s e → step s e t → ∃ b, abstract a e b ∧ R t b

/-- The traces of a simulated system are traces of the other one. -/
theorem Simulates.trace {R : σ → τ → Prop} {abstract : τ → ε → τ → Prop} {a : τ}
    (simulates : Simulates R step guard abstract) (related : R s a) (trace : Trace step guard s es t) :
    ∃ b, Trace abstract anyStep a es b ∧ R t b := by
  induction trace with
  | nil => exact ⟨a, .nil, related⟩
  | snoc _ allowed taken ih =>
    obtain ⟨b, before, related⟩ := ih
    obtain ⟨c, taken', after⟩ := simulates _ _ _ _ related allowed taken
    exact ⟨c, before.snoc trivial taken', after⟩

end Simulation
