import Mathlib.Algebra.Group.Nat.Defs
import Mathlib.Tactic.Common

/-!
# Runs and outcomes

`Reach init step guard s` holds of the states that finitely many steps lead to
from an initial state, where every step taken meets `guard` in the state it
leaves. An invariant of one guarded step is an invariant of every such state.

Code that can stop early returns an `Except`; `bind_ok` takes such a
computation apart. `Yields bad x Q` says that `x` never stops with an error in
`bad` and that a value it returns meets `Q`.
-/

namespace Run

variable {σ ε : Type} {init : σ → Prop} {step : σ → ε → σ → Prop} {guard : σ → ε → Prop}

/-- The states reached from `init` by steps that all meet `guard`. -/
inductive Reach (init : σ → Prop) (step : σ → ε → σ → Prop) (guard : σ → ε → Prop) : σ → Prop where
  | init {s : σ} : init s → Reach init step guard s
  | step {s t : σ} {e : ε} : Reach init step guard s → guard s e → step s e t → Reach init step guard t

def anyStep (_ : σ) (_ : ε) : Prop := True

/-- What holds initially and survives each guarded step holds in every state reached. -/
theorem Reach.invariant {I : σ → Prop} {s : σ} (reached : Reach init step guard s)
    (base : ∀ s, init s → I s)
    (keep : ∀ s e t, I s → guard s e → step s e t → I t) : I s := by
  induction reached with
  | init start => exact base _ start
  | step _ allowed taken ih => exact keep _ _ _ ih allowed taken

section Outcomes

variable {ι α β : Type}

theorem bind_ok {x : Except ι α} {f : α → Except ι β} {r : β} :
    (x >>= f) = .ok r ↔ ∃ a, x = .ok a ∧ f a = .ok r := by
  cases x with
  | error e => exact ⟨fun h => (nomatch h), fun ⟨_, h, _⟩ => (nomatch h)⟩
  | ok a => exact ⟨fun h => ⟨a, rfl, h⟩, fun ⟨_, h, k⟩ => by cases h; exact k⟩

@[simp] theorem ok_bind (a : α) (f : α → Except ι β) : ((Except.ok a : Except ι α) >>= f) = f a := rfl

@[simp] theorem pure_eq_ok (a : α) : (pure a : Except ι α) = .ok a := rfl

/-- `x` returns only values in `Q` and stops only with errors outside `bad`. -/
def Yields (bad : ι → Prop) (x : Except ι α) (Q : α → Prop) : Prop :=
  match x with
  | .ok a => Q a
  | .error e => ¬ bad e

variable {bad : ι → Prop} {x : Except ι α} {Q Q' : α → Prop} {f : α → Except ι β} {R : β → Prop}

/-- A computation on fuel returns `r` once it has enough of it. -/
def Returns (f : Nat → Except ι α) (r : α) : Prop := ∃ bound, ∀ fuel ≥ bound, f fuel = .ok r

theorem Returns.unique {g : Nat → Except ι α} {a b : α} (returned : Returns g a) (returned' : Returns g b) : a = b := by
  obtain ⟨bound, call⟩ := returned
  obtain ⟨bound', call'⟩ := returned'
  have same := (call (max bound bound') (Nat.le_max_left _ _)).symm.trans (call' (max bound bound') (Nat.le_max_right _ _))
  cases same
  rfl

theorem Returns.yields {g : Nat → Except ι α} {a : α} (returned : Returns g a) {bound : Nat}
    (h : ∀ fuel ≥ bound, Yields bad (g fuel) Q) : Q a := by
  obtain ⟨enough, call⟩ := returned
  have value := h (max bound enough) (Nat.le_max_left _ _)
  rw [call (max bound enough) (Nat.le_max_right _ _)] at value
  exact value

theorem Returns.bind {g : Nat → Except ι α} {k : Nat → α → Except ι β} {a : α} {b : β} (first : Returns g a)
    (rest : Returns (k · a) b) : Returns (fun fuel => g fuel >>= k fuel) b := by
  obtain ⟨bound, call⟩ := first
  obtain ⟨bound', call'⟩ := rest
  refine ⟨max bound bound', fun fuel enough => ?_⟩
  show (g fuel >>= k fuel) = .ok b
  rw [call fuel (Nat.le_trans (Nat.le_max_left _ _) enough)]
  exact call' fuel (Nat.le_trans (Nat.le_max_right _ _) enough)

theorem Returns.now {a : α} : Returns (fun _ => (.ok a : Except ι α)) a := ⟨0, fun _ _ => rfl⟩

/-- A pass of a loop on fuel. -/
theorem Returns.pass {g g' : Nat → Except ι α} {a : α} (pass : ∀ fuel, g (fuel + 1) = g' fuel) (returned : Returns g' a) :
    Returns g a := by
  obtain ⟨bound, call⟩ := returned
  refine ⟨bound + 1, fun fuel enough => ?_⟩
  obtain ⟨fuel, rfl⟩ : ∃ k, fuel = k + 1 := ⟨fuel - 1, by omega⟩
  rw [pass]
  exact call fuel (Nat.le_of_succ_le_succ enough)

theorem Yields.bind (h : Yields bad x Q) (rest : ∀ a, Q a → Yields bad (f a) R) : Yields bad (x >>= f) R := by
  cases x with
  | error e => exact h
  | ok a => exact rest a h

theorem Yields.mono (h : Yields bad x Q) (weaker : ∀ a, Q a → Q' a) : Yields bad x Q' := by
  cases x with
  | error e => exact h
  | ok a => exact weaker a h

theorem Yields.weaken {bad' : ι → Prop} (h : Yields bad x Q) (less : ∀ e, bad' e → bad e) : Yields bad' x Q := by
  cases x with
  | error e => exact fun h' => h (less e h')
  | ok a => exact h

theorem Yields.and {bad' : ι → Prop} (one : Yields bad x Q) (two : Yields bad' x Q') : Yields bad x fun a => Q a ∧ Q' a := by
  cases x with
  | error e => exact one
  | ok a => exact ⟨one, two⟩

theorem Yields.returns (h : Yields bad x Q) (all : ∀ e, bad e) : ∃ a, x = .ok a ∧ Q a := by
  cases x with
  | error e => exact absurd (all e) h
  | ok a => exact ⟨a, rfl, h⟩

theorem Yields.ok (h : Yields bad x Q) {a : α} (value : x = .ok a) : Q a := by
  subst value
  exact h

theorem Yields.stops (h : Yields bad x Q) {e : ι} (stop : x = .error e) : ¬ bad e := by
  subst stop
  exact h

/-- From `bound` on, what returns on some fuel returns the same on more. -/
def Steady (bound : Nat) (g : Nat → Except ι α) : Prop := ∀ fuel ≥ bound, ∀ a, g fuel = .ok a → Returns g a

theorem Steady.const {bound : Nat} (x : Except ι α) : Steady bound fun _ => x :=
  fun _ _ _ value => ⟨0, fun _ _ => value⟩

theorem Steady.bind {g : Nat → Except ι α} {bound : Nat} (steady : Steady bound g) (f : α → Except ι β) :
    Steady bound fun fuel => g fuel >>= f := by
  intro fuel enough b value
  obtain ⟨a, first, rest⟩ := bind_ok.mp value
  obtain ⟨more, later⟩ := steady fuel enough a first
  exact ⟨more, fun fuel le => bind_ok.mpr ⟨a, later fuel le, rest⟩⟩

/-- Given enough fuel, steady code returns, or stops with an error that is not `bad`. -/
theorem Steady.completes {g : Nat → Except ι α} {bound : Nat} (steady : Steady bound g)
    (h : ∀ fuel ≥ bound, Yields bad (g fuel) Q) :
    (∃ a, Returns g a ∧ Q a) ∨ ∀ fuel ≥ bound, ∃ e, g fuel = .error e ∧ ¬ bad e := by
  by_cases done : ∃ fuel ≥ bound, ∃ a, g fuel = .ok a
  · obtain ⟨fuel, enough, a, value⟩ := done
    have returned := steady fuel enough a value
    exact Or.inl ⟨a, returned, returned.yields h⟩
  · refine Or.inr fun fuel enough => ?_
    cases value : g fuel with
    | error e => exact ⟨e, rfl, (h fuel enough).stops value⟩
    | ok a => exact absurd ⟨fuel, enough, a, value⟩ done

/-- With enough fuel it returns, or it comes to this stop. -/
def ReturnsOr (stop : ι) (g : Nat → Except ι α) : Prop := (∃ a, Returns g a) ∨ ∃ bound, ∀ fuel ≥ bound, g fuel = .error stop

theorem ReturnsOr.bind {stop : ι} {g : Nat → Except ι α} {k : Nat → α → Except ι β} (first : ReturnsOr stop g)
    (rest : ∀ a, Returns g a → ReturnsOr stop (k · a)) : ReturnsOr stop (fun fuel => g fuel >>= k fuel) := by
  rcases first with ⟨a, returned⟩ | ⟨bound, stops⟩
  · rcases rest a returned with ⟨b, returned'⟩ | ⟨bound, stops⟩
    · exact Or.inl ⟨b, returned.bind returned'⟩
    · obtain ⟨bound', call⟩ := returned
      refine Or.inr ⟨max bound bound', fun fuel enough => ?_⟩
      have call := call fuel (Nat.le_trans (Nat.le_max_right _ _) enough)
      dsimp only
      rw [call]
      exact stops fuel (Nat.le_trans (Nat.le_max_left _ _) enough)
  · refine Or.inr ⟨bound, fun fuel enough => ?_⟩
    dsimp only
    rw [stops fuel enough]
    rfl

/-- Where two computations agree on enough fuel, they end alike. -/
theorem ReturnsOr.congr {stop : ι} {g g' : Nat → Except ι α} (bound : Nat) (ends : ReturnsOr stop g)
    (same : ∀ fuel ≥ bound, g' fuel = g fuel) : ReturnsOr stop g' := by
  rcases ends with ⟨a, bound', call⟩ | ⟨bound', stops⟩
  · exact Or.inl ⟨a, max bound bound', fun fuel enough =>
      (same fuel (Nat.le_trans (Nat.le_max_left _ _) enough)).trans (call fuel (Nat.le_trans (Nat.le_max_right _ _) enough))⟩
  · exact Or.inr ⟨max bound bound', fun fuel enough =>
      (same fuel (Nat.le_trans (Nat.le_max_left _ _) enough)).trans (stops fuel (Nat.le_trans (Nat.le_max_right _ _) enough))⟩

end Outcomes

end Run
