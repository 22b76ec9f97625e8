import System14.Lib.Run

/-!
# Traced computations

A traced computation records events on its way and can stop early. `Ends x Q`
says that it does not stop, and that its events and its value meet `Q`;
`Within P x Q` that all its events meet `P`. Both rules for `>>=` are
equivalences, so they compute the exact condition under which a computation
stays within bounds.
-/

/-- A computation that records events in `ε` and stops early with an `ι`. -/
def Traced (ε ι α : Type) : Type := Except ι (List ε × α)

namespace Traced

variable {ε ι α β : Type}

def pure (a : α) : Traced ε ι α := .ok ([], a)

def bind (x : Traced ε ι α) (f : α → Traced ε ι β) : Traced ε ι β :=
  match x with
  | .error e => .error e
  | .ok (before, a) =>
    match f a with
    | .error e => .error e
    | .ok (after, b) => .ok (before ++ after, b)

instance : Monad (Traced ε ι) where
  pure := Traced.pure
  bind := Traced.bind

def emit (e : ε) : Traced ε ι Unit := .ok ([e], ())

def stop (e : ι) : Traced ε ι α := .error e

/-- A computation without events. -/
def lift (x : Except ι α) : Traced ε ι α :=
  match x with
  | .error e => .error e
  | .ok a => .ok ([], a)

/-- The computation that has recorded `log` and returned `a`. -/
def done (log : List ε) (a : α) : Traced ε ι α := .ok (log, a)

theorem done_inj {log log' : List ε} {a a' : α} : (done log a : Traced ε ι α) = done log' a' ↔ log = log' ∧ a = a' :=
  ⟨fun same => (by cases same; exact ⟨rfl, rfl⟩), fun ⟨h, h'⟩ => (by rw [h, h'])⟩

theorem bind_done {x : Traced ε ι α} {f : α → Traced ε ι β} {before after : List ε} {a : α} {b : β}
    (first : x = done before a) (rest : f a = done after b) : x >>= f = done (before ++ after) b := by
  show Traced.bind x f = _
  unfold Traced.bind
  rw [first, done]
  dsimp only
  rw [rest, done]
  rfl

theorem lift_ok {a : α} : (lift (.ok a) : Traced ε ι α) = done [] a := rfl

/-- What has recorded nothing leaves what follows as it is. -/
theorem done_nil_bind {a : α} {f : α → Traced ε ι β} : (done [] a : Traced ε ι α) >>= f = f a := by
  show Traced.bind (done [] a) f = _
  unfold Traced.bind done
  dsimp only
  cases f a <;> rfl

/-- The computation returns, and its events and its value are in `Q`. -/
def Ends (x : Traced ε ι α) (Q : List ε → α → Prop) : Prop := ∃ log a, x = done log a ∧ Q log a

section Ends

variable {Q Q' : List ε → α → Prop} {x : Traced ε ι α} {f : α → Traced ε ι β} {R : List ε → β → Prop}

theorem ends_ok {log : List ε} {a : α} : Ends (Except.ok (log, a) : Traced ε ι α) Q ↔ Q log a :=
  ⟨fun ⟨_, _, ok, h⟩ => (by cases ok; exact h), fun h => ⟨_, _, rfl, h⟩⟩

theorem ends_error {e : ι} : Ends (Except.error e : Traced ε ι α) Q ↔ False :=
  ⟨fun ⟨_, _, ok, _⟩ => (nomatch ok), False.elim⟩

theorem ends_done {log : List ε} {a : α} : Ends (done log a : Traced ε ι α) Q ↔ Q log a := ends_ok

theorem Ends.eq_done {log : List ε} {a : α} (h : Ends x fun log' a' => log' = log ∧ a' = a) : x = done log a := by
  obtain ⟨_, _, ok, rfl, rfl⟩ := h
  exact ok

@[simp] theorem ends_pure {a : α} : Ends (Pure.pure a : Traced ε ι α) Q ↔ Q [] a := ends_ok

@[simp] theorem ends_emit {e : ε} {Q : List ε → Unit → Prop} : Ends (emit e : Traced ε ι Unit) Q ↔ Q [e] () := ends_ok

@[simp] theorem ends_stop {e : ι} : Ends (stop e : Traced ε ι α) Q ↔ False := ends_error

theorem ends_bind : Ends (x >>= f) R ↔ Ends x fun before a => Ends (f a) fun after b => R (before ++ after) b := by
  show Ends (Traced.bind x f) R ↔ _
  unfold Traced.bind
  cases x with
  | error e => rw [ends_error, ends_error]
  | ok r =>
    obtain ⟨before, a⟩ := r
    rw [ends_ok]
    dsimp only
    cases f a with
    | error e => rw [ends_error, ends_error]
    | ok r => rw [ends_ok, ends_ok]

theorem Ends.mono (h : Ends x Q) (weaker : ∀ log a, Q log a → Q' log a) : Ends x Q' := by
  obtain ⟨log, a, ok, h⟩ := h
  exact ⟨log, a, ok, weaker log a h⟩

end Ends

/-- The computation returns a value in `Q`, and records events in `P` only. -/
def Within (P : ε → Prop) (x : Traced ε ι α) (Q : α → Prop) : Prop := Ends x fun log a => (∀ e ∈ log, P e) ∧ Q a

section Within

variable {P : ε → Prop} {Q Q' : α → Prop} {x : Traced ε ι α} {f : α → Traced ε ι β} {R : β → Prop}

@[simp] theorem within_pure {a : α} : Within P (Pure.pure a : Traced ε ι α) Q ↔ Q a :=
  ends_pure.trans ⟨And.right, fun h => ⟨nofun, h⟩⟩

@[simp] theorem within_emit {e : ε} {Q : Unit → Prop} : Within P (emit e : Traced ε ι Unit) Q ↔ P e ∧ Q () := by
  simp [Within]

@[simp] theorem within_stop {e : ι} : Within P (stop e : Traced ε ι α) Q ↔ False := ends_stop

@[simp] theorem within_lift {a : α} : Within P (lift (.ok a) : Traced ε ι α) Q ↔ Q a := within_pure

theorem within_bind : Within P (x >>= f) R ↔ Within P x fun a => Within P (f a) R := by
  unfold Within
  rw [ends_bind]
  cases x with
  | error e => rw [ends_error, ends_error]
  | ok r =>
    obtain ⟨before, a⟩ := r
    rw [ends_ok, ends_ok]
    dsimp only
    cases f a with
    | error e => rw [ends_error, ends_error, and_false]
    | ok r =>
      rw [ends_ok, ends_ok]
      simp only [List.mem_append, or_imp, forall_and, and_assoc]

theorem Within.mono (h : Within P x Q) (weaker : ∀ a, Q a → Q' a) : Within P x Q' :=
  Ends.mono h fun _ a both => ⟨both.1, weaker a both.2⟩

theorem Within.weaken {P' : ε → Prop} (h : Within P x Q) (weaker : ∀ e, P e → P' e) : Within P' x Q :=
  Ends.mono h fun _ _ both => ⟨fun e member => weaker e (both.1 e member), both.2⟩

/-- Only the values that the computation returns matter for what follows. -/
theorem Within.bind_congr {g : α → Traced ε ι β} (h : Within P x fun a => f a = g a) : x >>= f = x >>= g := by
  obtain ⟨log, a, rfl, _, same⟩ := h
  show Traced.bind (done log a) f = Traced.bind (done log a) g
  unfold Traced.bind done
  dsimp only
  rw [same]

theorem Within.value {a b : α} (h : Within P x (· = a)) (h' : Within P x (· = b)) : a = b := by
  obtain ⟨log, _, ok, _, rfl⟩ := h
  obtain ⟨log', _, ok', _, rfl⟩ := h'
  cases ok.symm.trans ok'
  rfl

end Within

end Traced
