import System14.Lib.Run

/-!
# Computations that keep their events

A computation records events and can stop early with an `ι`. What it has
recorded by then stays: a loop that stops in the middle has the events of the
passes before.
-/

def Logged (ε ι α : Type) : Type := List ε × Except ι α

namespace Logged

variable {ε ι α β γ : Type}

/-- The computation that has recorded `log` and returned `a`. -/
def done (log : List ε) (a : α) : Logged ε ι α := (log, .ok a)

def bind (x : Logged ε ι α) (f : α → Logged ε ι β) : Logged ε ι β :=
  match x with
  | (log, .error e) => (log, .error e)
  | (log, .ok a) => (log ++ (f a).1, (f a).2)

instance : Monad (Logged ε ι) where
  pure := done []
  bind := bind

def emit (e : ε) : Logged ε ι Unit := done [e] ()

def stop (e : ι) : Logged ε ι α := ([], .error e)

/-- A computation without events. -/
def lift (x : Except ι α) : Logged ε ι α := ([], x)

def log (x : Logged ε ι α) : List ε := x.1

def result (x : Logged ε ι α) : Except ι α := x.2

/-- One pass for each element, in order. -/
def forEach (f : α → Logged ε ι Unit) : List α → Logged ε ι Unit
  | [] => return ()
  | a :: l => do
    f a
    forEach f l

section Laws

variable {x : Logged ε ι α} {f : α → Logged ε ι β}

theorem eq_done {log : List ε} {a : α} : x = done log a ↔ x.log = log ∧ x.result = .ok a := Prod.ext_iff

theorem bind_pure (x : Logged ε ι Unit) : (x >>= fun _ => Pure.pure ()) = x := by
  obtain ⟨log, e | u⟩ := x
  · rfl
  · show (log ++ [], Except.ok ()) = (log, .ok ())
    rw [List.append_nil]

theorem bind_assoc (x : Logged ε ι α) (f : α → Logged ε ι β) (g : β → Logged ε ι γ) :
    x >>= f >>= g = x >>= fun a => f a >>= g := by
  obtain ⟨log, e | a⟩ := x
  · rfl
  · show bind (log ++ (f a).1, (f a).2) g = (log ++ (bind (f a) g).1, (bind (f a) g).2)
    unfold bind
    cases rest : f a with
    | mk log' r =>
      cases r with
      | error e => rfl
      | ok b => exact Prod.ext (List.append_assoc _ _ _) rfl

theorem log_bind_ok {a : α} (returned : x.result = .ok a) : (x >>= f).log = x.log ++ (f a).log := by
  obtain ⟨log, r⟩ := x
  cases returned
  rfl

theorem log_bind_error {e : ι} (stopped : x.result = .error e) : (x >>= f).log = x.log := by
  obtain ⟨log, r⟩ := x
  cases stopped
  rfl

theorem result_bind_ok {a : α} (returned : x.result = .ok a) : (x >>= f).result = (f a).result := by
  obtain ⟨log, r⟩ := x
  cases returned
  rfl

theorem result_bind : (x >>= f).result = x.result >>= fun a => (f a).result := by
  obtain ⟨log, e | a⟩ := x <;> rfl

end Laws

/-! ### Loops -/

section Loops

variable {f : α → Logged ε ι Unit} {l l' : List α}

theorem forEach_cons (f : α → Logged ε ι Unit) (a : α) (l : List α) :
    forEach f (a :: l) = f a >>= fun _ => forEach f l := rfl

theorem forEach_single (f : α → Logged ε ι Unit) (a : α) : forEach f [a] = f a := bind_pure (f a)

theorem forEach_append (f : α → Logged ε ι Unit) (l l' : List α) :
    forEach f (l ++ l') = forEach f l >>= fun _ => forEach f l' := by
  induction l with
  | nil => rfl
  | cons a l ih => rw [List.cons_append, forEach_cons, ih, forEach_cons, bind_assoc]

/-- Two loops, one inside the other, are one loop over what both go over. -/
theorem forEach_flatMap (f : β → Logged ε ι Unit) (g : α → List β) (l : List α) :
    forEach f (l.flatMap g) = forEach (fun a => forEach f (g a)) l := by
  induction l with
  | nil => rfl
  | cons a l ih => rw [List.flatMap_cons, forEach_append, ih, forEach_cons]

theorem forEach_congr {g : α → Logged ε ι Unit} (same : ∀ a ∈ l, f a = g a) : forEach f l = forEach g l := by
  induction l with
  | nil => rfl
  | cons a l ih =>
    rw [forEach_cons, forEach_cons, same a List.mem_cons_self, ih fun b later => same b (List.mem_cons_of_mem _ later)]

/-- A loop returns just when each of its passes does. -/
theorem forEach_returns : (forEach f l).result = .ok () ↔ ∀ a ∈ l, (f a).result = .ok () := by
  induction l with
  | nil => exact iff_of_true rfl nofun
  | cons a l ih =>
    rw [forEach_cons, List.forall_mem_cons, ← ih, result_bind]
    cases (f a).result with
    | error e => exact iff_of_false nofun fun both => nomatch both.1
    | ok u => exact (and_iff_right rfl).symm

theorem forEach_log (each : ∀ a ∈ l, (f a).result = .ok ()) : (forEach f l).log = l.flatMap fun a => (f a).log := by
  induction l with
  | nil => rfl
  | cons a l ih =>
    rw [forEach_cons, log_bind_ok (each a List.mem_cons_self), ih fun b later => each b (List.mem_cons_of_mem _ later),
      List.flatMap_cons]

theorem mem_forEach_log {e : ε} (member : e ∈ (forEach f l).log) : ∃ a ∈ l, e ∈ (f a).log := by
  induction l with
  | nil => cases member
  | cons a l ih =>
    rw [forEach_cons] at member
    cases first : (f a).result with
    | error stopped =>
      rw [log_bind_error first] at member
      exact ⟨a, List.mem_cons_self, member⟩
    | ok u =>
      rw [log_bind_ok first] at member
      rcases List.mem_append.mp member with here | later
      · exact ⟨a, List.mem_cons_self, here⟩
      · obtain ⟨b, among, recorded⟩ := ih later
        exact ⟨b, List.mem_cons_of_mem _ among, recorded⟩

/-- Where each pass records its element, a loop has gone over all of them just
when no pass but the last one stops. -/
theorem forEach_marks {mark : ε → Option α} (marks : ∀ a, (f a).log.filterMap mark = [a]) :
    (forEach f l).log.filterMap mark = l ↔ ∀ a ∈ l.dropLast, (f a).result = .ok () := by
  induction l with
  | nil => exact iff_of_true rfl nofun
  | cons a l ih =>
    rw [forEach_cons]
    cases first : (f a).result with
    | ok u =>
      rw [log_bind_ok first, List.filterMap_append, marks, List.singleton_append, List.cons.injEq, and_iff_right rfl, ih]
      cases l with
      | nil => rfl
      | cons b l => rw [List.dropLast_cons_cons, List.forall_mem_cons, and_iff_right first]
    | error e =>
      rw [log_bind_error first, marks]
      cases l with
      | nil => exact iff_of_true rfl nofun
      | cons b l =>
        rw [List.dropLast_cons_cons, List.forall_mem_cons, first]
        exact iff_of_false nofun fun both => nomatch both.1

end Loops

end Logged
