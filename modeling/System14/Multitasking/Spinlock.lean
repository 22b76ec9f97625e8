import Mathlib.Logic.Function.Basic
import System14.Lib.Simulation

/-!
# Spinlocks

Any number of processors share the byte of a lock. Whatever the order of their
steps, `spinlock_acquire` and `spinlock_release` are the operations of a mutex
with one owner. Whether a call of `spinlock_acquire` can return at all is up to
the owner and to the caller's interrupt flag: the loop sleeps in `hlt`, and a
release wakes nobody.
-/

namespace System14
open Run Simulation

/-- Where a processor is: at the exchange or in the `hlt` of `spinlock_acquire`, or not in it. -/
inductive SpinlockPc where
  | outside
  | exchange
  | hlt
  deriving DecidableEq

/-- `holds` are the processors that have acquired the lock and have not released it since. -/
structure SpinlockState (ι : Type) where
  lock : UInt8
  pc : ι → SpinlockPc
  holds : ι → Bool
  interrupts : ι → Bool

inductive SpinlockEvent (ι : Type) where
  | acquire (i : ι)
  | exchange (i : ι)
  | interrupt (i : ι)
  | release (i : ι)
  | setInterrupts (i : ι) (enabled : Bool)
  deriving DecidableEq

variable {ι : Type} {s t u : SpinlockState ι} {e : SpinlockEvent ι} {es : List (SpinlockEvent ι)} {i j : ι} {o o' : Option ι}

/-- A lock as `INIT_SPINLOCK` leaves it. -/
def Unlocked (s : SpinlockState ι) : Prop := s.lock = 0 ∧ ∀ i, s.holds i = false

/-- Only the processors that hold the lock release it. -/
def ReleasedByHolder (s : SpinlockState ι) (e : SpinlockEvent ι) : Prop := ∀ i, e = .release i → s.holds i = true

/-- The lock's byte and the holders that an owner stands for. -/
def Owned (s : SpinlockState ι) (o : Option ι) : Prop :=
  (s.lock = 0 ↔ o = none) ∧ ∀ i, s.holds i = true ↔ o = some i

theorem Unlocked.owned (start : Unlocked s) : Owned s none := by
  refine ⟨⟨fun _ => rfl, fun _ => start.1⟩, fun i => ?_⟩
  rw [start.2 i]
  exact ⟨nofun, nofun⟩

theorem Owned.free (owned : Owned s o) (zero : s.lock = 0) : o = none := owned.1.mp zero

variable [DecidableEq ι]

/-- A step of one processor, `none` if it cannot take it. -/
def spinlockStep (s : SpinlockState ι) : SpinlockEvent ι → Option (SpinlockState ι)
  | .acquire i => if s.pc i = .outside then some { s with pc := Function.update s.pc i .exchange } else none
  | .exchange i =>
    if s.pc i = .exchange then
      if s.lock ≠ 0 then some { s with lock := 1, pc := Function.update s.pc i .hlt }
      else some { s with
        lock := 1
        pc := Function.update s.pc i .outside
        holds := Function.update s.holds i true }
    else none
  | .interrupt i =>
    -- `hlt` ends with an interrupt that the processor takes.
    if s.pc i = .hlt ∧ s.interrupts i = true then some { s with pc := Function.update s.pc i .exchange } else none
  | .release i =>
    if s.pc i = .outside then some { s with lock := 0, holds := Function.update s.holds i false } else none
  | .setInterrupts i enabled =>
    if s.pc i = .outside then some { s with interrupts := Function.update s.interrupts i enabled } else none

def SpinlockStep (s : SpinlockState ι) (e : SpinlockEvent ι) (t : SpinlockState ι) : Prop := spinlockStep s e = some t

/-- What a step can do. -/
theorem spinlockStep_cases (taken : SpinlockStep s e t) :
    (∃ i, e = .acquire i ∧ s.pc i = .outside ∧ t = { s with pc := Function.update s.pc i .exchange }) ∨
    (∃ i, e = .exchange i ∧ s.pc i = .exchange ∧ s.lock ≠ 0 ∧
      t = { s with lock := 1, pc := Function.update s.pc i .hlt }) ∨
    (∃ i, e = .exchange i ∧ s.pc i = .exchange ∧ s.lock = 0 ∧
      t = { s with
        lock := 1
        pc := Function.update s.pc i .outside
        holds := Function.update s.holds i true }) ∨
    (∃ i, e = .interrupt i ∧ s.pc i = .hlt ∧ s.interrupts i = true ∧
      t = { s with pc := Function.update s.pc i .exchange }) ∨
    (∃ i, e = .release i ∧ s.pc i = .outside ∧ t = { s with lock := 0, holds := Function.update s.holds i false }) ∨
    ∃ i enabled, e = .setInterrupts i enabled ∧ s.pc i = .outside ∧
      t = { s with interrupts := Function.update s.interrupts i enabled } := by
  unfold SpinlockStep at taken
  cases e with
  | acquire i =>
    rw [spinlockStep, Option.ite_none_right_eq_some] at taken
    obtain ⟨here, value⟩ := taken
    exact Or.inl ⟨i, rfl, here, (Option.some.inj value).symm⟩
  | exchange i =>
    rw [spinlockStep, Option.ite_none_right_eq_some] at taken
    obtain ⟨here, value⟩ := taken
    split at value
    · rename_i busy
      exact Or.inr (Or.inl ⟨i, rfl, here, busy, (Option.some.inj value).symm⟩)
    · rename_i free
      exact Or.inr (Or.inr (Or.inl ⟨i, rfl, here, not_not.mp free, (Option.some.inj value).symm⟩))
  | interrupt i =>
    rw [spinlockStep, Option.ite_none_right_eq_some] at taken
    obtain ⟨⟨here, enabled⟩, value⟩ := taken
    exact Or.inr (Or.inr (Or.inr (Or.inl ⟨i, rfl, here, enabled, (Option.some.inj value).symm⟩)))
  | release i =>
    rw [spinlockStep, Option.ite_none_right_eq_some] at taken
    obtain ⟨here, value⟩ := taken
    exact Or.inr (Or.inr (Or.inr (Or.inr (Or.inl ⟨i, rfl, here, (Option.some.inj value).symm⟩))))
  | setInterrupts i enabled =>
    rw [spinlockStep, Option.ite_none_right_eq_some] at taken
    obtain ⟨here, value⟩ := taken
    exact Or.inr (Or.inr (Or.inr (Or.inr (Or.inr ⟨i, enabled, rfl, here, (Option.some.inj value).symm⟩))))

/-! ### The mutex -/

/-- A mutex is free or has an owner. An exchange takes it if it is free and else
does nothing, only the owner's release frees it, and nothing else changes it. -/
def MutexStep (o : Option ι) (e : SpinlockEvent ι) (o' : Option ι) : Prop :=
  match e with
  | .exchange i => o' = if o = none then some i else o
  | .release i => o = some i ∧ o' = none
  | _ => o' = o

theorem Owned.step (owned : Owned s o) (allowed : ReleasedByHolder s e) (taken : SpinlockStep s e t) :
    ∃ o', MutexStep o e o' ∧ Owned t o' := by
  obtain ⟨i, rfl, _, rfl⟩ | ⟨i, rfl, _, busy, rfl⟩ | ⟨i, rfl, _, zero, rfl⟩ | ⟨i, rfl, _, _, rfl⟩ | ⟨i, rfl, _, rfl⟩ |
    ⟨i, enabled, rfl, _, rfl⟩ := spinlockStep_cases taken
  · exact ⟨o, rfl, owned⟩
  · have some : o ≠ none := fun none => busy (owned.1.mpr none)
    refine ⟨o, (if_neg some).symm, ⟨fun zero => ?_, fun none => absurd none some⟩, owned.2⟩
    cases zero
  · have none := owned.free zero
    refine ⟨some i, (if_pos none).symm, ⟨fun zero => ?_, nofun⟩, fun j => ?_⟩
    · cases zero
    · by_cases same : j = i
      · subst same
        exact ⟨fun _ => rfl, fun _ => Function.update_self _ _ _⟩
      · show Function.update s.holds i true j = true ↔ some i = some j
        rw [Function.update_of_ne same, owned.2 j, none]
        exact ⟨nofun, fun owner => absurd (Option.some.inj owner).symm same⟩
  · exact ⟨o, rfl, owned⟩
  · have owner := (owned.2 i).mp (allowed i rfl)
    refine ⟨none, ⟨owner, rfl⟩, ⟨fun _ => rfl, fun _ => rfl⟩, fun j => ?_⟩
    by_cases same : j = i
    · subst same
      show Function.update s.holds j false j = true ↔ none = some j
      rw [Function.update_self]
      exact ⟨nofun, nofun⟩
    · show Function.update s.holds i false j = true ↔ none = some j
      rw [Function.update_of_ne same, owned.2 j, owner]
      exact ⟨fun owner => absurd (Option.some.inj owner).symm same, nofun⟩
  · exact ⟨o, rfl, owned⟩

theorem spinlock_simulates : Simulates Owned (SpinlockStep (ι := ι)) ReleasedByHolder MutexStep :=
  fun _ _ _ _ owned allowed taken => owned.step allowed taken

/-- In every interleaving of the processors' steps in which only holders release,
the run is one of a mutex: at most one processor holds the lock, its byte is 0
exactly while nobody does. -/
theorem spinlock_excludes (start : Unlocked s) (trace : Trace SpinlockStep ReleasedByHolder s es t) :
    ∃ o, Trace MutexStep anyStep none es o ∧ (t.lock = 0 ↔ o = none) ∧ ∀ i, t.holds i = true ↔ o = some i := by
  obtain ⟨o, run, owned⟩ := spinlock_simulates.trace start.owned trace
  exact ⟨o, run, owned.1, owned.2⟩

/-- Processor `true` holds the lock, `false` sleeps with interrupts disabled. -/
def spinlockAsleep : SpinlockState Bool :=
  ⟨1, Function.update (Function.update (Function.update (Function.update (fun _ => .outside) true .exchange) true .outside) false
    .exchange) false .hlt, Function.update (fun _ => false) true true, fun i => i⟩

theorem spinlockAsleep_trace : Trace SpinlockStep ReleasedByHolder ⟨0, fun _ => .outside, fun _ => false, fun i => i⟩
    [.acquire true, .exchange true, .acquire false, .exchange false] spinlockAsleep :=
  (((Trace.nil.snoc nofun rfl).snoc nofun rfl).snoc nofun rfl).snoc nofun rfl

theorem spinlock_excludes_asleep :
    ∃ o, Trace MutexStep anyStep none [.acquire true, .exchange true, .acquire false, .exchange false] o ∧
      (spinlockAsleep.lock = 0 ↔ o = none) ∧ ∀ i, spinlockAsleep.holds i = true ↔ o = some i :=
  spinlock_excludes ⟨rfl, fun _ => rfl⟩ spinlockAsleep_trace

/-! ### Calls that return -/

/-- A call in a free lock's `spinlock_acquire` can return. -/
theorem spinlock_takes (zero : s.lock = 0) (waiting : s.pc i ≠ .outside) (wakes : s.pc i = .hlt → s.interrupts i = true) :
    ∃ es u, Trace SpinlockStep ReleasedByHolder s es u ∧ u.pc i = .outside ∧ u.holds i = true := by
  have takes : ∀ s : SpinlockState ι, s.lock = 0 → s.pc i = .exchange →
      ∃ u, SpinlockStep s (.exchange i) u ∧ u.pc i = .outside ∧ u.holds i = true := by
    intro s zero here
    refine ⟨{ s with lock := 1, pc := Function.update s.pc i .outside, holds := Function.update s.holds i true }, ?_,
      Function.update_self _ _ _, Function.update_self _ _ _⟩
    rw [SpinlockStep, spinlockStep, if_pos here, if_neg (not_not.mpr zero)]
  cases here : s.pc i with
  | outside => exact absurd here waiting
  | exchange =>
    obtain ⟨u, taken, done⟩ := takes s zero here
    exact ⟨[.exchange i], u, .single nofun taken, done⟩
  | hlt =>
    have woken : SpinlockStep s (.interrupt i) { s with pc := Function.update s.pc i .exchange } :=
      if_pos ⟨here, wakes here⟩
    obtain ⟨u, taken, done⟩ := takes { s with pc := Function.update s.pc i .exchange } zero (Function.update_self _ _ _)
    exact ⟨[.interrupt i, .exchange i], u, (Trace.single nofun woken).snoc nofun taken, done⟩

/-- An owner that calls `spinlock_acquire` again does not come back, and nobody else does. -/
theorem Owned.stuck (stuck : Owned s (some j) ∧ s.pc j ≠ .outside ∧ s.pc i ≠ .outside) (allowed : ReleasedByHolder s e)
    (taken : SpinlockStep s e t) : Owned t (some j) ∧ t.pc j ≠ .outside ∧ t.pc i ≠ .outside := by
  obtain ⟨owned, inside, waiting⟩ := stuck
  have locked : s.lock ≠ 0 := fun zero => by cases owned.free zero
  have moved : ∀ (k : ι) (pc : SpinlockPc) (l : ι), pc ≠ .outside → s.pc l ≠ .outside →
      Function.update s.pc k pc l ≠ .outside := by
    intro k pc l there here
    by_cases same : l = k
    · subst same
      rw [Function.update_self]
      exact there
    · rw [Function.update_of_ne same]
      exact here
  obtain ⟨o, step, after⟩ := owned.step allowed taken
  obtain ⟨k, rfl, _, rfl⟩ | ⟨k, rfl, _, busy, rfl⟩ | ⟨k, rfl, _, zero, rfl⟩ | ⟨k, rfl, _, _, rfl⟩ | ⟨k, rfl, here, rfl⟩ |
    ⟨k, enabled, rfl, _, rfl⟩ := spinlockStep_cases taken
  · exact ⟨owned, moved k .exchange j nofun inside, moved k .exchange i nofun waiting⟩
  · have kept : o = some j := step.trans (if_neg nofun)
    exact ⟨kept ▸ after, moved k .hlt j nofun inside, moved k .hlt i nofun waiting⟩
  · exact absurd zero locked
  · exact ⟨owned, moved k .exchange j nofun inside, moved k .exchange i nofun waiting⟩
  · have owner : k = j := (Option.some.inj step.1).symm
    exact absurd (owner ▸ here) inside
  · exact ⟨owned, inside, waiting⟩

/-- A processor that sleeps with interrupts disabled sleeps on. -/
theorem asleep_stuck (asleep : s.pc i = .hlt ∧ s.interrupts i = false) (taken : SpinlockStep s e t) :
    t.pc i = .hlt ∧ t.interrupts i = false := by
  obtain ⟨here, disabled⟩ := asleep
  have moved : ∀ {k : ι} {pc pc' : SpinlockPc}, s.pc k = pc → pc ≠ .hlt → Function.update s.pc k pc' i = .hlt := by
    intro k pc pc' there other
    have apart : i ≠ k := fun same => other (there.symm.trans (same ▸ here))
    rw [Function.update_of_ne apart]
    exact here
  obtain ⟨k, rfl, there, rfl⟩ | ⟨k, rfl, there, _, rfl⟩ | ⟨k, rfl, there, _, rfl⟩ | ⟨k, rfl, _, enabled, rfl⟩ |
    ⟨k, rfl, _, rfl⟩ | ⟨k, enabled, rfl, there, rfl⟩ := spinlockStep_cases taken
  · exact ⟨moved there nofun, disabled⟩
  · exact ⟨moved there nofun, disabled⟩
  · exact ⟨moved there nofun, disabled⟩
  · have apart : i ≠ k := fun same => by
      rw [← same, disabled] at enabled
      cases enabled
    exact ⟨(Function.update_of_ne apart _ _).trans here, disabled⟩
  · exact ⟨here, disabled⟩
  · have apart : i ≠ k := fun same => by
      rw [← same, here] at there
      cases there
    exact ⟨here, (Function.update_of_ne apart _ _).trans disabled⟩

/-- In every state of every such run, a call of `spinlock_acquire` can still
return if and only if the processor that holds the lock is not itself inside of
`spinlock_acquire`, and the caller is not asleep with interrupts disabled. -/
theorem spinlock_returns_iff (start : Unlocked s) (trace : Trace SpinlockStep ReleasedByHolder s es t)
    (waiting : t.pc i ≠ .outside) :
    (∃ es u, Trace SpinlockStep ReleasedByHolder t es u ∧ u.pc i = .outside ∧ u.holds i = true) ↔
      (∀ j, t.holds j = true → t.pc j = .outside) ∧ (t.pc i = .hlt → t.interrupts i = true) := by
  obtain ⟨o, _, owned⟩ := spinlock_simulates.trace start.owned trace
  constructor
  · rintro ⟨es', u, later, returned, _⟩
    refine ⟨fun j holder => not_not.mp fun inside => ?_, fun here => ?_⟩
    · have owner := (owned.2 j).mp holder
      have stuck := later.invariant (I := fun s => Owned s (some j) ∧ s.pc j ≠ .outside ∧ s.pc i ≠ .outside)
        ⟨owner ▸ owned, inside, waiting⟩ fun _ _ _ stuck allowed taken => Owned.stuck stuck allowed taken
      exact stuck.2.2 returned
    · cases enabled : t.interrupts i with
      | true => rfl
      | false =>
        have asleep := later.invariant (I := fun s => s.pc i = .hlt ∧ s.interrupts i = false) ⟨here, enabled⟩
          fun _ _ _ asleep _ taken => asleep_stuck asleep taken
        rw [returned] at asleep
        cases asleep.1
  · rintro ⟨outside, wakes⟩
    cases o with
    | none => exact spinlock_takes (owned.1.mpr rfl) waiting wakes
    | some j =>
      have holder := (owned.2 j).mpr rfl
      have released : SpinlockStep t (.release j) { t with lock := 0, holds := Function.update t.holds j false } :=
        if_pos (outside j holder)
      have allowed : ReleasedByHolder t (.release j) := fun k same => by
        cases same
        exact holder
      obtain ⟨es', u, rest, done⟩ :=
        spinlock_takes (s := { t with lock := 0, holds := Function.update t.holds j false }) rfl waiting wakes
      exact ⟨_, u, (Trace.single allowed released).append rest, done⟩

theorem spinlock_returns_iff_asleep :
    (∃ es u, Trace SpinlockStep ReleasedByHolder spinlockAsleep es u ∧ u.pc false = .outside ∧ u.holds false = true) ↔
      (∀ j, spinlockAsleep.holds j = true → spinlockAsleep.pc j = .outside) ∧
        (spinlockAsleep.pc false = .hlt → spinlockAsleep.interrupts false = true) :=
  spinlock_returns_iff ⟨rfl, fun _ => rfl⟩ spinlockAsleep_trace (by decide)

end System14
