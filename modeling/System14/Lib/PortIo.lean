import System14.Lib.Run

/-!
# Programs that talk to ports

What a driver does next may depend on what it has read. It runs against a bus,
which says how the devices behind the ports answer. A device is a part of what
is behind a bus: a driver that uses only the ports of one device runs as if
nothing else were there, and leaves everything else as it is.
-/

/-- A program that reads and writes ports of eight bits, and can stop early with an `ι`. -/
inductive PortIo (ι α : Type) where
  | done (a : α)
  | stop (e : ι)
  | output (port : Nat) (value : UInt8) (rest : PortIo ι α)
  | input (port : Nat) (rest : UInt8 → PortIo ι α)

namespace PortIo
open Run

variable {ι α β σ τ : Type} {P : Nat → Prop} {x : PortIo ι α} {f : α → PortIo ι β} {s t : σ}

def bind : PortIo ι α → (α → PortIo ι β) → PortIo ι β
  | .done a, f => f a
  | .stop e, _ => .stop e
  | .output port value rest, f => .output port value (rest.bind f)
  | .input port rest, f => .input port fun value => (rest value).bind f

instance : Monad (PortIo ι) where
  pure := .done
  bind := .bind

/-- How what is behind the ports answers a read, and what an access makes of it. -/
structure Bus (σ : Type) where
  read : Nat → σ → UInt8 × σ
  write : Nat → UInt8 → σ → σ

def run (bus : Bus σ) : PortIo ι α → σ → Except ι (α × σ)
  | .done a, s => .ok (a, s)
  | .stop e, _ => .error e
  | .output port value rest, s => rest.run bus (bus.write port value s)
  | .input port rest, s => (rest (bus.read port s).1).run bus (bus.read port s).2

/-- The program reads and writes only ports in `P`. -/
def Uses (P : Nat → Prop) : PortIo ι α → Prop
  | .done _ => True
  | .stop _ => True
  | .output port _ rest => P port ∧ rest.Uses P
  | .input port rest => P port ∧ ∀ value, (rest value).Uses P

theorem run_bind (bus : Bus σ) : (x >>= f).run bus s = x.run bus s >>= fun r => (f r.1).run bus r.2 := by
  show (x.bind f).run bus s = _
  induction x generalizing s with
  | done a => rfl
  | stop e => rfl
  | output port value rest ih => exact ih
  | input port rest ih => exact ih _

/-- On the ports in `P` the bus leads to the device whose state `get` finds and `set` replaces. -/
structure Part (bus : Bus σ) (device : Bus τ) (get : σ → τ) (set : σ → τ → σ) (P : Nat → Prop) : Prop where
  read : ∀ port, P port → ∀ s, bus.read port s = ((device.read port (get s)).1, set s (device.read port (get s)).2)
  write : ∀ port, P port → ∀ value s, bus.write port value s = set s (device.write port value (get s))
  get_set : ∀ s d, get (set s d) = d
  set_set : ∀ s d d', set (set s d) d' = set s d'
  set_get : ∀ s, set s (get s) = s

/-- A driver of one device runs as on that device alone. -/
theorem Part.run {bus : Bus σ} {device : Bus τ} {get : σ → τ} {set : σ → τ → σ} (part : Part bus device get set P)
    (uses : x.Uses P) : x.run bus s = (x.run device (get s)).map fun r => (r.1, set s r.2) := by
  induction x generalizing s with
  | done a =>
    show Except.ok (a, s) = .ok (a, set s (get s))
    rw [part.set_get]
  | stop e => rfl
  | output port value rest ih =>
    show rest.run bus (bus.write port value s) = (rest.run device (device.write port value (get s))).map _
    rw [part.write port uses.1, ih uses.2, part.get_set]
    simp only [part.set_set]
  | input port rest ih =>
    show (rest (bus.read port s).1).run bus (bus.read port s).2 =
      ((rest (device.read port (get s)).1).run device (device.read port (get s)).2).map _
    rw [part.read port uses.1, ih _ (uses.2 _), part.get_set]
    simp only [part.set_set]

end PortIo
