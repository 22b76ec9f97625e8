import System14.Lib.PortIo

/-!
# Ports

The functions of `ioports.h` for ports of eight bits, and the bits of what is
read from them and written to them.
-/

namespace System14
open PortIo

variable {ι α σ : Type} {P : Nat → Prop} {port : Nat} {value : UInt8}

def outb (port : Nat) (val : UInt8) : PortIo ι Unit := .output port val (.done ())

def inb (port : Nat) : PortIo ι UInt8 := .input port .done

def ioWait : PortIo ι Unit := outb 0x80 0

theorem uses_outb : (outb port value : PortIo ι Unit).Uses P ↔ P port := and_iff_left trivial

theorem uses_outb_bind {f : Unit → PortIo ι α} : (outb port value >>= f).Uses P ↔ P port ∧ (f ()).Uses P := Iff.rfl

theorem uses_inb_bind {f : UInt8 → PortIo ι α} : (inb port >>= f).Uses P ↔ P port ∧ ∀ read, (f read).Uses P := Iff.rfl

theorem run_outb (bus : Bus σ) (s : σ) : (outb port value : PortIo ι Unit).run bus s = .ok ((), bus.write port value s) := rfl

theorem run_inb (bus : Bus σ) (s : σ) : (inb port : PortIo ι UInt8).run bus s = .ok (bus.read port s) := rfl

def hasBit (v : UInt8) (i : Nat) : Bool := v.toBitVec.getLsbD i

theorem hasBit_or (v w : UInt8) (i : Nat) : hasBit (v ||| w) i = (hasBit v i || hasBit w i) := by
  unfold hasBit
  rw [UInt8.toBitVec_or, BitVec.getLsbD_or]

end System14
