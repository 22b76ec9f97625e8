import System14.Drivers.Apic

/-!
# The walk over the MADT

The loop of `InitializeAPIC` subtracts the length of each structure from the
bytes left and stops at zero. It stays inside the table, and ends, just when the
structures end exactly where the table does.
-/

namespace System14
open ByteMem Traced

variable {m : Mem} {lo a n fuel ioapic madt : Nat} {s : Apic} {lens : List Nat}

/-- The bytes from `lo` up to `hi` are all that is read. -/
def ApicEvent.Inside (lo hi : Nat) : ApicEvent → Prop
  | .read bytes => lo ≤ bytes.start ∧ bytes.start + bytes.len ≤ hi
  | .write _ _ => True

/-- The bytes of a structure that the loop reads: its header, and all of an I/O APIC structure. -/
def icBytes (m : Mem) (a : Nat) : Nat := if load 1 m a = 0x1 then 12 else 2

/-- The structures at `a`, of these lengths, end at `stop`. None of them is empty,
and what the loop reads of each lies before `stop`. -/
def MadtTiled (m : Mem) (stop : Nat) : Nat → List Nat → Prop
  | a, [] => a = stop
  | a, len :: lens => load 1 m (a + 1) = len ∧ 0 < len ∧ a + icBytes m a ≤ stop ∧ MadtTiled m stop (a + len) lens

theorem MadtTiled.le {stop : Nat} (tiled : MadtTiled m stop a lens) : a ≤ stop := by
  induction lens generalizing a with
  | nil => exact Nat.le_of_eq tiled
  | cons len lens ih =>
    have := ih tiled.2.2.2
    omega

theorem fetch_within {P : ApicEvent → Prop} {k : Nat} {Q : Nat → Prop} :
    Within P (fetch k m a) Q ↔ P (.read ⟨a, k⟩) ∧ Q (load k m a) := by
  unfold fetch
  rw [within_bind, within_emit, within_pure]

/-- What the loop reads of the structure at `a`, in order. -/
def icReads (m : Mem) (a : Nat) : List Extent :=
  if load 1 m a = 0x1 then [⟨a, 1⟩, ⟨a + 4, 4⟩, ⟨a + 4, 4⟩, ⟨a + 8, 4⟩, ⟨a + 1, 1⟩, ⟨a + 1, 1⟩]
  else [⟨a, 1⟩, ⟨a, 1⟩, ⟨a + 1, 1⟩, ⟨a + 1, 1⟩]

/-- What the loop keeps of the structure at `a`. -/
def madtFound (m : Mem) (a : Nat) (r : Nat × Apic) : Nat × Apic :=
  if load 1 m a = 0x1 then (a, { r.2 with ioAPIC := load 4 m (a + 4) }) else r

/-- One pass reads the structure at `a` and goes on behind it. -/
theorem madtLoop_pass {P : ApicEvent → Prop} {Q : Nat × Apic → Prop} (left : 0 < n) :
    Within P (madtLoop m (fuel + 1) n a ioapic s) Q ↔ (∀ bytes ∈ icReads m a, P (.read bytes)) ∧
      Within P (madtLoop m fuel (usub 32 n (load 1 m (a + 1))) (uadd 64 a (load 1 m (a + 1)))
        (madtFound m a (ioapic, s)).1 (madtFound m a (ioapic, s)).2) Q := by
  rw [madtLoop, if_pos left, within_bind, fetch_within]
  unfold icReads madtFound
  by_cases type : load 1 m a = 0x1
  · simp only [if_pos type, within_bind, fetch_within, List.forall_mem_cons, List.not_mem_nil, false_implies,
      implies_true, and_assoc, true_and]
  · simp only [if_neg type, within_bind, fetch_within, List.forall_mem_cons, List.not_mem_nil, false_implies,
      implies_true, and_assoc, true_and]

theorem icReads_inside {lo hi : Nat} :
    (∀ bytes ∈ icReads m a, ApicEvent.Inside lo hi (.read bytes)) ↔ lo ≤ a ∧ a + icBytes m a ≤ hi := by
  unfold icReads icBytes
  by_cases type : load 1 m a = 0x1
  · simp only [if_pos type, List.forall_mem_cons, ApicEvent.Inside, List.not_mem_nil, false_implies,
      implies_true, and_true]
    omega
  · simp only [if_neg type, List.forall_mem_cons, ApicEvent.Inside, List.not_mem_nil, false_implies,
      implies_true, and_true]
    omega

theorem icLength_lt (m : Mem) (a : Nat) : load 1 m a < 256 := load_lt 1 m a

/-! ### Staying inside the table -/

theorem madtLoop_tiled {stop : Nat} {Q : Nat × Apic → Prop} (inside : a ≤ stop) (count : n = stop - a) (small : n < 2 ^ 32)
    (bound : stop + 256 ≤ 2 ^ 64) (run : Within (ApicEvent.Inside lo stop) (madtLoop m fuel n a ioapic s) Q) :
    ∃ lens, MadtTiled m stop a lens := by
  induction fuel generalizing a n ioapic s with
  | zero => exact (within_stop.mp run).elim
  | succ fuel ih =>
    by_cases left : 0 < n
    · rw [madtLoop_pass left, icReads_inside] at run
      obtain ⟨⟨_, room⟩, rest⟩ := run
      have len := icLength_lt m (a + 1)
      rw [uadd_of_lt (by omega)] at rest
      by_cases fits : load 1 m (a + 1) ≤ n
      · rw [usub_of_le small fits] at rest
        obtain ⟨lens, tiled⟩ := ih (by omega) (by omega) (by omega) rest
        by_cases empty : load 1 m (a + 1) = 0
        · rw [empty, Nat.add_zero] at tiled
          exact ⟨lens, tiled⟩
        · exact ⟨_ :: lens, rfl, by omega, room, tiled⟩
      · -- The counter wraps, and the next structure lies behind the table.
        have wraps : 0 < usub 32 n (load 1 m (a + 1)) := by
          unfold usub
          omega
        cases fuel with
        | zero => exact (within_stop.mp rest).elim
        | succ fuel =>
          rw [madtLoop_pass wraps, icReads_inside] at rest
          omega
    · exact ⟨[], show a = stop by omega⟩

theorem madtLoop_within (ioapic : Nat) (s : Apic) {stop : Nat} (tiled : MadtTiled m stop a lens) (low : lo ≤ a)
    (small : stop - a < 2 ^ 32) (bound : stop < 2 ^ 64) (enough : lens.length < fuel) :
    Within (ApicEvent.Inside lo stop) (madtLoop m fuel (stop - a) a ioapic s) fun _ => True := by
  induction lens generalizing a fuel ioapic s with
  | nil =>
    obtain ⟨fuel, rfl⟩ := Nat.exists_eq_add_one.mpr enough
    have ended : a = stop := tiled
    rw [madtLoop, if_neg (by omega)]
    exact within_pure.mpr trivial
  | cons len lens ih =>
    obtain ⟨fuel, rfl⟩ := Nat.exists_eq_add_one.mpr (Nat.zero_lt_of_lt enough)
    obtain ⟨here, some, room, rest⟩ := tiled
    have behind := rest.le
    rw [madtLoop_pass (by omega), icReads_inside, here, usub_of_le small (by omega), uadd_of_lt (by omega),
      show stop - a - len = stop - (a + len) by omega]
    refine ⟨⟨low, room⟩, ih _ _ rest (by omega) (by omega) ?_⟩
    simpa using enough

/-- The loop of `InitializeAPIC` ends, and reads only the bytes of the table. -/
def MadtWalkSafe (m : Mem) (madt : Nat) (s : Apic) : Prop :=
  ∃ bound, ∀ fuel ≥ bound, Within (ApicEvent.Inside madt (madt + MADT.length m madt))
    (madtLoop m fuel (madtRest (MADT.length m madt)) (MADT.icStructBase madt) null s) fun _ => True

theorem madtRest_of_le {length : Nat} (small : length < 2 ^ 32) (fixed : 44 ≤ length) : madtRest length = length - 44 := by
  unfold madtRest uadd usub
  omega

/-- A table shorter than its fixed part makes the counter wrap. -/
theorem madtRest_pos {length : Nat} (short : length < 44) : 0 < madtRest length := by
  unfold madtRest uadd usub
  omega

theorem MadtWalkSafe.tiled (below : madt < 2 ^ 32) (safe : MadtWalkSafe m madt s) :
    44 ≤ MADT.length m madt ∧ ∃ lens, MadtTiled m (madt + MADT.length m madt) (madt + 44) lens := by
  have small : MADT.length m madt < 2 ^ 32 := load_lt 4 _ _
  obtain ⟨bound, run⟩ := safe
  have run := run (bound + 1) (Nat.le_succ _)
  by_cases fixed : 44 ≤ MADT.length m madt
  · rw [madtRest_of_le small fixed, MADT.icStructBase] at run
    have rest : MADT.length m madt - 44 = madt + MADT.length m madt - (madt + 44) := by omega
    exact ⟨fixed, madtLoop_tiled (Nat.add_le_add_left fixed madt) rest (by omega) (by omega) run⟩
  · rw [madtLoop_pass (madtRest_pos (by omega)), icReads_inside, MADT.icStructBase] at run
    omega

/-- The walk is safe just when the table has its fixed part, and behind it
structures that end where it ends. -/
theorem madt_walk_safe_iff (below : madt < 2 ^ 32) : MadtWalkSafe m madt s ↔
    44 ≤ MADT.length m madt ∧ ∃ lens, MadtTiled m (madt + MADT.length m madt) (madt + 44) lens := by
  have small : MADT.length m madt < 2 ^ 32 := load_lt 4 _ _
  constructor
  · exact MadtWalkSafe.tiled below
  · rintro ⟨fixed, lens, tiled⟩
    refine ⟨lens.length + 1, fun fuel enough => ?_⟩
    have run := madtLoop_within null s tiled (show madt ≤ madt + 44 by omega) (by omega) (by omega) enough
    rw [madtRest_of_le small fixed, show MADT.length m madt - 44 = madt + MADT.length m madt - (madt + 44) by omega]
    exact run

/-- A table of `length` bytes whose first structure, of type 0, has length `len`. -/
def oneStructure (length len : UInt8) (x : Nat) : UInt8 :=
  if x = 0x1004 then length else if x = 0x102d then len else 0

theorem oneStructure_length (length len : UInt8) : MADT.length (oneStructure length len) 0x1000 = length.toNat := by
  have rest : load 3 (oneStructure length len) 0x1005 = 0 := load_of_zero fun x low high => by
    unfold oneStructure
    rw [if_neg (by omega), if_neg (by omega)]
  rw [MADT.length, load_succ, rest]
  rfl

theorem oneStructure_len (length len : UInt8) : load 1 (oneStructure length len) 0x102d = len.toNat := load_byte _ _

/-- An empty structure, one that overshoots the table, and a table shorter than its fixed part. -/
theorem oneStructure_unsafe : ¬ MadtWalkSafe (oneStructure 46 0) 0x1000 {} ∧
    ¬ MadtWalkSafe (oneStructure 46 200) 0x1000 {} ∧ ¬ MadtWalkSafe (oneStructure 40 0) 0x1000 {} := by
  refine ⟨fun safe => ?_, fun safe => ?_, fun safe => ?_⟩
  · obtain ⟨_, lens, tiled⟩ := safe.tiled (by decide)
    rw [oneStructure_length] at tiled
    cases lens with
    | nil => exact absurd (show 0x102c = 0x102e from tiled) (by decide)
    | cons len lens =>
      obtain ⟨here, some, _⟩ := tiled
      rw [oneStructure_len] at here
      exact absurd (here ▸ some) (by decide)
  · obtain ⟨_, lens, tiled⟩ := safe.tiled (by decide)
    rw [oneStructure_length] at tiled
    cases lens with
    | nil => exact absurd (show 0x102c = 0x102e from tiled) (by decide)
    | cons len lens =>
      obtain ⟨here, _, _, rest⟩ := tiled
      have behind := rest.le
      rw [oneStructure_len] at here
      rw [← here] at behind
      exact absurd behind (by decide)
  · obtain ⟨fixed, _⟩ := safe.tiled (by decide)
    rw [oneStructure_length] at fixed
    exact absurd fixed (by decide)

theorem madt_walk_safe_iff_oneStructure : MadtWalkSafe (oneStructure 52 8) 0x1000 {} := by
  refine (madt_walk_safe_iff (by decide)).mpr ?_
  rw [oneStructure_length]
  refine ⟨by decide, [8], oneStructure_len 52 8, by decide, ?_, rfl⟩
  have type : load 1 (oneStructure 52 8) 0x102c = 0 := load_of_zero fun x low high => by
    rw [show x = 0x102c by omega]
    rfl
  unfold icBytes
  rw [type]
  decide

end System14
