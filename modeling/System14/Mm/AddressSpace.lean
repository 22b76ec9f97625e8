import System14.Mm.AllocatorSafety
import System14.Mm.PageTables

/-!
# Address spaces

The purpose of the page tables is a map from virtual to physical pages. An
abstract address space is decided by the calls of `MapMemory` that built it:
the last call whose page contains an address gives its translation. The walk of
the hardware through the tables computes exactly this.
-/

namespace System14
open ByteMem Run Radix

/-! ### The abstract map -/

structure MapCall where
  virt : Nat
  phys : Nat
  size : PageSizes
  user : Bool
  deriving DecidableEq

def PageSizes.bytes (size : PageSizes) : Nat := 2 ^ (12 + 9 * size.level)

namespace MapCall

/-- The address lies in the call's page. Addresses are taken modulo 2^48. -/
def Covers (c : MapCall) (v : Nat) : Prop :=
  c.virt % 2 ^ 48 ≤ v % 2 ^ 48 ∧ v % 2 ^ 48 < c.virt % 2 ^ 48 + c.size.bytes

instance (c : MapCall) (v : Nat) : Decidable (c.Covers v) := inferInstanceAs (Decidable (_ ∧ _))

structure Valid (c : MapCall) : Prop where
  virt : c.size.bytes ∣ c.virt
  phys : c.size.bytes ∣ c.phys
  small : c.phys < 2 ^ 52

end MapCall

def lastCall (calls : List MapCall) (v : Nat) : Option MapCall := calls.reverse.find? fun c => c.Covers v

/-- The translation that a sequence of calls describes. -/
def spaceOf (calls : List MapCall) (v : Nat) : Option Nat :=
  (lastCall calls v).map fun c => c.phys + (v % 2 ^ 48 - c.virt % 2 ^ 48)

theorem lastCall_concat (calls : List MapCall) (c : MapCall) (v : Nat) :
    lastCall (calls ++ [c]) v = if c.Covers v then some c else lastCall calls v := by
  unfold lastCall
  rw [List.reverse_append, List.reverse_singleton, List.singleton_append, List.find?_cons]
  by_cases covers : c.Covers v
  · simp [covers]
  · simp [covers]

theorem lastCall_mem {calls : List MapCall} {c : MapCall} {v : Nat} (last : lastCall calls v = some c) :
    c ∈ calls ∧ c.Covers v := by
  have covers := List.find?_some last
  exact ⟨List.mem_reverse.mp (List.mem_of_find?_eq_some last), by simpa using covers⟩

theorem lastCall_isSome {calls : List MapCall} {c : MapCall} {v : Nat} (member : c ∈ calls) (covers : c.Covers v) :
    ∃ c', lastCall calls v = some c' := by
  have found := List.find?_isSome (p := fun c : MapCall => decide (c.Covers v)).mpr
    ⟨c, List.mem_reverse.mpr member, decide_eq_true covers⟩
  exact Option.isSome_iff_exists.mp found

/-! ### Indices and pages -/

theorem onPage_iff (size : PageSizes) {virt v : Nat} :
    OnPage virt size (walkPath v) ↔ v % 2 ^ 48 / size.bytes = virt % 2 ^ 48 / size.bytes := by
  have index : ∀ j, walkPath v j = walkPath virt j ↔
      v / 2 ^ (12 + 9 * j) % 512 = virt / 2 ^ (12 + 9 * j) % 512 := fun j => Fin.ext_iff
  unfold OnPage PageSizes.bytes
  constructor
  · intro agree
    have three := (index 3).mp (agree 3 (by cases size <;> decide) (by decide))
    have two := (index 2).mp (agree 2 (by cases size <;> decide) (by decide))
    have one := (index 1).mp (agree 1 (by cases size <;> decide) (by decide))
    cases size with
    | _4K =>
      have zero := (index 0).mp (agree 0 (by decide) (by decide))
      simp only [PageSizes.level] at *
      omega
    | _2M =>
      simp only [PageSizes.level] at *
      omega
  · intro same j low high
    apply (index j).mpr
    cases size with
    | _4K =>
      simp only [PageSizes.level] at *
      rcases show j = 0 ∨ j = 1 ∨ j = 2 ∨ j = 3 by omega with rfl | rfl | rfl | rfl <;> omega
    | _2M =>
      simp only [PageSizes.level] at *
      rcases show j = 1 ∨ j = 2 ∨ j = 3 by omega with rfl | rfl | rfl <;> omega

theorem MapCall.Valid.onPage_iff_covers {c : MapCall} {v : Nat} (valid : c.Valid) :
    OnPage c.virt c.size (walkPath v) ↔ c.Covers v := by
  rw [onPage_iff c.size]
  obtain ⟨k, virt⟩ := valid.virt
  unfold Covers
  rw [virt]
  cases c.size with
  | _4K =>
    simp only [PageSizes.bytes, PageSizes.level]
    omega
  | _2M =>
    simp only [PageSizes.bytes, PageSizes.level]
    omega

theorem MapCall.Valid.offset {c : MapCall} {v : Nat} (valid : c.Valid) (covers : c.Covers v) :
    v % 2 ^ (12 + 9 * c.size.level) = v % 2 ^ 48 - c.virt % 2 ^ 48 := by
  obtain ⟨k, virt⟩ := valid.virt
  unfold Covers at covers
  rw [virt] at covers ⊢
  cases same : c.size with
  | _4K =>
    simp only [same, PageSizes.bytes, PageSizes.level] at *
    omega
  | _2M =>
    simp only [same, PageSizes.bytes, PageSizes.level] at *
    omega

/-! ### Refinement -/

variable {first root : Nat} {s t : Kernel}

/-- The hardware walk of every address ends at the page of the last call that contains it. -/
def Agrees (m : Mem) (root : Nat) (calls : List MapCall) : Prop :=
  ∀ v, lookup (tableView m) 3 root (walkPath v) = (lastCall calls v).map fun c => (c.size.level, c.phys)

theorem Agrees.translate {m : Mem} {calls : List MapCall} (agrees : Agrees m root calls)
    (valid : ∀ c ∈ calls, c.Valid) (v : Nat) : translate m root v = spaceOf calls v := by
  unfold System14.translate spaceOf
  rw [agrees v]
  cases last : lastCall calls v with
  | none => rfl
  | some c =>
    obtain ⟨member, covers⟩ := lastCall_mem last
    simp only [Option.map_some, (valid c member).offset covers]

theorem Mapped.agrees {c : MapCall} {calls : List MapCall} (mapped : Mapped first root c.virt c.phys c.size s t)
    (valid : c.Valid) (before : Agrees s.mem root calls) : Agrees t.mem root (calls ++ [c]) := by
  intro v
  rw [lastCall_concat]
  by_cases covers : c.Covers v
  · rw [if_pos covers, mapped.hit _ (valid.onPage_iff_covers.mpr covers)]
    rfl
  · rw [if_neg covers, mapped.miss _ fun on => covers (valid.onPage_iff_covers.mp on), before v]

theorem Mapped.translate_outside {c : MapCall} (mapped : Mapped first root c.virt c.phys c.size s t) (valid : c.Valid)
    {v : Nat} (outside : ¬ c.Covers v) : translate t.mem root v = translate s.mem root v := by
  unfold System14.translate
  rw [mapped.miss _ fun on => outside (valid.onPage_iff_covers.mp on)]

/-- A zeroed frame to start from, and an allocator that hands out frames below 2^40. -/
structure BlankRoot (s : Kernel) (first root : Nat) : Prop where
  frames : FrameTable s first
  pool : ∀ i < frameCount s, frameFree s i = true → first + 4096 * i < 2 ^ 40
  held : Held s first root
  zero : ∀ x, root ≤ x → x < root + 4096 → s.mem x = 0

theorem BlankRoot.word (blank : BlankRoot s first root) (i : Fin 512) : entryWord s.mem root i = 0 := by
  have bounds := entryAddr_bounds root i
  exact load_of_zero fun x low high => blank.zero x (by omega) (by omega)

theorem BlankRoot.empty (blank : BlankRoot s first root) (l : Nat) (i : Fin 512) :
    tableView s.mem l root i = .empty := by
  unfold tableView
  rw [blank.word i, entrySlot, BitField.get_zero, if_pos rfl]

theorem BlankRoot.only_root (blank : BlankRoot s first root) {path : Nat → Fin 512} {l a : Nat}
    (reached : Reaches (tableView s.mem) 3 root path l a) : l = 3 ∧ a = root := by
  induction reached with
  | root => exact ⟨rfl, rfl⟩
  | down _ entry ih =>
    rw [ih.2, blank.empty] at entry
    exact nomatch entry

theorem BlankRoot.tables (blank : BlankRoot s first root) : Tables s first root := by
  refine ⟨blank.frames, blank.pool, ?_, ?_, ?_⟩
  · rintro a ⟨path, l, reached⟩
    rw [(blank.only_root reached).2]
    exact blank.held
  · intro path path' l l' a one two
    refine ⟨(blank.only_root one).1.trans (blank.only_root two).1.symm, fun j low high => ?_⟩
    have := (blank.only_root one).1
    omega
  · intro path l a i reached _
    rw [(blank.only_root reached).2]
    exact blank.word i

theorem BlankRoot.lookup (blank : BlankRoot s first root) (path : Nat → Fin 512) :
    lookup (tableView s.mem) 3 root path = none := by
  rw [Radix.lookup, blank.empty]

theorem BlankRoot.agrees (blank : BlankRoot s first root) : Agrees s.mem root [] := fun _ => blank.lookup _

theorem Granted.blankRoot {i : Nat} (granted : Granted s first i root t) (frames : FrameTable s first)
    (pool : ∀ i < frameCount s, frameFree s i = true → first + 4096 * i < 2 ^ 40) : BlankRoot t first root := by
  refine ⟨granted.table, fun j lt free => ?_, granted.held frames pool, granted.zero⟩
  rw [granted.count] at lt
  rw [granted.taken j lt] at free
  split at free
  · exact nomatch free
  · exact pool j lt free

def MapStep (root : Nat) : Kernel × List MapCall → MapCall → Kernel × List MapCall → Prop
  | (s, calls), c, (t, calls') =>
    ∃ status, mapMemory .halts root c.virt c.phys c.size c.user s = .ok (status, t) ∧ calls' = calls ++ [c]

/-- The call is valid, and a small page is not mapped where a large one is at that moment. -/
def MapAllowed (root : Nat) : Kernel × List MapCall → MapCall → Prop
  | (s, _), c => c.Valid ∧ Clear s.mem root c.virt c.size

def MapReach (s₀ : Kernel) (root : Nat) : Kernel × List MapCall → Prop :=
  Reach (· = (s₀, [])) (MapStep root) (MapAllowed root)

theorem mapCall_yields {c : MapCall} (tables : Tables s first root) (valid : c.Valid)
    (clear : Clear s.mem root c.virt c.size) :
    Yields (Unexpected 3 s) (mapMemory .halts root c.virt c.phys c.size c.user s) fun r =>
      r.1 = .success ∧ Mapped first root c.virt c.phys c.size s r.2 := by
  have page : 4096 ∣ c.size.bytes := by cases c.size <;> decide
  exact mapMemory_yields tables (Nat.dvd_trans page valid.phys) valid.small clear

theorem mapReach_inv {s₀ : Kernel} {calls : List MapCall} (blank : BlankRoot s₀ first root)
    (reached : MapReach s₀ root (t, calls)) :
    Tables t first root ∧ (∀ c ∈ calls, c.Valid) ∧ Agrees t.mem root calls := by
  refine Reach.invariant (I := fun state => Tables state.1 first root ∧ (∀ c ∈ state.2, c.Valid) ∧
    Agrees state.1.mem root state.2) reached ?_ ?_
  · rintro _ rfl
    exact ⟨blank.tables, nofun, blank.agrees⟩
  · rintro ⟨s, calls⟩ c ⟨t, calls'⟩ ⟨tables, valid, agrees⟩ ⟨valid', clear⟩ ⟨status, call, rfl⟩
    have mapped := ((mapCall_yields tables valid' clear).ok call).2
    refine ⟨mapped.tables, ?_, mapped.agrees valid' agrees⟩
    intro c' member
    rcases List.mem_append.mp member with old | new
    · exact valid c' old
    · rw [List.mem_singleton.mp new]
      exact valid'

/-- The tables refine the abstract map: after any allowed calls on a blank root
the hardware walk gives the translation of the last call whose page contains the
address. A further allowed call succeeds while three frames are free, stops only
for lack of frames, and changes no translation outside its own page. -/
theorem mapMemory_refines {s₀ : Kernel} {calls : List MapCall} (blank : BlankRoot s₀ first root)
    (reached : MapReach s₀ root (t, calls)) :
    (∀ v, translate t.mem root v = spaceOf calls v) ∧
    ∀ c, MapAllowed root (t, calls) c →
      Yields (Unexpected 3 t) (mapMemory .halts root c.virt c.phys c.size c.user t) fun r =>
        r.1 = .success ∧ ∀ v, ¬ c.Covers v → translate r.2.mem root v = translate t.mem root v := by
  obtain ⟨tables, valid, agrees⟩ := mapReach_inv blank reached
  refine ⟨agrees.translate valid, fun c allowed => ?_⟩
  apply (mapCall_yields tables allowed.1 allowed.2).mono
  rintro r ⟨status, mapped⟩
  exact ⟨status, fun v outside => mapped.translate_outside allowed.1 outside⟩

theorem smallMap_root : ∃ s₀, BlankRoot s₀ 0x101000 0x101000 ∧ freeFrames s₀ = 3 := by
  obtain ⟨s₁, init⟩ := initializeAllocator_returns smallMap { mem := fun _ => 0 } (by decide)
  obtain ⟨_, _, count, table, free⟩ := initializeAllocator_ok init smallMap_noWrap
  have four : frameCount s₁ = 4 := by
    rw [count]
    decide
  have first : (selectedEntry smallMap).firstFrame = 0x101000 := by decide
  rw [first] at table
  obtain ⟨s₀, _, granted⟩ := pageAlloc_grants .halts table (i := 0) (by omega) (free 0 (by omega)) (by omega)
  refine ⟨s₀, granted.blankRoot table fun i lt _ => by omega, ?_⟩
  have all : freeFrames s₁ = 4 := by
    unfold freeFrames
    rw [List.countP_eq_length.mpr fun i member => free i (List.mem_range.mp member), List.length_range, four]
  have taken := granted.freeFrames
  omega

theorem BlankRoot.maps_first {s : Kernel} (blank : BlankRoot s first root) (enough : 3 ≤ freeFrames s) (user : Bool) :
    ∃ t, mapMemory .halts root 0x400000 0x200000 ._4K user s = .ok (.success, t) ∧
      MapReach s root (t, [⟨0x400000, 0x200000, ._4K, user⟩]) := by
  have valid : MapCall.Valid ⟨0x400000, 0x200000, ._4K, user⟩ :=
    ⟨(by decide : 2 ^ 12 ∣ 0x400000), (by decide : 2 ^ 12 ∣ 0x200000), (by decide : 0x200000 < 2 ^ 52)⟩
  have clear : Clear s.mem root 0x400000 ._4K := by
    intro _ b
    rw [blank.lookup]
    exact nofun
  obtain ⟨⟨status, t⟩, call, success, _⟩ := (mapCall_yields blank.tables valid clear).returns fun e => Or.inr enough
  change status = .success at success
  subst success
  exact ⟨t, call, Reach.step (Reach.init rfl) ⟨valid, clear⟩ ⟨_, call, rfl⟩⟩

/-- A small page that is mapped can be mapped again, which takes no frame. -/
theorem Tables.maps_again {virt b : Nat} (tables : Tables s first root)
    (found : lookup (tableView s.mem) 3 root (walkPath virt) = some (0, b)) (phys : Nat) (user : Bool) :
    Clear s.mem root virt ._4K ∧ ∃ t, mapMemory .halts root virt phys ._4K user s = .ok (.success, t) := by
  obtain ⟨T, walk, _⟩ := reaches_of_lookup found
  refine ⟨fun _ b' large => ?_, _, mapMemory_settled phys user tables walk⟩
  rw [found] at large
  cases large

/-- A page is mapped, mapped again elsewhere, and a large page next to it; a
further call on the first page leaves the large one as it is. -/
theorem mapMemory_refines_smallMap : ∃ s₀ t u, BlankRoot s₀ 0x101000 0x101000 ∧
    MapReach s₀ 0x101000
      (t, [⟨0x400000, 0x200000, ._4K, false⟩, ⟨0x400000, 0x300000, ._4K, true⟩, ⟨0x600000, 0x800000, ._2M, false⟩]) ∧
    translate t.mem 0x101000 0x400123 = some 0x300123 ∧ translate t.mem 0x101000 0x6abcde = some 0x8abcde ∧
    translate t.mem 0x101000 0x401000 = none ∧
    mapMemory .halts 0x101000 0x400000 0x500000 ._4K false t = .ok (.success, u) ∧
    translate u.mem 0x101000 0x6abcde = some 0x8abcde := by
  obtain ⟨s₀, blank, three⟩ := smallMap_root
  obtain ⟨s₁, _, reached₁⟩ := blank.maps_first (by omega) false
  obtain ⟨tables₁, _, agrees₁⟩ := mapReach_inv blank reached₁
  obtain ⟨clear₁, s₂, again⟩ := tables₁.maps_again ((agrees₁ 0x400000).trans rfl) 0x300000 true
  have reached₂ : MapReach s₀ 0x101000 (s₂, [⟨0x400000, 0x200000, ._4K, false⟩, ⟨0x400000, 0x300000, ._4K, true⟩]) :=
    reached₁.step (e := ⟨0x400000, 0x300000, ._4K, true⟩) ⟨⟨by decide, by decide, by decide⟩, clear₁⟩ ⟨_, again, rfl⟩
  obtain ⟨tables₂, _, agrees₂⟩ := mapReach_inv blank reached₂
  -- The page directory of the small page is also that of the large one.
  obtain ⟨T, walk, _⟩ := reaches_of_lookup ((agrees₂ 0x400000).trans rfl)
  obtain ⟨pd, above, _⟩ := walk.up (by decide)
  have next : Reaches (tableView s₂.mem) 3 0x101000 (walkPath 0x600000) 1 pd := above.agree fun j low high => by
    rcases show j = 2 ∨ j = 3 by omega with rfl | rfl <;> decide
  obtain ⟨s₃, large⟩ : ∃ s₃, mapMemory .halts 0x101000 0x600000 0x800000 ._2M false s₂ = .ok (.success, s₃) :=
    ⟨_, mapMemory_settled 0x800000 false tables₂ (show Reaches _ 3 _ _ PageSizes._2M.level pd from next)⟩
  have reached₃ : MapReach s₀ 0x101000
      (s₃, [⟨0x400000, 0x200000, ._4K, false⟩, ⟨0x400000, 0x300000, ._4K, true⟩, ⟨0x600000, 0x800000, ._2M, false⟩]) :=
    reached₂.step (e := ⟨0x600000, 0x800000, ._2M, false⟩)
      ⟨⟨by decide, by decide, by decide⟩, fun small => absurd small (by decide)⟩ ⟨_, large, rfl⟩
  obtain ⟨tables₃, _, agrees₃⟩ := mapReach_inv blank reached₃
  obtain ⟨clear₃, u, further⟩ := tables₃.maps_again ((agrees₃ 0x400000).trans rfl) 0x500000 false
  obtain ⟨space, others⟩ := mapMemory_refines blank reached₃
  have kept := ((others ⟨0x400000, 0x500000, ._4K, false⟩ ⟨⟨by decide, by decide, by decide⟩, clear₃⟩).ok further).2
  refine ⟨s₀, s₃, u, blank, reached₃, ?_, ?_, ?_, further, ?_⟩
  · rw [space]
    decide
  · rw [space]
    decide
  · rw [space]
    decide
  · rw [kept 0x6abcde (by decide), space]
    decide

end System14
