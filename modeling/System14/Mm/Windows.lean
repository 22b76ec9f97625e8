import System14.Mm.Mappings

/-!
# Windows of virtual memory

`CreateDefaultMappings` maps three kinds of virtual addresses, each at a fixed
distance from the physical ones: the kernel image, the higher half and low
memory. Each of its calls maps a page of one of these windows, and the calls
are orderly when no small page falls into the large pages between 2 MiB and
1 GiB.
-/

namespace System14
open ByteMem Run Radix

variable {calls : List MapCall} {c : MapCall}

/-! ### Windows -/

/-- A set of virtual addresses that is mapped at a fixed distance. -/
structure Window where
  contains : Nat → Prop
  virt : Nat
  phys : Nat

structure Window.Maps (W : Window) (c : MapCall) : Prop where
  valid : c.Valid
  shift : ∃ d < 2 ^ 47, c.virt = W.virt + d ∧ c.phys = W.phys + d
  inside : ∀ v, c.Covers v → 4096 ∣ v → W.contains v

theorem MapCall.Valid.covers_floor {v : Nat} (valid : c.Valid) (covers : c.Covers v) : c.Covers (v - v % 4096) := by
  obtain ⟨k, virt⟩ := valid.virt
  unfold Covers at *
  rw [virt] at covers ⊢
  cases same : c.size with
  | _4K =>
    simp only [same, PageSizes.bytes, PageSizes.level] at *
    omega
  | _2M =>
    simp only [same, PageSizes.bytes, PageSizes.level] at *
    omega

theorem MapCall.Valid.covers_of_offset {r : Nat} (valid : c.Valid) (inside : r < c.size.bytes) :
    c.Covers (c.virt + r) := by
  obtain ⟨k, virt⟩ := valid.virt
  unfold Covers
  rw [virt]
  cases same : c.size with
  | _4K =>
    simp only [same, PageSizes.bytes, PageSizes.level] at *
    omega
  | _2M =>
    simp only [same, PageSizes.bytes, PageSizes.level] at *
    omega

theorem PageSizes.bytes_le (size : PageSizes) : size.bytes ≤ 2 ^ 21 := by cases size <;> decide

theorem Window.Maps.translate {W : Window} {i : Nat} (maps : W.Maps c) (covers : c.Covers (W.virt + i))
    (small : i < 2 ^ 47) : c.phys + ((W.virt + i) % 2 ^ 48 - c.virt % 2 ^ 48) = W.phys + i := by
  obtain ⟨d, bound, virt, phys⟩ := maps.shift
  have bytes := c.size.bytes_le
  unfold MapCall.Covers at covers
  rw [virt] at covers ⊢
  rw [phys]
  omega

theorem Window.Maps.covers {W : Window} {d i : Nat} (maps : W.Maps c) (virt : c.virt = W.virt + d) (low : d ≤ i)
    (high : i < d + c.size.bytes) : c.Covers (W.virt + i) := by
  have covers := maps.valid.covers_of_offset (r := i - d) (by omega)
  rw [virt, Nat.add_assoc, Nat.add_sub_cancel' low] at covers
  exact covers

/-- In windows that do not meet, every address that some call covers has the window's translation. -/
theorem spaceOf_window {windows : List Window} {W : Window} {i : Nat}
    (apart : ∀ W ∈ windows, ∀ W' ∈ windows, ∀ v, W.contains v → W'.contains v → W = W')
    (kinds : ∀ c ∈ calls, ∃ W ∈ windows, W.Maps c) (present : W ∈ windows) (member : c ∈ calls) (maps : W.Maps c)
    (covers : c.Covers (W.virt + i)) (small : i < 2 ^ 47) : spaceOf calls (W.virt + i) = some (W.phys + i) := by
  obtain ⟨c', last⟩ := lastCall_isSome member covers
  obtain ⟨member', covers'⟩ := lastCall_mem last
  obtain ⟨W', present', maps'⟩ := kinds c' member'
  have floor : 4096 ∣ W.virt + i - (W.virt + i) % 4096 := Nat.dvd_sub_mod _
  have same : W = W' := apart W present W' present' _
    (maps.inside _ (maps.valid.covers_floor covers) floor) (maps'.inside _ (maps'.valid.covers_floor covers') floor)
  subst same
  unfold spaceOf
  rw [last, Option.map_some, maps'.translate covers' small]

/-! ### The windows of the kernel -/

namespace GlobalPagingInfo

variable {info : GlobalPagingInfo}

def kernelWindow (info : GlobalPagingInfo) : Window where
  contains v := ∃ i < info.kernelSize, v % 2 ^ 48 = (info.kernelVirtBase + i) % 2 ^ 48
  virt := info.kernelVirtBase
  phys := info.kernelPhysBase

def InFb (info : GlobalPagingInfo) (a : Nat) : Prop :=
  info.fbBase ≤ info.hhdmBase + a ∧ info.hhdmBase + a < info.fbBase + info.fbSize

def highWindow (info : GlobalPagingInfo) : Window where
  contains v := ∃ a, (a < 2 ^ 32 ∨ info.InFb a) ∧ v % 2 ^ 48 = (info.hhdmBase + a) % 2 ^ 48
  virt := info.hhdmBase
  phys := 0

def lowWindow (info : GlobalPagingInfo) : Window where
  contains v := v % 2 ^ 48 < 2 ^ 32 ∨ ∃ e ∈ info.mmap, e.base ≤ v % 2 ^ 48 ∧ v % 2 ^ 48 < e.base + e.length
  virt := 0
  phys := 0

def windows (info : GlobalPagingInfo) : List Window := [info.kernelWindow, info.highWindow, info.lowWindow]

/-- What a bootloader promises: aligned ranges of canonical addresses that do not collide. -/
structure Boot (info : GlobalPagingInfo) : Prop where
  hhdm : 2 ^ 21 ∣ info.hhdmBase
  hhdmFits : info.hhdmBase + 2 ^ 32 ≤ 2 ^ 64
  kernelVirt : 4096 ∣ info.kernelVirtBase
  kernelPhys : 4096 ∣ info.kernelPhysBase
  kernelFits : info.kernelVirtBase + info.kernelSize ≤ 2 ^ 64
  kernelSmall : info.kernelSize ≤ 2 ^ 47
  kernelLow : info.kernelPhysBase + info.kernelSize ≤ 2 ^ 52
  fb : 4096 ∣ info.fbBase
  fbFits : info.fbBase + info.fbSize + 4096 ≤ 2 ^ 64
  fbHigh : ∀ i, info.fbBase ≤ i → i < info.fbBase + info.fbSize → info.hhdmBase ≤ i ∧ i < info.hhdmBase + 2 ^ 47
  mmap : ∀ e ∈ info.mmap, 4096 ∣ e.base ∧ 4096 ∣ e.length ∧ e.base + e.length ≤ 2 ^ 47
  kernelNotHigh : ∀ v, info.kernelWindow.contains v → ¬ info.highWindow.contains v
  kernelNotLow : ∀ v, info.kernelWindow.contains v → ¬ info.lowWindow.contains v
  highNotLow : ∀ v, info.highWindow.contains v → ¬ info.lowWindow.contains v

/-- No page of a memory map entry or of the framebuffer lies in the range of the large pages. -/
structure SmallPagesClear (info : GlobalPagingInfo) : Prop where
  mmap : ∀ e ∈ info.mmap, ∀ a, e.base ≤ a → a < e.base + e.length → a < 0x200000 ∨ 0x40000000 ≤ a
  fb : ∀ a, info.InFb a → a < 0x200000 ∨ 0x40000000 ≤ a

theorem Boot.noWrap (boot : info.Boot) : info.NoWrap := by
  have small := boot.kernelSmall
  have fits := boot.fbFits
  refine ⟨by omega, fun e member => ?_, ?_⟩
  · have bound := (boot.mmap e member).2.2
    rw [uadd_of_lt (by omega)]
    omega
  · rw [uadd_of_lt (by omega)]
    exact fits

theorem Boot.apart (boot : info.Boot) :
    ∀ W ∈ info.windows, ∀ W' ∈ info.windows, ∀ v, W.contains v → W'.contains v → W = W' := by
  intro W one W' two v
  simp only [windows, List.mem_cons, List.not_mem_nil, or_false] at one two
  rcases one with rfl | rfl | rfl <;> rcases two with rfl | rfl | rfl <;> intro here there
  · rfl
  · exact absurd there (boot.kernelNotHigh v here)
  · exact absurd there (boot.kernelNotLow v here)
  · exact absurd here (boot.kernelNotHigh v there)
  · rfl
  · exact absurd there (boot.highNotLow v here)
  · exact absurd here (boot.kernelNotLow v there)
  · exact absurd here (boot.highNotLow v there)
  · rfl

theorem kernel_maps (boot : info.Boot) (member : c ∈ info.kernelCalls) :
    info.kernelWindow.Maps c ∧ c.size = ._4K := by
  obtain ⟨i, value, here⟩ := List.mem_flatMap.mp member
  obtain ⟨below, k, rfl⟩ := (mem_loopValues (by omega)).mp value
  have fits := boot.kernelFits
  have small := boot.kernelSmall
  have low := boot.kernelLow
  obtain ⟨v, virt⟩ := boot.kernelVirt
  obtain ⟨p, phys⟩ := boot.kernelPhys
  rw [List.mem_singleton] at here
  subst here
  rw [uadd_of_lt (by omega), uadd_of_lt (by omega)]
  refine ⟨⟨⟨?_, ?_, ?_⟩, ⟨0 + 4096 * k, by omega, rfl, rfl⟩, ?_⟩, rfl⟩
  · exact ⟨v + k, by simp only [PageSizes.bytes, PageSizes.level]; omega⟩
  · exact ⟨p + k, by simp only [PageSizes.bytes, PageSizes.level]; omega⟩
  · simp only
    omega
  · intro w covers aligned
    refine ⟨0 + 4096 * k, below, ?_⟩
    simp only [MapCall.Covers, PageSizes.bytes, PageSizes.level] at covers
    omega

theorem low_maps (info : GlobalPagingInfo) {i : Nat} {size : PageSizes} (aligned : size.bytes ∣ i) (small : i < 2 ^ 32) :
    info.lowWindow.Maps ⟨i, i, size, false⟩ := by
  obtain ⟨k, rfl⟩ := aligned
  refine ⟨⟨⟨k, rfl⟩, ⟨k, rfl⟩, by simp only; omega⟩, ⟨size.bytes * k, by omega, by simp [lowWindow], by simp [lowWindow]⟩, ?_⟩
  intro v covers _
  left
  simp only [MapCall.Covers] at covers
  cases size <;> simp only [PageSizes.bytes, PageSizes.level] at * <;> omega

theorem high_maps (boot : info.Boot) {i : Nat} {size : PageSizes} (aligned : size.bytes ∣ i) (small : i < 2 ^ 32) :
    info.highWindow.Maps ⟨uadd 64 info.hhdmBase i, i, size, false⟩ := by
  have fits := boot.hhdmFits
  obtain ⟨k, rfl⟩ := aligned
  obtain ⟨h, hhdm⟩ := boot.hhdm
  rw [uadd_of_lt (by omega)]
  refine ⟨⟨?_, ⟨k, rfl⟩, by simp only; omega⟩, ⟨size.bytes * k, by omega, rfl, by simp [highWindow]⟩, ?_⟩
  · apply Nat.dvd_add _ ⟨k, rfl⟩
    rw [hhdm]
    cases size with
    | _4K => exact ⟨512 * h, by simp only [PageSizes.bytes, PageSizes.level]; omega⟩
    | _2M => exact ⟨h, rfl⟩
  · intro v covers _
    simp only [MapCall.Covers] at covers
    refine ⟨size.bytes * k + (v % 2 ^ 48 - (info.hhdmBase + size.bytes * k) % 2 ^ 48), Or.inl ?_, ?_⟩
    · cases size <;> simp only [PageSizes.bytes, PageSizes.level] at * <;> omega
    · cases size <;> simp only [PageSizes.bytes, PageSizes.level] at * <;> omega

theorem mem_twiceCalls {size : PageSizes} {start stop step : Nat} (positive : 0 < step) :
    c ∈ info.twiceCalls size start stop step ↔
      ∃ i, (i < stop ∧ ∃ k, i = start + step * k) ∧
        (c = ⟨i, i, size, false⟩ ∨ c = ⟨uadd 64 info.hhdmBase i, i, size, false⟩) := by
  unfold twiceCalls
  simp only [List.mem_flatMap, mem_loopValues positive, List.mem_cons, List.not_mem_nil, or_false]

theorem mem_firstCalls :
    c ∈ info.firstCalls ↔ ∃ i, (i < 0x200000 ∧ ∃ k, i = 0 + 4096 * k) ∧
      (i ≠ 0 ∧ c = ⟨i, i, ._4K, false⟩ ∨ c = ⟨uadd 64 info.hhdmBase i, i, ._4K, false⟩) := by
  unfold firstCalls
  simp only [List.mem_flatMap, mem_loopValues (show 0 < 4096 by omega), List.mem_append, List.mem_singleton]
  constructor
  · rintro ⟨i, range, here⟩
    refine ⟨i, range, here.imp_left fun member => ?_⟩
    by_cases zero : i ≠ 0
    · rw [if_pos zero, List.mem_singleton] at member
      exact ⟨zero, member⟩
    · rw [if_neg zero] at member
      exact nomatch member
  · rintro ⟨i, range, here⟩
    refine ⟨i, range, here.imp_left fun member => ?_⟩
    rw [if_pos member.1, List.mem_singleton]
    exact member.2

/-- The loop steps by pages, so it either meets every page boundary of the entry or none. -/
theorem mem_entryCalls_iff {e : MemmapEntry} (fits : e.base + e.length < 2 ^ 64) :
    c ∈ entryCalls e ↔
      4096 ∣ e.base ∧ ∃ j, (e.base ≤ j ∧ j < e.base + e.length ∧ 4096 ∣ j) ∧ c = ⟨j, j, ._4K, false⟩ := by
  unfold entryCalls
  rw [uadd_of_lt fits]
  constructor
  · intro member
    obtain ⟨j, value, here⟩ := List.mem_flatMap.mp member
    obtain ⟨below, k, rfl⟩ := (mem_loopValues (by omega)).mp value
    by_cases skip : (e.base + 4096 * k) % 4096 ≠ 0
    · rw [if_pos skip] at here
      exact nomatch here
    · rw [if_neg skip, List.mem_singleton] at here
      exact ⟨by omega, _, ⟨by omega, below, by omega⟩, here⟩
  · rintro ⟨⟨b, base⟩, j, ⟨low, high, k, rfl⟩, rfl⟩
    refine List.mem_flatMap.mpr ⟨4096 * k, (mem_loopValues (by omega)).mpr ⟨high, k - b, by omega⟩, ?_⟩
    rw [if_neg (by omega), List.mem_singleton]

theorem mem_entryCalls {e : MemmapEntry} (aligned : 4096 ∣ e.base) (fits : e.base + e.length < 2 ^ 64) :
    c ∈ entryCalls e ↔ ∃ j, (e.base ≤ j ∧ j < e.base + e.length ∧ 4096 ∣ j) ∧ c = ⟨j, j, ._4K, false⟩ :=
  (mem_entryCalls_iff fits).trans (and_iff_right aligned)

theorem mem_fbCalls (fits : info.fbBase + info.fbSize < 2 ^ 64) (member : c ∈ info.fbCalls) :
    ∃ i k, i = info.fbBase + 4096 * k ∧ i < info.fbBase + info.fbSize ∧
      c = ⟨i, usub 64 i info.hhdmBase, ._4K, false⟩ := by
  unfold fbCalls at member
  rw [uadd_of_lt fits] at member
  obtain ⟨i, value, here⟩ := List.mem_flatMap.mp member
  obtain ⟨below, k, rfl⟩ := (mem_loopValues (by omega)).mp value
  exact ⟨_, k, rfl, below, List.mem_singleton.mp here⟩

theorem entry_maps (boot : info.Boot) {e : MemmapEntry} (present : e ∈ info.mmap) (member : c ∈ entryCalls e) :
    info.lowWindow.Maps c ∧ c.size = ._4K := by
  obtain ⟨base, _, bound⟩ := boot.mmap e present
  obtain ⟨j, ⟨low, high, k, rfl⟩, rfl⟩ := (mem_entryCalls base (by omega)).mp member
  refine ⟨⟨⟨⟨k, rfl⟩, ⟨k, rfl⟩, by simp only; omega⟩, ⟨4096 * k, by omega, by simp [lowWindow], by simp [lowWindow]⟩, ?_⟩, rfl⟩
  intro v covers aligned
  simp only [MapCall.Covers, PageSizes.bytes, PageSizes.level] at covers
  exact Or.inr ⟨e, present, by omega, by omega⟩

theorem fb_maps (boot : info.Boot) (member : c ∈ info.fbCalls) : info.highWindow.Maps c ∧ c.size = ._4K := by
  have fits := boot.fbFits
  obtain ⟨i, k, here, below, rfl⟩ := mem_fbCalls (by omega) member
  obtain ⟨high, near⟩ := boot.fbHigh i (by omega) below
  obtain ⟨f, fb⟩ := boot.fb
  obtain ⟨h, hhdm⟩ := boot.hhdm
  rw [usub_of_le (by omega) high]
  refine ⟨⟨⟨⟨f + k, ?_⟩, ⟨f + k - 512 * h, ?_⟩, by simp only; omega⟩,
    ⟨i - info.hhdmBase, by omega, ?_, by simp [highWindow]⟩, ?_⟩, rfl⟩
  · simp only [PageSizes.bytes, PageSizes.level]
    omega
  · simp only [PageSizes.bytes, PageSizes.level]
    omega
  · simp only [highWindow]
    omega
  · intro v covers aligned
    simp only [MapCall.Covers, PageSizes.bytes, PageSizes.level] at covers
    refine ⟨i - info.hhdmBase, Or.inr ⟨by omega, by omega⟩, ?_⟩
    omega

theorem twice_maps (boot : info.Boot) {size : PageSizes} {start stop step : Nat} (positive : 0 < step)
    (small : stop ≤ 2 ^ 32) (first : size.bytes ∣ start) (stride : size.bytes ∣ step)
    (member : c ∈ info.twiceCalls size start stop step) :
    (info.highWindow.Maps c ∨ info.lowWindow.Maps c) ∧ c.size = size := by
  obtain ⟨i, ⟨below, k, rfl⟩, here⟩ := (mem_twiceCalls positive).mp member
  have aligned : size.bytes ∣ start + step * k := Nat.dvd_add first (Nat.dvd_trans stride (Nat.dvd_mul_right step k))
  rcases here with rfl | rfl
  · exact ⟨Or.inr (low_maps info aligned (by omega)), rfl⟩
  · exact ⟨Or.inl (high_maps boot aligned (by omega)), rfl⟩

theorem first_maps (boot : info.Boot) (member : c ∈ info.firstCalls) :
    (info.highWindow.Maps c ∨ info.lowWindow.Maps c) ∧ c.size = ._4K := by
  obtain ⟨i, ⟨below, k, rfl⟩, here⟩ := mem_firstCalls.mp member
  have aligned : PageSizes.bytes ._4K ∣ 0 + 4096 * k := by
    rw [Nat.zero_add]
    exact ⟨k, rfl⟩
  rcases here with ⟨_, rfl⟩ | rfl
  · exact ⟨Or.inr (low_maps info aligned (by omega)), rfl⟩
  · exact ⟨Or.inl (high_maps boot aligned (by omega)), rfl⟩

theorem default_maps (boot : info.Boot) (member : c ∈ info.defaultCalls) : ∃ W ∈ info.windows, W.Maps c := by
  have either : info.highWindow.Maps c ∨ info.lowWindow.Maps c → ∃ W ∈ info.windows, W.Maps c := by
    rintro (high | low)
    · exact ⟨_, by simp [windows], high⟩
    · exact ⟨_, by simp [windows], low⟩
  unfold defaultCalls at member
  simp only [List.mem_append] at member
  rcases member with kernel | low | large | small | entry | fb
  · exact ⟨_, by simp [windows], (kernel_maps boot kernel).1⟩
  · exact either (first_maps boot low).1
  · exact either (twice_maps boot (by omega) (by omega) (by decide) (by decide) large).1
  · exact either (twice_maps boot (by omega) (by omega) (by decide) (by decide) small).1
  · obtain ⟨e, present, here⟩ := List.mem_flatMap.mp entry
    exact either (Or.inr (entry_maps boot present here).1)
  · exact either (Or.inl (fb_maps boot fb).1)

/-! The large pages end below 1 GiB, at both places where they are mapped. -/

theorem large_covers (boot : info.Boot) {v : Nat} (member : c ∈ info.largeCalls) (covers : c.Covers v) :
    ∃ a, 0x200000 ≤ a ∧ a < 0x40000000 ∧ (v % 2 ^ 48 = a ∨ v % 2 ^ 48 = (info.hhdmBase + a) % 2 ^ 48) := by
  have fits := boot.hhdmFits
  obtain ⟨h, hhdm⟩ := boot.hhdm
  obtain ⟨i, ⟨below, k, rfl⟩, here⟩ := (mem_twiceCalls (by omega)).mp member
  rcases here with rfl | rfl
  · simp only [MapCall.Covers, PageSizes.bytes, PageSizes.level] at covers
    exact ⟨v % 2 ^ 48, by omega, by omega, Or.inl rfl⟩
  · rw [uadd_of_lt (by omega)] at covers
    simp only [MapCall.Covers, PageSizes.bytes, PageSizes.level] at covers
    refine ⟨0x200000 + 0x200000 * k + (v % 2 ^ 48 - (info.hhdmBase + (0x200000 + 0x200000 * k)) % 2 ^ 48), ?_, ?_, Or.inr ?_⟩
    · omega
    · omega
    · omega

theorem highWindow_of {v a : Nat} (small : a < 2 ^ 32) (here : v % 2 ^ 48 = (info.hhdmBase + a) % 2 ^ 48) :
    info.highWindow.contains v := ⟨a, Or.inl small, here⟩

theorem lowWindow_of {v : Nat} (small : v % 2 ^ 48 < 2 ^ 32) : info.lowWindow.contains v := Or.inl small

theorem low_off_large (boot : info.Boot) {c' : MapCall} {v : Nat} (member : c' ∈ info.largeCalls)
    (inside : info.lowWindow.contains v) (small : v < 2 ^ 48) (off : v < 0x200000 ∨ 0x40000000 ≤ v) : ¬ c'.Covers v := by
  intro covers
  obtain ⟨a, low, high, here | here⟩ := large_covers boot member covers
  · omega
  · exact boot.highNotLow v (highWindow_of (by omega) here) inside

theorem high_off_large (boot : info.Boot) {c' : MapCall} {d : Nat} (member : c' ∈ info.largeCalls)
    (inside : info.highWindow.contains (info.hhdmBase + d)) (small : d < 2 ^ 48) (off : d < 0x200000 ∨ 0x40000000 ≤ d) :
    ¬ c'.Covers (info.hhdmBase + d) := by
  intro covers
  obtain ⟨a, low, high, here | here⟩ := large_covers boot member covers
  · exact boot.highNotLow _ inside (lowWindow_of (by omega))
  · omega

theorem kernel_off_large (boot : info.Boot) {c' : MapCall} {v : Nat} (member : c' ∈ info.largeCalls)
    (inside : info.kernelWindow.contains v) : ¬ c'.Covers v := by
  intro covers
  obtain ⟨a, low, high, here | here⟩ := large_covers boot member covers
  · exact boot.kernelNotLow v inside (lowWindow_of (by omega))
  · exact boot.kernelNotHigh v inside (highWindow_of (by omega) here)

theorem orderly_small {l : List MapCall} (small : ∀ c ∈ l, c.size = ._4K) : Orderly l := by
  apply List.pairwise_of_forall_mem_list
  intro c' first c _ _ large
  rw [small c' first] at large
  exact nomatch large

theorem orderly_append {l l' : List MapCall} (one : Orderly l) (two : Orderly l')
    (cross : ∀ c' ∈ l, ∀ c ∈ l', c'.size = ._2M → c.size = ._4K → ¬ c'.Covers c.virt) : Orderly (l ++ l') :=
  List.pairwise_append.mpr ⟨one, two, fun c' first c second small large => cross c' first c second large small⟩

theorem orderly_append_small {l l' : List MapCall} (small : ∀ c ∈ l, c.size = ._4K) (rest : Orderly l') :
    Orderly (l ++ l') := by
  apply orderly_append (orderly_small small) rest
  intro c' first c _ large
  rw [small c' first] at large
  exact nomatch large

theorem large_orderly (boot : info.Boot) : Orderly info.largeCalls := by
  apply List.pairwise_of_forall_mem_list
  intro c' _ c second small
  rw [(twice_maps boot (by omega) (by omega) (by decide) (by decide) second).2] at small
  exact nomatch small

theorem four_off_large (boot : info.Boot) {c' : MapCall} (member : c' ∈ info.largeCalls)
    (small : c ∈ info.twiceCalls ._4K 0x40000000 0x100000000 0x1000) : ¬ c'.Covers c.virt := by
  have fits := boot.hhdmFits
  obtain ⟨i, ⟨below, k, rfl⟩, here⟩ := (mem_twiceCalls (by omega)).mp small
  rcases here with rfl | rfl
  · exact low_off_large boot member (lowWindow_of (by simp only; omega)) (by simp only; omega) (Or.inr (by simp only; omega))
  · simp only
    rw [uadd_of_lt (by omega)]
    exact high_off_large boot member (highWindow_of (by omega) rfl) (by omega) (Or.inr (by omega))

theorem entry_off_large (boot : info.Boot) {c' : MapCall} {e : MemmapEntry} (member : c' ∈ info.largeCalls)
    (present : e ∈ info.mmap) (off : ∀ a, e.base ≤ a → a < e.base + e.length → a < 0x200000 ∨ 0x40000000 ≤ a)
    (small : c ∈ entryCalls e) : ¬ c'.Covers c.virt := by
  obtain ⟨base, _, bound⟩ := boot.mmap e present
  obtain ⟨j, ⟨low, high, _⟩, rfl⟩ := (mem_entryCalls base (by omega)).mp small
  exact low_off_large boot member (Or.inr ⟨e, present, by simp only; omega, by simp only; omega⟩) (by simp only; omega)
    (off j low high)

theorem fb_off_large (boot : info.Boot) (off : ∀ a, info.InFb a → a < 0x200000 ∨ 0x40000000 ≤ a) {c' : MapCall}
    (member : c' ∈ info.largeCalls) (small : c ∈ info.fbCalls) : ¬ c'.Covers c.virt := by
  have fits := boot.fbFits
  obtain ⟨i, k, here, below, rfl⟩ := mem_fbCalls (by omega) small
  obtain ⟨high, near⟩ := boot.fbHigh i (by omega) below
  have inFb : info.InFb (i - info.hhdmBase) := ⟨by omega, by omega⟩
  have split : i = info.hhdmBase + (i - info.hhdmBase) := by omega
  simp only
  rw [split]
  exact high_off_large boot member ⟨_, Or.inr inFb, rfl⟩ (by omega) (off _ inFb)

theorem default_orderly (boot : info.Boot) (clear : info.SmallPagesClear) : Orderly info.defaultCalls := by
  have fourSmall : ∀ c ∈ info.twiceCalls ._4K 0x40000000 0x100000000 0x1000, c.size = ._4K := fun c member =>
    (twice_maps boot (by omega) (by omega) (by decide) (by decide) member).2
  have entrySmall : ∀ c ∈ info.mmap.flatMap entryCalls, c.size = ._4K := by
    intro c member
    obtain ⟨e, present, here⟩ := List.mem_flatMap.mp member
    exact (entry_maps boot present here).2
  have fbSmall : ∀ c ∈ info.fbCalls, c.size = ._4K := fun c member => (fb_maps boot member).2
  apply orderly_append_small fun c member => (kernel_maps boot member).2
  apply orderly_append_small fun c member => (first_maps boot member).2
  apply orderly_append (large_orderly boot)
  · exact orderly_append_small fourSmall (orderly_append_small entrySmall (orderly_small fbSmall))
  · intro c' large c later _ _
    simp only [List.mem_append] at later
    rcases later with four | entry | fb
    · exact four_off_large boot large four
    · obtain ⟨e, present, here⟩ := List.mem_flatMap.mp entry
      exact entry_off_large boot large present (clear.mmap e present) here
    · exact fb_off_large boot clear.fb large fb

/-! Every address of the windows that the code means to map is covered. -/

theorem kernel_covered (boot : info.Boot) {i : Nat} (below : i < info.kernelSize) :
    ∃ c ∈ info.kernelCalls, info.kernelWindow.Maps c ∧ c.Covers (info.kernelVirtBase + i) := by
  have fits := boot.kernelFits
  have value : 4096 * (i / 4096) ∈ loopValues 0 info.kernelSize 4096 :=
    (mem_loopValues (by omega)).mpr ⟨by omega, i / 4096, by omega⟩
  have member : (⟨uadd 64 info.kernelVirtBase (4096 * (i / 4096)), uadd 64 info.kernelPhysBase (4096 * (i / 4096)), ._4K,
      false⟩ : MapCall) ∈ info.kernelCalls := List.mem_flatMap.mpr ⟨_, value, List.mem_singleton.mpr rfl⟩
  have maps := (kernel_maps boot member).1
  refine ⟨_, member, maps, maps.covers (d := 4096 * (i / 4096)) ?_ (by omega) ?_⟩
  · exact uadd_of_lt (by omega)
  · simp only [PageSizes.bytes, PageSizes.level]
    omega

theorem twice_covered (boot : info.Boot) (size : PageSizes) (start stop : Nat) {a : Nat} (small : stop ≤ 2 ^ 32)
    (first : size.bytes ∣ start) (low : start ≤ a) (high : a < stop) :
    (∃ c ∈ info.twiceCalls size start stop size.bytes, info.highWindow.Maps c ∧ c.Covers (info.hhdmBase + a)) ∧
      ∃ c ∈ info.twiceCalls size start stop size.bytes, info.lowWindow.Maps c ∧ c.Covers (0 + a) := by
  have positive : 0 < size.bytes := Nat.two_pow_pos _
  have fits := boot.hhdmFits
  have rest := Nat.mod_lt (a - start) positive
  have split := Nat.div_add_mod (a - start) size.bytes
  have value : (start + size.bytes * ((a - start) / size.bytes)) < stop ∧
      ∃ k, start + size.bytes * ((a - start) / size.bytes) = start + size.bytes * k := ⟨by omega, _, rfl⟩
  have aligned : size.bytes ∣ start + size.bytes * ((a - start) / size.bytes) := Nat.dvd_add first (Nat.dvd_mul_right _ _)
  constructor
  · have maps := high_maps boot aligned (by omega)
    refine ⟨_, (mem_twiceCalls positive).mpr ⟨_, value, Or.inr rfl⟩, maps,
      maps.covers (d := start + size.bytes * ((a - start) / size.bytes)) ?_ (by omega) ?_⟩
    · exact uadd_of_lt (by omega)
    · simp only
      omega
  · have maps := low_maps info aligned (by omega)
    refine ⟨_, (mem_twiceCalls positive).mpr ⟨_, value, Or.inl rfl⟩, maps,
      maps.covers (d := start + size.bytes * ((a - start) / size.bytes)) ?_ (by omega) ?_⟩
    · exact (Nat.zero_add _).symm
    · simp only
      omega

theorem first_covered (boot : info.Boot) {a : Nat} (below : a < 0x200000) :
    (∃ c ∈ info.firstCalls, info.highWindow.Maps c ∧ c.Covers (info.hhdmBase + a)) ∧
      (4096 ≤ a → ∃ c ∈ info.firstCalls, info.lowWindow.Maps c ∧ c.Covers (0 + a)) := by
  have fits := boot.hhdmFits
  have value : 4096 * (a / 4096) < 0x200000 ∧ ∃ k, 4096 * (a / 4096) = 0 + 4096 * k := ⟨by omega, a / 4096, by omega⟩
  have aligned : PageSizes.bytes ._4K ∣ 4096 * (a / 4096) := ⟨a / 4096, rfl⟩
  constructor
  · have maps := high_maps boot aligned (by omega)
    refine ⟨_, mem_firstCalls.mpr ⟨_, value, Or.inr rfl⟩, maps, maps.covers (d := 4096 * (a / 4096)) ?_ (by omega) ?_⟩
    · exact uadd_of_lt (by omega)
    · simp only [PageSizes.bytes, PageSizes.level]
      omega
  · intro page
    have maps := low_maps info aligned (by omega)
    refine ⟨_, mem_firstCalls.mpr ⟨_, value, Or.inl ⟨by omega, rfl⟩⟩, maps,
      maps.covers (d := 4096 * (a / 4096)) (Nat.zero_add _).symm (by omega) ?_⟩
    simp only [PageSizes.bytes, PageSizes.level]
    omega

theorem entry_covered (boot : info.Boot) {e : MemmapEntry} {a : Nat} (present : e ∈ info.mmap) (low : e.base ≤ a)
    (high : a < e.base + e.length) : ∃ c ∈ entryCalls e, info.lowWindow.Maps c ∧ c.Covers (0 + a) := by
  obtain ⟨base, _, bound⟩ := boot.mmap e present
  have member : (⟨4096 * (a / 4096), 4096 * (a / 4096), ._4K, false⟩ : MapCall) ∈ entryCalls e :=
    (mem_entryCalls base (by omega)).mpr ⟨_, ⟨by omega, by omega, by omega⟩, rfl⟩
  have maps := (entry_maps boot present member).1
  refine ⟨_, member, maps, maps.covers (d := 4096 * (a / 4096)) (Nat.zero_add _).symm (by omega) ?_⟩
  simp only [PageSizes.bytes, PageSizes.level]
  omega

theorem default_covered (boot : info.Boot) {a : Nat} (below : a < 2 ^ 32) :
    (∃ c ∈ info.defaultCalls, info.highWindow.Maps c ∧ c.Covers (info.hhdmBase + a)) ∧
      (4096 ≤ a → ∃ c ∈ info.defaultCalls, info.lowWindow.Maps c ∧ c.Covers (0 + a)) := by
  have part : ∀ {l : List MapCall} {W : Window} {v : Nat}, (∀ c ∈ l, c ∈ info.defaultCalls) →
      (∃ c ∈ l, W.Maps c ∧ c.Covers v) → ∃ c ∈ info.defaultCalls, W.Maps c ∧ c.Covers v := by
    rintro l W v sub ⟨c, member, rest⟩
    exact ⟨c, sub c member, rest⟩
  by_cases one : a < 0x200000
  · have covered := first_covered boot one
    have sub : ∀ c ∈ info.firstCalls, c ∈ info.defaultCalls := fun c member => by simp [defaultCalls, member]
    exact ⟨part sub covered.1, fun page => part sub (covered.2 page)⟩
  · by_cases two : a < 0x40000000
    · have covered := twice_covered boot ._2M 0x200000 0x40000000 (a := a) (by omega)
        (by decide) (by omega) two
      have sub : ∀ c ∈ info.twiceCalls ._2M 0x200000 0x40000000 (PageSizes.bytes ._2M), c ∈ info.defaultCalls :=
        fun c member => by
          have : c ∈ info.largeCalls := member
          simp [defaultCalls, this]
      exact ⟨part sub covered.1, fun _ => part sub covered.2⟩
    · have covered := twice_covered boot ._4K 0x40000000 0x100000000 (a := a) (by omega)
        (by decide) (by omega) below
      have sub : ∀ c ∈ info.twiceCalls ._4K 0x40000000 0x100000000 (PageSizes.bytes ._4K), c ∈ info.defaultCalls :=
        fun c member => by
          have : c ∈ info.twiceCalls ._4K 0x40000000 0x100000000 0x1000 := member
          simp [defaultCalls, this]
      exact ⟨part sub covered.1, fun _ => part sub covered.2⟩

end GlobalPagingInfo

end System14
