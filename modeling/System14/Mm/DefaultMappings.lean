import System14.Mm.Windows

/-!
# The kernel's own mappings

Where the windows do not collide and no small page falls into the large pages,
`CreateDefaultMappings` writes only the tables it builds and translates every
window as intended. Where a page of the memory map does fall into the large
pages, the code takes the large page itself for a page table and writes an
entry into it.
-/

namespace System14
open ByteMem Run Radix

variable {first root fuel : Nat} {s t u : Kernel}

/-- What `CreateDefaultMappings` is for. Apart from the allocator's own table
only the root and frames handed out during the call are written. -/
structure SoundBoot (first root : Nat) (s t : Kernel) : Prop where
  writes : ∀ x, t.mem x ≠ s.mem x → (s.frameList ≤ x ∧ x < s.frameList + 16 * frameCount s) ∨
    (root ≤ x ∧ x < root + 4096) ∨ ∃ i < frameCount s, frameFree s i = true ∧ frameFree t i = false ∧
      first + 4096 * i ≤ x ∧ x < first + 4096 * i + 4096
  kernel : ∀ i < s.globalPagingInfo.kernelSize, translate t.mem root (s.globalPagingInfo.kernelVirtBase + i) =
    some (s.globalPagingInfo.kernelPhysBase + i)
  high : ∀ a < 2 ^ 32, translate t.mem root (s.globalPagingInfo.hhdmBase + a) = some a
  low : ∀ a, 4096 ≤ a → a < 2 ^ 32 → translate t.mem root a = some a
  mmap : ∀ e ∈ s.globalPagingInfo.mmap, ∀ a, e.base ≤ a → a < e.base + e.length → translate t.mem root a = some a

theorem Built.writes {calls : List MapCall} (built : Built first root calls s t) (blank : BlankRoot s first root) :
    ∀ x, t.mem x ≠ s.mem x → (s.frameList ≤ x ∧ x < s.frameList + 16 * frameCount s) ∨
      (root ≤ x ∧ x < root + 4096) ∨ ∃ i < frameCount s, frameFree s i = true ∧ frameFree t i = false ∧
        first + 4096 * i ≤ x ∧ x < first + 4096 * i + 4096 := by
  intro x changed
  rcases built.move.writes x changed with table | ⟨a, ⟨path, l, walk⟩, range⟩ | frame
  · exact Or.inl table
  · rw [(blank.only_root walk).2] at range
    exact Or.inr (Or.inl range)
  · exact Or.inr (Or.inr frame)

theorem default_valid (boot : s.globalPagingInfo.Boot) : ∀ c ∈ s.globalPagingInfo.defaultCalls, c.Valid := by
  intro c member
  obtain ⟨W, _, maps⟩ := GlobalPagingInfo.default_maps boot member
  exact maps.valid

theorem createDefaultMappings_built (blank : BlankRoot s first root) (boot : s.globalPagingInfo.Boot)
    (clear : s.globalPagingInfo.SmallPagesClear) (enough : 2 ^ 64 ≤ fuel) :
    Yields (Unexpected (3 * (regions s.globalPagingInfo.defaultCalls).card) s)
      (createDefaultMappings .halts fuel root s) (Built first root s.globalPagingInfo.defaultCalls s) := by
  rw [createDefaultMappings_eq boot.noWrap enough]
  exact mapAll_yields blank (default_valid boot) (GlobalPagingInfo.default_orderly boot clear)

/-- The code meets its purpose on every boot whose small pages keep clear of the
large ones, unless frames run out: three for each 2 MiB region are enough. -/
theorem createDefaultMappings_sound (blank : BlankRoot s first root) (boot : s.globalPagingInfo.Boot)
    (clear : s.globalPagingInfo.SmallPagesClear) (enough : 2 ^ 64 ≤ fuel) :
    Yields (Unexpected (3 * (regions s.globalPagingInfo.defaultCalls).card) s)
      (createDefaultMappings .halts fuel root s) (SoundBoot first root s) := by
  have kinds := fun c member => GlobalPagingInfo.default_maps (c := c) boot member
  have valid := default_valid boot
  apply (createDefaultMappings_built blank boot clear enough).mono
  intro t built
  have at_ : ∀ {W : Window} {i : Nat}, W ∈ s.globalPagingInfo.windows → i < 2 ^ 47 →
      (∃ c ∈ s.globalPagingInfo.defaultCalls, W.Maps c ∧ c.Covers (W.virt + i)) →
      translate t.mem root (W.virt + i) = some (W.phys + i) := by
    rintro W i present small ⟨c, member, maps, covers⟩
    rw [built.agrees.translate valid]
    exact spaceOf_window boot.apart kinds present member maps covers small
  have high : s.globalPagingInfo.highWindow ∈ s.globalPagingInfo.windows := by simp [GlobalPagingInfo.windows]
  have low : s.globalPagingInfo.lowWindow ∈ s.globalPagingInfo.windows := by simp [GlobalPagingInfo.windows]
  have small := boot.kernelSmall
  refine ⟨built.writes blank, ?_, ?_, ?_, ?_⟩
  · intro i below
    obtain ⟨c, member, covered⟩ := GlobalPagingInfo.kernel_covered boot below
    exact at_ (W := s.globalPagingInfo.kernelWindow) (by simp [GlobalPagingInfo.windows]) (by omega)
      ⟨c, by simp [GlobalPagingInfo.defaultCalls, member], covered⟩
  · intro a below
    have value := at_ high (by omega) (GlobalPagingInfo.default_covered boot below).1
    simpa [GlobalPagingInfo.highWindow] using value
  · intro a page below
    have value := at_ low (by omega) ((GlobalPagingInfo.default_covered boot below).2 page)
    simpa [GlobalPagingInfo.lowWindow] using value
  · intro e present a start stop
    obtain ⟨_, _, bound⟩ := boot.mmap e present
    obtain ⟨c, member, covered⟩ := GlobalPagingInfo.entry_covered boot present start stop
    have here : c ∈ s.globalPagingInfo.mmap.flatMap GlobalPagingInfo.entryCalls :=
      List.mem_flatMap.mpr ⟨e, present, member⟩
    have value := at_ low (by omega) ⟨c, by simp only [GlobalPagingInfo.defaultCalls, List.mem_append, here, true_or,
      or_true], covered⟩
    simpa [GlobalPagingInfo.lowWindow] using value

/-! ### A machine -/

def region : MemmapEntry := { base := 0x40000000, length := 0x8000000, type := .usable }

def reservedPage : MemmapEntry := { base := 0x200000, length := 0x1000, type := .reserved }

/-- A machine with one page of kernel, the usual direct map and a framebuffer of one page at 2 GiB. -/
def machineInfo (mmap : List MemmapEntry) : GlobalPagingInfo where
  mmap := mmap
  hhdmBase := 0xffff800000000000
  kernelSize := 0x1000
  kernelPhysBase := 0x100000
  kernelVirtBase := 0xffffffff80000000
  fbBase := 0xffff800080000000
  fbSize := 0x1000

theorem machine_boot {mmap : List MemmapEntry}
    (low : ∀ e ∈ mmap, 4096 ∣ e.base ∧ 4096 ∣ e.length ∧ e.base + e.length ≤ 2 ^ 32) : (machineInfo mmap).Boot := by
  have fb : ∀ a, (machineInfo mmap).InFb a → a < 2 ^ 32 := by
    intro a inside
    simp only [GlobalPagingInfo.InFb, machineInfo] at inside
    omega
  have lowEnough : ∀ v, (machineInfo mmap).lowWindow.contains v → v % 2 ^ 48 < 2 ^ 32 := by
    intro v inside
    rcases inside with small | ⟨e, member, _, high⟩
    · exact small
    · have := (low e member).2.2
      omega
  refine ⟨?_, ?_, ?_, ?_, ?_, ?_, ?_, ?_, ?_, ?_, ?_, ?_, ?_, ?_⟩
  iterate 9
    · dsimp only [machineInfo]
      decide
  · intro i start stop
    simp only [machineInfo] at *
    omega
  · intro e member
    obtain ⟨base, length, bound⟩ := low e member
    exact ⟨base, length, by omega⟩
  · rintro v ⟨i, below, here⟩ ⟨a, range, there⟩
    have small : a < 2 ^ 32 := range.elim id (fb a)
    simp only [machineInfo] at *
    omega
  · rintro v ⟨i, below, here⟩ inside
    have small := lowEnough v inside
    simp only [machineInfo] at *
    omega
  · rintro v ⟨a, range, here⟩ inside
    have near : a < 2 ^ 32 := range.elim id (fb a)
    have small := lowEnough v inside
    simp only [machineInfo] at *
    omega

def machineRegions : Finset Nat :=
  (Finset.range 2048 ∪ (Finset.range 2048).image fun i => 2 ^ 26 + i) ∪ {0x7FFFC00}

theorem machineRegions_card : machineRegions.card ≤ 4097 := by
  have one := Finset.card_union_le (Finset.range 2048 ∪ (Finset.range 2048).image fun i => 2 ^ 26 + i) {0x7FFFC00}
  have two := Finset.card_union_le (Finset.range 2048) ((Finset.range 2048).image fun i => 2 ^ 26 + i)
  have three := Finset.card_image_le (s := Finset.range 2048) (f := fun i => 2 ^ 26 + i)
  rw [Finset.card_range] at two three
  rw [Finset.card_singleton] at one
  unfold machineRegions
  omega

theorem machine_regions {mmap : List MemmapEntry} {calls : List MapCall}
    (low : ∀ e ∈ mmap, 4096 ∣ e.base ∧ 4096 ∣ e.length ∧ e.base + e.length ≤ 2 ^ 32)
    (kinds : ∀ c ∈ calls, ∃ W ∈ (machineInfo mmap).windows, W.Maps c) : (regions calls).card ≤ 4097 := by
  apply (Finset.card_le_card _).trans machineRegions_card
  intro r member
  obtain ⟨c, present, rfl⟩ := List.mem_map.mp (List.mem_toFinset.mp member)
  obtain ⟨W, window, maps⟩ := kinds c present
  have page : 4096 ∣ c.size.bytes := by cases c.size <;> decide
  have inside := maps.inside c.virt c.covers_self (Nat.dvd_trans page maps.valid.virt)
  simp only [GlobalPagingInfo.windows, List.mem_cons, List.not_mem_nil, or_false] at window
  simp only [machineRegions, Finset.mem_union, Finset.mem_range, Finset.mem_image, Finset.mem_singleton, MapCall.region]
  rcases window with rfl | rfl | rfl
  · obtain ⟨i, below, here⟩ := inside
    simp only [machineInfo] at *
    omega
  · obtain ⟨a, range, here⟩ := inside
    have near : a < 2 ^ 32 := by
      rcases range with near | fb
      · exact near
      · simp only [GlobalPagingInfo.InFb, machineInfo] at fb
        omega
    simp only [machineInfo] at *
    exact Or.inl (Or.inr ⟨a / 2 ^ 21, by omega, by omega⟩)
  · have small : c.virt % 2 ^ 48 < 2 ^ 32 := by
      rcases inside with small | ⟨e, member, _, high⟩
      · exact small
      · have := (low e member).2.2
        omega
    exact Or.inl (Or.inl (by omega))

theorem machine_root (mmap : List MemmapEntry) (selected : selectedEntry mmap = region) :
    ∃ s, s.globalPagingInfo = machineInfo mmap ∧ BlankRoot s 0x40080000 0x40080000 ∧ freeFrames s = 32767 ∧
      s.frameList = 0x40000000 ∧ (∀ x < 0x40000000, s.mem x = 0) ∧ s.head.next = null := by
  have fit : (selectedEntry mmap).NoWrap := by
    rw [selected]
    unfold MemmapEntry.NoWrap
    decide
  obtain ⟨s₁, init⟩ := initializeAllocator_returns mmap
    { mem := fun _ => 0, globalPagingInfo := machineInfo mmap } (by rw [selected]; decide)
  obtain ⟨_, list, count, table, free⟩ := initializeAllocator_ok init fit
  obtain ⟨globals, outside⟩ := initializeAllocator_keeps init
  rw [selected] at list count table outside
  have frames : frameCount s₁ = 32768 := count
  have first : region.firstFrame = 0x40080000 := by decide
  rw [first] at table
  obtain ⟨s, _, granted⟩ := pageAlloc_grants .halts table (i := 0) (by omega) (free 0 (by omega)) (by omega)
  have all : freeFrames s₁ = 32768 := by
    unfold freeFrames
    rw [List.countP_eq_length.mpr fun i member => free i (List.mem_range.mp member), List.length_range, frames]
  have taken := granted.freeFrames
  have below : frameEntry s₁ 0 + 8 = 0x40000008 := by
    unfold frameEntry
    rw [list]
    rfl
  refine ⟨s, ?_, granted.blankRoot table fun i lt _ => by omega, by omega, granted.list.trans list, ?_, ?_⟩
  · rw [granted.globals, globals]
  · intro x lt
    rw [granted.keep x (by omega) (by omega), outside x (Or.inl lt)]
  · rw [granted.globals, globals]

theorem region_low : ∀ e ∈ [region], 4096 ∣ e.base ∧ 4096 ∣ e.length ∧ e.base + e.length ≤ 2 ^ 32 := by decide

theorem machine_clear : (machineInfo [region]).SmallPagesClear := by
  refine ⟨fun e member a start _ => ?_, fun a inside => ?_⟩
  · rw [List.mem_singleton.mp member] at start
    exact Or.inr start
  · simp only [GlobalPagingInfo.InFb, machineInfo] at inside
    omega

theorem machine_few : (regions (machineInfo [region]).defaultCalls).card ≤ 4097 :=
  machine_regions region_low fun _ member => GlobalPagingInfo.default_maps (machine_boot region_low) member

theorem createDefaultMappings_sound_machine : ∃ s t, s.globalPagingInfo = machineInfo [region] ∧
    createDefaultMappings .halts (2 ^ 64) 0x40080000 s = .ok t ∧ SoundBoot 0x40080000 0x40080000 s t := by
  obtain ⟨s, info, blank, frames, _, _⟩ := machine_root [region] rfl
  have boot := machine_boot region_low
  have clear := machine_clear
  have few := machine_few
  rw [← info] at boot clear few
  obtain ⟨t, call, sound⟩ := (createDefaultMappings_sound blank boot clear (Nat.le_refl _)).returns fun e =>
    Or.inr (by omega)
  exact ⟨s, t, info, call, sound⟩

/-! ### A small page among the large ones -/

def reservedCall : MapCall := ⟨0x200000, 0x200000, ._4K, false⟩

theorem reservedPage_calls : GlobalPagingInfo.entryCalls reservedPage = [reservedCall] := by decide

def callsBefore (info : GlobalPagingInfo) : List MapCall :=
  info.kernelCalls ++ (info.firstCalls ++ (info.largeCalls ++ info.twiceCalls ._4K 0x40000000 0x100000000 0x1000))

def callsAfter (info : GlobalPagingInfo) : List MapCall := GlobalPagingInfo.entryCalls region ++ info.fbCalls

theorem defaultCalls_split : (machineInfo [reservedPage, region]).defaultCalls =
    callsBefore (machineInfo [reservedPage, region]) ++
      ([reservedCall] ++ callsAfter (machineInfo [reservedPage, region])) := by
  have entries : (machineInfo [reservedPage, region]).mmap.flatMap GlobalPagingInfo.entryCalls =
      [reservedCall] ++ GlobalPagingInfo.entryCalls region := by
    show [reservedPage, region].flatMap GlobalPagingInfo.entryCalls = _
    rw [List.flatMap_cons, List.flatMap_cons, List.flatMap_nil, List.append_nil, reservedPage_calls]
  unfold GlobalPagingInfo.defaultCalls callsBefore callsAfter
  rw [entries]
  simp only [List.append_assoc]

section Stray

variable (boot : (machineInfo [reservedPage, region]).Boot)

include boot

theorem callsBefore_orderly : Orderly (callsBefore (machineInfo [reservedPage, region]) ++
    callsAfter (machineInfo [reservedPage, region])) := by
  have member : region ∈ (machineInfo [reservedPage, region]).mmap := by decide
  have fourSmall : ∀ c ∈ (machineInfo [reservedPage, region]).twiceCalls ._4K 0x40000000 0x100000000 0x1000,
      c.size = ._4K := fun c member =>
    (GlobalPagingInfo.twice_maps boot (by omega) (by omega) (by decide) (by decide) member).2
  have fbSmall : ∀ c ∈ (machineInfo [reservedPage, region]).fbCalls, c.size = ._4K := fun c member =>
    (GlobalPagingInfo.fb_maps boot member).2
  have entrySmall : ∀ c ∈ GlobalPagingInfo.entryCalls region, c.size = ._4K := fun c here =>
    (GlobalPagingInfo.entry_maps boot member here).2
  unfold callsBefore callsAfter
  simp only [List.append_assoc]
  apply GlobalPagingInfo.orderly_append_small fun c member => (GlobalPagingInfo.kernel_maps boot member).2
  apply GlobalPagingInfo.orderly_append_small fun c member => (GlobalPagingInfo.first_maps boot member).2
  apply GlobalPagingInfo.orderly_append (GlobalPagingInfo.large_orderly boot)
  · exact GlobalPagingInfo.orderly_append_small fourSmall
      (GlobalPagingInfo.orderly_append_small entrySmall (GlobalPagingInfo.orderly_small fbSmall))
  · intro c' large c later _ _
    simp only [List.mem_append] at later
    rcases later with four | entry | fb
    · exact GlobalPagingInfo.four_off_large boot large four
    · exact GlobalPagingInfo.entry_off_large boot large member (fun a low _ => Or.inr low) entry
    · exact GlobalPagingInfo.fb_off_large boot (fun a inside => by
        simp only [GlobalPagingInfo.InFb, machineInfo] at inside
        omega) large fb

end Stray

/-- Among the calls before, only one covers the address of the reserved page: that for the large page there. -/
theorem large_lookup {mmap : List MemmapEntry} {calls : List MapCall} {m : Mem} (boot : (machineInfo mmap).Boot)
    (agrees : Agrees m root calls) (within : ∀ c ∈ calls, c ∈ callsBefore (machineInfo mmap))
    (present : ∀ c ∈ (machineInfo mmap).largeCalls, c ∈ calls) :
    lookup (tableView m) 3 root (walkPath 0x200000) = some (1, 0x200000) := by
  have large : (⟨0x200000, 0x200000, ._2M, false⟩ : MapCall) ∈ (machineInfo mmap).largeCalls :=
    (GlobalPagingInfo.mem_twiceCalls (by omega)).mpr ⟨0x200000, ⟨by omega, 0, by omega⟩, Or.inl rfl⟩
  obtain ⟨c, last⟩ := lastCall_isSome (present _ large) (v := 0x200000) (by decide)
  obtain ⟨member, covers⟩ := lastCall_mem last
  rw [agrees, last, Option.map_some]
  have member := within c member
  unfold callsBefore at member
  simp only [List.mem_append] at member
  rcases member with kernel | first | large | four
  · have inside := (GlobalPagingInfo.kernel_maps boot kernel).1.inside _ covers (by decide)
    obtain ⟨i, below, here⟩ := inside
    simp only [machineInfo] at *
    omega
  · obtain ⟨i, ⟨below, k, rfl⟩, here⟩ := GlobalPagingInfo.mem_firstCalls.mp first
    rcases here with ⟨_, rfl⟩ | rfl
    · simp only [MapCall.Covers, PageSizes.bytes, PageSizes.level] at covers
      omega
    · simp only [MapCall.Covers, PageSizes.bytes, PageSizes.level, machineInfo] at covers
      rw [uadd_of_lt (by omega)] at covers
      omega
  · obtain ⟨i, ⟨below, k, rfl⟩, here⟩ := (GlobalPagingInfo.mem_twiceCalls (by omega)).mp large
    rcases here with rfl | rfl
    · simp only [MapCall.Covers, PageSizes.bytes, PageSizes.level] at covers
      simp only [PageSizes.level, Option.some.injEq, Prod.mk.injEq, true_and]
      omega
    · simp only [MapCall.Covers, PageSizes.bytes, PageSizes.level, machineInfo] at covers
      rw [uadd_of_lt (by omega)] at covers
      omega
  · obtain ⟨i, ⟨below, k, rfl⟩, here⟩ := (GlobalPagingInfo.mem_twiceCalls (by omega)).mp four
    rcases here with rfl | rfl
    · simp only [MapCall.Covers, PageSizes.bytes, PageSizes.level] at covers
      omega
    · simp only [MapCall.Covers, PageSizes.bytes, PageSizes.level, machineInfo] at covers
      rw [uadd_of_lt (by omega)] at covers
      omega

theorem Built.tables_above {calls : List MapCall} {a : Nat} (built : Built first root calls s t)
    (blank : BlankRoot s first root) (above : first ≤ root) (table : IsTable t.mem root a) : first ≤ a := by
  rcases built.move.tables a table with ⟨path, l, walk⟩ | ⟨i, _, _, _, rfl⟩
  · rw [(blank.only_root walk).2]
    exact above
  · omega

theorem MapMove.keeps_below {x : Nat} (move : MapMove first root s t) (list : x < s.frameList) (low : x < first)
    (tables : ∀ a, IsTable s.mem root a → x < a) : t.mem x = s.mem x := by
  by_contra changed
  rcases move.writes x changed with table | ⟨a, table, range⟩ | ⟨i, _, _, _, range⟩
  · omega
  · have := tables a table
    omega
  · omega

/-- A small page at 2 MiB, where a large one is mapped: its entry lands at physical address 2 MiB. -/
theorem stray_call (user : Bool) (tables : Tables u first root)
    (large : lookup (tableView u.mem) 3 root (walkPath 0x200000) = some (1, 0x200000)) :
    ∃ word v, mapAll .halts root [⟨0x200000, 0x200000, ._4K, user⟩] u = .ok v ∧ Assigned u 0x200000 0 word v ∧ word ≠ 0 := by
  have stray := mapMemory_stray 0x200000 user tables large (by decide) (by decide)
  have index : tableIndex 0 0x200000 = 0 := by decide
  rw [index] at stray
  have assigned := setLeaf_assigned 0x200000 0 0x200000 ._4K user u
  exact ⟨_, _, mapAll_of_call stray, assigned, leafWord_ne_zero _ _ _ _ (by decide) (by decide)⟩

/-- The page table entry for the reserved page at 2 MiB lands in that page itself. -/
theorem reservedPage_overwritten : ∃ s t, s.globalPagingInfo = machineInfo [reservedPage, region] ∧
    s.globalPagingInfo.Boot ∧ BlankRoot s 0x40080000 0x40080000 ∧
    createDefaultMappings .halts (2 ^ 64) 0x40080000 s = .ok t ∧ ¬ SoundBoot 0x40080000 0x40080000 s t := by
  obtain ⟨s, info, blank, frames, list, zero, _⟩ := machine_root [reservedPage, region] rfl
  have low : ∀ e ∈ [reservedPage, region], 4096 ∣ e.base ∧ 4096 ∣ e.length ∧ e.base + e.length ≤ 2 ^ 32 := by decide
  have boot : (machineInfo [reservedPage, region]).Boot := machine_boot low
  have orderly := callsBefore_orderly boot
  have kinds : ∀ c ∈ callsBefore (machineInfo [reservedPage, region]) ++ callsAfter (machineInfo [reservedPage, region]),
      ∃ W ∈ (machineInfo [reservedPage, region]).windows, W.Maps c := by
    intro c member
    apply GlobalPagingInfo.default_maps boot
    rw [defaultCalls_split]
    simp only [List.mem_append] at member ⊢
    rcases member with before | after
    · exact Or.inl before
    · exact Or.inr (Or.inr after)
  have valid : ∀ c ∈ callsBefore (machineInfo [reservedPage, region]) ++ callsAfter (machineInfo [reservedPage, region]),
      c.Valid := by
    intro c member
    obtain ⟨W, _, maps⟩ := kinds c member
    exact maps.valid
  have few := machine_regions low kinds
  have few' := machine_regions low fun c member => kinds c (List.mem_append_left _ member)
  obtain ⟨u, before, built⟩ := (mapAll_yields blank (fun c member => valid c (List.mem_append_left _ member))
    (List.pairwise_append.mp orderly).1).returns fun e => Or.inr (by omega)
  have above : ∀ a, IsTable u.mem 0x40080000 a → 0x40080000 ≤ a := fun a =>
    built.tables_above blank (Nat.le_refl _)
  have list' : u.frameList = 0x40000000 := built.move.list.trans list
  obtain ⟨word, v, single, assigned, nonzero⟩ := stray_call false built.tables
    (large_lookup boot built.agrees (fun c member => member) fun c large => by simp [callsBefore, large])
  change mapAll .halts 0x40080000 [reservedCall] u = .ok v at single
  have keep : ∀ x, 0x40000000 ≤ x → v.mem x = u.mem x := fun x high => assigned.keep x (by unfold entryAddr; omega)
  have same : SameTable u v := ⟨by rw [assigned.globals], by rw [assigned.globals], fun x low _ => keep x (by omega)⟩
  obtain ⟨tables, old, walks⟩ := built.tables.frame (built.tables.frames.congr same) same.frameList same.count
    (fun i lt free => by rw [same.free lt] at free; exact free)
    (fun a table x low _ => keep x (by have := above a table; omega))
  have again : Built 0x40080000 0x40080000 (callsBefore (machineInfo [reservedPage, region])) v v :=
    ⟨tables, MapMove.refl, fun path => (walks _).trans (built.agrees path), by omega⟩
  have left : freeFrames v = freeFrames u := same.freeFrames
  have used := built.frames
  -- The calls after it have their tables already.
  have rest := again.more (callsAfter (machineInfo [reservedPage, region]))
    (fun c member => valid c (List.mem_append_right _ member)) orderly
  obtain ⟨t, after, done⟩ := rest.returns fun e => Or.inr (by omega)
  refine ⟨s, t, info, by rw [info]; exact boot, blank, ?_, ?_⟩
  · rw [createDefaultMappings_eq (by rw [info]; exact boot.noWrap) (Nat.le_refl _), info, defaultCalls_split,
      mapAll_append, before, ok_bind, mapAll_append, single, ok_bind, after]
  · intro sound
    have unchanged : ∀ x, 0x200000 ≤ x → x < 0x200000 + 8 → v.mem x = 0 := by
      intro x start stop
      have final : t.mem x = v.mem x := done.move.keeps_below (by rw [same.frameList, list']; omega) (by omega)
        fun a table => by have := above a (old a table); omega
      by_contra changed
      have write := sound.writes x (by rw [final, zero x (by omega)]; exact changed)
      rcases write with table | range | ⟨i, _, _, _, range⟩
      · omega
      · omega
      · omega
    exact nonzero (assigned.word.symm.trans (load_of_zero unchanged))

/-! ### The memory-map loop -/

/-- The loop of `createDefaultMappings` over the entries of the memory map. -/
def mapEntries (mode : Panic) (fuel root : Nat) (mmap : List MemmapEntry) (s : Kernel) : Except Stop Kernel :=
  mmap.foldlM (fun s entry =>
    forLoop (fun j s => if j % 4096 ≠ 0 then .ok s else mapPage mode root j j ._4K false s)
      (uadd 64 entry.base entry.length) 4096 fuel entry.base s) s

theorem createDefaultMappings_entries (mode : Panic) (fuel root : Nat) (s : Kernel) :
    createDefaultMappings mode fuel root s = (do
      let info := s.globalPagingInfo
      let s ← mapKernel mode fuel root info s
      let s ← forLoop (fun i s => do
        let s ← if i ≠ 0 then mapPage mode root i i ._4K false s else .ok s
        mapPage mode root (uadd 64 info.hhdmBase i) i ._4K false s) 0x200000 4096 fuel 0 s
      let s ← mapTwice mode fuel root info ._2M 0x200000 0x40000000 0x200000 s
      let s ← mapTwice mode fuel root info ._4K 0x40000000 0x100000000 0x1000 s
      let s ← mapEntries mode fuel root info.mmap s
      forLoop (fun i => mapPage mode root i (usub 64 i info.hhdmBase) ._4K false)
        (uadd 64 info.fbBase info.fbSize) 4096 fuel info.fbBase s) := rfl

theorem mapEntries_eq {mode : Panic} {fuel root : Nat} {mmap : List MemmapEntry} {s : Kernel}
    (noWrap : ∀ e ∈ mmap, e.base + e.length + 4096 < 2 ^ 64) (enough : 2 ^ 64 ≤ fuel) :
    mapEntries mode fuel root mmap s = mapAll mode root (mmap.flatMap GlobalPagingInfo.entryCalls) s := by
  refine mapMmap_eq (fun e member => ?_) enough
  have small := noWrap e member
  rw [uadd_of_lt (by omega)]
  omega

/-- The page at `p` lies inside the entry. -/
def MemmapEntry.HasPage (e : MemmapEntry) (p : Nat) : Prop := 4096 ∣ p ∧ e.base ≤ p ∧ p + 4096 ≤ e.base + e.length

/-- The calls map every page of every entry to itself. -/
def PagesMapped (mmap : List MemmapEntry) (calls : List MapCall) : Prop :=
  ∀ e ∈ mmap, ∀ p, e.HasPage p → ⟨p, p, ._4K, false⟩ ∈ calls

theorem pagesMapped_iff {mmap : List MemmapEntry} (noWrap : ∀ e ∈ mmap, e.base + e.length + 4096 < 2 ^ 64) :
    PagesMapped mmap (mmap.flatMap GlobalPagingInfo.entryCalls) ↔
      ∀ e ∈ mmap, ¬ 4096 ∣ e.base → ∀ p, e.HasPage p →
        ∃ e' ∈ mmap, 4096 ∣ e'.base ∧ e'.base ≤ p ∧ p < e'.base + e'.length := by
  have fits : ∀ e ∈ mmap, e.base + e.length < 2 ^ 64 := fun e member => by
    have := noWrap e member
    omega
  constructor
  · intro mapped e member _ p page
    obtain ⟨e', member', call⟩ := List.mem_flatMap.mp (mapped e member p page)
    obtain ⟨aligned, j, ⟨low, high, _⟩, same⟩ := (GlobalPagingInfo.mem_entryCalls_iff (fits e' member')).mp call
    cases same
    exact ⟨e', member', aligned, low, high⟩
  · intro covered e member p page
    obtain ⟨e', member', aligned, low, high⟩ : ∃ e' ∈ mmap, 4096 ∣ e'.base ∧ e'.base ≤ p ∧ p < e'.base + e'.length := by
      by_cases aligned : 4096 ∣ e.base
      · have low := page.2.1
        have high := page.2.2
        exact ⟨e, member, aligned, low, by omega⟩
      · exact covered e member aligned p page
    refine List.mem_flatMap.mpr ⟨e', member', (GlobalPagingInfo.mem_entryCalls_iff (fits e' member')).mpr ?_⟩
    exact ⟨aligned, p, ⟨low, high, page.1⟩, rfl⟩

/-- The loop makes the calls of `entryCalls`, one entry after the other, and
maps every page of the memory map exactly when each page of an entry that does
not start on a page boundary starts inside another entry that does. -/
theorem memory_map_mapped_iff {mmap : List MemmapEntry} (noWrap : ∀ e ∈ mmap, e.base + e.length + 4096 < 2 ^ 64) :
    (∀ mode root s, ∀ fuel ≥ 2 ^ 64,
      mapEntries mode fuel root mmap s = mapAll mode root (mmap.flatMap GlobalPagingInfo.entryCalls) s) ∧
    (PagesMapped mmap (mmap.flatMap GlobalPagingInfo.entryCalls) ↔
      ∀ e ∈ mmap, ¬ 4096 ∣ e.base → ∀ p, e.HasPage p →
        ∃ e' ∈ mmap, 4096 ∣ e'.base ∧ e'.base ≤ p ∧ p < e'.base + e'.length) :=
  ⟨fun _ _ _ _ enough => mapEntries_eq noWrap enough, pagesMapped_iff noWrap⟩

def acpiTables : MemmapEntry := { base := 0xBFFE0800, length := 0x2000, type := .acpiReclaimable }

def reservedTop : MemmapEntry := { base := 0xBFFE0000, length := 0x10000, type := .reserved }

/-- The page of the ACPI tables is mapped for an entry that overlaps with theirs. -/
theorem memory_map_mapped_acpiTables : acpiTables.HasPage 0xBFFE1000 ∧ ¬ 4096 ∣ acpiTables.base ∧
    PagesMapped [acpiTables, reservedTop] ([acpiTables, reservedTop].flatMap GlobalPagingInfo.entryCalls) := by
  refine ⟨⟨by decide, by decide, by decide⟩, by decide, (memory_map_mapped_iff (by decide)).2.mpr ?_⟩
  intro e member unaligned p page
  obtain ⟨_, low, high⟩ := page
  rcases List.mem_pair.mp member with rfl | rfl
  · refine ⟨reservedTop, List.mem_pair.mpr (Or.inr rfl), by decide, ?_, ?_⟩
    · exact Nat.le_trans (by decide : reservedTop.base ≤ acpiTables.base) low
    · exact Nat.lt_of_lt_of_le (Nat.lt_add_of_pos_right (by decide)) (Nat.le_trans high (by decide))
  · exact absurd (by decide) unaligned

/-- The ACPI tables have a whole page at 0xBFFE1000, and the loop makes no call at all for them. -/
theorem acpiTables_not_mapped : acpiTables.base + acpiTables.length + 4096 < 2 ^ 64 ∧ acpiTables.HasPage 0xBFFE1000 ∧
    (∀ mode root s, ∀ fuel ≥ 2 ^ 64, mapEntries mode fuel root [acpiTables] s = .ok s) ∧
    ¬ PagesMapped [acpiTables] ([acpiTables].flatMap GlobalPagingInfo.entryCalls) := by
  have page : acpiTables.HasPage 0xBFFE1000 := by
    unfold MemmapEntry.HasPage
    decide
  have none : [acpiTables].flatMap GlobalPagingInfo.entryCalls = [] := by decide
  refine ⟨by decide, page, fun mode root s fuel enough => ?_, fun mapped => ?_⟩
  · rw [mapEntries_eq (by decide) enough, none, mapAll_nil]
  · have call := mapped acpiTables List.mem_cons_self _ page
    rw [none] at call
    exact nomatch call

end System14
