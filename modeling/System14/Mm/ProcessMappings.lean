import System14.Mm.Isolation

/-!
# The tables of a process against the kernel's

`GlobalPagingInfo` is kept for replicating the kernel's mappings in every
process. `CreateProcessPML4` maps the kernel image and the direct map of
[2 MiB, 1 GiB) as the kernel has them. It maps neither the rest of the direct
map nor the framebuffer.
-/

namespace System14
open ByteMem Run Radix

variable {first root fuel start stop v : Nat} {inKernelCode : Bool} {info : GlobalPagingInfo} {s t : Kernel}

/-- The addresses at which the kernel's code expects to find itself and its memory. -/
inductive KernelAddress (info : GlobalPagingInfo) : Nat → Prop where
  | image (i : Nat) : i < info.kernelSize → KernelAddress info (info.kernelVirtBase + i)
  | direct (a : Nat) : a < 2 ^ 32 → KernelAddress info (info.hhdmBase + a)
  | framebuffer (v : Nat) : info.fbBase ≤ v → v < info.fbBase + info.fbSize → KernelAddress info v

/-- The tables at `root` translate the kernel's addresses as those at `kernel` do. -/
def Replicates (info : GlobalPagingInfo) (m : Mem) (kernel : Nat) (m' : Mem) (root : Nat) : Prop :=
  ∀ v p, KernelAddress info v → translate m kernel v = some p → translate m' root v = some p

/-- The part of the kernel's addresses that `CreateProcessPML4` maps. -/
def Replicated (info : GlobalPagingInfo) (v : Nat) : Prop :=
  (∃ i < info.kernelSize, v = info.kernelVirtBase + i) ∨ ∃ a, 0x200000 ≤ a ∧ a < 0x40000000 ∧ v = info.hhdmBase + a

def InProgram (start stop : Nat) (inKernelCode : Bool) (v : Nat) : Prop :=
  inKernelCode = false ∧ ∃ c ∈ GlobalPagingInfo.userCalls start stop, c.Covers v

/-! ### Calls that do not matter for an address -/

theorem lastCall_append {one two : List MapCall} (off : ∀ c ∈ two, ¬ c.Covers v) :
    lastCall (one ++ two) v = lastCall one v := by
  have none : two.reverse.find? (fun c => c.Covers v) = none := by
    rw [List.find?_eq_none]
    intro c member
    simpa using off c (List.mem_reverse.mp member)
  unfold lastCall
  rw [List.reverse_append, List.find?_append, none, Option.none_or]

theorem spaceOf_none {calls : List MapCall} (off : ∀ c ∈ calls, ¬ c.Covers v) : spaceOf calls v = none := by
  unfold spaceOf
  cases last : lastCall calls v with
  | none => rfl
  | some c =>
    obtain ⟨member, covers⟩ := lastCall_mem last
    exact absurd covers (off c member)

theorem processCalls_append (info : GlobalPagingInfo) (start stop : Nat) (inKernelCode : Bool) :
    info.processCalls start stop inKernelCode =
      info.processCalls 0 0 true ++ (if inKernelCode then [] else GlobalPagingInfo.userCalls start stop) := by
  unfold GlobalPagingInfo.processCalls
  simp only [if_true, List.append_nil, List.append_assoc]

theorem spaceOf_process (off : ¬ InProgram start stop inKernelCode v) :
    spaceOf (info.processCalls start stop inKernelCode) v = spaceOf (info.processCalls 0 0 true) v := by
  unfold spaceOf
  rw [processCalls_append, lastCall_append]
  intro c member covers
  cases kind : inKernelCode with
  | true =>
    rw [kind] at member
    exact nomatch member
  | false =>
    rw [kind] at member
    exact off ⟨kind, c, member, covers⟩

/-! ### The kernel's side -/

theorem fb_covered (boot : info.Boot) {a : Nat} (inside : info.InFb a) :
    ∃ c ∈ info.fbCalls, info.highWindow.Maps c ∧ c.Covers (info.hhdmBase + a) := by
  have fits := boot.fbFits
  obtain ⟨low, high⟩ := inside
  obtain ⟨f, fb⟩ := boot.fb
  obtain ⟨h, hhdm⟩ := boot.hhdm
  have value : 4096 * ((info.hhdmBase + a) / 4096) ∈ loopValues info.fbBase (info.fbBase + info.fbSize) 4096 :=
    (mem_loopValues (by omega)).mpr ⟨by omega, (info.hhdmBase + a) / 4096 - f, by omega⟩
  have member : (⟨4096 * ((info.hhdmBase + a) / 4096), usub 64 (4096 * ((info.hhdmBase + a) / 4096)) info.hhdmBase, ._4K,
      false⟩ : MapCall) ∈ info.fbCalls := by
    unfold GlobalPagingInfo.fbCalls
    rw [uadd_of_lt (by omega)]
    exact List.mem_flatMap.mpr ⟨_, value, List.mem_singleton.mpr rfl⟩
  have maps := (GlobalPagingInfo.fb_maps boot member).1
  refine ⟨_, member, maps, maps.covers (d := 4096 * (a / 4096)) ?_ (by omega) ?_⟩
  · simp only [GlobalPagingInfo.highWindow]
    omega
  · simp only [PageSizes.bytes, PageSizes.level]
    omega

theorem default_space (boot : info.Boot) {a : Nat} (wanted : a < 2 ^ 32 ∨ info.InFb a) :
    spaceOf info.defaultCalls (info.hhdmBase + a) = some a := by
  have covered : a < 2 ^ 47 ∧ ∃ c ∈ info.defaultCalls, info.highWindow.Maps c ∧ c.Covers (info.hhdmBase + a) := by
    rcases wanted with direct | fb
    · exact ⟨by omega, (GlobalPagingInfo.default_covered boot direct).1⟩
    · obtain ⟨c, member, covered⟩ := fb_covered boot fb
      have near := boot.fbHigh _ fb.1 fb.2
      exact ⟨by omega, c, by simp [GlobalPagingInfo.defaultCalls, member], covered⟩
  obtain ⟨small, c, member, maps, covers⟩ := covered
  have value := spaceOf_window boot.apart (fun _ present => GlobalPagingInfo.default_maps boot present)
    (by simp [GlobalPagingInfo.windows]) member maps covers small
  simpa [GlobalPagingInfo.highWindow] using value

theorem default_image (boot : info.Boot) {i : Nat} (below : i < info.kernelSize) :
    spaceOf info.defaultCalls (info.kernelVirtBase + i) = some (info.kernelPhysBase + i) := by
  have small := boot.kernelSmall
  obtain ⟨c, member, maps, covers⟩ := GlobalPagingInfo.kernel_covered boot below
  exact spaceOf_window boot.apart (fun _ present => GlobalPagingInfo.default_maps boot present)
    (W := info.kernelWindow) (by simp [GlobalPagingInfo.windows]) (by simp [GlobalPagingInfo.defaultCalls, member]) maps
    covers (by omega)

/-! ### The side of the process -/

theorem task_image (boot : info.Boot) {i : Nat} (below : i < info.kernelSize) :
    spaceOf (info.processCalls 0 0 true) (info.kernelVirtBase + i) = some (info.kernelPhysBase + i) := by
  have small := boot.kernelSmall
  obtain ⟨c, member, maps, covers⟩ := GlobalPagingInfo.kernel_covered boot below
  exact spaceOf_window boot.apart (fun _ present => kernelTask_maps boot present)
    (W := info.kernelWindow) (by simp [GlobalPagingInfo.windows]) (by simp [GlobalPagingInfo.processCalls, member]) maps
    covers (by omega)

theorem task_large (boot : info.Boot) {a : Nat} (low : 0x200000 ≤ a) (high : a < 0x40000000) :
    spaceOf (info.processCalls 0 0 true) (info.hhdmBase + a) = some a := by
  obtain ⟨c, member, maps, covers⟩ := (GlobalPagingInfo.twice_covered boot ._2M 0x200000
    0x40000000 (by omega) (by decide) low high).1
  have large : c ∈ info.largeCalls := member
  have value := spaceOf_window boot.apart (fun _ present => kernelTask_maps boot present)
    (by simp [GlobalPagingInfo.windows]) (by simp [GlobalPagingInfo.processCalls, large]) maps covers (by omega)
  simpa [GlobalPagingInfo.highWindow] using value

theorem task_missing (boot : info.Boot) {a : Nat} (wanted : a < 2 ^ 32 ∨ info.InFb a)
    (off : a < 0x200000 ∨ 0x40000000 ≤ a) : ∀ c ∈ info.processCalls 0 0 true, ¬ c.Covers (info.hhdmBase + a) := by
  have inside : info.highWindow.contains (info.hhdmBase + a) := ⟨a, wanted, rfl⟩
  have small : a < 2 ^ 48 := by
    rcases wanted with direct | fb
    · omega
    · have near := boot.fbHigh _ fb.1 fb.2
      omega
  intro c member covers
  rcases mem_processCalls member with large | kernel | ⟨program, _⟩
  · exact GlobalPagingInfo.high_off_large boot large inside small off covers
  · have maps := (GlobalPagingInfo.kernel_maps boot kernel).1
    have floor := maps.inside _ (maps.valid.covers_floor covers) (Nat.dvd_sub_mod _)
    apply boot.kernelNotHigh _ floor
    obtain ⟨h, hhdm⟩ := boot.hhdm
    obtain ⟨f, fb⟩ := boot.fb
    refine ⟨a - a % 4096, wanted.imp (fun direct => by omega) fun inside => ?_, ?_⟩
    · unfold GlobalPagingInfo.InFb at inside ⊢
      omega
    · congr 1
      omega
  · exact nomatch program

/-- A program cannot stand in for the page at the start of the direct map: its
pages are mapped at their own addresses, and the direct map does not start at 0. -/
theorem process_start (boot : info.Boot) (clear : ProgramClear info start stop inKernelCode) :
    spaceOf (info.processCalls start stop inKernelCode) (info.hhdmBase + 0) ≠ some 0 := by
  have away : 2 ^ 32 ≤ info.hhdmBase % 2 ^ 48 := by
    by_contra near
    exact boot.highNotLow info.hhdmBase ⟨0, Or.inl (by omega), rfl⟩ (Or.inl (by omega))
  intro zero
  unfold spaceOf at zero
  obtain ⟨c, last, value⟩ := Option.map_eq_some_iff.mp zero
  obtain ⟨member, covers⟩ := lastCall_mem last
  rw [processCalls_append] at member
  rcases List.mem_append.mp member with task | user
  · exact task_missing boot (Or.inl (by omega)) (Or.inl (by omega)) c task covers
  · cases inKernelCode with
    | true => exact nomatch user
    | false =>
      obtain ⟨addr, _, rfl⟩ := (mem_userCalls clear.fits clear.startAligned).mp user
      simp only [MapCall.Covers, PageSizes.bytes, PageSizes.level] at covers value
      omega

/-! ### Replication -/

theorem process_agrees (boot : info.Boot) (wanted : KernelAddress info v)
    (off : ¬ InProgram start stop inKernelCode v) :
    spaceOf (info.processCalls start stop inKernelCode) v = spaceOf info.defaultCalls v ↔ Replicated info v := by
  have high : ∀ {a : Nat}, a < 2 ^ 32 ∨ info.InFb a →
      (spaceOf (info.processCalls 0 0 true) (info.hhdmBase + a) = spaceOf info.defaultCalls (info.hhdmBase + a) ↔
        Replicated info (info.hhdmBase + a)) := by
    intro a range
    have inside : info.highWindow.contains (info.hhdmBase + a) := ⟨a, range, rfl⟩
    rw [default_space boot range]
    by_cases large : 0x200000 ≤ a ∧ a < 0x40000000
    · rw [task_large boot large.1 large.2]
      exact iff_of_true rfl (Or.inr ⟨a, large.1, large.2, rfl⟩)
    · rw [spaceOf_none (task_missing boot range (by omega))]
      refine iff_of_false nofun ?_
      intro replicated
      rcases replicated with ⟨i, below, here⟩ | ⟨b, low, top, here⟩
      · exact boot.kernelNotHigh _ ⟨i, below, by rw [here]⟩ inside
      · omega
  rw [spaceOf_process off]
  cases wanted with
  | image i below =>
    rw [task_image boot below, default_image boot below]
    exact iff_of_true rfl (Or.inl ⟨i, below, rfl⟩)
  | direct a below => exact high (Or.inl below)
  | framebuffer v low top =>
    have near := (boot.fbHigh v low top).1
    have inside : info.InFb (v - info.hhdmBase) := by
      unfold GlobalPagingInfo.InFb
      omega
    have here : info.hhdmBase + (v - info.hhdmBase) = v := by omega
    rw [← here]
    exact high (Or.inr inside)

/-- No process replicates the kernel's tables, whatever the boot information and
the program; outside the program's own pages the addresses that do agree are known. -/
theorem createProcessPML4_never_replicates {kernel first' : Nat} {s₀ s₁ : Kernel} (blank : BlankRoot s₀ first kernel)
    (boot : s₀.globalPagingInfo.Boot) (clear : s₀.globalPagingInfo.SmallPagesClear) (enough : 2 ^ 64 ≤ fuel)
    (booted : createDefaultMappings .halts fuel kernel s₀ = .ok s₁) (frames : FrameTable s first')
    (pool : ∀ i < frameCount s, frameFree s i = true → first' + 4096 * i < 2 ^ 40)
    (same : s.globalPagingInfo = s₀.globalPagingInfo)
    (program : ProgramClear s.globalPagingInfo start stop inKernelCode)
    (created : Returns (createProcessPML4 .halts · start stop inKernelCode s) (root, t)) :
    ¬ Replicates s.globalPagingInfo s₁.mem kernel t.mem root ∧
      ∀ v, KernelAddress s.globalPagingInfo v → ¬ InProgram start stop inKernelCode v →
        (translate t.mem root v = translate s₁.mem kernel v ↔ Replicated s.globalPagingInfo v) := by
  have kernelBuilt := (createDefaultMappings_built blank boot clear enough).ok booted
  have kernelSide := kernelBuilt.agrees.translate (default_valid boot)
  rw [← same] at boot kernelSide
  obtain ⟨_, u, _, built⟩ := created.yields fun fuel enough =>
    createProcessPML4_yields frames pool boot program enough
  have processSide := built.agrees.translate (processCalls_valid boot program)
  constructor
  · intro replicates
    have value := replicates (s.globalPagingInfo.hhdmBase + 0) 0 (.direct 0 (by omega))
      (by rw [kernelSide]; exact default_space boot (Or.inl (by omega)))
    rw [processSide] at value
    exact process_start boot program value
  · intro v wanted off
    rw [kernelSide, processSide]
    exact process_agrees boot wanted off

theorem createProcessPML4_never_replicates_machine : ∃ s₀ s t root, s₀.globalPagingInfo = machineInfo [region] ∧
    createDefaultMappings .halts (2 ^ 64) 0x40080000 s₀ = .ok s ∧
    Returns (createProcessPML4 .halts · 0 0 true s) (root, t) ∧
    ¬ Replicates s.globalPagingInfo s.mem 0x40080000 t.mem root := by
  obtain ⟨s₀, s, t, root, info₀, blank, booted, kernel, info, created, _⟩ := machine_task
  have boot := machine_boot region_low
  have clear := machine_clear
  rw [← info₀] at boot clear
  exact ⟨s₀, s, t, root, info₀, booted, created, (createProcessPML4_never_replicates blank boot clear (Nat.le_refl _)
    booted kernel.tables.frames kernel.tables.pool (info.trans info₀.symm) (kernelTask_clear _) created).1⟩

/-- A kernel task on the machine cannot print: the framebuffer is missing. -/
theorem framebuffer_missing : ∃ s₀ s t root, s₀.globalPagingInfo = machineInfo [region] ∧
    createDefaultMappings .halts (2 ^ 64) 0x40080000 s₀ = .ok s ∧
    Returns (createProcessPML4 .halts · 0 0 true s) (root, t) ∧
    KernelAddress s.globalPagingInfo 0xffff800080000000 ∧
    translate s.mem 0x40080000 0xffff800080000000 = some 0x80000000 ∧ translate t.mem root 0xffff800080000000 = none ∧
    ¬ Replicates s.globalPagingInfo s.mem 0x40080000 t.mem root := by
  obtain ⟨s₀, s, t, root, info₀, blank, booted, kernel, info, created, u, task⟩ := machine_task
  have boot := machine_boot region_low
  have inside : (machineInfo [region]).InFb 0x80000000 := by
    simp only [GlobalPagingInfo.InFb, machineInfo]
    omega
  have here : (machineInfo [region]).hhdmBase + 0x80000000 = 0xffff800080000000 := by decide
  have address : KernelAddress s.globalPagingInfo 0xffff800080000000 := by
    rw [info]
    exact .framebuffer _ inside.1 inside.2
  have present : translate s.mem 0x40080000 0xffff800080000000 = some 0x80000000 := by
    have valid := default_valid (s := s₀) (by rw [info₀]; exact boot)
    rw [info₀] at valid
    rw [kernel.agrees.translate valid, ← here]
    exact default_space boot (Or.inr inside)
  have absent : translate t.mem root 0xffff800080000000 = none := by
    rw [task.agrees.translate (processCalls_valid boot (kernelTask_clear _)), ← here]
    exact spaceOf_none (task_missing boot (Or.inr inside) (Or.inr (by omega)))
  refine ⟨s₀, s, t, root, info₀, booted, created, address, present, absent, ?_⟩
  intro replicates
  have value := replicates _ _ address present
  rw [absent] at value
  exact Option.some_ne_none _ value.symm

end System14
