import System14.Mm.DefaultMappings

/-!
# Isolation of address spaces

Every process has tables of its own. As long as no small page is mapped among
the large pages of an address space, creating a process and allocating a page
for one write only fresh frames and the tables of the space that is changed, so
every other space keeps its translations.
-/

namespace System14
open ByteMem Run Radix

variable {first root fuel start stop : Nat} {inKernelCode : Bool} {s t u : Kernel} {own : Nat → Prop}

/-! ### Confined changes -/

/-- Frames are only taken, and a byte that changes is in the frame table, in a
table of `own`, or in a frame taken by the change. -/
structure Confined (first : Nat) (own : Nat → Prop) (s t : Kernel) : Prop where
  frames : FrameTable t first
  list : t.frameList = s.frameList
  count : frameCount t = frameCount s
  info : t.globalPagingInfo = s.globalPagingInfo
  taken : ∀ i < frameCount s, frameFree t i = true → frameFree s i = true
  writes : ∀ x, t.mem x ≠ s.mem x → (s.frameList ≤ x ∧ x < s.frameList + 16 * frameCount s) ∨
    (∃ a, own a ∧ a ≤ x ∧ x < a + 4096) ∨
    ∃ i < frameCount s, frameFree s i = true ∧ frameFree t i = false ∧
      first + 4096 * i ≤ x ∧ x < first + 4096 * i + 4096

theorem MapMove.confined (move : MapMove first root s t) (frames : FrameTable t first) :
    Confined first (IsTable s.mem root) s t :=
  ⟨frames, move.list, move.count, by rw [move.globals], move.taken, move.writes⟩

theorem Confined.keeps_held {a x : Nat} (confined : Confined first own s t) (held : Held s first a)
    (apart : ∀ b, own b → 4096 ∣ b ∧ b ≠ a) (low : a ≤ x) (high : x < a + 4096) : t.mem x = s.mem x := by
  by_contra changed
  obtain ⟨k, rfl⟩ := held.aligned
  obtain ⟨f, rfl⟩ := confined.frames.aligned
  rcases confined.writes x changed with table | ⟨b, owned, range⟩ | ⟨i, lt, free, _, range⟩
  · have outside := held.table
    omega
  · obtain ⟨⟨j, rfl⟩, different⟩ := apart b owned
    omega
  · have used := held.used i lt free
    omega

theorem Confined.others {r : Nat} (confined : Confined first own s t) (tables : Tables s first r)
    (apart : ∀ a, IsTable s.mem r a → ∀ b, own b → 4096 ∣ b ∧ b ≠ a) :
    Tables t first r ∧ (∀ a, IsTable t.mem r a → IsTable s.mem r a) ∧
      ∀ v, translate t.mem r v = translate s.mem r v := by
  obtain ⟨after, old, walks⟩ := tables.frame confined.frames confined.list confined.count confined.taken
    fun a table x low high => confined.keeps_held (tables.held a table) (apart a table) low high
  refine ⟨after, old, fun v => ?_⟩
  unfold translate
  rw [walks]

theorem Confined.keeps_frame {i x : Nat} (confined : Confined first own s t) (frames : FrameTable s first)
    (used : frameFree s i = false) (aligned : ∀ b, own b → 4096 ∣ b)
    (other : ¬ own (first + 4096 * i)) (low : first + 4096 * i ≤ x) (high : x < first + 4096 * i + 4096) :
    t.mem x = s.mem x := by
  by_contra changed
  have above := frames.above
  rcases confined.writes x changed with table | ⟨b, owned, range⟩ | ⟨j, _, free, _, range⟩
  · omega
  · have different : b ≠ first + 4096 * i := by
      rintro rfl
      exact other owned
    obtain ⟨k, rfl⟩ := aligned b owned
    obtain ⟨f, rfl⟩ := frames.aligned
    omega
  · have same : j = i := by omega
    rw [same, used] at free
    exact nomatch free

theorem Granted.confined {i p : Nat} (granted : Granted s first i p u) : Confined first (fun _ => False) s u := by
  refine ⟨granted.table, granted.list, granted.count, by rw [granted.globals],
    fun j lt free => granted.taken_free lt free, ?_⟩
  intro x changed
  rcases granted.writes changed with table | frame
  · exact Or.inl table
  · rw [granted.page] at frame
    exact Or.inr (Or.inr ⟨i, granted.lt, granted.free, by rw [granted.taken i granted.lt, if_pos rfl], frame⟩)

theorem Granted.mapMove {i p : Nat} (granted : Granted s first i p u) (tables : Tables s first root) :
    Tables u first root ∧ MapMove first root s u ∧
      ∀ path, lookup (tableView u.mem) 3 root path = lookup (tableView s.mem) 3 root path := by
  obtain ⟨after, old, walks⟩ := tables.granted granted
  refine ⟨after, ⟨granted.globals, fun j lt free => granted.taken_free lt free,
    fun a table => Or.inl (old a table), ?_⟩, walks⟩
  intro x changed
  rcases granted.confined.writes x changed with table | ⟨_, nothing, _⟩ | frame
  · exact Or.inl table
  · exact nothing.elim
  · exact Or.inr (Or.inr frame)

/-! ### Creating a process -/

def InLarge (info : GlobalPagingInfo) (v : Nat) : Prop :=
  ∃ a, 0x200000 ≤ a ∧ a < 0x40000000 ∧ (v % 2 ^ 48 = a ∨ v % 2 ^ 48 = (info.hhdmBase + a) % 2 ^ 48)

/-- No page of the program lies among the large pages. Kernel tasks have no pages of their own. -/
structure ProgramClear (info : GlobalPagingInfo) (start stop : Nat) (inKernelCode : Bool) : Prop where
  startAligned : 4096 ∣ start
  stopAligned : 4096 ∣ stop
  fits : stop < 2 ^ 64
  clear : inKernelCode = false → ∀ addr, start ≤ addr → addr < stop → 4096 ∣ addr → ¬ InLarge info addr

theorem mem_userCalls {c : MapCall} (fits : stop < 2 ^ 64) (aligned : 4096 ∣ start) :
    c ∈ GlobalPagingInfo.userCalls start stop ↔
      ∃ addr, (start ≤ addr ∧ addr < stop ∧ 4096 ∣ addr) ∧ c = ⟨addr, addr % 2 ^ 52, ._4K, true⟩ := by
  obtain ⟨b, rfl⟩ := aligned
  unfold GlobalPagingInfo.userCalls
  constructor
  · intro member
    obtain ⟨addr, value, here⟩ := List.mem_flatMap.mp member
    obtain ⟨below, k, rfl⟩ := (mem_loopValues (by omega)).mp value
    rw [List.mem_singleton, uadd_of_lt (by omega)] at here
    exact ⟨_, ⟨by omega, below, by omega⟩, here⟩
  · rintro ⟨addr, ⟨low, high, k, rfl⟩, rfl⟩
    refine List.mem_flatMap.mpr ⟨4096 * k, (mem_loopValues (by omega)).mpr ⟨high, k - b, by omega⟩, ?_⟩
    rw [List.mem_singleton, uadd_of_lt (by omega)]
    rfl

section Process

variable {info : GlobalPagingInfo} {c : MapCall}

theorem mem_processCalls (member : c ∈ info.processCalls start stop inKernelCode) :
    c ∈ info.largeCalls ∨ c ∈ info.kernelCalls ∨
      inKernelCode = false ∧ c ∈ GlobalPagingInfo.userCalls start stop := by
  unfold GlobalPagingInfo.processCalls at member
  simp only [List.mem_append] at member
  rcases member with large | kernel | user
  · exact Or.inl large
  · exact Or.inr (Or.inl kernel)
  · cases inKernelCode with
    | true => exact nomatch user
    | false => exact Or.inr (Or.inr ⟨rfl, user⟩)

theorem userCalls_valid (clear : ProgramClear info start stop inKernelCode)
    (member : c ∈ GlobalPagingInfo.userCalls start stop) : c.Valid ∧ c.size = ._4K := by
  obtain ⟨addr, ⟨_, _, k, rfl⟩, rfl⟩ := (mem_userCalls clear.fits clear.startAligned).mp member
  refine ⟨⟨⟨k, rfl⟩, ⟨k % 2 ^ 40, ?_⟩, ?_⟩, rfl⟩
  · simp only [PageSizes.bytes, PageSizes.level]
    omega
  · simp only
    omega

theorem processCalls_valid (boot : info.Boot) (clear : ProgramClear info start stop inKernelCode) :
    ∀ c ∈ info.processCalls start stop inKernelCode, c.Valid := by
  intro c member
  rcases mem_processCalls member with large | kernel | ⟨_, user⟩
  · rcases (GlobalPagingInfo.twice_maps boot (by omega) (by omega) (by decide) (by decide) large).1 with high | low
    · exact high.valid
    · exact low.valid
  · exact (GlobalPagingInfo.kernel_maps boot kernel).1.valid
  · exact (userCalls_valid clear user).1

theorem processCalls_orderly (boot : info.Boot) (clear : ProgramClear info start stop inKernelCode) :
    Orderly (info.processCalls start stop inKernelCode) := by
  have userSmall : ∀ c ∈ (if inKernelCode then [] else GlobalPagingInfo.userCalls start stop), c.size = ._4K := by
    intro c member
    cases inKernelCode with
    | true => exact nomatch member
    | false => exact (userCalls_valid clear member).2
  unfold GlobalPagingInfo.processCalls
  apply GlobalPagingInfo.orderly_append (GlobalPagingInfo.large_orderly boot)
  · exact GlobalPagingInfo.orderly_append_small (fun c member => (GlobalPagingInfo.kernel_maps boot member).2)
      (GlobalPagingInfo.orderly_small userSmall)
  · intro c' large c later _ _ covers
    rcases List.mem_append.mp later with kernel | user
    · have maps := (GlobalPagingInfo.kernel_maps boot kernel)
      have aligned := maps.1.valid.virt
      rw [maps.2] at aligned
      exact GlobalPagingInfo.kernel_off_large boot large (maps.1.inside c.virt c.covers_self aligned) covers
    · cases kind : inKernelCode with
      | true =>
        rw [kind] at user
        exact nomatch user
      | false =>
        rw [kind] at user
        obtain ⟨addr, ⟨low, high, aligned⟩, rfl⟩ := (mem_userCalls clear.fits clear.startAligned).mp user
        exact clear.clear kind addr low high aligned (GlobalPagingInfo.large_covers boot large covers)

end Process

theorem createProcessPML4_yields (frames : FrameTable s first)
    (pool : ∀ i < frameCount s, frameFree s i = true → first + 4096 * i < 2 ^ 40) (boot : s.globalPagingInfo.Boot)
    (clear : ProgramClear s.globalPagingInfo start stop inKernelCode) (enough : 2 ^ 64 ≤ fuel) :
    Yields (Unexpected (3 * (regions (s.globalPagingInfo.processCalls start stop inKernelCode)).card + 1) s)
      (createProcessPML4 .halts fuel start stop inKernelCode s) fun r =>
        ∃ i u, Granted s first i r.1 u ∧
          Built first r.1 (s.globalPagingInfo.processCalls start stop inKernelCode) u r.2 := by
  have aligned := clear.stopAligned
  have fits := clear.fits
  have small := boot.kernelSmall
  rw [createProcessPML4_eq (by omega) (by omega) enough]
  apply (Yields.enough (pageAlloc_grant frames) (by omega)).bind
  rintro ⟨p, u⟩ ⟨i, granted⟩
  change Granted s first i p u at granted
  have count := granted.freeFrames
  have blank := granted.blankRoot frames pool
  have calls := mapAll_yields blank (processCalls_valid boot clear) (processCalls_orderly boot clear)
  apply (Yields.enough calls (by omega)).bind
  intro t built
  exact ⟨i, u, granted, built⟩

theorem createProcessPML4_returns {r : Nat × Kernel} (kernel : s.globalPagingInfo.kernelSize + 4096 ≤ 2 ^ 64)
    (user : stop + 4096 ≤ 2 ^ 64) (call : createProcessPML4 .halts (2 ^ 64) start stop inKernelCode s = .ok r) :
    Returns (createProcessPML4 .halts · start stop inKernelCode s) r := by
  refine ⟨2 ^ 64, fun fuel enough => ?_⟩
  show createProcessPML4 .halts fuel start stop inKernelCode s = .ok r
  rw [← call, createProcessPML4_eq kernel user enough, createProcessPML4_eq kernel user (Nat.le_refl _)]

theorem Built.confined {calls : List MapCall} {i : Nat} (built : Built first root calls u t)
    (granted : Granted s first i root u) (blank : BlankRoot u first root) :
    Confined first (fun _ => False) s t ∧
      ∀ a, IsTable t.mem root a → ∃ j < frameCount s, frameFree s j = true ∧ a = first + 4096 * j := by
  have count := granted.count
  have page := granted.page
  have lt := granted.lt
  have used : ∀ j < frameCount s, frameFree u j = false → frameFree t j = false := by
    intro j lt used
    cases again : frameFree t j with
    | false => rfl
    | true =>
      rw [built.move.taken j (by omega) again] at used
      exact nomatch used
  have rootUsed : frameFree t i = false := used i lt (by rw [granted.taken i lt, if_pos rfl])
  refine ⟨⟨built.tables.frames, built.move.list.trans granted.list, built.move.count.trans count, ?_, ?_, ?_⟩, ?_⟩
  · rw [built.move.globals, granted.globals]
  · intro j lt free
    exact granted.taken_free lt (built.move.taken j (by omega) free)
  · intro x changed
    by_cases same : t.mem x = u.mem x
    · rw [same] at changed
      rcases granted.confined.writes x changed with table | ⟨_, nothing, _⟩ | ⟨j, lt, free, taken, range⟩
      · exact Or.inl table
      · exact nothing.elim
      · exact Or.inr (Or.inr ⟨j, lt, free, used j lt taken, range⟩)
    · rcases built.writes blank x same with table | range | ⟨j, below, free, taken, range⟩
      · rw [granted.list, count] at table
        exact Or.inl table
      · exact Or.inr (Or.inr ⟨i, lt, granted.free, rootUsed, by omega, by omega⟩)
      · exact Or.inr (Or.inr ⟨j, by omega, granted.taken_free (by omega) free, taken, range⟩)
  · intro a table
    rcases built.move.tables a table with ⟨path, l, walk⟩ | ⟨j, below, free, _, here⟩
    · rw [(blank.only_root walk).2]
      exact ⟨i, lt, granted.free, page⟩
    · exact ⟨j, by omega, granted.taken_free (by omega) free, here⟩

/-! ### Several address spaces -/

/-- The address spaces at `roots` have tables of their own. -/
structure Spaces (s : Kernel) (first : Nat) (roots : List Nat) : Prop where
  frames : FrameTable s first
  pool : ∀ i < frameCount s, frameFree s i = true → first + 4096 * i < 2 ^ 40
  tables : ∀ r ∈ roots, Tables s first r
  apart : ∀ r ∈ roots, ∀ r' ∈ roots, r ≠ r' → ∀ a, IsTable s.mem r a → ¬ IsTable s.mem r' a

/-- What the kernel does with several address spaces around. `pageAlloc` takes
a frame for any other purpose. -/
inductive SpaceCall where
  | createProcessPML4 (start stop : Nat) (inKernelCode : Bool)
  | allocatePage (cr3 : Nat)
  | pageAlloc

def SpaceStep : Kernel × List Nat → SpaceCall → Kernel × List Nat → Prop
  | (s, roots), .createProcessPML4 start stop inKernelCode, (t, roots') =>
    ∃ root, Returns (createProcessPML4 .halts · start stop inKernelCode s) (root, t) ∧ roots' = root :: roots
  | (s, roots), .allocatePage cr3, (t, roots') =>
    cr3 ∈ roots ∧ ∃ page, allocatePage .halts cr3 s = .ok (page, t) ∧ roots' = roots
  | (s, roots), .pageAlloc, (t, roots') => ∃ page, pageAlloc .halts s = .ok (page, t) ∧ roots' = roots

/-- No small page of the call falls among large pages. For `AllocatePage` the
page is the first free frame, mapped at its own address. -/
def SpaceClear (first : Nat) : Kernel × List Nat → SpaceCall → Prop
  | (s, _), .createProcessPML4 start stop inKernelCode => ProgramClear s.globalPagingInfo start stop inKernelCode
  | (s, _), .allocatePage cr3 => ∀ i < frameCount s, frameFree s i = true → (∀ j < i, frameFree s j = false) →
    Clear s.mem cr3 (first + 4096 * i) ._4K
  | _, .pageAlloc => True

def SpaceCall.changes (s : Kernel) : SpaceCall → Nat → Prop
  | .allocatePage cr3 => IsTable s.mem cr3
  | _ => fun _ => False

def SpaceCall.Spares (r : Nat) : SpaceCall → Prop
  | .allocatePage cr3 => r ≠ cr3
  | _ => True

def SpaceReach (first : Nat) (s₀ : Kernel) (roots₀ : List Nat) : Kernel × List Nat → Prop :=
  Reach (· = (s₀, roots₀)) SpaceStep (SpaceClear first)

/-- What a call leaves alone. Apart from the allocator's own table it writes the
tables of the address space it changes and frames that it takes. -/
structure Isolated (first : Nat) (roots : List Nat) (call : SpaceCall) (s t : Kernel) : Prop where
  writes : ∀ x, t.mem x ≠ s.mem x → (s.frameList ≤ x ∧ x < s.frameList + 16 * frameCount s) ∨
    (∃ a, call.changes s a ∧ a ≤ x ∧ x < a + 4096) ∨
    ∃ i < frameCount s, frameFree s i = true ∧ frameFree t i = false ∧
      first + 4096 * i ≤ x ∧ x < first + 4096 * i + 4096
  spaces : ∀ r ∈ roots, call.Spares r → ∀ v, translate t.mem r v = translate s.mem r v
  contents : ∀ i < frameCount s, frameFree s i = false → ¬ call.changes s (first + 4096 * i) →
    ∀ x, first + 4096 * i ≤ x → x < first + 4096 * i + 4096 → t.mem x = s.mem x

section Step

variable {roots roots' : List Nat} {call : SpaceCall}

theorem Spaces.changes_apart {r : Nat} (spaces : Spaces s first roots) (member : r ∈ roots) (spares : call.Spares r)
    (owner : ∀ cr3, call = .allocatePage cr3 → cr3 ∈ roots) :
    ∀ a, IsTable s.mem r a → ∀ b, call.changes s b → 4096 ∣ b ∧ b ≠ a := by
  intro a table b owned
  cases call with
  | createProcessPML4 => exact owned.elim
  | pageAlloc => exact owned.elim
  | allocatePage cr3 =>
    have present := owner cr3 rfl
    refine ⟨((spaces.tables cr3 present).held b owned).aligned, ?_⟩
    intro same
    subst same
    exact spaces.apart r member cr3 present spares b table owned

/-- What the proofs below need to know of a step: its writes are confined, an
address space that is new or changed has old tables or fresh ones, and of two
address spaces one at least is neither. -/
structure StepSpec (first : Nat) (roots roots' : List Nat) (call : SpaceCall) (s t : Kernel) : Prop where
  confined : Confined first (call.changes s) s t
  owner : ∀ cr3, call = .allocatePage cr3 → cr3 ∈ roots
  changed : ∀ r ∈ roots', r ∈ roots ∧ call.Spares r ∨ Tables t first r ∧
    ∀ a, IsTable t.mem r a → call.changes s a ∨ ∃ j < frameCount s, frameFree s j = true ∧ a = first + 4096 * j
  one : ∀ r ∈ roots', ∀ r' ∈ roots', r ≠ r' → (r ∈ roots ∧ call.Spares r) ∨ (r' ∈ roots ∧ call.Spares r')

theorem createProcessPML4_step {start stop : Nat} {inKernelCode : Bool} (spaces : Spaces s first roots)
    (boot : s.globalPagingInfo.Boot) (clear : ProgramClear s.globalPagingInfo start stop inKernelCode)
    (returned : Returns (createProcessPML4 .halts · start stop inKernelCode s) (root, t)) :
    StepSpec first roots (root :: roots) (.createProcessPML4 start stop inKernelCode) s t := by
  obtain ⟨i, u, granted, built⟩ := returned.yields fun fuel enough =>
    createProcessPML4_yields spaces.frames spaces.pool boot clear enough
  obtain ⟨confined, fresh⟩ := built.confined granted (granted.blankRoot spaces.frames spaces.pool)
  refine ⟨confined, nofun, ?_, ?_⟩
  · intro r member
    rcases List.mem_cons.mp member with rfl | old
    · exact Or.inr ⟨built.tables, fun a table => Or.inr (fresh a table)⟩
    · exact Or.inl ⟨old, trivial⟩
  · intro r member r' member' different
    rcases List.mem_cons.mp member with rfl | old
    · rcases List.mem_cons.mp member' with rfl | old'
      · exact absurd rfl different
      · exact Or.inr ⟨old', trivial⟩
    · exact Or.inl ⟨old, trivial⟩

theorem allocatePage_step {cr3 page : Nat} (spaces : Spaces s first roots) (present : cr3 ∈ roots)
    (clear : SpaceClear first (s, roots) (.allocatePage cr3)) (call : allocatePage .halts cr3 s = .ok (page, t)) :
    StepSpec first roots roots (.allocatePage cr3) s t := by
  obtain ⟨⟨p, u⟩, alloc, call⟩ := bind_ok.mp call
  obtain ⟨v, mapped, call⟩ := bind_ok.mp call
  cases call
  obtain ⟨⟨status, w⟩, mapping, here⟩ := bind_ok.mp mapped
  cases here
  obtain ⟨i, granted⟩ := pageAlloc_ok spaces.frames alloc
  obtain ⟨after, move, walks⟩ := granted.mapMove (spaces.tables cr3 present)
  have free : Clear u.mem cr3 page ._4K := by
    intro small b found
    rw [walks, granted.page] at found
    exact clear i granted.lt granted.free granted.least small b found
  have aligned : 4096 ∣ page := by
    rw [granted.page]
    exact Nat.dvd_add spaces.frames.aligned (Nat.dvd_mul_right 4096 i)
  have low : page < 2 ^ 52 := by
    have below := spaces.pool i granted.lt granted.free
    have here := granted.page
    omega
  have done := ((mapMemory_yields after aligned low free).ok mapping).2
  have whole := move.trans done.move
  refine ⟨whole.confined done.tables.frames, ?_, ?_, ?_⟩
  · intro other same
    cases same
    exact present
  · intro r member
    by_cases here : r = cr3
    · subst here
      refine Or.inr ⟨done.tables, fun a table => ?_⟩
      rcases whole.tables a table with old | ⟨j, lt, free, _, here⟩
      · exact Or.inl old
      · exact Or.inr ⟨j, lt, free, here⟩
    · exact Or.inl ⟨member, here⟩
  · intro r member r' member' different
    by_cases here : r = cr3
    · subst here
      exact Or.inr ⟨member', fun same => different same.symm⟩
    · exact Or.inl ⟨member, here⟩

theorem spaceStep_spec (spaces : Spaces s first roots) (boot : s.globalPagingInfo.Boot)
    (clear : SpaceClear first (s, roots) call) (taken : SpaceStep (s, roots) call (t, roots')) :
    StepSpec first roots roots' call s t := by
  cases call with
  | createProcessPML4 start stop inKernelCode =>
    obtain ⟨root, returned, rfl⟩ := taken
    exact createProcessPML4_step spaces boot clear returned
  | allocatePage cr3 =>
    obtain ⟨present, page, returned, rfl⟩ := taken
    exact allocatePage_step spaces present clear returned
  | pageAlloc =>
    obtain ⟨page, returned, rfl⟩ := taken
    obtain ⟨i, granted⟩ := pageAlloc_ok spaces.frames returned
    exact ⟨granted.confined, nofun, fun r member => Or.inl ⟨member, trivial⟩,
      fun r member r' member' _ => Or.inl ⟨member, trivial⟩⟩

theorem StepSpec.others {r : Nat} (spec : StepSpec first roots roots' call s t) (spaces : Spaces s first roots)
    (member : r ∈ roots) (spares : call.Spares r) :
    Tables t first r ∧ (∀ a, IsTable t.mem r a → IsTable s.mem r a) ∧
      ∀ v, translate t.mem r v = translate s.mem r v :=
  spec.confined.others (spaces.tables r member) (spaces.changes_apart member spares spec.owner)

theorem StepSpec.isolated (spec : StepSpec first roots roots' call s t) (spaces : Spaces s first roots) :
    Isolated first roots call s t := by
  refine ⟨spec.confined.writes, fun r member spares => (spec.others spaces member spares).2.2, ?_⟩
  intro i _ used other x low high
  refine spec.confined.keeps_frame spaces.frames used ?_ other low high
  intro b owned
  cases call with
  | createProcessPML4 => exact owned.elim
  | pageAlloc => exact owned.elim
  | allocatePage cr3 => exact ((spaces.tables cr3 (spec.owner cr3 rfl)).held b owned).aligned

theorem StepSpec.apart {r r' : Nat} (spec : StepSpec first roots roots' call s t) (spaces : Spaces s first roots)
    (member : r ∈ roots) (spares : call.Spares r) (member' : r' ∈ roots') (different : r ≠ r') :
    ∀ a, IsTable t.mem r a → ¬ IsTable t.mem r' a := by
  intro a table table'
  have before := (spec.others spaces member spares).2.1 a table
  rcases spec.changed r' member' with ⟨old, spared⟩ | ⟨_, origin⟩
  · exact spaces.apart r member r' old different a before ((spec.others spaces old spared).2.1 a table')
  · rcases origin a table' with owned | ⟨j, lt, free, here⟩
    · exact (spaces.changes_apart member spares spec.owner a before a owned).2 rfl
    · exact ((spaces.tables r member).held a before).used j lt free here.symm

theorem StepSpec.spaces (spec : StepSpec first roots roots' call s t) (spaces : Spaces s first roots) :
    Spaces t first roots' := by
  refine ⟨spec.confined.frames, ?_, ?_, ?_⟩
  · intro i lt free
    rw [spec.confined.count] at lt
    exact spaces.pool i lt (spec.confined.taken i lt free)
  · intro r member
    rcases spec.changed r member with ⟨old, spares⟩ | ⟨tables, _⟩
    · exact (spec.others spaces old spares).1
    · exact tables
  · intro r member r' member' different a table table'
    rcases spec.one r member r' member' different with ⟨old, spares⟩ | ⟨old, spares⟩
    · exact spec.apart spaces old spares member' different a table table'
    · exact spec.apart spaces old spares member different.symm a table' table

end Step

/-- In every run of clear calls the address spaces keep tables of their own, and
every clear call leaves alone what is not its own. -/
theorem address_spaces_isolated {s₀ : Kernel} {roots₀ roots : List Nat} (start : Spaces s₀ first roots₀)
    (boot : s₀.globalPagingInfo.Boot) (reached : SpaceReach first s₀ roots₀ (s, roots)) :
    Spaces s first roots ∧ ∀ call t roots', SpaceClear first (s, roots) call →
      SpaceStep (s, roots) call (t, roots') → Isolated first roots call s t := by
  have kept : Spaces s first roots ∧ s.globalPagingInfo = s₀.globalPagingInfo := by
    refine reached.invariant
      (I := fun state => Spaces state.1 first state.2 ∧ state.1.globalPagingInfo = s₀.globalPagingInfo) ?_ ?_
    · intro state initial
      subst initial
      exact ⟨start, rfl⟩
    · intro ⟨s, roots⟩ call ⟨t, roots'⟩ ⟨spaces, info⟩ clear taken
      have spec := spaceStep_spec spaces (info ▸ boot) clear taken
      exact ⟨spec.spaces spaces, spec.confined.info.trans info⟩
  refine ⟨kept.1, fun call t roots' clear taken => ?_⟩
  exact (spaceStep_spec kept.1 (kept.2 ▸ boot) clear taken).isolated kept.1

/-! ### The machine with its kernel -/

theorem machine_kernel : ∃ s t, s.globalPagingInfo = machineInfo [region] ∧ BlankRoot s 0x40080000 0x40080000 ∧
    createDefaultMappings .halts (2 ^ 64) 0x40080000 s = .ok t ∧
    Built 0x40080000 0x40080000 (machineInfo [region]).defaultCalls s t ∧ t.globalPagingInfo = machineInfo [region] ∧
    20000 ≤ freeFrames t ∧ t.frameList = 0x40000000 ∧ (∀ x < 0x40000000, t.mem x = 0) ∧ t.head.next = null := by
  obtain ⟨s, info, blank, frames, list, zero, head⟩ := machine_root [region] rfl
  have boot := machine_boot region_low
  have clear := machine_clear
  have few := machine_few
  rw [← info] at boot clear few
  obtain ⟨t, call, built⟩ := (createDefaultMappings_built blank boot clear (Nat.le_refl _)).returns fun e =>
    Or.inr (by omega)
  have left := built.frames
  refine ⟨s, t, info, blank, call, by rw [← info]; exact built, ?_, by omega, built.move.list.trans list, ?_, ?_⟩
  · rw [built.move.globals]
    exact info
  · intro x below
    rw [built.move.keeps_below (by omega) (by omega), zero x below]
    intro a ⟨path, l, walk⟩
    rw [(blank.only_root walk).2]
    omega
  · rw [built.move.globals]
    exact head

theorem kernel_space (tables : Tables s first root) : Spaces s first [root] := by
  refine ⟨tables.frames, tables.pool, ?_, ?_⟩
  · intro r member
    rw [List.mem_singleton.mp member]
    exact tables
  · intro r member r' member' different
    exact absurd ((List.mem_singleton.mp member).trans (List.mem_singleton.mp member').symm) different

theorem kernelTask_clear (info : GlobalPagingInfo) : ProgramClear info 0 0 true :=
  ⟨⟨0, rfl⟩, ⟨0, rfl⟩, by omega, nofun⟩

theorem mem_kernelTask {info : GlobalPagingInfo} {c : MapCall} (member : c ∈ info.processCalls 0 0 true) :
    c ∈ info.largeCalls ∨ c ∈ info.kernelCalls := by
  rcases mem_processCalls member with large | kernel | ⟨program, _⟩
  · exact Or.inl large
  · exact Or.inr kernel
  · cases program

theorem kernelTask_maps {info : GlobalPagingInfo} {c : MapCall} (boot : info.Boot)
    (member : c ∈ info.processCalls 0 0 true) : ∃ W ∈ info.windows, W.Maps c := by
  apply GlobalPagingInfo.default_maps boot
  unfold GlobalPagingInfo.defaultCalls
  simp only [List.mem_append]
  rcases mem_kernelTask member with large | kernel
  · exact Or.inr (Or.inr (Or.inl large))
  · exact Or.inl kernel

theorem kernelTask_few : (regions ((machineInfo [region]).processCalls 0 0 true)).card ≤ 4097 :=
  machine_regions region_low fun _ member => kernelTask_maps (machine_boot region_low) member

theorem machine_task : ∃ s₀ s t root, s₀.globalPagingInfo = machineInfo [region] ∧
    BlankRoot s₀ 0x40080000 0x40080000 ∧ createDefaultMappings .halts (2 ^ 64) 0x40080000 s₀ = .ok s ∧
    Built 0x40080000 0x40080000 (machineInfo [region]).defaultCalls s₀ s ∧ s.globalPagingInfo = machineInfo [region] ∧
    Returns (createProcessPML4 .halts · 0 0 true s) (root, t) ∧
    ∃ u, Built 0x40080000 root ((machineInfo [region]).processCalls 0 0 true) u t := by
  obtain ⟨s₀, s, info₀, blank, booted, kernel, info, enough, _, _⟩ := machine_kernel
  have boot := machine_boot region_low
  have few := kernelTask_few
  rw [← info] at boot few
  obtain ⟨⟨root, t⟩, call, _, u, _, built⟩ := (createProcessPML4_yields kernel.tables.frames kernel.tables.pool boot
    (kernelTask_clear s.globalPagingInfo) (Nat.le_refl _)).returns fun e => Or.inr (by omega)
  have small := boot.kernelSmall
  exact ⟨s₀, s, t, root, info₀, blank, booted, kernel, info, createProcessPML4_returns (by omega) (by omega) call,
    u, info ▸ built⟩

theorem address_spaces_isolated_machine : ∃ s t root, s.globalPagingInfo = machineInfo [region] ∧
    SpaceStep (s, [0x40080000]) (.createProcessPML4 0 0 true) (t, [root, 0x40080000]) ∧
    Isolated 0x40080000 [0x40080000] (.createProcessPML4 0 0 true) s t ∧ Spaces t 0x40080000 [root, 0x40080000] := by
  obtain ⟨_, s, t, root, _, _, _, kernel, info, call, _⟩ := machine_task
  have spaces := kernel_space kernel.tables
  have boot := machine_boot region_low
  rw [← info] at boot
  have clear := kernelTask_clear s.globalPagingInfo
  have step : SpaceStep (s, [0x40080000]) (.createProcessPML4 0 0 true) (t, [root, 0x40080000]) := ⟨root, call, rfl⟩
  have start : SpaceReach 0x40080000 s [0x40080000] (s, [0x40080000]) := .init rfl
  exact ⟨s, t, root, info, step, (address_spaces_isolated spaces boot start).2 _ t _ clear step,
    (address_spaces_isolated spaces boot (start.step (e := .createProcessPML4 0 0 true) clear step)).1⟩

/-! ### A program among the large pages -/

theorem program_calls : (machineInfo [region]).processCalls 0x200000 0x201000 false =
    (machineInfo [region]).processCalls 0 0 true ++ [⟨0x200000, 0x200000, ._4K, true⟩] := by
  have user : GlobalPagingInfo.userCalls 0x200000 0x201000 = [⟨0x200000, 0x200000, ._4K, true⟩] := by decide
  unfold GlobalPagingInfo.processCalls
  rw [user]
  simp

/-- A program of one page at 2 MiB: the entry for it is written into physical
memory at 2 MiB, which is neither a new frame nor a table of the process. -/
theorem program_overwrites_memory : ∃ s t root, s.globalPagingInfo = machineInfo [region] ∧ s.globalPagingInfo.Boot ∧
    Spaces s 0x40080000 [0x40080000] ∧
    SpaceStep (s, [0x40080000]) (.createProcessPML4 0x200000 0x201000 false) (t, [root, 0x40080000]) ∧
    ¬ Isolated 0x40080000 [0x40080000] (.createProcessPML4 0x200000 0x201000 false) s t := by
  obtain ⟨_, s, _, _, _, kernel, info, enough, list, zero, _⟩ := machine_kernel
  have boot := machine_boot region_low
  have few := kernelTask_few
  have clear := kernelTask_clear (machineInfo [region])
  obtain ⟨⟨root, u⟩, alloc, i, granted⟩ := (pageAlloc_grant kernel.tables.frames).returns fun e => Or.inr (by omega)
  change Granted s 0x40080000 i root u at granted
  have count := granted.freeFrames
  have page := granted.page
  have blank := granted.blankRoot kernel.tables.frames kernel.tables.pool
  obtain ⟨v, before, built⟩ := (mapAll_yields blank (processCalls_valid boot clear)
    (processCalls_orderly boot clear)).returns fun e => Or.inr (by omega)
  have inside : ∀ c ∈ (machineInfo [region]).processCalls 0 0 true, c ∈ callsBefore (machineInfo [region]) := by
    intro c member
    rcases mem_kernelTask member with large | kernel
    · simp [callsBefore, large]
    · simp [callsBefore, kernel]
  obtain ⟨word, t, single, assigned, nonzero⟩ := stray_call true built.tables
    (large_lookup boot built.agrees inside fun c large => by simp [GlobalPagingInfo.processCalls, large])
  have small : s.globalPagingInfo.kernelSize + 4096 ≤ 2 ^ 64 := by
    rw [info]
    decide
  have call : createProcessPML4 .halts (2 ^ 64) 0x200000 0x201000 false s = .ok (root, t) := by
    rw [createProcessPML4_eq small (by omega) (Nat.le_refl _), alloc, ok_bind, info, program_calls]
    simp only [mapAll_append, before, single, ok_bind, pure_eq_ok]
  refine ⟨s, t, root, info, info ▸ boot, kernel_space kernel.tables,
    ⟨root, createProcessPML4_returns small (by omega) call, rfl⟩, ?_⟩
  intro isolated
  have unchanged : ∀ x, 0x200000 ≤ x → x < 0x200000 + 8 → t.mem x = 0 := by
    intro x start stop
    by_contra changed
    rcases isolated.writes x (by rw [zero x (by omega)]; exact changed) with table | ⟨_, nothing, _⟩ | ⟨j, _, _, _, range⟩
    · omega
    · exact nothing.elim
    · omega
  exact nonzero (assigned.word.symm.trans (load_of_zero unchanged))

end System14
