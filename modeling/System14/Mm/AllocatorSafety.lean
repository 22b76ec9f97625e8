import System14.Mm.Allocator
import Mathlib.Order.Basic

/-!
# Frame allocator safety

`initializeAllocator` lays out the frame table described by `FrameTable` in the
largest usable entry of the memory map. Over every run of `pageAlloc` and
`pageFree` the used frames are exactly the outstanding pages.

The table takes its space from the region whose whole length is counted in
frames, so the last frames lie past the region's end.
-/

namespace System14
open ByteMem Run

/-! ### The selected memory map entry -/

theorem selectStep_cases (best : Nat × MemmapEntry) (entry : MemmapEntry) :
    (entry.type = .usable ∧ best.1 < entry.length ∧ selectStep best entry = (entry.length, entry)) ∨
      ((entry.type = .usable → entry.length ≤ best.1) ∧ selectStep best entry = best) := by
  unfold selectStep
  cases type : entry.type
  case usable =>
    by_cases longer : entry.length > best.1
    · exact Or.inl ⟨rfl, longer, if_pos longer⟩
    · exact Or.inr ⟨fun _ => by omega, if_neg longer⟩
  all_goals exact Or.inr ⟨nofun, rfl⟩

theorem select_fold (mmap : List MemmapEntry) (best : Nat × MemmapEntry) (paired : best.1 = best.2.length) :
    let chosen := mmap.foldl selectStep best
    chosen.1 = chosen.2.length ∧ best.1 ≤ chosen.1 ∧
      (chosen = best ∨ chosen.2 ∈ mmap ∧ chosen.2.type = .usable) ∧
      ∀ e ∈ mmap, e.type = .usable → e.length ≤ chosen.2.length := by
  induction mmap generalizing best with
  | nil => exact ⟨paired, le_refl _, Or.inl rfl, by simp⟩
  | cons entry mmap ih =>
    rw [List.foldl_cons]
    rcases selectStep_cases best entry with ⟨usable, longer, step⟩ | ⟨shorter, step⟩
    · rw [step]
      obtain ⟨pair, grows, from_, maximal⟩ := ih (entry.length, entry) rfl
      refine ⟨pair, by omega, Or.inr ?_, ?_⟩
      · rcases from_ with same | ⟨member, type⟩
        · rw [same]
          exact ⟨List.mem_cons_self, usable⟩
        · exact ⟨List.mem_cons_of_mem _ member, type⟩
      · intro e member type
        rcases List.mem_cons.mp member with rfl | member
        · exact pair ▸ grows
        · exact maximal e member type
    · rw [step]
      obtain ⟨pair, grows, from_, maximal⟩ := ih best paired
      refine ⟨pair, grows, from_.imp_right fun h => ⟨List.mem_cons_of_mem _ h.1, h.2⟩, ?_⟩
      intro e member type
      rcases List.mem_cons.mp member with rfl | member
      · exact (shorter type).trans (pair ▸ grows)
      · exact maximal e member type

theorem selectedEntry_maximal {mmap : List MemmapEntry} {e : MemmapEntry} (member : e ∈ mmap)
    (usable : e.type = .usable) : e.length ≤ (selectedEntry mmap).length :=
  (select_fold mmap (0, { base := 0, length := 0, type := .usable }) rfl).2.2.2 e member usable

theorem selectedEntry_mem {mmap : List MemmapEntry} (nonempty : (selectedEntry mmap).length ≠ 0) :
    selectedEntry mmap ∈ mmap ∧ (selectedEntry mmap).type = .usable := by
  rcases (select_fold mmap (0, { base := 0, length := 0, type := .usable }) rfl).2.2.1 with start | found
  · exact absurd (congrArg (fun best => best.2.length) start) nonempty
  · exact found

/-! ### The table that initialization writes -/

theorem fillFrameList_spec (frameList count i nextAddr : Nat) (m : Mem) :
    let m' := fillFrameList frameList count i nextAddr m
    (∀ x, x < frameList + 16 * i ∨ frameList + 16 * (i + count) ≤ x → m' x = m x) ∧
      ∀ j, i ≤ j → j < i + count → load 8 m' (frameList + 16 * j) = (nextAddr + 4096 * (j - i)) % 2 ^ 64 ∧
        m' (frameList + 16 * j + 8) = 1 := by
  induction count generalizing i nextAddr m with
  | zero => exact ⟨fun _ _ => rfl, fun j low high => by omega⟩
  | succ count ih =>
    obtain ⟨outside, entries⟩ := ih (i + 1) (uadd 64 nextAddr 0x1000)
      (Function.update (store 8 m (frameList + 16 * i) nextAddr) (frameList + 16 * i + 8) 1)
    refine ⟨fun x far => ?_, fun j low high => ?_⟩
    · rw [fillFrameList, outside x (by omega), Function.update_of_ne (by omega),
        store_apply_of_not_mem (by omega)]
    · rw [fillFrameList]
      by_cases here : j = i
      · subst j
        have ptr : load 8 (fillFrameList frameList count (i + 1) (uadd 64 nextAddr 0x1000)
            (Function.update (store 8 m (frameList + 16 * i) nextAddr) (frameList + 16 * i + 8) 1))
            (frameList + 16 * i) = load 8 (store 8 m (frameList + 16 * i) nextAddr) (frameList + 16 * i) :=
          load_congr fun x low high => by rw [outside x (by omega), Function.update_of_ne (by omega)]
        refine ⟨?_, ?_⟩
        · rw [ptr, load_store_same, Nat.sub_self]
          rfl
        · rw [outside _ (by omega), Function.update_self]
      · obtain ⟨ptr, free⟩ := entries j (by omega) (by omega)
        refine ⟨?_, free⟩
        rw [ptr, uadd, Nat.mod_add_mod]
        congr 1
        omega

def MemmapEntry.frames (e : MemmapEntry) : Nat := e.length / 0x1000

def MemmapEntry.firstFrame (e : MemmapEntry) : Nat := (e.base + 16 * e.frames + 4095) / 4096 * 4096

/-- None of the addresses computed for the entry wraps around. -/
def MemmapEntry.NoWrap (e : MemmapEntry) : Prop :=
  e.base + 16 * e.frames + 4095 < 2 ^ 64 ∧ e.firstFrame + 4096 * e.frames < 2 ^ 64

theorem firstFrame_eq {e : MemmapEntry} (fit : e.NoWrap) :
    alignUp 64 (uadd 64 e.base (16 * (e.length / 0x1000))) 0x1000 = e.firstFrame := by
  have small := fit.1
  unfold MemmapEntry.frames at small
  have sum : uadd 64 e.base (16 * (e.length / 0x1000)) = e.base + 16 * (e.length / 0x1000) :=
    uadd_of_lt (by omega)
  rw [sum, alignUp, uadd_of_lt (by omega)]
  rfl

theorem initializeAllocator_ok {mmap : List MemmapEntry} {s t : Kernel}
    (h : initializeAllocator .halts mmap s = .ok t) (fit : (selectedEntry mmap).NoWrap) :
    (selectedEntry mmap).length ≠ 0 ∧ t.frameList = (selectedEntry mmap).base ∧
      frameCount t = (selectedEntry mmap).frames ∧ FrameTable t (selectedEntry mmap).firstFrame ∧
      ∀ i < frameCount t, frameFree t i = true := by
  unfold initializeAllocator at h
  dsimp only at h
  have nonempty : (selectedEntry mmap).length ≠ 0 := by
    intro empty
    rw [if_pos empty] at h
    exact nomatch h
  rw [if_neg nonempty] at h
  have wrap := fit.2
  have first := firstFrame_eq fit
  obtain ⟨_, entries⟩ := fillFrameList_spec (selectedEntry mmap).base (selectedEntry mmap).frames 0
    (selectedEntry mmap).firstFrame s.mem
  have state : t = { s with
      mem := fillFrameList (selectedEntry mmap).base (selectedEntry mmap).frames 0
        (selectedEntry mmap).firstFrame s.mem
      frameList := (selectedEntry mmap).base
      largestMemSegSize := (selectedEntry mmap).length } := by
    rw [← first]
    exact (Except.ok.inj h).symm
  subst state
  refine ⟨nonempty, rfl, rfl, ⟨fun i lt => ?_, Nat.dvd_mul_left _ _, ?_, wrap⟩, fun i lt => ?_⟩
  · have lt : i < (selectedEntry mmap).frames := lt
    obtain ⟨ptr, _⟩ := entries i (by omega) (by omega)
    refine ptr.trans (Nat.mod_eq_of_lt ?_)
    omega
  · show (selectedEntry mmap).base + 16 * (selectedEntry mmap).frames ≤ (selectedEntry mmap).firstFrame
    unfold MemmapEntry.firstFrame
    omega
  · have lt : i < (selectedEntry mmap).frames := lt
    obtain ⟨_, free⟩ := entries i (by omega) (by omega)
    simp only [frameFree, frameEntry]
    rw [free]
    rfl

theorem initializeAllocator_keeps {mmap : List MemmapEntry} {s t : Kernel}
    (h : initializeAllocator .halts mmap s = .ok t) :
    t = { s with mem := t.mem, frameList := t.frameList, largestMemSegSize := t.largestMemSegSize } ∧
      ∀ x, x < (selectedEntry mmap).base ∨ (selectedEntry mmap).base + 16 * (selectedEntry mmap).frames ≤ x →
        t.mem x = s.mem x := by
  unfold initializeAllocator at h
  dsimp only at h
  by_cases none : (selectedEntry mmap).length = 0
  · rw [if_pos none] at h
    exact nomatch h
  · rw [if_neg none] at h
    rw [← Except.ok.inj h]
    refine ⟨rfl, fun x outside => ?_⟩
    apply (fillFrameList_spec _ _ 0 _ s.mem).1
    rw [Nat.zero_add, Nat.mul_zero]
    exact outside

theorem initializeAllocator_returns (mmap : List MemmapEntry) (s : Kernel)
    (nonempty : (selectedEntry mmap).length ≠ 0) : ∃ t, initializeAllocator .halts mmap s = .ok t := by
  unfold initializeAllocator
  dsimp only
  rw [if_neg nonempty]
  exact ⟨_, rfl⟩

/-! ### Runs of the allocator -/

inductive AllocCall where
  | alloc
  | free (addr : Nat)

def AllocStep : Kernel × List Nat → AllocCall → Kernel × List Nat → Prop
  | (s, out), .alloc, (t, out') => ∃ p, pageAlloc .halts s = .ok (p, t) ∧ out' = p :: out
  | (s, out), .free addr, (t, out') => t = pageFree addr s ∧ out' = out.filter (· ≠ addr)

def AllocReach (s₁ : Kernel) : Kernel × List Nat → Prop := Reach (· = (s₁, [])) AllocStep anyStep

/-- A frame is used exactly when its page is outstanding. -/
structure AllocInv (e : MemmapEntry) (s : Kernel) (out : List Nat) : Prop where
  list : s.frameList = e.base
  count : frameCount s = e.frames
  table : FrameTable s e.firstFrame
  used : ∀ i < e.frames, frameFree s i = false ↔ e.firstFrame + 4096 * i ∈ out

theorem AllocInv.alloc {e : MemmapEntry} {s t : Kernel} {out : List Nat} {p : Nat} (inv : AllocInv e s out)
    (call : pageAlloc .halts s = .ok (p, t)) : AllocInv e t (p :: out) := by
  obtain ⟨i, granted⟩ := pageAlloc_ok inv.table call
  have count := inv.count
  refine ⟨granted.list.trans inv.list, granted.count.trans inv.count, granted.table, ?_⟩
  · intro j lt
    rw [granted.taken j (by omega), granted.page, List.mem_cons, ← inv.used j lt]
    by_cases same : j = i
    · subst j
      simp
    · rw [if_neg same]
      constructor
      · exact Or.inr
      · intro h
        rcases h with equal | used
        · omega
        · exact used

theorem AllocInv.free {e : MemmapEntry} {s : Kernel} {out : List Nat} (inv : AllocInv e s out) (addr : Nat) :
    AllocInv e (pageFree addr s) (out.filter (· ≠ addr)) := by
  obtain ⟨globals, table, _, flags⟩ := pageFree_spec inv.table addr
  have count := inv.count
  refine ⟨?_, ?_, table, ?_⟩
  · rw [globals]
    exact inv.list
  · rw [globals]
    exact inv.count
  · intro j lt
    rw [flags j (by omega), List.mem_filter, ← inv.used j lt]
    by_cases same : e.firstFrame + 4096 * j = addr <;> simp [same]

theorem allocReach_inv {mmap : List MemmapEntry} {s₀ s₁ s : Kernel} {out : List Nat}
    (init : initializeAllocator .halts mmap s₀ = .ok s₁) (fit : (selectedEntry mmap).NoWrap)
    (reached : AllocReach s₁ (s, out)) : AllocInv (selectedEntry mmap) s out := by
  obtain ⟨_, list, count, table, free⟩ := initializeAllocator_ok init fit
  refine Reach.invariant (I := fun state => AllocInv (selectedEntry mmap) state.1 state.2) reached ?_ ?_
  · rintro _ rfl
    refine ⟨list, count, table, fun i lt => ?_⟩
    simp [free i (by omega)]
  · rintro ⟨s, out⟩ call ⟨t, out'⟩ inv _ taken
    cases call with
    | alloc =>
      obtain ⟨p, call, rfl⟩ := taken
      exact inv.alloc call
    | free addr =>
      obtain ⟨rfl, rfl⟩ := taken
      exact inv.free addr

/-- The next page is the first frame that is not outstanding. -/
theorem AllocInv.next {e : MemmapEntry} {s : Kernel} {out : List Nat} {i : Nat} (inv : AllocInv e s out)
    (lt : i < e.frames) (left : e.firstFrame + 4096 * i ∉ out) (least : ∀ j < i, e.firstFrame + 4096 * j ∈ out) :
    ∃ t, pageAlloc .halts s = .ok (e.firstFrame + 4096 * i, t) := by
  have count := inv.count
  have free : frameFree s i = true := by
    rw [← Bool.not_eq_false]
    exact fun used => left ((inv.used i lt).mp used)
  obtain ⟨t, call, _⟩ := pageAlloc_grants .halts inv.table (by omega) free fun j below =>
    (inv.used j (by omega)).mpr (least j below)
  exact ⟨t, call⟩

theorem AllocInv.exhausted_iff {e : MemmapEntry} {s : Kernel} {out : List Nat} (inv : AllocInv e s out) :
    pageAlloc .halts s = .error (.panic "No free mem left!") ↔ ∀ i < e.frames, e.firstFrame + 4096 * i ∈ out := by
  have count := inv.count
  constructor
  · intro stopped i lt
    rw [← inv.used i lt]
    rcases first_free_or_none s with none | ⟨k, below, free, least⟩
    · exact none i (by omega)
    · obtain ⟨t, call, _⟩ := pageAlloc_grants .halts inv.table below free least
      rw [call] at stopped
      exact nomatch stopped
  · intro all
    rw [pageAlloc_exhausted fun i lt => (inv.used i (by omega)).mpr (all i (by omega))]
    rfl

/-- Every page that `pageAlloc` hands out, after any calls, is an aligned and
cleared frame that nobody holds and that overlaps neither another frame nor the
frame table; a bogus `pageFree` changes nothing; and `pageAlloc` gives up only
when all frames are held. -/
theorem allocator_run_safe {mmap : List MemmapEntry} {s₀ s₁ s : Kernel} {out : List Nat}
    (init : initializeAllocator .halts mmap s₀ = .ok s₁) (fit : (selectedEntry mmap).NoWrap)
    (reached : AllocReach s₁ (s, out)) :
    let e := selectedEntry mmap
    (∀ p t, pageAlloc .halts s = .ok (p, t) →
      4096 ∣ p ∧ (∀ x, p ≤ x → x < p + 4096 → t.mem x = 0) ∧ p ∉ out ∧
      (∃ i < e.frames, framePtr s i = p ∧
        (∀ j < e.frames, j ≠ i → framePtr s j + 4096 ≤ p ∨ p + 4096 ≤ framePtr s j) ∧
        (e.base + 16 * e.frames ≤ p ∨ p + 4096 ≤ e.base) ∧
        ∀ j < e.frames, framePtr t j = framePtr s j ∧
          frameFree t j = if j = i then false else frameFree s j)) ∧
    (∀ addr, (∀ i < e.frames, framePtr s i ≠ addr) → pageFree addr s = s) ∧
    (pageAlloc .halts s = .error (.panic "No free mem left!") ↔ ∀ i < e.frames, framePtr s i ∈ out) := by
  intro e
  have inv : AllocInv e s out := allocReach_inv init fit reached
  have count := inv.count
  have ptr : ∀ i < e.frames, framePtr s i = e.firstFrame + 4096 * i := fun i lt => inv.table.ptr i (by omega)
  refine ⟨?_, ?_, ?_⟩
  · intro p t call
    obtain ⟨i, granted⟩ := pageAlloc_ok inv.table call
    have page := granted.page
    have lt : i < e.frames := by
      have := granted.lt
      omega
    refine ⟨?_, granted.zero, ?_, i, lt, ?_, ?_, ?_, ?_⟩
    · rw [page]
      exact Nat.dvd_add inv.table.aligned (Nat.dvd_mul_right 4096 i)
    · intro held
      rw [page, ← inv.used i lt, granted.free] at held
      exact nomatch held
    · rw [ptr i lt, page]
    · intro j below other
      rw [ptr j below, page]
      omega
    · have above := inv.table.above
      rw [inv.list, count] at above
      exact Or.inl (by rw [page]; omega)
    · intro j below
      have after := granted.count
      refine ⟨?_, granted.taken j (by omega)⟩
      rw [granted.table.ptr j (by omega), ptr j below]
  · intro addr other
    refine pageFree_other inv.table fun i lt => ?_
    rw [← inv.table.ptr i lt]
    exact other i (by omega)
  · rw [inv.exhausted_iff]
    exact ⟨fun all i lt => ptr i lt ▸ all i lt, fun all i lt => ptr i lt ▸ all i lt⟩

def smallMap : List MemmapEntry := [{ base := 0x100000, length := 0x4000, type := .usable }]

theorem smallMap_noWrap : (selectedEntry smallMap).NoWrap := by
  unfold MemmapEntry.NoWrap
  decide

/-- Two pages, of which the first is given back and handed out again. -/
theorem allocator_run_safe_smallMap : ∃ s₁ s t, initializeAllocator .halts smallMap { mem := fun _ => 0 } = .ok s₁ ∧
    AllocReach s₁ (s, [0x102000]) ∧ pageAlloc .halts s = .ok (0x101000, t) ∧ 0x101000 ∉ [0x102000] ∧
    (∀ x, 0x101000 ≤ x → x < 0x102000 → t.mem x = 0) ∧ pageFree 0x103800 s = s := by
  obtain ⟨s₁, init⟩ := initializeAllocator_returns smallMap { mem := fun _ => 0 } (by decide)
  have start : AllocReach s₁ (s₁, []) := .init rfl
  obtain ⟨s₂, one⟩ := (allocReach_inv init smallMap_noWrap start).next (i := 0) (by decide) (by decide) (by decide)
  have reached : AllocReach s₁ (s₂, [0x101000]) := start.step (e := .alloc) trivial ⟨_, one, rfl⟩
  obtain ⟨s₃, two⟩ := (allocReach_inv init smallMap_noWrap reached).next (i := 1) (by decide) (by decide) (by decide)
  have reached : AllocReach s₁ (s₃, [0x102000, 0x101000]) := reached.step (e := .alloc) trivial ⟨_, two, rfl⟩
  have reached : AllocReach s₁ (pageFree 0x101000 s₃, [0x102000]) :=
    reached.step (e := .free 0x101000) trivial ⟨rfl, by decide⟩
  have inv := allocReach_inv init smallMap_noWrap reached
  obtain ⟨t, again⟩ := inv.next (i := 0) (by decide) (by decide) (by decide)
  obtain ⟨safe, bogus, _⟩ := allocator_run_safe init smallMap_noWrap reached
  obtain ⟨_, zero, fresh, _⟩ := safe 0x101000 t again
  refine ⟨s₁, _, t, init, reached, again, fresh, zero, bogus 0x103800 fun i lt same => ?_⟩
  have count := inv.count
  rw [inv.table.ptr i (by omega), show (selectedEntry smallMap).firstFrame = 0x101000 by decide] at same
  omega

/-! ### Frames and the selected region -/

/-- The selected entry is the longest usable one, and every recorded frame and
every page handed out in any run lies inside it. -/
def FramesReal (mmap : List MemmapEntry) (s₁ : Kernel) : Prop :=
  let e := selectedEntry mmap
  (e ∈ mmap ∧ e.type = .usable ∧ ∀ other ∈ mmap, other.type = .usable → other.length ≤ e.length) ∧
  (∀ i < e.frames, e.base ≤ framePtr s₁ i ∧ framePtr s₁ i + 4096 ≤ e.base + e.length) ∧
  ∀ s out p t, AllocReach s₁ (s, out) → pageAlloc .halts s = .ok (p, t) →
    e.base ≤ p ∧ p + 4096 ≤ e.base + e.length

/-- The bytes that the frame table takes from the start of the entry, padded to a frame boundary. -/
def MemmapEntry.tableLength (e : MemmapEntry) : Nat := e.firstFrame - e.base

theorem framesReal_iff {mmap : List MemmapEntry} {s₀ s₁ : Kernel}
    (init : initializeAllocator .halts mmap s₀ = .ok s₁) (fit : (selectedEntry mmap).NoWrap)
    (large : 8192 ≤ (selectedEntry mmap).length) :
    FramesReal mmap s₁ ↔ (selectedEntry mmap).tableLength ≤ (selectedEntry mmap).length % 4096 := by
  obtain ⟨nonempty, list, count, table, _⟩ := initializeAllocator_ok init fit
  obtain ⟨member, usable⟩ := selectedEntry_mem nonempty
  have above := table.above
  rw [list, count] at above
  have ptr : ∀ i < (selectedEntry mmap).frames,
      framePtr s₁ i = (selectedEntry mmap).firstFrame + 4096 * i := fun i lt => table.ptr i (by omega)
  have frames : (selectedEntry mmap).frames = (selectedEntry mmap).length / 4096 := rfl
  unfold MemmapEntry.tableLength
  constructor
  · rintro ⟨_, inside, _⟩
    -- The last frame is the one that decides.
    have last := (inside ((selectedEntry mmap).frames - 1) (by omega)).2
    rw [ptr _ (by omega)] at last
    omega
  · intro room
    have bounds : ∀ i < (selectedEntry mmap).frames,
        (selectedEntry mmap).base ≤ (selectedEntry mmap).firstFrame + 4096 * i ∧
        (selectedEntry mmap).firstFrame + 4096 * i + 4096 ≤
          (selectedEntry mmap).base + (selectedEntry mmap).length := by
      intro i lt
      omega
    refine ⟨⟨member, usable, fun other present type => selectedEntry_maximal present type⟩, ?_, ?_⟩
    · intro i lt
      rw [ptr i lt]
      exact bounds i lt
    · intro s out p t reached call
      have inv := allocReach_inv init fit reached
      obtain ⟨i, granted⟩ := pageAlloc_ok inv.table call
      rw [granted.page]
      exact bounds i (inv.count ▸ granted.lt)

/-- In an entry of whole pages the table always displaces the last frames past the end. -/
theorem not_framesReal_of_aligned {mmap : List MemmapEntry} {s₀ s₁ : Kernel}
    (init : initializeAllocator .halts mmap s₀ = .ok s₁) (fit : (selectedEntry mmap).NoWrap)
    (large : 8192 ≤ (selectedEntry mmap).length) (whole : 4096 ∣ (selectedEntry mmap).length) :
    ¬ FramesReal mmap s₁ := by
  rw [framesReal_iff init fit large, Nat.mod_eq_zero_of_dvd whole]
  have frames : (selectedEntry mmap).frames = (selectedEntry mmap).length / 4096 := rfl
  unfold MemmapEntry.tableLength MemmapEntry.firstFrame
  omega

theorem frames_real_iff_table_fits {mmap : List MemmapEntry} {s₀ s₁ : Kernel}
    (init : initializeAllocator .halts mmap s₀ = .ok s₁) (fit : (selectedEntry mmap).NoWrap)
    (region : ∃ e ∈ mmap, e.type = .usable ∧ 8192 ≤ e.length ∧ 4096 ∣ e.base ∧ 4096 ∣ e.length) :
    (FramesReal mmap s₁ ↔ (selectedEntry mmap).tableLength ≤ (selectedEntry mmap).length % 4096) ∧
      (4096 ∣ (selectedEntry mmap).length → ¬ FramesReal mmap s₁) := by
  obtain ⟨e, member, usable, long, _, _⟩ := region
  have large := long.trans (selectedEntry_maximal member usable)
  exact ⟨framesReal_iff init fit large, not_framesReal_of_aligned init fit large⟩

theorem frames_real_iff_smallMap : ∃ s₁, initializeAllocator .halts smallMap { mem := fun _ => 0 } = .ok s₁ ∧
    (FramesReal smallMap s₁ ↔ (selectedEntry smallMap).tableLength ≤ (selectedEntry smallMap).length % 4096) := by
  obtain ⟨s₁, init⟩ := initializeAllocator_returns smallMap { mem := fun _ => 0 } (by decide)
  refine ⟨s₁, init, ?_⟩
  exact (frames_real_iff_table_fits init smallMap_noWrap
    ⟨_, List.mem_singleton.mpr rfl, rfl, by decide, by decide, by decide⟩).1

/-- Four pages at 1 MiB: the table takes the first, so the fourth frame starts at the region's end. -/
theorem smallMap_frame_outside : ∃ s₁, initializeAllocator .halts smallMap { mem := fun _ => 0 } = .ok s₁ ∧
    framePtr s₁ 3 = 0x104000 ∧ ¬ FramesReal smallMap s₁ := by
  obtain ⟨s₁, init⟩ := initializeAllocator_returns smallMap { mem := fun _ => 0 } (by decide)
  obtain ⟨_, _, count, table, _⟩ := initializeAllocator_ok init smallMap_noWrap
  refine ⟨s₁, init, ?_, not_framesReal_of_aligned init smallMap_noWrap (by decide) (by decide)⟩
  rw [table.ptr 3 (by rw [count]; decide)]
  decide

end System14
