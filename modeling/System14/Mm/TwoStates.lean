import System14.Lib.TwoRuns
import System14.Mm.Isolation
import Mathlib.Data.List.Find

/-!
# Bytes that the page tables do not depend on

Two states of the kernel that differ at most in a set of bytes which is apart
from the frame table, from every free frame and from the tables of an address
space: the page allocator and the code that builds tables do the same in both.
-/

namespace System14
open ByteMem Run Radix

variable {D : Nat → Prop} {first root fuel start stop : Nat} {inKernelCode : Bool} {s s' t u u' : Kernel} {mode : Panic}

/-- Two states that differ at most in the bytes of `D`. -/
structure Twin (D : Nat → Prop) (s s' : Kernel) : Prop where
  globals : s' = { s with mem := s'.mem }
  agree : AgreeOff D s.mem s'.mem

/-- The same value, and states that differ at most in `D`. -/
def Alike {α : Type} (D : Nat → Prop) (r r' : α × Kernel) : Prop := r'.1 = r.1 ∧ Twin D r.2 r'.2

theorem Twin.mem {m m' : Mem} (twin : Twin D s s') (agree : AgreeOff D m m') :
    Twin D { s with mem := m } { s' with mem := m' } :=
  ⟨by rw [twin.globals], agree⟩

theorem Twin.list (twin : Twin D s s') : s'.frameList = s.frameList := by rw [twin.globals]

theorem Twin.count (twin : Twin D s s') : frameCount s' = frameCount s := by
  rw [twin.globals]
  rfl

/-! ### The page allocator -/

/-- No byte of `D` is in the frame table. -/
def OffTable (D : Nat → Prop) (s : Kernel) : Prop :=
  ∀ x, s.frameList ≤ x → x < s.frameList + 16 * frameCount s → ¬ D x

theorem Twin.sameTable (twin : Twin D s s') (off : OffTable D s) : SameTable s s' :=
  ⟨twin.list, by rw [twin.globals], fun x low high => twin.agree x (off x low high)⟩

theorem memset_both {m m' : Mem} (a value n : Nat) (agree : AgreeOff D m m') :
    AgreeOff D (memset m a value n) (memset m' a value n) := by
  intro x off
  rw [memset_apply, memset_apply, agree x off]

theorem setFrameFree_both {i : Nat} (twin : Twin D s s') (off : OffTable D s) (lt : i < frameCount s) (free : Bool) :
    Twin D (setFrameFree s i free) (setFrameFree s' i free) := by
  have entry : frameEntry s' i = frameEntry s i := by rw [frameEntry, frameEntry, twin.list]
  have flag : s'.mem (frameEntry s i + 8) = s.mem (frameEntry s i + 8) :=
    twin.agree _ (off _ (by unfold frameEntry; omega) (by unfold frameEntry; omega))
  unfold setFrameFree
  rw [entry, flag]
  exact twin.mem (twin.agree.update _ _)

theorem pageAlloc_both (off : OffTable D s) (twin : Twin D s s') :
    Both (Alike D) (pageAlloc mode s) (pageAlloc mode s') := by
  have same := twin.sameTable off
  have search : (List.range (frameCount s')).find? (frameFree s') = (List.range (frameCount s)).find? (frameFree s) := by
    rw [twin.count]
    exact List.find?_congr fun i member => same.free (List.mem_range.mp member)
  unfold pageAlloc
  rw [search]
  cases found : (List.range (frameCount s)).find? (frameFree s) with
  | none =>
    cases mode with
    | halts => exact rfl
    | returns => exact ⟨rfl, twin⟩
  | some i =>
    have lt : i < frameCount s := List.mem_range.mp (List.mem_of_find?_eq_some found)
    have marked := setFrameFree_both twin off lt false
    have ptr : framePtr (setFrameFree s' i false) i = framePtr (setFrameFree s i false) i :=
      (marked.sameTable off).ptr lt
    have cleared := marked.mem (memset_both (framePtr (setFrameFree s i false) i) 0 0x1000 marked.agree)
    simp only [ptr]
    exact ⟨(cleared.sameTable off).ptr lt, cleared⟩

/-! ### Building tables -/

/-- No byte of `D` is in the frame table or in a free frame. -/
structure OffFrames (D : Nat → Prop) (s : Kernel) (first : Nat) : Prop where
  table : OffTable D s
  pool : ∀ i < frameCount s, frameFree s i = true → ∀ x, first + 4096 * i ≤ x → x < first + 4096 * i + 4096 → ¬ D x

/-- Nor is one in the tables of the address space. -/
structure OffTables (D : Nat → Prop) (s : Kernel) (first root : Nat) : Prop extends OffFrames D s first where
  tables : ∀ a, IsTable s.mem root a → ∀ x, a ≤ x → x < a + 4096 → ¬ D x

theorem OffFrames.fewer (off : OffFrames D s first) (list : t.frameList = s.frameList) (count : frameCount t = frameCount s)
    (taken : ∀ i < frameCount s, frameFree t i = true → frameFree s i = true) : OffFrames D t first := by
  refine ⟨fun x low high => ?_, fun i lt free => ?_⟩
  · rw [list] at low high
    rw [count] at high
    exact off.table x low high
  · rw [count] at lt
    exact off.pool i lt (taken i lt free)

theorem OffTables.move (off : OffTables D s first root) (move : MapMove first root s t) : OffTables D t first root := by
  refine ⟨off.toOffFrames.fewer move.list move.count move.taken, fun a table => ?_⟩
  rcases move.tables a table with old | ⟨i, lt, free, _, rfl⟩
  · exact off.tables a old
  · exact off.pool i lt free

theorem entryWord_both {T : Nat} {e : Fin 512} (twin : Twin D s s') (off : ∀ x, T ≤ x → x < T + 4096 → ¬ D x) :
    entryWord s'.mem T e = entryWord s.mem T e := by
  have bounds := entryAddr_bounds T e
  exact twin.agree.load fun x low high => off x (by omega) (by omega)

theorem setEntry_both {T : Nat} {e : Fin 512} (field : BitField) (value : Nat) (twin : Twin D s s')
    (off : ∀ x, T ≤ x → x < T + 4096 → ¬ D x) : Twin D (setEntry field T e value s) (setEntry field T e value s') := by
  unfold setEntry
  rw [entryWord_both twin off]
  exact twin.mem (twin.agree.store 8 _ _)

theorem getEntryNextLevel_both {T : Nat} {e : Fin 512} (table : OffTable D s)
    (off : ∀ x, T ≤ x → x < T + 4096 → ¬ D x) (twin : Twin D s s') :
    Both (Alike D) (getEntryNextLevel mode T e s) (getEntryNextLevel mode T e s') := by
  unfold getEntryNextLevel
  rw [entryWord_both twin off]
  split
  · exact ⟨rfl, twin⟩
  · split
    · apply (pageAlloc_both table twin).bind
      intro r r' _ alike
      obtain ⟨page, states⟩ := alike
      refine ⟨page, ?_⟩
      dsimp only
      rw [page]
      exact setEntry_both _ _ (setEntry_both _ _ (setEntry_both _ _ states off) off) off
    · exact ⟨rfl, twin⟩

theorem setLeaf_both {T : Nat} {e : Fin 512} (phys : Nat) (size : PageSizes) (user : Bool) (twin : Twin D s s')
    (off : ∀ x, T ≤ x → x < T + 4096 → ¬ D x) : Twin D (setLeaf T e phys size user s) (setLeaf T e phys size user s') := by
  have set : ∀ field value u u', Twin D u u' → Twin D (setEntry field T e value u) (setEntry field T e value u') :=
    fun field value _ _ states => setEntry_both field value states off
  have start := set PTE.physAddr (phys >>> 12) _ _ (set PTE.rw 1 _ _ (set PTE.present 1 _ _ twin))
  unfold setLeaf
  cases size with
  | _4K =>
    cases user with
    | false => exact start
    | true => exact set _ _ _ _ start
  | _2M =>
    cases user with
    | false => exact set _ _ _ _ start
    | true => exact set _ _ _ _ (set _ _ _ _ start)

/-- On the way down from a table that the walk has come to. -/
theorem Descended.both {k L T : Nat} {p : Nat → Fin 512} (before : Descended first root k s u)
    (walk : Reaches (tableView u.mem) 3 root p (L + 1) T) (off : OffTables D s first root) (twin : Twin D u u') :
    Both (Alike D) (getEntryNextLevel .halts T (p (L + 1)) u) (getEntryNextLevel .halts T (p (L + 1)) u') := by
  have after := off.move before.move
  exact getEntryNextLevel_both after.table (after.tables T ⟨_, _, walk⟩) twin

theorem leafEntry_both {virt pdpt : Nat} {size : PageSizes} (before : Descended first root 1 s u)
    (walk : Reaches (tableView u.mem) 3 root (walkPath virt) 2 pdpt) (clear : Clear s.mem root virt size)
    (off : OffTables D s first root) (twin : Twin D u u') :
    Both (fun r r' => r'.1 = r.1 ∧ Alike D r.2 r'.2) (leafEntry .halts pdpt virt size u)
      (leafEntry .halts pdpt virt size u') := by
  have second := before.both walk off twin
  have known := before.next _ walk fun b => no_page_above (by decide)
  unfold leafEntry
  cases size with
  | _2M =>
    apply second.bind
    intro r r' _ alike
    exact ⟨alike.1, rfl, alike.2⟩
  | _4K =>
    apply second.bind
    intro r r' call alike
    obtain ⟨descended, reached⟩ := known.ok call
    obtain ⟨pd, v⟩ := r
    obtain ⟨pd', v'⟩ := r'
    obtain ⟨same, states⟩ := alike
    change pd' = pd at same
    subst same
    apply (descended.both reached off states).bind
    intro r r' _ alike
    exact ⟨alike.1, rfl, alike.2⟩

theorem mapPage_both {virt phys : Nat} {size : PageSizes} {user : Bool} (tables : Tables s first root)
    (clear : Clear s.mem root virt size) (off : OffTables D s first root) (twin : Twin D s s') :
    Both (Twin D) (mapPage .halts root virt phys size user s) (mapPage .halts root virt phys size user s') := by
  have descended := Descended.refl tables
  have known := descended.next (L := 2) (walkPath virt) Reaches.root fun b => no_page_above (by decide)
  unfold mapPage mapMemory
  rw [bind_assoc, bind_assoc]
  apply (descended.both (L := 2) (p := walkPath virt) Reaches.root off twin).bind
  intro r r' call alike
  obtain ⟨one, reached⟩ := known.ok call
  obtain ⟨pdpt, u⟩ := r
  obtain ⟨pdpt', u'⟩ := r'
  obtain ⟨same, states⟩ := alike
  change pdpt' = pdpt at same
  subst same
  simp only [bind_assoc]
  apply (leafEntry_both one reached clear off states).bind
  intro r r' call alike
  obtain ⟨after, here, walk⟩ := (leafEntry_yields one reached clear).ok call
  obtain ⟨T, index, v⟩ := r
  obtain ⟨T', index', v'⟩ := r'
  obtain ⟨same, same', states⟩ := alike
  change T' = T at same
  change index' = index at same'
  change index = _ at here
  subst same same' here
  have nonnull := (after.tables.held _ ⟨_, _, walk⟩).nonnull
  simp only [if_neg nonnull]
  exact setLeaf_both phys size user states ((off.move after.move).tables _ ⟨_, _, walk⟩)

/-! ### Creating an address space -/

theorem mapAll_both {calls : List MapCall} (blank : BlankRoot s first root) (valid : ∀ c ∈ calls, c.Valid)
    (orderly : Orderly calls) (off : OffTables D s first root) (twin : Twin D s s') :
    Both (Twin D) (mapAll .halts root calls s) (mapAll .halts root calls s') := by
  induction calls using List.reverseRecOn with
  | nil =>
    rw [mapAll_nil, mapAll_nil]
    exact twin
  | append_singleton calls c ih =>
    obtain ⟨before, _, cross⟩ := List.pairwise_append.mp orderly
    have valid' : ∀ c' ∈ calls, c'.Valid := fun c' member => valid c' (List.mem_append_left _ member)
    rw [mapAll_append, mapAll_append]
    apply (ih valid' before).bind
    intro u u' call states
    have built := (mapAll_yields blank valid' before).ok call
    rw [mapAll_single, mapAll_single]
    exact mapPage_both built.tables (built.agrees.clear fun c' member => cross c' member c (by simp))
      (off.move built.move) states

theorem Granted.offTables {i : Nat} (granted : Granted s first i root t) (blank : BlankRoot t first root)
    (off : OffFrames D s first) : OffTables D t first root := by
  refine ⟨off.fewer granted.list granted.count fun j lt free => granted.taken_free lt free, fun a table => ?_⟩
  obtain ⟨path, l, walk⟩ := table
  rw [(blank.only_root walk).2, granted.page]
  exact off.pool i granted.lt granted.free

/-- A process gets the same tables, at the same place, in both states. -/
theorem createProcessPML4_both (frames : FrameTable s first)
    (low : ∀ i < frameCount s, frameFree s i = true → first + 4096 * i < 2 ^ 40) (boot : s.globalPagingInfo.Boot)
    (clear : ProgramClear s.globalPagingInfo start stop inKernelCode) (enough : 2 ^ 64 ≤ fuel)
    (off : OffFrames D s first) (twin : Twin D s s') :
    Both (Alike D) (createProcessPML4 .halts fuel start stop inKernelCode s)
      (createProcessPML4 .halts fuel start stop inKernelCode s') := by
  have aligned := clear.stopAligned
  have fits := clear.fits
  have small := boot.kernelSmall
  have info : s'.globalPagingInfo = s.globalPagingInfo := by rw [twin.globals]
  rw [createProcessPML4_eq (by omega) (by omega) enough,
    createProcessPML4_eq (s := s') (by rw [info]; omega) (by omega) enough, info]
  apply (pageAlloc_both off.table twin).bind
  intro r r' call alike
  obtain ⟨i, granted⟩ := pageAlloc_ok frames call
  obtain ⟨p, u⟩ := r
  obtain ⟨p', u'⟩ := r'
  obtain ⟨same, states⟩ := alike
  change p' = p at same
  subst same
  have blank := granted.blankRoot frames low
  apply (mapAll_both blank (processCalls_valid boot clear) (processCalls_orderly boot clear)
    (granted.offTables blank off) states).bind
  intro v v' _ states
  exact ⟨rfl, states⟩

end System14
