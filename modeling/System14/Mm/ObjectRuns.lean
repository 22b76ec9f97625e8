import System14.Mm.Coexistence
import System14.Mm.HeapReuse
import System14.Mm.Objects

/-!
# The memory manager as a whole

All the functions of the memory manager work on one memory. Whatever the order
of their calls, their clients see the objects of `Objects.Step`: the run of the
code is a run of the abstract machine, call by call and result by result.
-/

namespace System14
open ByteMem Run Radix Extent Simulation

variable {info : GlobalPagingInfo} {first r : Nat} {mine : Nat → Bool} {nodes : List Nat} {s t u : Kernel} {h h' : Handles}
  {own : Nat → Prop} {call : MemoryCall}

/-! ### The calls -/

/-- The code behind a call. -/
def perform (fuel : Nat) (s : Kernel) : MemoryCall → Except Stop (Nat × Kernel)
  | .malloc size => malloc .halts fuel size s
  | .calloc size => calloc .halts fuel size s
  | .free b => .ok (null, heapFree b.ptr s)
  | .write address value => .ok (null, { s with mem := Function.update s.mem address value })
  | .pageAlloc => pageAlloc .halts s
  | .pageFree page => .ok (null, pageFree page s)
  | .createProcessPML4 start stop inKernelCode => createProcessPML4 .halts fuel start stop inKernelCode s
  | .mapMemory root c => do
    let s ← mapPage .halts root c.virt c.phys c.size c.user s
    return (null, s)
  | .allocatePage cr3 => allocatePage .halts cr3 s

def MemoryStep : Kernel × Handles → MemoryCall × Nat → Kernel × Handles → Prop
  | (s, h), (call, r), (t, h') => Returns (perform · s call) (r, t) ∧ h' = h.after call r

/-- The requests are clean, and no small page is mapped among large ones. -/
def Clean (first : Nat) (s : Kernel) : MemoryCall → Prop
  | .malloc size => MallocClean s size
  | .calloc size => MallocClean s size
  | .createProcessPML4 start stop inKernelCode => ProgramClear s.globalPagingInfo start stop inKernelCode
  | .mapMemory root c => c.Valid ∧ Clear s.mem root c.virt c.size
  | .allocatePage cr3 => ∀ i < frameCount s, frameFree s i = true → (∀ j < i, frameFree s j = false) →
    Clear s.mem cr3 (first + 4096 * i) ._4K
  | _ => True

def MemoryAllowed (first : Nat) : Kernel × Handles → MemoryCall × Nat → Prop
  | (s, h), (call, _) => h.Permits call ∧ Clean first s call

/-! ### Who has which frame -/

/-- The heap, the pages of clients and the tables of the address spaces have
frames of their own. `mine` are the frames that the heap has or may take. -/
structure Coexist (info : GlobalPagingInfo) (first : Nat) (mine : Nat → Bool) (nodes : List Nat) (s : Kernel) (h : Handles) :
    Prop where
  heap : HeapInv first mine s nodes h.blocks
  spaces : Spaces s first h.roots
  pages : ∀ p ∈ h.pages, ∃ i < frameCount s, p = first + 4096 * i ∧ frameFree s i = false ∧ mine i = false
  distinct : h.pages.Nodup
  untabled : ∀ r ∈ h.roots, ∀ a, IsTable s.mem r a → a ∉ h.pages ∧ ¬ HeapFrame first mine s a
  low : ∀ i < frameCount s, first + 4096 * i < 2 ^ 40
  info : s.globalPagingInfo = info

theorem Coexist.block_byte {b : Block} {x : Nat} (coexist : Coexist info first mine nodes s h) (member : b ∈ h.blocks)
    (has : (Extent.mk b.ptr b.size).Has x) : b.extent.Has x ∧ HeapByte first mine s x := by
  have room := (coexist.heap.headers b member).1
  have inside : b.extent.Has x := by
    simp only [Block.extent, Extent.Has] at has ⊢
    omega
  exact ⟨inside, coexist.heap.inside _ (mem_extents_live member) x inside⟩

theorem Coexist.page_not_heap {p x : Nat} (coexist : Coexist info first mine nodes s h) (member : p ∈ h.pages)
    (has : (Extent.mk p 4096).Has x) : ¬ HeapByte first mine s x := by
  rintro ⟨j, _, here, _, low, high⟩
  obtain ⟨i, _, rfl, _, other⟩ := coexist.pages p member
  simp only [Extent.Has] at has
  have same : j = i := by omega
  rw [same, other] at here
  cases here

theorem Coexist.page_not_frame {p : Nat} (coexist : Coexist info first mine nodes s h) (member : p ∈ h.pages) :
    ¬ HeapFrame first mine s p := by
  intro frame
  have has : (Extent.mk p 4096).Has p := ⟨Nat.le_refl _, show p < p + 4096 by omega⟩
  exact coexist.page_not_heap member has (heapByte_iff.mpr ⟨p, frame, has⟩)

/-- The objects lie behind the frame table. -/
theorem Coexist.above {x : Nat} (coexist : Coexist info first mine nodes s h) (held : h.Holds x) :
    s.frameList + 16 * frameCount s ≤ x := by
  obtain ⟨e, member, has⟩ := held
  rcases List.mem_append.mp member with block | page
  · obtain ⟨b, present, rfl⟩ := List.mem_map.mp block
    exact ((coexist.block_byte present has).2.bounds coexist.heap.table).1
  · obtain ⟨p, present, rfl⟩ := List.mem_map.mp page
    obtain ⟨i, _, rfl, _, _⟩ := coexist.pages p present
    exact Nat.le_trans (Nat.le_trans coexist.heap.table.above (Nat.le_add_right _ _)) has.1

/-- No two objects have a byte in common. -/
theorem Coexist.disjoint (coexist : Coexist info first mine nodes s h) :
    h.extents.Pairwise fun e f => ∀ x, e.Has x → ¬ f.Has x := by
  refine List.pairwise_append.mpr ⟨?_, ?_, ?_⟩
  · have separate : Separate (h.blocks.map Block.extent) := (List.pairwise_append.mp coexist.heap.separate).2.1
    rw [List.pairwise_map]
    refine (List.pairwise_map.mp separate).imp_of_mem fun member member' apart x has has' => ?_
    exact apart.not_has (coexist.block_byte member has).1 (coexist.block_byte member' has').1
  · rw [List.pairwise_map]
    refine coexist.distinct.imp_of_mem fun member member' other x has has' => ?_
    obtain ⟨i, _, rfl, _, _⟩ := coexist.pages _ member
    obtain ⟨j, _, rfl, _, _⟩ := coexist.pages _ member'
    simp only [Extent.Has] at has has'
    omega
  · intro e block f page x has has'
    obtain ⟨b, member, rfl⟩ := List.mem_map.mp block
    obtain ⟨p, member', rfl⟩ := List.mem_map.mp page
    exact coexist.page_not_heap member' has' (coexist.block_byte member has).2

/-! ### What a step keeps -/

/-- Where no table is changed, all address spaces stay as they are. -/
theorem Coexist.spared (coexist : Coexist info first mine nodes s h) (confined : Confined first own s t)
    (apart : ∀ b, own b → 4096 ∣ b ∧ ∀ r ∈ h.roots, ¬ IsTable s.mem r b) :
    Spaces t first h.roots ∧ (∀ r ∈ h.roots, ∀ a, IsTable t.mem r a → IsTable s.mem r a) ∧
      ∀ r ∈ h.roots, ∀ v, translate t.mem r v = translate s.mem r v := by
  have others : ∀ r ∈ h.roots, Tables t first r ∧ (∀ a, IsTable t.mem r a → IsTable s.mem r a) ∧
      ∀ v, translate t.mem r v = translate s.mem r v := by
    intro r member
    refine confined.others (coexist.spaces.tables r member) fun a table b owned => ⟨(apart b owned).1, ?_⟩
    rintro rfl
    exact (apart b owned).2 r member table
  refine ⟨⟨confined.frames, fun i lt free => ?_, fun r member => (others r member).1, ?_⟩,
    fun r member => (others r member).2.1, fun r member => (others r member).2.2⟩
  · rw [confined.count] at lt
    exact coexist.spaces.pool i lt (confined.taken i lt free)
  · intro r member r' member' different a table table'
    exact coexist.spaces.apart r member r' member' different a ((others r member).2.1 a table)
      ((others r' member').2.1 a table')

theorem Coexist.page_used {p : Nat} (coexist : Coexist info first mine nodes s h) (confined : Confined first own s t)
    (member : p ∈ h.pages) : ∃ i < frameCount t, p = first + 4096 * i ∧ frameFree t i = false ∧ mine i = false := by
  obtain ⟨i, lt, here, used, other⟩ := coexist.pages p member
  refine ⟨i, confined.count ▸ lt, here, ?_, other⟩
  cases free : frameFree t i with
  | false => rfl
  | true =>
    rw [confined.taken i lt free] at used
    cases used

theorem Coexist.page_kept {p x : Nat} (coexist : Coexist info first mine nodes s h) (confined : Confined first own s t)
    (member : p ∈ h.pages) (apart : ∀ b, own b → 4096 ∣ b) (other : ¬ own p) (has : (Extent.mk p 4096).Has x) :
    t.mem x = s.mem x := by
  obtain ⟨i, _, rfl, used, _⟩ := coexist.pages p member
  exact confined.keeps_frame coexist.heap.table used apart other has.1 has.2

/-- The heap's own steps. Everything but the heap's free memory and the blocks that are not in `live` is kept. -/
theorem Coexist.heapStep {nodes' : List Nat} {live blocks : List Block} (coexist : Coexist info first mine nodes s h)
    (after : HeapInv first mine t nodes' blocks) (move : HeapMove first mine live s t) (only : OnlyHeap s t)
    (old : ∀ b ∈ live, b ∈ h.blocks) :
    Coexist info first mine nodes' t { h with blocks := blocks } ∧
      (∀ x, { h with blocks := live }.Holds x → t.mem x = s.mem x) ∧
      ∀ r ∈ h.roots, ∀ v, translate t.mem r v = translate s.mem r v := by
  have confined := move.confined after only
  have aligned : ∀ b, HeapFrame first mine s b → 4096 ∣ b := fun b frame => frame.aligned coexist.heap.table
  obtain ⟨spaces, tables, walks⟩ := coexist.spared confined fun b frame =>
    ⟨aligned b frame, fun r member table => (coexist.untabled r member b table).2 frame⟩
  refine ⟨⟨after, spaces, fun p => coexist.page_used confined, coexist.distinct, ?_, by rw [move.count]; exact coexist.low,
    only.info.trans coexist.info⟩, ?_, walks⟩
  · intro r member a table
    have old := tables r member a table
    refine ⟨(coexist.untabled r member a old).1, fun frame => ?_⟩
    rcases frame.origin move.count with before | ⟨i, lt, free, rfl⟩
    · exact (coexist.untabled r member a old).2 before
    · exact ((coexist.spaces.tables r member).held _ old).used i lt free rfl
  · rintro x ⟨e, member, has⟩
    rcases List.mem_append.mp member with block | page
    · obtain ⟨b, present, rfl⟩ := List.mem_map.mp block
      obtain ⟨inside, owned⟩ := coexist.block_byte (old b present) has
      by_contra changed
      rcases move.writes x changed with table | ⟨_, apart⟩
      · have above := (owned.bounds coexist.heap.table).1
        omega
      · exact apart b present inside
    · obtain ⟨p, present, rfl⟩ := List.mem_map.mp page
      exact coexist.page_kept confined present aligned (coexist.page_not_frame present) has

/-- What a step changes of old frames are tables. -/
theorem StepSpec.changed_table {roots : List Nat} {change : SpaceCall} {b : Nat}
    (spec : StepSpec first h.roots roots change s t) (changes : change.changes s b) : ∃ r ∈ h.roots, IsTable s.mem r b := by
  cases change with
  | allocatePage cr3 => exact ⟨cr3, spec.owner cr3 rfl, changes⟩
  | createProcessPML4 => exact changes.elim
  | pageAlloc => exact changes.elim

theorem Coexist.changes_apart {roots : List Nat} {change : SpaceCall} {b : Nat} (coexist : Coexist info first mine nodes s h)
    (spec : StepSpec first h.roots roots change s t) (changes : change.changes s b) :
    4096 ∣ b ∧ ¬ HeapFrame first mine s b := by
  obtain ⟨r, member, table⟩ := spec.changed_table changes
  exact ⟨((coexist.spaces.tables r member).held b table).aligned, (coexist.untabled r member b table).2⟩

/-- The steps that build tables. They take frames that the heap then may not take any more. -/
theorem Coexist.tableStep {roots : List Nat} {change : SpaceCall} (coexist : Coexist info first mine nodes s h)
    (spec : StepSpec first h.roots roots change s t) (head : t.head = s.head) :
    Coexist info first (leftTo mine s t) nodes t { h with roots := roots } ∧ (∀ x, h.Holds x → t.mem x = s.mem x) ∧
      ∀ r ∈ h.roots, change.Spares r → ∀ v, translate t.mem r v = translate s.mem r v := by
  have confined := spec.confined
  have owner : ∀ b, change.changes s b → ∃ r ∈ h.roots, IsTable s.mem r b := fun b changes => spec.changed_table changes
  have apart : ∀ b, change.changes s b → 4096 ∣ b ∧ ¬ HeapFrame first mine s b := fun b => coexist.changes_apart spec
  have origin : ∀ r ∈ roots, ∀ a, IsTable t.mem r a →
      (∃ r' ∈ h.roots, IsTable s.mem r' a) ∨ ∃ j < frameCount s, frameFree s j = true ∧ a = first + 4096 * j := by
    intro r member a table
    rcases spec.changed r member with ⟨old, spares⟩ | ⟨_, changed⟩
    · exact Or.inl ⟨r, old, (spec.others coexist.spaces old spares).2.1 a table⟩
    · exact (changed a table).imp_left (owner a)
  refine ⟨⟨coexist.heap.foreign confined head apart, spec.spaces coexist.spaces, ?_, coexist.distinct, ?_,
    by rw [confined.count]; exact coexist.low, confined.info.trans coexist.info⟩, ?_,
    fun r member spares => (spec.others coexist.spaces member spares).2.2⟩
  · intro p member
    obtain ⟨i, lt, here, used, other⟩ := coexist.page_used confined member
    exact ⟨i, lt, here, used, by rw [leftTo, other]; rfl⟩
  · intro r member a table
    rcases origin r member a table with ⟨r', member', old⟩ | ⟨j, lt, free, rfl⟩
    · refine ⟨(coexist.untabled r' member' a old).1, fun frame => ?_⟩
      exact (coexist.untabled r' member' a old).2 (heapFrame_of_leftTo confined.count frame)
    · refine ⟨fun page => ?_, fun frame => ?_⟩
      · obtain ⟨i, _, here, used, _⟩ := coexist.pages _ page
        have same : j = i := by omega
        rw [same, used] at free
        cases free
      · obtain ⟨i, _, _, used, here⟩ := heapFrame_of_leftTo confined.count frame
        have same : j = i := by omega
        rw [same, used] at free
        cases free
  · rintro x ⟨e, member, has⟩
    rcases List.mem_append.mp member with block | page
    · obtain ⟨b, present, rfl⟩ := List.mem_map.mp block
      exact confined.keeps_heap coexist.heap.table apart (coexist.block_byte present has).2
    · obtain ⟨p, present, rfl⟩ := List.mem_map.mp page
      refine coexist.page_kept confined present (fun b changes => (apart b changes).1) (fun changes => ?_) has
      obtain ⟨r, root, table⟩ := owner p changes
      exact (coexist.untabled r root p table).1 present

/-- Mapping a page in an address space changes that one and takes fresh frames. -/
theorem Mapped.step {root : Nat} {c : MapCall} (mapped : Mapped first root c.virt c.phys c.size s t) (present : root ∈ h.roots) :
    StepSpec first h.roots h.roots (.allocatePage root) s t := by
  refine ⟨mapped.move.confined mapped.tables.frames, ?_, fun r member => ?_, fun r member r' member' different => ?_⟩
  · rintro cr3 ⟨⟩
    exact present
  · by_cases here : r = root
    · subst here
      refine Or.inr ⟨mapped.tables, fun a table => ?_⟩
      exact (mapped.move.tables a table).imp_right fun ⟨j, lt, free, _, same⟩ => ⟨j, lt, free, same⟩
    · exact Or.inl ⟨member, here⟩
  · by_cases here : r = root
    · exact Or.inr ⟨member', fun same => different (here.trans same.symm)⟩
    · exact Or.inl ⟨member, here⟩

/-- A page that has just been taken is nobody else's. -/
theorem Coexist.pageStep {p i : Nat} (coexist : Coexist info first mine nodes s h) (granted : Granted s first i p t) :
    Coexist info first (leftTo mine s t) nodes t { h with pages := p :: h.pages } ∧
      (∀ x, h.Holds x → t.mem x = s.mem x) ∧ ∀ r ∈ h.roots, ∀ v, translate t.mem r v = translate s.mem r v := by
  have spec : StepSpec first h.roots h.roots .pageAlloc s t := ⟨granted.confined, nofun,
    fun r member => Or.inl ⟨member, trivial⟩, fun r member r' member' _ => Or.inl ⟨member, trivial⟩⟩
  obtain ⟨after, kept, walks⟩ := coexist.tableStep spec (by rw [granted.globals])
  have fresh : p ∉ h.pages := by
    intro member
    obtain ⟨j, _, here, used, _⟩ := coexist.pages p member
    have page := granted.page
    have same : j = i := by omega
    rw [same, granted.free] at used
    cases used
  refine ⟨⟨after.heap, after.spaces, ?_, List.nodup_cons.mpr ⟨fresh, coexist.distinct⟩, ?_, after.low, after.info⟩, kept,
    fun r member => walks r member trivial⟩
  · intro q member
    rcases List.mem_cons.mp member with rfl | old
    · have taken : frameFree t i = false := by rw [granted.taken i granted.lt, if_pos rfl]
      refine ⟨i, granted.count ▸ granted.lt, granted.page, taken, ?_⟩
      rw [leftTo, taken, granted.free]
      simp
    · exact after.pages q old
  · intro r member a table
    refine ⟨fun present => ?_, (after.untabled r member a table).2⟩
    rcases List.mem_cons.mp present with rfl | old
    · have before := (spec.others coexist.spaces member trivial).2.1 a table
      exact ((coexist.spaces.tables r member).held a before).used i granted.lt granted.free granted.page.symm
    · exact (after.untabled r member a table).1 old

/-- A page that its client gives back is one that the heap may take. -/
theorem Coexist.releaseStep {p : Nat} (coexist : Coexist info first mine nodes s h) (member : p ∈ h.pages) :
    Coexist info first (fun i => mine i || frameFree (pageFree p s) i) nodes (pageFree p s)
        { h with pages := h.pages.erase p } ∧
      (∀ x, h.Holds x → (pageFree p s).mem x = s.mem x) ∧
      ∀ r ∈ h.roots, ∀ v, translate (pageFree p s).mem r v = translate s.mem r v := by
  obtain ⟨globals, frames, keep, flags⟩ := pageFree_spec coexist.heap.table p
  have count : frameCount (pageFree p s) = frameCount s := by
    rw [globals]
    rfl
  have tables := fun r present => (coexist.spaces.tables r present).released (p := p) coexist.low
    fun table => (coexist.untabled r present p table).1 member
  obtain ⟨i, lt, here, used, other⟩ := coexist.pages p member
  have freed : ∀ j < frameCount s, frameFree (pageFree p s) j = true → frameFree s j = true ∨ j = i := by
    intro j below free
    rw [flags j below] at free
    rcases Bool.or_eq_true_iff.mp free with free | same
    · exact Or.inl free
    · have page := of_decide_eq_true same
      exact Or.inr (by omega)
  have more : ∀ j, mine j = true → (mine j || frameFree (pageFree p s) j) = true := fun j here => by rw [here]; rfl
  have heap : HeapInv first (fun i => mine i || frameFree (pageFree p s) i) (pageFree p s) nodes h.blocks := by
    have outside : ∀ x, InUse s.mem nodes h.blocks x → x < first + 4096 * i ∨ first + 4096 * i + 4096 ≤ x := by
      rintro x ⟨e, present, has⟩
      by_contra inside
      have inPage : (Extent.mk p 4096).Has x := by
        simp only [Extent.Has]
        omega
      exact coexist.page_not_heap member inPage (coexist.heap.inside e present x has)
    have start : (mine i || frameFree (pageFree p s) i) = true := by
      rw [flags i lt, here]
      simp
    rw [here] at more start ⊢
    exact ((coexist.heap.mono more).pageFree start outside).1
  refine ⟨⟨heap, ⟨frames, ?_, fun r present => (tables r present).1, ?_⟩, ?_, coexist.distinct.erase p, ?_,
    by rw [count]; exact coexist.low, ?_⟩, ?_, fun r present => (tables r present).2.2⟩
  · intro j below _
    exact coexist.low j (count ▸ below)
  · intro r present r' present' different a table table'
    exact coexist.spaces.apart r present r' present' different a ((tables r present).2.1 a table)
      ((tables r' present').2.1 a table')
  · intro q present
    obtain ⟨different, old⟩ := (coexist.distinct.mem_erase_iff).mp present
    obtain ⟨j, below, place, taken, off⟩ := coexist.pages q old
    have still : frameFree (pageFree p s) j = false := by
      cases free : frameFree (pageFree p s) j with
      | false => rfl
      | true =>
        rcases freed j below free with before | same
        · rw [before] at taken
          cases taken
        · exact absurd (by rw [place, same, here]) different
    exact ⟨j, count ▸ below, place, still, by rw [off, still]; rfl⟩
  · intro r present a table
    obtain ⟨offPages, offHeap⟩ := coexist.untabled r present a ((tables r present).2.1 a table)
    refine ⟨fun page => offPages (List.mem_of_mem_erase page), ?_⟩
    rintro ⟨j, below, owned, taken, place⟩
    rw [count] at below
    have owned : (mine j || frameFree (pageFree p s) j) = true := owned
    rw [taken, Bool.or_false] at owned
    refine offHeap ⟨j, below, owned, ?_, place⟩
    have before := flags j below
    rw [taken] at before
    exact (Bool.or_eq_false_iff.mp before.symm).1
  · rw [globals]
    exact coexist.info
  · intro x held
    have above := coexist.above held
    apply keep
    intro j below _
    unfold frameEntry
    omega

/-! ### The objects in a kernel -/

instance (h : Handles) (x : Nat) : Decidable (h.Holds x) := inferInstanceAs (Decidable (∃ e ∈ h.extents, e.Has x))

/-- What clients see of the kernel: the memory of their objects, and the translations of their address spaces. -/
def view (s : Kernel) (h : Handles) : Objects where
  held := h
  bytes x := if h.Holds x then some (s.mem x) else none
  spaces r := if r ∈ h.roots then some (translate s.mem r) else none

theorem view_hands {e : Extent} {initial : Nat → UInt8} (held : h'.extents.Perm (e :: h.extents))
    (disjoint : h'.extents.Pairwise fun e f => ∀ x, e.Has x → ¬ f.Has x)
    (kept : ∀ x, h.Holds x → t.mem x = s.mem x) (new : ∀ x, e.Has x → t.mem x = initial x) :
    (view s h).Hands (view t h') e initial := by
  have apart := (List.pairwise_cons.mp ((Objects.disjoint_perm held).mp disjoint)).1
  have holds : ∀ x, h'.Holds x ↔ e.Has x ∨ h.Holds x := by
    intro x
    have cons := List.exists_mem_cons_iff (fun f : Extent => f.Has x) e h.extents
    exact (exists_congr fun f => and_congr_left' held.mem_iff).trans cons
  refine ⟨fun x has => if_neg ?_, funext fun x => ?_⟩
  · rintro ⟨f, member, has'⟩
    exact apart f member x has has'
  · show (if h'.Holds x then some (t.mem x) else none) = if e.Has x then some (initial x) else if h.Holds x then _ else _
    by_cases here : e.Has x
    · rw [if_pos ((holds x).mpr (Or.inl here)), if_pos here, new x here]
    · rw [if_neg here]
      by_cases old : h.Holds x
      · rw [if_pos ((holds x).mpr (Or.inr old)), if_pos old, kept x old]
      · rw [if_neg fun held => ((holds x).mp held).elim here old, if_neg old]

theorem view_withdraw {e : Extent} (held : h.extents.Perm (e :: h'.extents))
    (disjoint : h.extents.Pairwise fun e f => ∀ x, e.Has x → ¬ f.Has x)
    (kept : ∀ x, h'.Holds x → t.mem x = s.mem x) : (view t h').bytes = (view s h).bytes.withdraw e := by
  have apart := (List.pairwise_cons.mp ((Objects.disjoint_perm held).mp disjoint)).1
  have holds : ∀ x, h.Holds x ↔ e.Has x ∨ h'.Holds x := by
    intro x
    have cons := List.exists_mem_cons_iff (fun f : Extent => f.Has x) e h'.extents
    exact (exists_congr fun f => and_congr_left' held.mem_iff).trans cons
  funext x
  show (if h'.Holds x then some (t.mem x) else none) = if e.Has x then none else if h.Holds x then _ else _
  by_cases here : e.Has x
  · rw [if_pos here, if_neg fun ⟨f, member, has⟩ => apart f member x here has]
  · rw [if_neg here]
    by_cases old : h'.Holds x
    · rw [if_pos old, if_pos ((holds x).mpr (Or.inr old)), kept x old]
    · rw [if_neg old, if_neg fun held => ((holds x).mp held).elim here old]

theorem view_spaces (roots : h'.roots = h.roots) (same : ∀ r ∈ h.roots, ∀ v, translate t.mem r v = translate s.mem r v) :
    (view t h').spaces = (view s h).spaces := by
  funext r
  show (if r ∈ h'.roots then some (translate t.mem r) else none) = if r ∈ h.roots then _ else _
  rw [roots]
  split
  · rw [funext (same r ‹_›)]
  · rfl

theorem view_bytes (held : h'.extents = h.extents) (kept : ∀ x, h.Holds x → t.mem x = s.mem x) :
    (view t h').bytes = (view s h).bytes := by
  funext x
  have holds : h'.Holds x ↔ h.Holds x := by rw [Handles.Holds, held, ← Handles.Holds]
  show (if h'.Holds x then some (t.mem x) else none) = if h.Holds x then _ else _
  by_cases old : h.Holds x
  · rw [if_pos (holds.mpr old), if_pos old, kept x old]
  · rw [if_neg fun held => old (holds.mp held), if_neg old]

theorem view_maps {root : Nat} {c : MapCall} (roots : h'.roots = h.roots) (present : root ∈ h.roots)
    (others : ∀ r ∈ h.roots, r ≠ root → ∀ v, translate t.mem r v = translate s.mem r v)
    (mapped : ∀ v, translate t.mem root v = Space.remap (translate s.mem root) c v) :
    (view s h).Maps (view t h') root c := by
  refine ⟨translate s.mem root, if_pos present, funext fun r => ?_⟩
  show (if r ∈ h'.roots then some (translate t.mem r) else none) = _
  rw [roots]
  by_cases here : r = root
  · rw [here, Function.update_self, if_pos present, funext mapped]
  · rw [Function.update_of_ne here]
    show _ = if r ∈ h.roots then _ else _
    split
    · rw [funext (others r ‹_› here)]
    · rfl

theorem Mapped.translate {root : Nat} {c : MapCall} (mapped : Mapped first root c.virt c.phys c.size s t) (valid : c.Valid)
    (v : Nat) : translate t.mem root v = Space.remap (System14.translate s.mem root) c v := by
  unfold Space.remap
  split
  · rename_i covers
    rw [System14.translate, mapped.hit _ (valid.onPage_iff_covers.mpr covers), ← valid.offset covers]
  · exact mapped.translate_outside valid ‹_›

/-! ### Each call -/

/-- The call has done to the objects what it may, and everyone has frames of their own again. -/
structure Done (info : GlobalPagingInfo) (first : Nat) (s : Kernel) (h : Handles) (call : MemoryCall) (r : Nat) (t : Kernel) :
    Prop where
  coexist : ∃ mine nodes, Coexist info first mine nodes t (h.after call r)
  changes : (view s h).Changes info call r (view t (h.after call r))

theorem Coexist.malloc_done {size : Nat} (coexist : Coexist info first mine nodes s h) (clean : MallocClean s size)
    (returned : Returns (malloc .halts · size s) (r, t)) : Done info first s h (.malloc size) r t := by
  obtain ⟨⟨⟨nodes', after⟩, move⟩, only⟩ := returned.yields fun fuel enough =>
    (malloc_yields coexist.heap clean enough).and (alloc_onlyHeap fuel size 1 s)
  obtain ⟨coexist', kept, walks⟩ := coexist.heapStep after move only fun _ => id
  have held := Objects.extents_block { h with blocks := ⟨r, size⟩ :: h.blocks } ⟨r, size⟩ _ (List.Perm.refl _)
  exact ⟨⟨mine, nodes', coexist'⟩, ⟨t.mem, view_hands held coexist'.disjoint kept fun _ _ => rfl⟩, view_spaces rfl walks⟩

theorem Coexist.calloc_done {size : Nat} (coexist : Coexist info first mine nodes s h) (clean : MallocClean s size)
    (returned : Returns (calloc .halts · size s) (r, t)) : Done info first s h (.calloc size) r t := by
  obtain ⟨⟨⟨nodes', after⟩, move, zero⟩, only⟩ := returned.yields fun fuel enough =>
    (calloc_yields coexist.heap clean enough).and (calloc_onlyHeap fuel size s)
  obtain ⟨coexist', kept, walks⟩ := coexist.heapStep after move only fun _ => id
  have held := Objects.extents_block { h with blocks := ⟨r, size⟩ :: h.blocks } ⟨r, size⟩ _ (List.Perm.refl _)
  exact ⟨⟨mine, nodes', coexist'⟩, view_hands held coexist'.disjoint kept fun x has => zero x has.1 has.2, view_spaces rfl walks⟩

theorem Coexist.free_done {b : Block} (coexist : Coexist info first mine nodes s h) (member : b ∈ h.blocks) :
    Done info first s h (.free b) r (heapFree b.ptr s) := by
  obtain ⟨after, move, _⟩ := coexist.heap.free member
  obtain ⟨coexist', kept, walks⟩ := coexist.heapStep after move rfl fun _ => List.mem_of_mem_erase
  have held := Objects.extents_block h b _ (List.perm_cons_erase member)
  exact ⟨⟨mine, _, coexist'⟩, view_withdraw held coexist.disjoint kept, view_spaces rfl walks⟩

/-- A store into memory of a page. -/
theorem Coexist.pageWrite {p address : Nat} (coexist : Coexist info first mine nodes s h) (value : UInt8)
    (member : p ∈ h.pages) (has : (Extent.mk p 4096).Has address) (held : h.Holds address) :
    (∃ mine', Coexist info first mine' nodes { s with mem := Function.update s.mem address value } h) ∧
      ∀ r ∈ h.roots, ∀ v, translate (Function.update s.mem address value) r v = translate s.mem r v := by
  have above := coexist.above held
  have same : SameTable s { s with mem := Function.update s.mem address value } :=
    ⟨rfl, rfl, fun x _ high => Function.update_of_ne (by omega) _ _⟩
  have confined : Confined first (· = p) s { s with mem := Function.update s.mem address value } := by
    refine ⟨coexist.heap.table.congr same, rfl, rfl, rfl, fun i lt free => same.free lt ▸ free, fun x changed => ?_⟩
    by_cases here : x = address
    · exact Or.inr (Or.inl ⟨p, rfl, here ▸ has⟩)
    · exact absurd (Function.update_of_ne here _ _) changed
  have aligned : 4096 ∣ p := by
    obtain ⟨i, _, rfl, _, _⟩ := coexist.pages p member
    exact Nat.dvd_add coexist.heap.table.aligned (Nat.dvd_mul_right 4096 i)
  obtain ⟨spaces, tables, walks⟩ := coexist.spared confined fun b here => by
    subst here
    exact ⟨aligned, fun r root table => (coexist.untabled r root b table).1 member⟩
  have heap := coexist.heap.foreign confined rfl fun b here => by
    subst here
    exact ⟨aligned, coexist.page_not_frame member⟩
  refine ⟨⟨_, heap, spaces, fun q present => ?_, coexist.distinct, fun r root a table => ?_, coexist.low, coexist.info⟩, walks⟩
  · obtain ⟨i, lt, here, used, other⟩ := coexist.page_used confined present
    exact ⟨i, lt, here, used, by rw [leftTo, other]; rfl⟩
  · obtain ⟨offPages, offHeap⟩ := coexist.untabled r root a (tables r root a table)
    exact ⟨offPages, fun frame => offHeap (heapFrame_of_leftTo confined.count frame)⟩

theorem Coexist.writeStep {address : Nat} (coexist : Coexist info first mine nodes s h) (value : UInt8)
    (held : h.Holds address) :
    (∃ mine', Coexist info first mine' nodes { s with mem := Function.update s.mem address value } h) ∧
      ∀ r ∈ h.roots, ∀ v, translate (Function.update s.mem address value) r v = translate s.mem r v := by
  obtain ⟨e, member, has⟩ := id held
  rcases List.mem_append.mp member with block | page
  · obtain ⟨b, present, rfl⟩ := List.mem_map.mp block
    obtain ⟨after, move, _⟩ := coexist.heap.payload (m := Function.update s.mem address value) present fun x changed => by
      by_cases here : x = address
      · exact here ▸ has
      · exact absurd (Function.update_of_ne here _ _) changed
    obtain ⟨coexist', _, walks⟩ := coexist.heapStep after move rfl fun _ => List.mem_of_mem_erase
    exact ⟨⟨mine, coexist'⟩, walks⟩
  · obtain ⟨p, present, rfl⟩ := List.mem_map.mp page
    exact coexist.pageWrite value present has held

theorem Coexist.write_done {address : Nat} {value : UInt8} (coexist : Coexist info first mine nodes s h)
    (held : h.Holds address) :
    Done info first s h (.write address value) r { s with mem := Function.update s.mem address value } := by
  obtain ⟨⟨mine', coexist'⟩, walks⟩ := coexist.writeStep value held
  refine ⟨⟨mine', nodes, coexist'⟩, funext fun x => ?_, view_spaces rfl walks⟩
  show (if h.Holds x then some (Function.update s.mem address value x) else none) = _
  by_cases here : x = address
  · rw [here, Function.update_self, Function.update_self, if_pos held]
  · rw [Function.update_of_ne here, Function.update_of_ne here]
    rfl

theorem Coexist.pageAlloc_done (coexist : Coexist info first mine nodes s h) (call : pageAlloc .halts s = .ok (r, t)) :
    Done info first s h .pageAlloc r t := by
  obtain ⟨i, granted⟩ := pageAlloc_ok coexist.heap.table call
  obtain ⟨coexist', kept, walks⟩ := coexist.pageStep granted
  have held := Objects.extents_page { h with pages := r :: h.pages } r _ (List.Perm.refl _)
  have aligned : 4096 ∣ r := granted.page ▸ Nat.dvd_add coexist.heap.table.aligned (Nat.dvd_mul_right 4096 i)
  exact ⟨⟨_, nodes, coexist'⟩,
    ⟨aligned, view_hands held coexist'.disjoint kept fun x has => granted.zero x has.1 has.2⟩, view_spaces rfl walks⟩

theorem Coexist.pageFree_done {p : Nat} (coexist : Coexist info first mine nodes s h) (member : p ∈ h.pages) :
    Done info first s h (.pageFree p) r (pageFree p s) := by
  obtain ⟨coexist', kept, walks⟩ := coexist.releaseStep member
  have held := Objects.extents_page h p _ (List.perm_cons_erase member)
  refine ⟨⟨_, nodes, coexist'⟩, view_withdraw held coexist.disjoint fun x still => kept x ?_, view_spaces rfl walks⟩
  obtain ⟨e, present, has⟩ := still
  exact ⟨e, held.mem_iff.mpr (List.mem_cons_of_mem _ present), has⟩

theorem mapPage_mapped {root : Nat} {c : MapCall} (tables : Tables s first root) (valid : c.Valid)
    (clear : Clear s.mem root c.virt c.size) :
    Yields Fault (mapPage .halts root c.virt c.phys c.size c.user s) (Mapped first root c.virt c.phys c.size s) :=
  mapPage_of (((mapCall_yields tables valid clear).mono fun _ mapped => mapped.2).weaken fun _ => Or.inl)

theorem Coexist.mapMemory_done {root : Nat} {c : MapCall} (coexist : Coexist info first mine nodes s h)
    (present : root ∈ h.roots) (valid : c.Valid) (clear : Clear s.mem root c.virt c.size)
    (call : mapPage .halts root c.virt c.phys c.size c.user s = .ok t) : Done info first s h (.mapMemory root c) r t := by
  have mapped := (mapPage_mapped (coexist.spaces.tables root present) valid clear).ok call
  obtain ⟨coexist', kept, walks⟩ := coexist.tableStep (mapped.step present) (by rw [mapped.move.globals])
  exact ⟨⟨_, nodes, coexist'⟩, view_bytes rfl kept, view_maps rfl present walks fun v => mapped.translate valid v⟩

/-- A new address space, with tables from fresh frames. -/
theorem Coexist.createStep {start stop : Nat} {inKernelCode : Bool} (coexist : Coexist info first mine nodes s h)
    (boot : info.Boot) (clear : ProgramClear s.globalPagingInfo start stop inKernelCode)
    (returned : Returns (createProcessPML4 .halts · start stop inKernelCode s) (r, t)) :
    Coexist info first (leftTo mine s t) nodes t { h with roots := r :: h.roots } ∧
      (∀ x, HeapByte first mine s x ∨ h.Holds x → t.mem x = s.mem x) ∧
      (∀ root ∈ h.roots, ∀ v, translate t.mem root v = translate s.mem root v) ∧ r ∉ h.roots ∧
      ∀ v, translate t.mem r v = spaceOf (info.processCalls start stop inKernelCode) v := by
  obtain rfl := coexist.info
  obtain ⟨i, u, granted, built⟩ := returned.yields fun fuel enough =>
    createProcessPML4_yields coexist.spaces.frames coexist.spaces.pool boot clear enough
  have head : t.head = s.head := by
    have moved : t = { u with mem := t.mem } := built.move.globals
    rw [moved, granted.globals]
  have spec := createProcessPML4_step coexist.spaces boot clear returned
  obtain ⟨coexist', kept, walks⟩ := coexist.tableStep spec head
  refine ⟨coexist', ?_, fun root member => walks root member trivial, fun member => ?_,
    built.agrees.translate (processCalls_valid boot clear)⟩
  · rintro x (owned | held)
    · exact spec.confined.keeps_heap coexist.heap.table (fun b => coexist.changes_apart spec) owned
    · exact kept x held
  · exact ((coexist.spaces.tables r member).held r ⟨walkPath 0, 3, Reaches.root⟩).used i granted.lt granted.free granted.page.symm

theorem Coexist.createProcessPML4_done {start stop : Nat} {inKernelCode : Bool} (coexist : Coexist info first mine nodes s h)
    (boot : info.Boot) (clear : ProgramClear s.globalPagingInfo start stop inKernelCode)
    (returned : Returns (createProcessPML4 .halts · start stop inKernelCode s) (r, t)) :
    Done info first s h (.createProcessPML4 start stop inKernelCode) r t := by
  obtain ⟨coexist', kept, walks, fresh, space⟩ := coexist.createStep boot clear returned
  refine ⟨⟨_, nodes, coexist'⟩, view_bytes rfl fun x held => kept x (Or.inr held), if_neg fresh, funext fun root => ?_⟩
  show (if root ∈ r :: h.roots then some (translate t.mem root) else none) = _
  by_cases here : root = r
  · rw [here, Function.update_self, if_pos (List.mem_cons_self ..)]
    exact congrArg some (funext space)
  · rw [Function.update_of_ne here]
    show _ = if root ∈ h.roots then _ else _
    by_cases member : root ∈ h.roots
    · rw [if_pos (List.mem_cons_of_mem _ member), if_pos member, funext (walks root member)]
    · rw [if_neg fun new => (List.mem_cons.mp new).elim here member, if_neg member]

/-- The call of `MapMemory` with which `AllocatePage` maps the page at its own address. -/
def identityCall (page : Nat) : MapCall := ⟨page, page, ._4K, true⟩

/-- The page that `AllocatePage` has taken can be mapped. -/
theorem Granted.mappable {cr3 i : Nat} (granted : Granted s first i r u) (tables : Tables s first cr3)
    (low : ∀ i < frameCount s, first + 4096 * i < 2 ^ 40) (clear : Clean first s (.allocatePage cr3)) :
    Tables u first cr3 ∧ (identityCall r).Valid ∧ Clear u.mem cr3 r ._4K := by
  obtain ⟨after, _, walks⟩ := granted.mapMove tables
  have aligned : 4096 ∣ r := granted.page ▸ Nat.dvd_add tables.frames.aligned (Nat.dvd_mul_right 4096 i)
  have small : r < 2 ^ 52 := by
    have below := low i granted.lt
    have here := granted.page
    omega
  refine ⟨after, ⟨aligned, aligned, small⟩, fun small b found => ?_⟩
  rw [walks, granted.page] at found
  exact clear i granted.lt granted.free granted.least small b found

theorem Coexist.allocatePage_done {cr3 : Nat} (coexist : Coexist info first mine nodes s h) (present : cr3 ∈ h.roots)
    (clear : Clean first s (.allocatePage cr3)) (call : allocatePage .halts cr3 s = .ok (r, t)) :
    Done info first s h (.allocatePage cr3) r t := by
  obtain ⟨⟨p, u⟩, alloc, call⟩ := bind_ok.mp call
  obtain ⟨v, mapping, call⟩ := bind_ok.mp call
  cases call
  obtain ⟨i, granted⟩ := pageAlloc_ok coexist.heap.table alloc
  obtain ⟨after, valid, free⟩ := granted.mappable (coexist.spaces.tables cr3 present) coexist.low clear
  have mapped := (mapPage_mapped (c := identityCall r) after valid free).ok mapping
  obtain ⟨between, keptFirst, walksFirst⟩ := coexist.pageStep granted
  obtain ⟨coexist', keptThen, walksThen⟩ := between.tableStep (mapped.step present) (by rw [mapped.move.globals])
  have held := Objects.extents_page { h with pages := r :: h.pages } r _ (List.Perm.refl _)
  refine ⟨⟨_, nodes, coexist'⟩, ⟨valid.virt, view_hands held coexist'.disjoint (fun x old => ?_) fun x has => ?_⟩, ?_⟩
  · obtain ⟨e, member, has⟩ := id old
    exact (keptThen x ⟨e, held.mem_iff.mpr (List.mem_cons_of_mem _ member), has⟩).trans (keptFirst x old)
  · exact (keptThen x ⟨_, held.mem_iff.mpr (List.mem_cons_self ..), has⟩).trans (granted.zero x has.1 has.2)
  · refine view_maps rfl present (fun root member other v => ?_) fun v => ?_
    · exact (walksThen root member other v).trans (walksFirst root member v)
    · rw [mapped.translate valid v, funext (walksFirst cr3 present)]
      rfl

/-- Every call that is permitted and clean does to the objects what it may. -/
theorem Coexist.perform_done (coexist : Coexist info first mine nodes s h) (boot : info.Boot) (permitted : h.Permits call)
    (clean : Clean first s call) (returned : Returns (perform · s call) (r, t)) : Done info first s h call r t := by
  cases call with
  | malloc size => exact coexist.malloc_done clean returned
  | calloc size => exact coexist.calloc_done clean returned
  | free b =>
    obtain ⟨bound, call⟩ := returned
    cases call bound le_rfl
    exact coexist.free_done permitted
  | write address value =>
    obtain ⟨bound, call⟩ := returned
    cases call bound le_rfl
    exact coexist.write_done permitted
  | pageAlloc =>
    obtain ⟨bound, call⟩ := returned
    exact coexist.pageAlloc_done (call bound le_rfl)
  | pageFree page =>
    obtain ⟨bound, call⟩ := returned
    cases call bound le_rfl
    exact coexist.pageFree_done permitted
  | createProcessPML4 start stop inKernelCode => exact coexist.createProcessPML4_done boot clean returned
  | mapMemory root c =>
    obtain ⟨bound, call⟩ := returned
    obtain ⟨u, mapping, here⟩ := bind_ok.mp (call bound le_rfl)
    cases here
    exact coexist.mapMemory_done permitted clean.1 clean.2 mapping
  | allocatePage cr3 =>
    obtain ⟨bound, call⟩ := returned
    exact coexist.allocatePage_done permitted clean (call bound le_rfl)

end System14
