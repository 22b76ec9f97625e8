import System14.Mm.Paging

/-!
# Page tables in memory

`Tables s first root` says that the walks from `root` go through used, aligned
frames below 2^40, each reached in one way. `mapMemory_yields` is the effect of
one call on the walks: the page it names ends them, and all others stay.
-/

namespace System14
open ByteMem Run Radix

variable {s t u : Kernel} {first root : Nat}

/-! ### Entry words -/

theorem entryWord_lt (m : Mem) (table entry : Nat) : entryWord m table entry < 2 ^ 64 := load_lt 8 _ _

theorem setEntry_apply {field : BitField} {table entry value x : Nat}
    (outside : x < entryAddr table entry ∨ entryAddr table entry + 8 ≤ x) :
    (setEntry field table entry value s).mem x = s.mem x := store_apply_of_not_mem outside

theorem entryWord_setEntry {field : BitField} {table entry value : Nat} (within : field.lo + field.width ≤ 64) :
    entryWord (setEntry field table entry value s).mem table entry =
      field.set (entryWord s.mem table entry) value := by
  show load 8 (store 8 s.mem (entryAddr table entry) _) (entryAddr table entry) = _
  rw [load_store_same]
  exact Nat.mod_eq_of_lt (BitField.set_lt (entryWord_lt _ _ _) within)

/-- `t` is `s` but for the entry, which is `word` in `t`. -/
structure Assigned (s : Kernel) (table entry word : Nat) (t : Kernel) : Prop where
  globals : t = { s with mem := t.mem }
  word : entryWord t.mem table entry = word
  keep : ∀ x, x < entryAddr table entry ∨ entryAddr table entry + 8 ≤ x → t.mem x = s.mem x

theorem Assigned.refl (s : Kernel) (table entry : Nat) : Assigned s table entry (entryWord s.mem table entry) s :=
  ⟨rfl, rfl, fun _ _ => rfl⟩

theorem Assigned.set {table entry word : Nat} (field : BitField) (value : Nat) (assigned : Assigned s table entry word t)
    (within : field.lo + field.width ≤ 64) :
    Assigned s table entry (field.set word value) (setEntry field table entry value t) := by
  refine ⟨?_, ?_, fun x outside => ?_⟩
  · have globals := assigned.globals
    rw [setEntry, globals]
  · rw [entryWord_setEntry within, assigned.word]
  · rw [setEntry_apply outside, assigned.keep x outside]

def linkWord (word table : Nat) : Nat :=
  PTE.rw.set (PTE.present.set (PTE.physAddr.set word (table >>> 12)) 1) 1

def leafWord (word phys : Nat) (size : PageSizes) (user : Bool) : Nat :=
  let word := PTE.physAddr.set (PTE.rw.set (PTE.present.set word 1) 1) (phys >>> 12)
  let word := if size = ._2M then PTE.pageSize.set word 1 else word
  if user then PTE.userSupervisor.set word 1 else word

theorem setLeaf_assigned (t index phys : Nat) (size : PageSizes) (user : Bool) (s : Kernel) :
    Assigned s t index (leafWord (entryWord s.mem t index) phys size user) (setLeaf t index phys size user s) := by
  have start := (((Assigned.refl s t index).set PTE.present 1 (by decide)).set
    PTE.rw 1 (by decide)).set PTE.physAddr (phys >>> 12) (by decide)
  unfold setLeaf leafWord
  cases size with
  | _4K =>
    cases user with
    | false => exact start
    | true => exact start.set _ _ (by decide)
  | _2M =>
    cases user with
    | false => exact start.set _ _ (by decide)
    | true => exact (start.set _ _ (by decide)).set _ _ (by decide)

def PageSizes.level : PageSizes → Nat
  | ._4K => 0
  | ._2M => 1

theorem entrySlot_linkWord {level table : Nat} (positive : 0 < level) (aligned : 4096 ∣ table) (low : table < 2 ^ 40) :
    entrySlot level (linkWord 0 table) = .table table := by
  obtain ⟨k, rfl⟩ := aligned
  have present : PTE.present.get (linkWord 0 (4096 * k)) = 1 := by
    rw [linkWord, BitField.get_set_of_apart (by decide), BitField.get_set_same]
    rfl
  have pageSize : PTE.pageSize.get (linkWord 0 (4096 * k)) = 0 := by
    rw [linkWord, BitField.get_set_of_apart (by decide), BitField.get_set_of_apart (by decide),
      BitField.get_set_of_apart (by decide), BitField.get_zero]
  have physAddr : PTE.physAddr.get (linkWord 0 (4096 * k)) = k := by
    rw [linkWord, BitField.get_set_of_apart (by decide), BitField.get_set_of_apart (by decide), BitField.get_set_same,
      Nat.shiftRight_eq_div_pow]
    show 4096 * k / 4096 % 2 ^ 40 = k
    omega
  rw [entrySlot, present, pageSize, physAddr, if_neg (by omega), if_neg (by omega), Nat.mul_comm]

theorem entrySlot_leafWord (word phys : Nat) (size : PageSizes) (user : Bool) (aligned : 4096 ∣ phys)
    (small : phys < 2 ^ 52) : entrySlot size.level (leafWord word phys size user) = .page phys := by
  obtain ⟨k, rfl⟩ := aligned
  have present : PTE.present.get (leafWord word (4096 * k) size user) = 1 := by
    cases size <;> cases user <;> simp only [leafWord, if_true, if_false, reduceCtorEq, Bool.false_eq_true] <;>
      repeat rw [BitField.get_set_of_apart (by decide)]
    all_goals rw [BitField.get_set_same]; rfl
  have physAddr : PTE.physAddr.get (leafWord word (4096 * k) size user) = k := by
    have value : (4096 * k) >>> 12 % 2 ^ 40 = k := by
      rw [Nat.shiftRight_eq_div_pow]
      show 4096 * k / 4096 % 2 ^ 40 = k
      omega
    cases size <;> cases user <;> simp only [leafWord, if_true, if_false, reduceCtorEq, Bool.false_eq_true] <;>
      repeat rw [BitField.get_set_of_apart (by decide)]
    all_goals rw [BitField.get_set_same]; exact value
  rw [entrySlot, present, physAddr, if_neg (by omega), Nat.mul_comm k]
  cases size with
  | _4K => exact if_pos (Or.inl rfl)
  | _2M =>
    have pageSize : PTE.pageSize.get (leafWord word (4096 * k) ._2M user) = 1 := by
      cases user <;> simp only [leafWord, if_true, if_false, Bool.false_eq_true]
      · rw [BitField.get_set_same]; rfl
      · rw [BitField.get_set_of_apart (by decide), BitField.get_set_same]; rfl
    rw [pageSize]
    exact if_pos (Or.inr ⟨rfl, rfl⟩)

theorem leafWord_ne_zero (word phys : Nat) (size : PageSizes) (user : Bool) (aligned : 4096 ∣ phys)
    (small : phys < 2 ^ 52) : leafWord word phys size user ≠ 0 := by
  intro zero
  have slot := entrySlot_leafWord word phys size user aligned small
  rw [zero, entrySlot, BitField.get_zero, if_pos rfl] at slot
  cases slot

/-! ### Frames and tables -/

/-- A page that the allocator will not touch: apart from the frame table and from every free frame. -/
structure Reserved (s : Kernel) (first a : Nat) : Prop where
  aligned : 4096 ∣ a
  table : a + 4096 ≤ s.frameList ∨ s.frameList + 16 * frameCount s ≤ a
  used : ∀ i < frameCount s, frameFree s i = true → first + 4096 * i ≠ a

/-- A reserved frame that a 40-bit address can name. -/
structure Held (s : Kernel) (first a : Nat) : Prop where
  aligned : 4096 ∣ a
  nonnull : a ≠ null
  low : a < 2 ^ 40
  table : a + 4096 ≤ s.frameList ∨ s.frameList + 16 * frameCount s ≤ a
  used : ∀ i < frameCount s, frameFree s i = true → first + 4096 * i ≠ a

theorem Held.reserved {a : Nat} (held : Held s first a) : Reserved s first a := ⟨held.aligned, held.table, held.used⟩

def IsTable (m : Mem) (root a : Nat) : Prop := ∃ path l, Reaches (tableView m) 3 root path l a

/-- The state of an address space: the allocator's layout, free frames that the
40-bit shift can address, and a tree of held tables whose absent entries are blank. -/
structure Tables (s : Kernel) (first root : Nat) : Prop where
  frames : FrameTable s first
  pool : ∀ i < frameCount s, frameFree s i = true → first + 4096 * i < 2 ^ 40
  held : ∀ a, IsTable s.mem root a → Held s first a
  unshared : Unshared (tableView s.mem) 3 root
  blank : ∀ path l a i, Reaches (tableView s.mem) 3 root path l a → tableView s.mem l a i = .empty →
    entryWord s.mem a i = 0

def freeFrames (s : Kernel) : Nat := (List.range (frameCount s)).countP (frameFree s)

/-- What building tables at `root` may do: take frames, write them, write the
tables that were there, and mark frames as used. -/
structure MapMove (first root : Nat) (s t : Kernel) : Prop where
  globals : t = { s with mem := t.mem }
  taken : ∀ i < frameCount s, frameFree t i = true → frameFree s i = true
  tables : ∀ a, IsTable t.mem root a → IsTable s.mem root a ∨
    ∃ i < frameCount s, frameFree s i = true ∧ frameFree t i = false ∧ a = first + 4096 * i
  writes : ∀ x, t.mem x ≠ s.mem x → (s.frameList ≤ x ∧ x < s.frameList + 16 * frameCount s) ∨
    (∃ a, IsTable s.mem root a ∧ a ≤ x ∧ x < a + 4096) ∨
    ∃ i < frameCount s, frameFree s i = true ∧ frameFree t i = false ∧
      first + 4096 * i ≤ x ∧ x < first + 4096 * i + 4096

theorem MapMove.count (move : MapMove first root s t) : frameCount t = frameCount s := by
  rw [move.globals]
  rfl

theorem MapMove.list (move : MapMove first root s t) : t.frameList = s.frameList := by
  rw [move.globals]

theorem MapMove.refl : MapMove first root s s :=
  ⟨rfl, fun _ _ free => free, fun _ old => Or.inl old, fun _ changed => absurd rfl changed⟩

theorem MapMove.trans (one : MapMove first root s t) (two : MapMove first root t u) : MapMove first root s u := by
  have count := one.count
  have later : ∀ i < frameCount s, frameFree s i = true → frameFree t i = false → frameFree u i = false := by
    intro i lt free used
    cases again : frameFree u i with
    | false => rfl
    | true =>
      rw [two.taken i (by omega) again] at used
      exact nomatch used
  refine ⟨?_, ?_, ?_, ?_⟩
  · rw [two.globals, one.globals]
  · intro i lt free
    exact one.taken i lt (two.taken i (by omega) free)
  · intro a table
    rcases two.tables a table with old | ⟨i, lt, free, used, rfl⟩
    · rcases one.tables a old with older | ⟨i, lt, free, used, rfl⟩
      · exact Or.inl older
      · exact Or.inr ⟨i, lt, free, later i lt free used, rfl⟩
    · exact Or.inr ⟨i, by omega, one.taken i (by omega) free, used, rfl⟩
  · intro x changed
    by_cases same : t.mem x = s.mem x
    · rcases two.writes x (by rw [same]; exact changed) with table | ⟨a, table, range⟩ | ⟨i, lt, free, used, range⟩
      · rw [one.list, count] at table
        exact Or.inl table
      · rcases one.tables a table with older | ⟨i, lt, free, used, rfl⟩
        · exact Or.inr (Or.inl ⟨a, older, range⟩)
        · exact Or.inr (Or.inr ⟨i, lt, free, later i lt free used, range⟩)
      · exact Or.inr (Or.inr ⟨i, by omega, one.taken i (by omega) free, used, range⟩)
    · rcases one.writes x same with table | ⟨a, table, range⟩ | ⟨i, lt, free, used, range⟩
      · exact Or.inl table
      · exact Or.inr (Or.inl ⟨a, table, range⟩)
      · exact Or.inr (Or.inr ⟨i, lt, free, later i lt free used, range⟩)

theorem countP_range_take {p p' : Nat → Bool} {i n : Nat} (lt : i < n) (before : p i = true) (after : p' i = false)
    (other : ∀ j < n, j ≠ i → p' j = p j) : (List.range n).countP p' + 1 = (List.range n).countP p := by
  induction n with
  | zero => omega
  | succ n ih =>
    rw [List.range_succ, List.countP_append, List.countP_append, List.countP_singleton, List.countP_singleton]
    by_cases last : i = n
    · subst last
      have rest : (List.range i).countP p' = (List.range i).countP p := by
        apply List.countP_congr
        intro j member
        have below := List.mem_range.mp member
        rw [other j (by omega) (by omega)]
      rw [rest, before, after]
      simp
    · have rest := ih (by omega) fun j below => other j (by omega)
      rw [other n (by omega) (Ne.symm last)]
      omega

theorem Granted.freeFrames {i p : Nat} (granted : Granted s first i p t) : freeFrames t + 1 = freeFrames s := by
  unfold System14.freeFrames
  rw [granted.count]
  apply countP_range_take granted.lt granted.free
  · rw [granted.taken i granted.lt, if_pos rfl]
  · intro j below other
    rw [granted.taken j below, if_neg other]

theorem SameTable.freeFrames (same : SameTable s t) : freeFrames t = freeFrames s := by
  unfold System14.freeFrames
  rw [same.count]
  apply List.countP_congr
  intro j member
  rw [same.free (List.mem_range.mp member)]

/-! ### One entry changes -/

theorem Reserved.congr {a : Nat} (reserved : Reserved s first a) (same : SameTable s t) : Reserved t first a := by
  refine ⟨reserved.aligned, ?_, ?_⟩
  · rw [same.count, same.frameList]
    exact reserved.table
  · intro i lt free
    rw [same.count] at lt
    rw [same.free lt] at free
    exact reserved.used i lt free

theorem Held.congr {a : Nat} (held : Held s first a) (same : SameTable s t) : Held t first a :=
  have reserved := held.reserved.congr same
  ⟨held.aligned, held.nonnull, held.low, reserved.table, reserved.used⟩

theorem entryAddr_bounds (table : Nat) (entry : Fin 512) :
    table ≤ entryAddr table entry ∧ entryAddr table entry + 8 ≤ table + 4096 := by
  have := entry.isLt
  unfold entryAddr
  omega

theorem Assigned.sameTable {table word : Nat} {entry : Fin 512} (assigned : Assigned s table entry word t)
    (reserved : Reserved s first table) : SameTable s t := by
  have bounds := entryAddr_bounds table entry
  have outside := reserved.table
  refine ⟨?_, ?_, fun x low high => assigned.keep x (by omega)⟩
  · rw [assigned.globals]
  · rw [assigned.globals]

theorem Assigned.other {table word a : Nat} {entry i : Fin 512} (assigned : Assigned s table entry word t)
    (aligned : 4096 ∣ table) (aligned' : 4096 ∣ a) (off : a = table → i ≠ entry) :
    entryWord t.mem a i = entryWord s.mem a i := by
  obtain ⟨k, rfl⟩ := aligned
  obtain ⟨k', rfl⟩ := aligned'
  have bound := entry.isLt
  have bound' := i.isLt
  have different : k' = k → (i : Nat) ≠ entry := by
    intro same index
    subst same
    exact off rfl (Fin.ext index)
  refine load_congr fun x low high => assigned.keep x ?_
  unfold entryAddr at *
  by_cases same : k' = k
  · have := different same
    subst same
    omega
  · omega

theorem entryWord_kept {m m' : Mem} {a : Nat} {i : Fin 512} (kept : ∀ x, a ≤ x → x < a + 4096 → m' x = m x) :
    entryWord m' a i = entryWord m a i := by
  have bounds := entryAddr_bounds a i
  exact load_congr fun x low high => kept x (by omega) (by omega)

theorem tableView_kept {m m' : Mem} {l a : Nat} {i : Fin 512} (kept : ∀ x, a ≤ x → x < a + 4096 → m' x = m x) :
    tableView m' l a i = tableView m l a i := by
  unfold tableView
  rw [entryWord_kept kept]

theorem Tables.frame (tables : Tables s first root) (frames : FrameTable t first) (list : t.frameList = s.frameList)
    (count : frameCount t = frameCount s) (taken : ∀ i < frameCount s, frameFree t i = true → frameFree s i = true)
    (kept : ∀ a, IsTable s.mem root a → ∀ x, a ≤ x → x < a + 4096 → t.mem x = s.mem x) :
    Tables t first root ∧ (∀ a, IsTable t.mem root a → IsTable s.mem root a) ∧
      ∀ path, lookup (tableView t.mem) 3 root path = lookup (tableView s.mem) 3 root path := by
  have same : ∀ path l a i, Reaches (tableView s.mem) 3 root path l a → tableView t.mem l a i = tableView s.mem l a i :=
    fun path l a i reached => tableView_kept (kept a ⟨_, _, reached⟩)
  have old : ∀ a, IsTable t.mem root a → IsTable s.mem root a := by
    rintro a ⟨path, l, reached⟩
    exact ⟨path, l, reached.of_frame same⟩
  refine ⟨⟨frames, ?_, ?_, Unshared.frame tables.unshared same, ?_⟩, old,
    fun path => lookup_congr fun l a reached => same _ _ _ _ reached⟩
  · intro i lt free
    rw [count] at lt
    exact tables.pool i lt (taken i lt free)
  · intro a table
    have held := tables.held a (old a table)
    refine ⟨held.aligned, held.nonnull, held.low, ?_, ?_⟩
    · rw [count, list]
      exact held.table
    · intro i lt free
      rw [count] at lt
      exact held.used i lt (taken i lt free)
  · intro path l a i reached empty
    have reached' := reached.of_frame same
    rw [same path l a i reached'] at empty
    rw [entryWord_kept (kept a ⟨_, _, reached'⟩)]
    exact tables.blank path l a i reached' empty

section Step

variable {p₀ : Nat → Fin 512} {L T : Nat}

theorem Tables.oneSlot {word : Nat} (tables : Tables s first root) (walk : Reaches (tableView s.mem) 3 root p₀ L T)
    (assigned : Assigned s T (p₀ L) word t) :
    OneSlot (tableView s.mem) (tableView t.mem) 3 root p₀ L T := by
  refine ⟨tables.unshared, walk, fun path l a i reached off => ?_⟩
  have aligned := (tables.held T ⟨_, _, walk⟩).aligned
  have aligned' := (tables.held a ⟨_, _, reached⟩).aligned
  unfold tableView
  rw [assigned.other aligned aligned' off]

theorem Tables.pool_same (tables : Tables s first root) (same : SameTable s t) :
    ∀ i < frameCount t, frameFree t i = true → first + 4096 * i < 2 ^ 40 := by
  intro i lt free
  rw [same.count] at lt
  rw [same.free lt] at free
  exact tables.pool i lt free

theorem Tables.blank_assigned {word l a : Nat} {i : Fin 512} {path : Nat → Fin 512} (tables : Tables s first root)
    (walk : Reaches (tableView s.mem) 3 root p₀ L T) (assigned : Assigned s T (p₀ L) word t)
    (full : tableView t.mem L T (p₀ L) ≠ .empty) (reached : Reaches (tableView s.mem) 3 root path l a)
    (empty : tableView t.mem l a i = .empty) : entryWord t.mem a i = 0 := by
  have change := tables.oneSlot walk assigned
  by_cases here : a = T ∧ i = p₀ L
  · obtain ⟨rfl, rfl⟩ := here
    rw [(change.unshared reached walk).1] at empty
    exact absurd empty full
  · have off : a = T → i ≠ p₀ L := fun table index => here ⟨table, index⟩
    rw [change.same path l a i reached off] at empty
    rw [assigned.other (tables.held T ⟨_, _, walk⟩).aligned (tables.held a ⟨_, _, reached⟩).aligned off]
    exact tables.blank path l a i reached empty

theorem Tables.leaf {word b : Nat} (tables : Tables s first root) (walk : Reaches (tableView s.mem) 3 root p₀ L T)
    (assigned : Assigned s T (p₀ L) word t) (paged : entrySlot L word = .page b) :
    Tables t first root ∧ MapMove first root s t ∧ freeFrames t = freeFrames s := by
  have change := tables.oneSlot walk assigned
  have same := assigned.sameTable (tables.held T ⟨_, _, walk⟩).reserved
  have paged : tableView t.mem L T (p₀ L) = .page b := by
    unfold tableView
    rw [assigned.word, paged]
  have full : tableView t.mem L T (p₀ L) ≠ .empty := by
    rw [paged]
    exact nofun
  have bounds := entryAddr_bounds T (p₀ L)
  have old : ∀ a, IsTable t.mem root a → IsTable s.mem root a := by
    rintro a ⟨path, l, reached⟩
    exact ⟨path, l, change.reaches_page paged reached⟩
  refine ⟨⟨tables.frames.congr same, tables.pool_same same, ?_, change.unshared_page paged, ?_⟩,
    ⟨assigned.globals, ?_, ?_, ?_⟩, same.freeFrames⟩
  · intro a table
    exact (tables.held a (old a table)).congr same
  · intro path l a i reached empty
    exact tables.blank_assigned walk assigned full (change.reaches_page paged reached) empty
  · intro i lt free
    rw [same.free lt] at free
    exact free
  · intro a table
    exact Or.inl (old a table)
  · intro x changed
    refine Or.inr (Or.inl ⟨T, ⟨_, _, walk⟩, ?_⟩)
    by_contra outside
    exact changed (assigned.keep x (by omega))

theorem Reserved.bytes_granted {a i F x : Nat} (reserved : Reserved s first a) (frames : FrameTable s first)
    (granted : Granted s first i F t) (low : a ≤ x) (high : x < a + 4096) : t.mem x = s.mem x := by
  have apart := reserved.used i granted.lt granted.free
  have outside := reserved.table
  have page := granted.page
  have lt := granted.lt
  obtain ⟨k, rfl⟩ := reserved.aligned
  obtain ⟨f, rfl⟩ := frames.aligned
  apply granted.keep x
  · omega
  · unfold frameEntry
    omega

theorem Reserved.granted {a i F : Nat} (reserved : Reserved s first a) (granted : Granted s first i F t) :
    Reserved t first a := by
  refine ⟨reserved.aligned, ?_, fun j lt free => ?_⟩
  · rw [granted.count, granted.list]
    exact reserved.table
  · rw [granted.count] at lt
    exact reserved.used j lt (granted.taken_free lt free)

theorem Granted.reserved {i F : Nat} (granted : Granted s first i F t) (frames : FrameTable s first) :
    Reserved t first F := by
  have page := granted.page
  have above := frames.above
  refine ⟨?_, ?_, ?_⟩
  · rw [page]
    exact Nat.dvd_add frames.aligned (Nat.dvd_mul_right 4096 i)
  · rw [granted.count, granted.list]
    exact Or.inr (by omega)
  · intro j below free same
    rw [granted.count] at below
    rw [granted.taken j below, if_pos (by omega)] at free
    exact nomatch free

theorem Granted.nonnull {i F : Nat} (granted : Granted s first i F t) (frames : FrameTable s first) : F ≠ null := by
  have page := granted.page
  have lt := granted.lt
  have above := frames.above
  unfold null
  omega

theorem Granted.held {i F : Nat} (granted : Granted s first i F t) (frames : FrameTable s first)
    (pool : ∀ i < frameCount s, frameFree s i = true → first + 4096 * i < 2 ^ 40) : Held t first F := by
  have reserved := granted.reserved frames
  refine ⟨reserved.aligned, granted.nonnull frames, ?_, reserved.table, reserved.used⟩
  rw [granted.page]
  exact pool i granted.lt granted.free

theorem Tables.granted {i F : Nat} (tables : Tables s first root) (granted : Granted s first i F t) :
    Tables t first root ∧ (∀ a, IsTable t.mem root a → IsTable s.mem root a) ∧
      ∀ path, lookup (tableView t.mem) 3 root path = lookup (tableView s.mem) 3 root path := by
  apply tables.frame granted.table granted.list granted.count
  · intro j lt free
    exact granted.taken_free lt free
  · intro a table x low high
    exact (tables.held a table).reserved.bytes_granted tables.frames granted low high

theorem Granted.not_table {i F : Nat} (granted : Granted s first i F t) (tables : Tables s first root) :
    ¬ IsTable s.mem root F := by
  intro table
  exact (tables.held F table).used i granted.lt granted.free granted.page.symm

theorem Tables.link {i F : Nat} (tables : Tables s first root)
    (walk : Reaches (tableView s.mem) 3 root p₀ (L + 1) T)
    (vacant : tableView s.mem (L + 1) T (p₀ (L + 1)) = .empty) (granted : Granted s first i F u)
    (assigned : Assigned u T (p₀ (L + 1)) (linkWord 0 F) t) :
    Tables t first root ∧ MapMove first root s t ∧ freeFrames t + 1 = freeFrames s ∧
      Reaches (tableView t.mem) 3 root p₀ L F ∧
      ∀ path, lookup (tableView t.mem) 3 root path = lookup (tableView s.mem) 3 root path := by
  -- The allocation leaves the tables as they are; the link then changes one slot of them.
  obtain ⟨between, old, walks⟩ := tables.granted granted
  have kept : ∀ a, IsTable s.mem root a → ∀ x, a ≤ x → x < a + 4096 → u.mem x = s.mem x := fun a table x =>
    (tables.held a table).reserved.bytes_granted tables.frames granted
  have walk' : Reaches (tableView u.mem) 3 root p₀ (L + 1) T :=
    walk.congr fun l a reached _ => tableView_kept (kept a ⟨_, _, reached⟩)
  have change := between.oneSlot walk' assigned
  have heldT := between.held T ⟨_, _, walk'⟩
  have heldF := granted.held tables.frames tables.pool
  have same := assigned.sameTable heldT.reserved
  have fresh : ¬ IsTable u.mem root F := fun table => granted.not_table tables (old F table)
  have linked : tableView t.mem (L + 1) T (p₀ (L + 1)) = .table F := by
    unfold tableView
    rw [assigned.word, entrySlot_linkWord (by omega) heldF.aligned heldF.low]
  have full : tableView t.mem (L + 1) T (p₀ (L + 1)) ≠ .empty := by
    rw [linked]
    exact nofun
  have zero : ∀ i : Fin 512, entryWord t.mem F i = 0 := by
    intro i
    have bounds := entryAddr_bounds F i
    rw [assigned.other heldT.aligned heldF.aligned fun here => absurd ⟨_, _, here ▸ walk'⟩ fresh]
    exact load_of_zero fun x low high => granted.zero x (by omega) (by omega)
  have clear : ∀ l i, tableView t.mem l F i = .empty := by
    intro l i
    unfold tableView
    rw [zero i, entrySlot, BitField.get_zero, if_pos rfl]
  have vacant' : tableView u.mem (L + 1) T (p₀ (L + 1)) = .empty :=
    (tableView_kept (kept T ⟨_, _, walk⟩)).trans vacant
  have after : Tables t first root := by
    refine ⟨between.frames.congr same, between.pool_same same, ?_,
      change.unshared_link linked clear fun path l reached => fresh ⟨_, _, reached⟩, ?_⟩
    · rintro a ⟨path, l, reached⟩
      rcases change.reaches_of_link linked clear reached with table | ⟨_, rfl, _, _⟩
      · exact (between.held a ⟨_, _, table⟩).congr same
      · exact heldF.congr same
    · intro path l a i reached empty
      rcases change.reaches_of_link linked clear reached with table | ⟨_, rfl, _, _⟩
      · exact between.blank_assigned walk' assigned full table empty
      · exact zero i
  have taken : frameFree t i = false := by
    rw [same.free (by rw [granted.count]; exact granted.lt), granted.taken i granted.lt, if_pos rfl]
  refine ⟨after, ⟨?_, ?_, ?_, ?_⟩, ?_, change.reaches_link linked,
    fun path => (change.lookup_link vacant' linked clear).trans (walks path)⟩
  · rw [assigned.globals, granted.globals]
  · intro j lt free
    rw [same.free (by rw [granted.count]; exact lt)] at free
    exact granted.taken_free lt free
  · rintro a ⟨path, l, reached⟩
    rcases change.reaches_of_link linked clear reached with table | ⟨_, rfl, _, _⟩
    · exact Or.inl (old a ⟨_, _, table⟩)
    · exact Or.inr ⟨i, granted.lt, granted.free, taken, granted.page⟩
  · intro x changed
    have bounds := entryAddr_bounds T (p₀ (L + 1))
    by_cases inT : T ≤ x ∧ x < T + 4096
    · exact Or.inr (Or.inl ⟨T, ⟨_, _, walk⟩, inT⟩)
    · rw [assigned.keep x (by omega)] at changed
      rcases granted.writes changed with table | inF
      · exact Or.inl table
      · rw [granted.page] at inF
        exact Or.inr (Or.inr ⟨i, granted.lt, granted.free, taken, inF⟩)
  · rw [same.freeFrames]
    exact granted.freeFrames

/-! ### One level of the walk -/

/-- A stop other than the panic for exhausted memory, or with `k` frames free. -/
def Unexpected (k : Nat) (s : Kernel) (e : Stop) : Prop := e ≠ .panic "No free mem left!" ∨ k ≤ freeFrames s

theorem pageAlloc_grant (frames : FrameTable s first) :
    Yields (Unexpected 1 s) (pageAlloc .halts s) fun r => ∃ i, Granted s first i r.1 r.2 := by
  rcases first_free_or_none s with none | ⟨i, lt, free, least⟩
  · rw [pageAlloc_exhausted none]
    have empty : System14.freeFrames s = 0 := by
      apply List.countP_eq_zero.mpr
      intro i member
      rw [none i (List.mem_range.mp member)]
      decide
    show ¬ Unexpected 1 s _
    unfold Unexpected
    rw [empty]
    simp
  · obtain ⟨t, call, granted⟩ := pageAlloc_grants .halts frames lt free least
    rw [call]
    exact ⟨i, granted⟩

theorem getEntryNextLevel_follow {T' : Nat} (tables : Tables s first root)
    (walk : Reaches (tableView s.mem) 3 root p₀ (L + 1) T)
    (entry : tableView s.mem (L + 1) T (p₀ (L + 1)) = .table T') :
    getEntryNextLevel .halts T (p₀ (L + 1)) s = .ok (T', s) := by
  have low := (tables.held T' ⟨_, _, walk.down entry⟩).low
  have nonnull := (tables.held T ⟨_, _, walk⟩).nonnull
  unfold tableView entrySlot at entry
  split at entry
  · exact nomatch entry
  · rename_i present
    split at entry
    · exact nomatch entry
    · cases entry
      unfold getEntryNextLevel
      rw [if_neg nonnull, if_neg present, Nat.shiftLeft_eq, Nat.mod_eq_of_lt low]

/-- `getEntryNextLevel` follows the entry or links a fresh table; no walk sees a difference. -/
theorem getEntryNextLevel_yields (tables : Tables s first root)
    (walk : Reaches (tableView s.mem) 3 root p₀ (L + 1) T)
    (noPage : ∀ b, tableView s.mem (L + 1) T (p₀ (L + 1)) ≠ .page b) :
    Yields (Unexpected 1 s) (getEntryNextLevel .halts T (p₀ (L + 1)) s) fun r =>
      Tables r.2 first root ∧ MapMove first root s r.2 ∧ freeFrames s ≤ freeFrames r.2 + 1 ∧
        Reaches (tableView r.2.mem) 3 root p₀ L r.1 ∧
        ∀ path, lookup (tableView r.2.mem) 3 root path = lookup (tableView s.mem) 3 root path := by
  have heldT := tables.held T ⟨_, _, walk⟩
  cases slot : tableView s.mem (L + 1) T (p₀ (L + 1)) with
  | page b => exact absurd slot (noPage b)
  | table T' =>
    rw [getEntryNextLevel_follow tables walk slot]
    exact ⟨tables, MapMove.refl, by simp only; omega, walk.down slot, fun _ => rfl⟩
  | empty =>
    have blank := tables.blank _ _ _ _ walk slot
    have absent : PTE.present.get (entryWord s.mem T (p₀ (L + 1))) = 0 := by rw [blank, BitField.get_zero]
    unfold getEntryNextLevel
    rw [if_neg heldT.nonnull, if_pos absent]
    apply (pageAlloc_grant tables.frames).bind
    rintro ⟨F, u⟩ ⟨i, granted⟩
    change Granted s first i F u at granted
    have word : entryWord u.mem T (p₀ (L + 1)) = 0 := by
      have bounds := entryAddr_bounds T (p₀ (L + 1))
      rw [← blank]
      exact load_congr fun x low high => heldT.reserved.bytes_granted tables.frames granted (by omega) (by omega)
    have assigned := (((Assigned.refl u T (p₀ (L + 1))).set PTE.physAddr (F >>> 12) (by decide)).set
      PTE.present 1 (by decide)).set PTE.rw 1 (by decide)
    rw [word] at assigned
    obtain ⟨after, move, count, reached, same⟩ := tables.link walk slot granted assigned
    exact ⟨after, move, by simp only; omega, reached, same⟩

end Step

/-! ### One call of `mapMemory` -/

structure Descended (first root : Nat) (k : Nat) (s t : Kernel) : Prop where
  tables : Tables t first root
  move : MapMove first root s t
  frames : freeFrames s ≤ freeFrames t + k
  lookup : ∀ path, lookup (tableView t.mem) 3 root path = lookup (tableView s.mem) 3 root path

theorem Descended.refl (tables : Tables s first root) : Descended first root 0 s s :=
  ⟨tables, MapMove.refl, Nat.le_refl _, fun _ => rfl⟩

theorem Yields.enough {α : Type} {k k' : Nat} {x : Except Stop α} {Q : α → Prop} (h : Yields (Unexpected k u) x Q)
    (covers : k' ≤ freeFrames s → k ≤ freeFrames u) : Yields (Unexpected k' s) x Q := by
  apply h.weaken
  intro e bad
  exact bad.imp_right covers

theorem Descended.next {k L T : Nat} (p₀ : Nat → Fin 512) (before : Descended first root k s u)
    (walk : Reaches (tableView u.mem) 3 root p₀ (L + 1) T)
    (noPage : ∀ b, tableView u.mem (L + 1) T (p₀ (L + 1)) ≠ .page b) :
    Yields (Unexpected (k + 1) s) (getEntryNextLevel .halts T (p₀ (L + 1)) u) fun r =>
      Descended first root (k + 1) s r.2 ∧ Reaches (tableView r.2.mem) 3 root p₀ L r.1 := by
  have frames := before.frames
  have one := getEntryNextLevel_yields before.tables walk noPage
  apply (Yields.enough one (by omega)).mono
  rintro r ⟨tables, move, count, reached, same⟩
  exact ⟨⟨tables, before.move.trans move, by omega, fun path => (same path).trans (before.lookup path)⟩, reached⟩

theorem no_page_above {m : Mem} {l T b : Nat} {i : Fin 512} (high : 2 ≤ l) : tableView m l T i ≠ .page b := by
  unfold tableView entrySlot
  split
  · exact nofun
  · rw [if_neg (by omega)]
    exact nofun

/-- The entry that a call writes is not below an entry that maps a larger page. -/
def Clear (m : Mem) (root virt : Nat) (size : PageSizes) : Prop :=
  size = ._4K → ∀ b, lookup (tableView m) 3 root (walkPath virt) ≠ some (1, b)

theorem leafEntry_yields {virt pdpt : Nat} {size : PageSizes} (before : Descended first root 1 s u)
    (walk : Reaches (tableView u.mem) 3 root (walkPath virt) 2 pdpt) (clear : Clear s.mem root virt size) :
    Yields (Unexpected 3 s) (leafEntry .halts pdpt virt size u) fun r =>
      Descended first root 3 s r.2.2 ∧ r.2.1 = walkPath virt size.level ∧
        Reaches (tableView r.2.2.mem) 3 root (walkPath virt) size.level r.1 := by
  have second := before.next _ walk fun b => no_page_above (by decide)
  unfold leafEntry
  cases size with
  | _2M =>
    apply (Yields.enough second (by omega)).bind
    rintro ⟨pd, v⟩ ⟨descended, reached⟩
    have frames : freeFrames s ≤ freeFrames v + 2 := descended.frames
    exact ⟨⟨descended.tables, descended.move, by simp only; omega, descended.lookup⟩, rfl, reached⟩
  | _4K =>
    apply (Yields.enough second (by omega)).bind
    rintro ⟨pd, v⟩ ⟨descended, reached⟩
    have noPage : ∀ b, tableView v.mem 1 pd (walkPath virt 1) ≠ .page b := by
      intro b entry
      apply clear rfl b
      rw [← descended.lookup, lookup_of_reaches reached, lookup, entry]
    apply (descended.next _ reached noPage).bind
    rintro ⟨pt, w⟩ ⟨descended', reached'⟩
    exact ⟨descended', rfl, reached'⟩

/-- `path` and the walk for `virt` meet in the entry that maps a page of the given size. -/
def OnPage (virt : Nat) (size : PageSizes) (path : Nat → Fin 512) : Prop :=
  ∀ j, size.level ≤ j → j ≤ 3 → path j = walkPath virt j

structure Mapped (first root virt phys : Nat) (size : PageSizes) (s t : Kernel) : Prop where
  tables : Tables t first root
  move : MapMove first root s t
  frames : freeFrames s ≤ freeFrames t + 3
  hit : ∀ path, OnPage virt size path → lookup (tableView t.mem) 3 root path = some (size.level, phys)
  miss : ∀ path, ¬ OnPage virt size path →
    lookup (tableView t.mem) 3 root path = lookup (tableView s.mem) 3 root path

/-- A call for an aligned page that is `Clear` ends the walks of its page at
`phys`, keeps all others, and stops only when fewer than three frames are free. -/
theorem mapMemory_yields {virt phys : Nat} {size : PageSizes} {user : Bool} (tables : Tables s first root)
    (aligned : 4096 ∣ phys) (small : phys < 2 ^ 52) (clear : Clear s.mem root virt size) :
    Yields (Unexpected 3 s) (mapMemory .halts root virt phys size user s) fun r =>
      r.1 = .success ∧ Mapped first root virt phys size s r.2 := by
  unfold mapMemory
  have start := (Descended.refl tables).next (L := 2) (walkPath virt) Reaches.root fun b =>
    no_page_above (by decide)
  apply (Yields.enough start (by omega)).bind
  rintro ⟨pdpt, u⟩ ⟨one, reached⟩
  apply (leafEntry_yields one reached clear).bind
  rintro ⟨T, index, v⟩ ⟨descended, here, walk⟩
  change index = _ at here
  subst here
  have nonnull := (descended.tables.held T ⟨_, _, walk⟩).nonnull
  simp only [if_neg nonnull]
  have assigned := setLeaf_assigned T (walkPath virt size.level) phys size user v
  have paged := entrySlot_leafWord (entryWord v.mem T (walkPath virt size.level)) _ size user
    aligned small
  obtain ⟨after, move, count⟩ := descended.tables.leaf walk assigned paged
  have change := descended.tables.oneSlot walk assigned
  have entry : tableView (setLeaf T (walkPath virt size.level) phys size user v).mem size.level T
      (walkPath virt size.level) = .page phys := by
    unfold tableView
    rw [assigned.word, paged]
  refine ⟨rfl, after, descended.move.trans move, ?_, ?_, ?_⟩
  · have frames := descended.frames
    simp only at count frames ⊢
    omega
  · intro path on
    exact change.lookup_page entry on
  · intro path off
    rw [change.lookup_off off, descended.lookup]

theorem getEntryNextLevel_directory {virt pd : Nat} (tables : Tables s first root)
    (walk : Reaches (tableView s.mem) 3 root (walkPath virt) 1 pd) :
    ∃ pdpt, getEntryNextLevel .halts root (tableIndex 3 virt) s = .ok (pdpt, s) ∧
      getEntryNextLevel .halts pdpt (tableIndex 2 virt) s = .ok (pd, s) := by
  obtain ⟨pdpt, walk2, entry2⟩ := walk.up (by decide)
  obtain ⟨top, walk3, entry3⟩ := walk2.up (by decide)
  have same := walk3.unique Reaches.root
  subst same
  exact ⟨pdpt, getEntryNextLevel_follow tables walk3 entry3, getEntryNextLevel_follow tables walk2 entry2⟩

theorem mapMemory_settled {virt T : Nat} {size : PageSizes} (phys : Nat) (user : Bool) (tables : Tables s first root)
    (walk : Reaches (tableView s.mem) 3 root (walkPath virt) size.level T) :
    mapMemory .halts root virt phys size user s =
      .ok (.success, setLeaf T (walkPath virt size.level) phys size user s) := by
  have nonnull := (tables.held T ⟨_, _, walk⟩).nonnull
  unfold mapMemory leafEntry
  cases size with
  | _2M =>
    obtain ⟨pdpt, one, two⟩ := getEntryNextLevel_directory tables walk
    simp only [one, two, ok_bind, pure_eq_ok, if_neg nonnull]
    rfl
  | _4K =>
    obtain ⟨pd, walk1, entry1⟩ := walk.up (by decide)
    obtain ⟨pdpt, one, two⟩ := getEntryNextLevel_directory tables walk1
    have three : getEntryNextLevel .halts pd (tableIndex 1 virt) s = .ok (T, s) :=
      getEntryNextLevel_follow tables walk1 entry1
    simp only [one, two, three, ok_bind, pure_eq_ok, if_neg nonnull]
    rfl

/-- A small page under an entry that maps a large one: the code follows the
entry all the same and writes into the large page, as if it were a table. -/
theorem mapMemory_stray {virt b : Nat} (phys : Nat) (user : Bool) (tables : Tables s first root)
    (large : lookup (tableView s.mem) 3 root (walkPath virt) = some (1, b)) (low : b < 2 ^ 40) (nonnull : b ≠ null) :
    mapMemory .halts root virt phys ._4K user s =
      .ok (.success, setLeaf b (tableIndex 0 virt) phys ._4K user s) := by
  obtain ⟨pd, walk, entry⟩ := reaches_of_lookup large
  obtain ⟨pdpt, one, two⟩ := getEntryNextLevel_directory tables walk
  have three : getEntryNextLevel .halts pd (tableIndex 1 virt) s = .ok (b, s) := by
    unfold tableView entrySlot at entry
    split at entry
    · exact nomatch entry
    · rename_i present
      split at entry
      · cases entry
        unfold getEntryNextLevel
        rw [if_neg (tables.held pd ⟨_, _, walk⟩).nonnull]
        show (if PTE.present.get (entryWord s.mem pd (walkPath virt 1)) = 0 then _ else _) = _
        rw [if_neg present]
        show Except.ok ((PTE.physAddr.get (entryWord s.mem pd (walkPath virt 1)) <<< 12) % 2 ^ 40, s) = _
        rw [Nat.shiftLeft_eq, Nat.mod_eq_of_lt low]
      · exact nomatch entry
  unfold mapMemory leafEntry
  simp only [one, two, three, ok_bind, pure_eq_ok, if_neg nonnull]

end System14
