import Mathlib.Data.List.GetD
import System14.Lib.Chain
import System14.Ramdisk.Tar
import System14.Util.Compare

/-!
# Reading back the ramdisk

Initializing the ramdisk registers one node for each file of the archive, the
last file first. A path is then found at the last file of that name, with its
size, and its content is read from the archive.
-/

namespace System14
open ByteMem Run Chain

variable {m m' : Mem} {a lo hi count : Nat} {f : TarFile} {given : NodeMemory} {s : Ramdisk}

/-! ### Headers -/

theorem digit_of_octal {n k : Nat} :
    ((charValue (TarFile.octalDigit n k) - 0x30) % 2 ^ 32).toNat = n / 8 ^ k % 8 := by
  have small : n / 8 ^ k % 8 < 8 := Nat.mod_lt _ (by decide)
  have value : (TarFile.octalDigit n k).toNat = 0x30 + n / 8 ^ k % 8 := by
    unfold TarFile.octalDigit
    rw [UInt8.toNat_ofNat']
    omega
  unfold charValue
  rw [value, if_pos (by omega)]
  omega

theorem decodeLoop_mod {value n j : Nat} (upTo : j ≤ 11) (bound : n < 8 ^ 11)
    (digits : ∀ i < 11, m (value + i) = TarFile.octalDigit n (10 - i)) :
    decodeLoop m value j (n % 8 ^ (11 - j) % 2 ^ 32) (8 ^ (11 - j) % 2 ^ 32) = n % 2 ^ 32 := by
  induction j with
  | zero => rw [decodeLoop, Nat.mod_eq_of_lt (a := n) bound]
  | succ j ih =>
    obtain ⟨k, here⟩ : ∃ k, 11 - (j + 1) = k := ⟨_, rfl⟩
    have next : 11 - j = k + 1 := by omega
    have total : n % 8 ^ (k + 1) = n % 8 ^ k + n / 8 ^ k % 8 * 8 ^ k := by
      rw [Nat.mod_pow_succ, Nat.mul_comm (8 ^ k)]
    have sum : uadd 32 (n % 8 ^ k % 2 ^ 32) (n / 8 ^ k % 8 * (8 ^ k % 2 ^ 32) % 2 ^ 32) = n % 8 ^ (k + 1) % 2 ^ 32 := by
      rw [uadd, total, Nat.mul_mod_mod, ← Nat.add_mod]
    have weight : 8 ^ k % 2 ^ 32 * 8 % 2 ^ 32 = 8 ^ (k + 1) % 2 ^ 32 := by
      rw [Nat.mod_mul_mod, ← Nat.pow_succ]
    rw [decodeLoop, digits j (by omega), show 10 - j = k by omega, here, digit_of_octal, sum, weight, ← next]
    exact ih (by omega)

theorem HoldsEntry.decode (entry : HoldsEntry m a f) : decodeValue m (a + 124) = f.content.length := by
  have small := f.small
  have value := decodeLoop_mod (j := 11) (Nat.le_refl _) (by omega) entry.size
  rw [Nat.sub_self, Nat.pow_zero, Nat.mod_one, Nat.mod_eq_of_lt (a := f.content.length) (by omega)] at value
  exact value

theorem cstring_of_padded {name : List UInt8} {n : Nat} (text : ∀ c ∈ name, c ≠ 0) (short : name.length < n)
    (bytes : ∀ i < n, m (a + i) = name.getD i 0) : CString m a name := by
  induction name generalizing a n with
  | nil => exact bytes 0 (by omega)
  | cons c name ih =>
    rw [List.length_cons] at short
    refine ⟨bytes 0 (by omega), text c List.mem_cons_self, ih (n := n - 1) ?_ (by omega) ?_⟩
    · exact fun d member => text d (List.mem_cons_of_mem _ member)
    · intro i below
      rw [Nat.add_assoc, Nat.add_comm 1 i, bytes (i + 1) (by omega), List.getD_cons_succ]

theorem HoldsEntry.path (entry : HoldsEntry m a f) : CString m a f.name := by
  have short := f.short
  exact cstring_of_padded f.text (by omega) entry.name

theorem HoldsEntry.first (entry : HoldsEntry m a f) : m a ≠ 0 := by
  have path := entry.path
  cases name : f.name with
  | nil => exact absurd name f.named
  | cons c rest =>
    rw [name] at path
    rw [path.1]
    exact path.2.1

theorem HoldsEntry.congr (entry : HoldsEntry m a f) (same : ∀ x, a ≤ x → x < a + f.span → m' x = m x) :
    HoldsEntry m' a f := by
  have span : f.span = 512 + f.padded := rfl
  have padded : f.content.length ≤ f.padded := by
    unfold TarFile.padded
    omega
  refine ⟨?_, ?_, ?_, ?_⟩
  · intro i below
    rw [same _ (by omega) (by omega), entry.name i below]
  · intro j below
    rw [same _ (by omega) (by omega), entry.size j below]
  · intro i below
    rw [same _ (by omega) (by omega), entry.content i below]
  · intro i low high
    rw [same _ (by omega) (by omega), entry.padding i low high]

theorem imageSize_cons (f : TarFile) (files : List TarFile) : imageSize (f :: files) = f.span + imageSize files := rfl

theorem HoldsImage.congr {files : List TarFile} (image : HoldsImage m a files)
    (same : ∀ x, a ≤ x → x ≤ a + imageSize files → m' x = m x) : HoldsImage m' a files := by
  induction files generalizing a with
  | nil => exact (same a (by omega) (by omega)).trans image
  | cons f files ih =>
    rw [imageSize_cons] at same
    obtain ⟨entry, rest⟩ := image
    exact ⟨entry.congr fun x low high => same x low (by omega), ih rest fun x low high => same x (by omega) (by omega)⟩

theorem span_eq (f : TarFile) : alignUp 32 (uadd 32 512 f.content.length) 512 = f.span := by
  have small := f.small
  unfold alignUp TarFile.span TarFile.padded
  rw [uadd_of_lt (a := 512) (by omega), uadd_of_lt (by omega)]
  omega

/-! ### Nodes -/

/-- The first `count` nodes lie outside `lo` to `hi` and apart, and `malloc`
leaves that range and the nodes handed out before alone. -/
structure NodeMemory.Fresh (given : NodeMemory) (lo hi count : Nat) : Prop where
  nonnull : ∀ k < count, given.node k ≠ null
  fits : ∀ k < count, given.node k + FileNode.bytes ≤ 2 ^ 64
  outside : ∀ k < count, given.node k + FileNode.bytes ≤ lo ∨ hi ≤ given.node k
  apart : ∀ k < count, ∀ j < k,
    given.node j + FileNode.bytes ≤ given.node k ∨ given.node k + FileNode.bytes ≤ given.node j
  quiet : ∀ k < count, ∀ m x, lo ≤ x ∧ x < hi ∨ (∃ j < k, given.node j ≤ x ∧ x < given.node j + FileNode.bytes) →
    given.touch k m x = m x

structure Entry where
  node : Nat
  start : Nat
  file : TarFile

structure Entry.Registered (m : Mem) (e : Entry) : Prop where
  path : CString m (FileNode.filePath e.node) e.file.name
  size : FileNode.fileSize m e.node = e.file.content.length
  start : FileNode.fileBegin m e.node = e.start

theorem Entry.Registered.congr {e : Entry} (registered : e.Registered m)
    (same : ∀ x, e.node ≤ x → x < e.node + FileNode.bytes → m' x = m x) : e.Registered m' := by
  have short := e.file.short
  unfold FileNode.bytes at same
  refine ⟨registered.path.congr fun x low high => ?_, ?_, ?_⟩
  · unfold FileNode.filePath at low high
    exact same x low (by omega)
  · rw [← registered.size]
    exact load_congr fun x low high => same x (by omega) (by omega)
  · rw [← registered.start]
    exact load_congr fun x low high => same x (by omega) (by omega)

theorem NodeMemory.Fresh.away {k x : Nat} (fresh : given.Fresh lo hi count) (left : k < count)
    (kept : lo ≤ x ∧ x < hi ∨ ∃ j < k, given.node j ≤ x ∧ x < given.node j + FileNode.bytes) :
    x < given.node k ∨ given.node k + 120 ≤ x := by
  have outside := fresh.outside k left
  unfold FileNode.bytes at outside kept
  rcases kept with inside | ⟨j, earlier, range⟩
  · omega
  · have far := fresh.apart k left j earlier
    unfold FileNode.bytes at far
    omega

/-- A path that fits its field, with its terminator, and the fields behind it. -/
theorem insertEntry_short (size b : Nat) {name : List UInt8} (path : CString s.mem a name) (short : name.length ≤ 99)
    (quiet : ∀ x, a ≤ x → x ≤ a + name.length → given.touch s.allocations s.mem x = s.mem x)
    (apart : given.node s.allocations + FileNode.bytes ≤ a ∨ a + name.length < given.node s.allocations) :
    ∃ t, (∀ fuel > 99, insertEntry given fuel a size b s = .ok t) ∧
      t = { s with mem := t.mem, filehead := given.node s.allocations, allocations := s.allocations + 1 } ∧
      CString t.mem (FileNode.filePath (given.node s.allocations)) name ∧
      FileNode.fileSize t.mem (given.node s.allocations) = size % 2 ^ 32 ∧
      FileNode.fileBegin t.mem (given.node s.allocations) = b % 2 ^ 64 ∧
      FileNode.next t.mem (given.node s.allocations) = s.filehead % 2 ^ 64 ∧
      ∀ x, x < given.node s.allocations ∨ given.node s.allocations + FileNode.bytes ≤ x →
        t.mem x = given.touch s.allocations s.mem x := by
  obtain ⟨p, here⟩ : ∃ p, p = given.node s.allocations := ⟨_, rfl⟩
  obtain ⟨m₁, linked⟩ : ∃ m₁, m₁ = store 8 (given.touch s.allocations s.mem) (p + 112) s.filehead := ⟨_, rfl⟩
  rw [← here] at apart ⊢
  unfold FileNode.bytes at apart ⊢
  have still : CString m₁ a name := by
    apply path.congr
    intro x below above
    rw [linked, store_apply_of_not_mem (by omega), quiet x below above]
  obtain ⟨m₂, copied, string, kept⟩ := strcpy_spec p still (by omega)
  obtain ⟨m₃, sized⟩ : ∃ m₃, m₃ = store 4 m₂ (p + 100) size := ⟨_, rfl⟩
  obtain ⟨m₄, placed⟩ : ∃ m₄, m₄ = store 8 m₃ (p + 104) b := ⟨_, rfl⟩
  refine ⟨{ s with mem := m₄, filehead := p, allocations := s.allocations + 1 }, ?_, rfl, ?_, ?_, ?_, ?_, ?_⟩
  · intro fuel enough
    unfold insertEntry FileNode.filePath
    dsimp only
    rw [← here, ← linked, copied fuel (by omega), ok_bind, ← sized, ← placed]
    rfl
  · unfold FileNode.filePath
    apply string.congr
    intro x below above
    dsimp only
    rw [placed, store_apply_of_not_mem (by omega), sized, store_apply_of_not_mem (by omega)]
  · unfold FileNode.fileSize
    dsimp only
    rw [placed, load_store_of_apart (by omega), sized, load_store_same]
    rfl
  · unfold FileNode.fileBegin
    dsimp only
    rw [placed, load_store_same]
    rfl
  · unfold FileNode.next
    dsimp only
    rw [placed, load_store_of_apart (by omega), sized, load_store_of_apart (by omega)]
    rw [load_congr (m := m₁) fun x below above => kept x (by omega), linked, load_store_same]
    rfl
  · intro x outside
    dsimp only
    rw [placed, store_apply_of_not_mem (by omega), sized, store_apply_of_not_mem (by omega), kept x (by omega), linked,
      store_apply_of_not_mem (by omega)]

theorem insertEntry_spec {b : Nat} (fresh : given.Fresh lo hi count) (left : s.allocations < count)
    (path : CString s.mem a f.name) (low : lo ≤ a) (high : a + f.name.length < hi) (start : b < 2 ^ 64)
    (head : s.filehead < 2 ^ 64) :
    ∃ t, (∀ fuel > 99, insertEntry given fuel a f.content.length b s = .ok t) ∧
      t = { s with mem := t.mem, filehead := given.node s.allocations, allocations := s.allocations + 1 } ∧
      Entry.Registered t.mem ⟨given.node s.allocations, b, f⟩ ∧
      FileNode.next t.mem (given.node s.allocations) = s.filehead ∧
      ∀ x, lo ≤ x ∧ x < hi ∨ (∃ j < s.allocations, given.node j ≤ x ∧ x < given.node j + FileNode.bytes) →
        t.mem x = s.mem x := by
  have outside := fresh.outside s.allocations left
  have small := f.small
  have quiet : ∀ x, a ≤ x → x ≤ a + f.name.length → given.touch s.allocations s.mem x = s.mem x := fun x below above =>
    fresh.quiet _ left _ _ (Or.inl ⟨by omega, by omega⟩)
  obtain ⟨t, run, state, string, size, place, next, kept⟩ :=
    insertEntry_short f.content.length b path f.short quiet (by omega)
  rw [Nat.mod_eq_of_lt (by omega)] at size
  rw [Nat.mod_eq_of_lt start] at place
  rw [Nat.mod_eq_of_lt head] at next
  refine ⟨t, run, state, ⟨string, size, place⟩, next, fun x wanted => ?_⟩
  rw [kept x (fresh.away left wanted), fresh.quiet _ left _ _ wanted]

/-! ### The list of nodes -/

/-- The entries are those of the list behind `filehead`, in order, and their
contents lie between `lo` and `hi`. -/
structure Listing (given : NodeMemory) (lo hi : Nat) (s : Ramdisk) (entries : List Entry) : Prop where
  linked : Linked (FileNode.next s.mem) null s.filehead (entries.map Entry.node)
  nodes : ∀ e ∈ entries, ∃ k < s.allocations, e.node = given.node k
  registered : ∀ e ∈ entries, e.Registered s.mem
  range : ∀ e ∈ entries, lo + 512 ≤ e.start ∧ e.start + e.file.content.length < hi
  contents : ∀ e ∈ entries, ∀ i (h : i < e.file.content.length), s.mem (e.start + i) = e.file.content[i]

theorem NodeMemory.Fresh.head_lt {l : List Nat} (fresh : given.Fresh lo hi count) (handed : s.allocations ≤ count)
    (linked : Linked (FileNode.next s.mem) null s.filehead l) (nodes : ∀ q ∈ l, ∃ k < s.allocations, q = given.node k) :
    s.filehead < 2 ^ 64 := by
  rcases linked_head linked with none | member
  · rw [none]
    decide
  · obtain ⟨k, earlier, here⟩ := nodes _ member
    have fits := fresh.fits k (by omega)
    unfold FileNode.bytes at fits
    omega

theorem Listing.handed {entries : List Entry} (listing : Listing given lo hi s entries) :
    ∀ q ∈ entries.map Entry.node, ∃ k < s.allocations, q = given.node k := by
  intro q member
  obtain ⟨e, here, rfl⟩ := List.mem_map.mp member
  exact listing.nodes e here

theorem Listing.insert {entries : List Entry} (listing : Listing given lo hi s entries)
    (fresh : given.Fresh lo hi count) (left : s.allocations < count) (entry : HoldsEntry s.mem a f) (low : lo ≤ a)
    (high : a + f.span < hi) (bound : hi ≤ 2 ^ 64) :
    ∃ t, (∀ fuel > 99, insertEntry given fuel a f.content.length (a + 512) s = .ok t) ∧
      Listing given lo hi t (⟨given.node s.allocations, a + 512, f⟩ :: entries) ∧
      t.allocations = s.allocations + 1 ∧ ∀ x, lo ≤ x → x < hi → t.mem x = s.mem x := by
  have short := f.short
  have span : f.span = 512 + f.padded := rfl
  have padded : f.content.length ≤ f.padded := by
    unfold TarFile.padded
    omega
  obtain ⟨t, run, state, registered, next, kept⟩ := insertEntry_spec (b := a + 512) fresh left entry.path low
    (by omega) (by omega) (fresh.head_lt (by omega) listing.linked listing.handed)
  have image : ∀ x, lo ≤ x → x < hi → t.mem x = s.mem x := fun x low high => kept x (Or.inl ⟨low, high⟩)
  have node : ∀ e ∈ entries, ∀ x, e.node ≤ x → x < e.node + FileNode.bytes → t.mem x = s.mem x := by
    intro e member x below above
    obtain ⟨k, earlier, here⟩ := listing.nodes e member
    rw [here] at below above
    exact kept x (Or.inr ⟨k, earlier, below, above⟩)
  have head : t.filehead = given.node s.allocations := by rw [state]
  have count : t.allocations = s.allocations + 1 := by rw [state]
  refine ⟨t, run, ⟨?_, ?_, ?_, ?_, ?_⟩, count, image⟩
  · rw [head]
    apply linked_push listing.linked (fresh.nonnull _ left) next
    intro p member
    obtain ⟨e, present, same⟩ := List.mem_map.mp member
    subst same
    exact load_congr fun x below above => node e present x (by omega) (by unfold FileNode.bytes; omega)
  · intro e member
    rw [count]
    rcases List.mem_cons.mp member with rfl | old
    · exact ⟨s.allocations, by omega, rfl⟩
    · obtain ⟨k, earlier, here⟩ := listing.nodes e old
      exact ⟨k, by omega, here⟩
  · intro e member
    rcases List.mem_cons.mp member with rfl | old
    · exact registered
    · exact (listing.registered e old).congr (node e old)
  · intro e member
    rcases List.mem_cons.mp member with rfl | old
    · exact ⟨by dsimp only; omega, by dsimp only; omega⟩
    · exact listing.range e old
  · intro e member i below
    rcases List.mem_cons.mp member with rfl | old
    · dsimp only at below ⊢
      rw [image _ (by omega) (by omega), entry.content i below]
    · obtain ⟨first, last⟩ := listing.range e old
      rw [image _ (by omega) (by omega), listing.contents e old i below]

theorem initializeLoop_spec {files : List TarFile} {entries : List Entry}
    (listing : Listing given lo hi s entries) (fresh : given.Fresh lo hi count)
    (left : s.allocations + files.length ≤ count) (image : HoldsImage s.mem a files) (low : lo ≤ a)
    (high : a + imageSize files < hi) (bound : hi ≤ 2 ^ 64) :
    ∃ t added, (∀ copyFuel > 99, ∀ fuel > files.length, initializeLoop given copyFuel fuel a s = .ok t) ∧
      t.ramdiskInitialized = true ∧ t.allocations = s.allocations + files.length ∧
      Listing given lo hi t (added ++ entries) ∧ added.map Entry.file = files.reverse ∧
      ∀ x, lo ≤ x → x < hi → t.mem x = s.mem x := by
  induction files generalizing a s entries with
  | nil =>
    have ended : s.mem a = 0 := image
    refine ⟨{ s with ramdiskInitialized := true }, [], ?_, rfl, rfl,
      ⟨listing.linked, listing.nodes, listing.registered, listing.range, listing.contents⟩, rfl, fun _ _ _ => rfl⟩
    intro copyFuel _ fuel enough
    obtain ⟨fuel, rfl⟩ := Nat.exists_eq_add_one.mpr enough
    rw [initializeLoop, if_neg (not_not.mpr ended)]
  | cons f files ih =>
    obtain ⟨entry, rest⟩ := image
    rw [imageSize_cons] at high
    rw [List.length_cons] at left
    obtain ⟨t, inserted, listing', handed, kept⟩ := listing.insert fresh (by omega) entry low (by omega) bound
    have span : 512 ≤ f.span := by
      unfold TarFile.span
      omega
    have again : HoldsEntry t.mem a f := entry.congr fun x below above => kept x (by omega) (by omega)
    have later : HoldsImage t.mem (a + f.span) files := rest.congr fun x below above => kept x (by omega) (by omega)
    obtain ⟨u, added, run, done, total, listed, names, same⟩ := ih listing' (by omega) later (by omega) (by omega)
    refine ⟨u, added ++ [⟨given.node s.allocations, a + 512, f⟩], ?_, done, ?_, ?_, ?_, ?_⟩
    · intro copyFuel copies fuel enough
      rw [List.length_cons] at enough
      obtain ⟨fuel, rfl⟩ := Nat.exists_eq_add_one.mpr (Nat.zero_lt_of_lt enough)
      rw [initializeLoop, if_pos entry.first, entry.decode, uadd_of_lt (by omega), inserted copyFuel copies, ok_bind]
      dsimp only
      rw [again.decode, span_eq, uadd_of_lt (by omega), run copyFuel copies fuel (by omega)]
    · rw [List.length_cons]
      omega
    · rw [List.append_assoc]
      exact listed
    · rw [List.map_append, names, List.reverse_cons]
      rfl
    · intro x below above
      rw [same x below above, kept x below above]

/-! ### Looking up -/

theorem frameLoop_spec {entries : List Entry} {path fuel head : Nat} {p : List UInt8} (string : CString m path p)
    (linked : Linked (FileNode.next m) null head (entries.map Entry.node))
    (registered : ∀ e ∈ entries, e.Registered m) (enough : entries.length < fuel) :
    frameLoop m path fuel head = .ok (((entries.find? fun e => e.file.name = p).map Entry.node).getD null) := by
  induction entries generalizing head fuel with
  | nil =>
    obtain ⟨fuel, rfl⟩ := Nat.exists_eq_add_one.mpr enough
    have none : head = null := linked
    rw [frameLoop, if_neg (not_not.mpr none)]
    rfl
  | cons e entries ih =>
    obtain ⟨fuel, rfl⟩ := Nat.exists_eq_add_one.mpr (Nat.zero_lt_of_lt enough)
    obtain ⟨here, nonnull, rest⟩ := linked
    have short := e.file.short
    have compare := strncmp_eq_zero string (registered e List.mem_cons_self).path (n := 100) (by omega)
    rw [frameLoop, here, if_pos nonnull, List.find?_cons]
    by_cases same : p = e.file.name
    · rw [if_pos (compare.mpr same), decide_eq_true same.symm]
      rfl
    · rw [if_neg fun zero => same (compare.mp zero), decide_eq_false fun equal => same equal.symm]
      exact ih rest (fun e' member => registered e' (List.mem_cons_of_mem _ member)) (by simpa using enough)

theorem rdFileGetFrame_spec {entries : List Entry} {path fuel : Nat} {p : List UInt8}
    (listing : Listing given lo hi s entries) (ready : s.ramdiskInitialized = true) (some : path ≠ null)
    (string : CString s.mem path p) (enough : entries.length < fuel) :
    rdFileGetFrame fuel path s = .ok (((entries.find? fun e => e.file.name = p).map Entry.node).getD null) := by
  unfold rdFileGetFrame
  rw [if_neg (not_not.mpr ready), if_neg some]
  exact frameLoop_spec string listing.linked listing.registered enough

theorem find_entries {entries : List Entry} {files : List TarFile} (names : entries.map Entry.file = files.reverse)
    (p : List UInt8) : lastFile files p = (entries.find? fun e => e.file.name = p).map Entry.file := by
  unfold lastFile
  rw [← names, List.find?_map]
  rfl

/-- What the ramdisk is for: after it is initialized from an archive in memory,
there is one node for each file, and every path reads the last file of its name.
The bytes are right wherever the buffer is, unless it starts inside the very bytes to be copied. -/
structure RoundTrip (files : List TarFile) (base : Nat) (t : Ramdisk) : Prop where
  nodes : ∃ entries : List Entry, Linked (FileNode.next t.mem) null t.filehead (entries.map Entry.node) ∧
    entries.map Entry.file = files.reverse ∧ ∀ e ∈ entries, e.Registered t.mem
  size : ∀ path p, path ≠ null → CString t.mem path p →
    Returns (rdFileGetSz · path t) (((lastFile files p).map fun f => f.content.length).getD 0)
  missing : ∀ path p, path ≠ null → CString t.mem path p → lastFile files p = none →
    ∀ buffer n, Returns (rdFileGetStream · path buffer n t) t
  stream : ∀ path p f, path ≠ null → CString t.mem path p → lastFile files p = some f →
    ∃ start, base ≤ start ∧ start + f.content.length ≤ base + imageSize files ∧
      ∀ buffer n, n ≤ f.content.length → buffer ≤ start ∨ start + n ≤ buffer →
        ∃ u, Returns (rdFileGetStream · path buffer (n : Nat) t) u ∧
          (∀ i (h : i < f.content.length), i < n → u.mem (buffer + i) = f.content[i]) ∧
          ∀ x, x < buffer ∨ buffer + n ≤ x → u.mem x = t.mem x

theorem Listing.roundTrip {entries : List Entry} {files : List TarFile} {base : Nat}
    (listing : Listing given base (base + imageSize files + 1) s entries) (fresh : given.Fresh lo hi s.allocations)
    (ready : s.ramdiskInitialized = true) (names : entries.map Entry.file = files.reverse) : RoundTrip files base s := by
  have frame := fun path p fuel (some : path ≠ null) (string : CString s.mem path p) (enough : entries.length < fuel) =>
    rdFileGetFrame_spec listing ready some string enough
  have nonnull : ∀ e ∈ entries, e.node ≠ null := by
    intro e member
    obtain ⟨k, earlier, here⟩ := listing.nodes e member
    rw [here]
    exact fresh.nonnull k earlier
  refine ⟨⟨entries, listing.linked, names, listing.registered⟩, ?_, ?_, ?_⟩
  · intro path p some string
    refine ⟨entries.length + 1, fun fuel enough => ?_⟩
    show rdFileGetSz fuel path s = _
    unfold rdFileGetSz
    rw [if_neg (not_not.mpr ready), frame path p fuel some string enough, ok_bind, find_entries names p]
    cases found : entries.find? fun e => e.file.name = p with
    | none => rfl
    | some e =>
      have member := List.mem_of_find?_eq_some found
      simp only [Option.map_some, Option.getD_some]
      rw [if_neg (nonnull e member), (listing.registered e member).size]
  · intro path p some string absent buffer n
    refine ⟨entries.length + 1, fun fuel enough => ?_⟩
    show rdFileGetStream fuel path buffer n s = _
    rw [find_entries names p, Option.map_eq_none_iff] at absent
    unfold rdFileGetStream
    rw [if_neg (not_not.mpr ready), frame path p fuel some string enough, ok_bind, absent]
    rfl
  · intro path p f some string present
    rw [find_entries names p] at present
    obtain ⟨e, found, rfl⟩ := Option.map_eq_some_iff.mp present
    have member := List.mem_of_find?_eq_some found
    obtain ⟨low, high⟩ := listing.range e member
    have registered := listing.registered e member
    have small := e.file.small
    refine ⟨e.start, by omega, by omega, fun buffer n bound apart => ?_⟩
    refine ⟨{ s with mem := memcpy s.mem buffer e.start n }, ⟨entries.length + 1, fun fuel enough => ?_⟩, ?_, ?_⟩
    · show rdFileGetStream fuel path buffer n s = _
      have count : ((n : Int) % 2 ^ 64).toNat = n := by omega
      have away : e.start ≠ null := Nat.ne_of_gt (Nat.lt_of_lt_of_le (by decide : 0 < 512) (by omega))
      unfold rdFileGetStream
      rw [if_neg (not_not.mpr ready), frame path p fuel some string enough, ok_bind, found]
      simp only [Option.map_some, Option.getD_some]
      rw [if_neg (nonnull e member), registered.start, if_neg away, count]
    · intro i below inside
      exact (memcpy_inside apart inside).trans (listing.contents e member i below)
    · intro x outside
      exact memcpy_outside outside

/-- The archive of any list of files is registered and read back as it is. -/
theorem ramdisk_round_trip {files : List TarFile} {base : Nat} (image : HoldsImage s.mem base files)
    (fits : base + imageSize files < 2 ^ 64) (empty : s.filehead = null)
    (fresh : given.Fresh base (base + imageSize files + 1) (s.allocations + files.length)) :
    ∃ t, Returns (initializeRamdisk given · base s) t ∧ RoundTrip files base t := by
  have nothing : Listing given base (base + imageSize files + 1) s [] := ⟨empty, nofun, nofun, nofun, nofun⟩
  obtain ⟨t, entries, run, ready, handed, listing, names, _⟩ := initializeLoop_spec nothing fresh (Nat.le_refl _) image
    (Nat.le_refl _) (by omega) (by omega)
  rw [List.append_nil] at listing
  rw [← handed] at fresh
  refine ⟨t, ⟨max 100 (files.length + 1), fun fuel enough => ?_⟩, listing.roundTrip fresh ready names⟩
  exact run fuel (by omega) fuel (by omega)

/-! ### An archive for any files -/

/-- The bytes of an entry. -/
def TarFile.byte (f : TarFile) (i : Nat) : UInt8 :=
  if i < 100 then f.name.getD i 0
  else if 124 ≤ i ∧ i < 135 then octalDigit f.content.length (134 - i)
  else if 512 ≤ i then f.content.getD (i - 512) 0
  else 0

/-- The bytes of an archive. -/
def archiveByte : List TarFile → Nat → UInt8
  | [], _ => 0
  | f :: files, i => if i < f.span then f.byte i else archiveByte files (i - f.span)

/-- A memory with nothing but the archive of `files` at `base`. -/
def archiveAt (base : Nat) (files : List TarFile) : Mem := fun x => if x < base then 0 else archiveByte files (x - base)

theorem holdsEntry_of_bytes {m : Mem} {a : Nat} {f : TarFile} (bytes : ∀ i < f.span, m (a + i) = f.byte i) :
    HoldsEntry m a f := by
  have room : 512 + f.content.length ≤ f.span := by
    unfold TarFile.span TarFile.padded
    omega
  refine ⟨fun i below => ?_, fun j below => ?_, fun i below => ?_, fun i low high => ?_⟩
  · rw [bytes i (by omega), TarFile.byte, if_pos below]
  · rw [Nat.add_assoc, bytes _ (by omega), TarFile.byte, if_neg (by omega), if_pos (by omega),
      show 134 - (124 + j) = 10 - j by omega]
  · rw [Nat.add_assoc, bytes _ (by omega), TarFile.byte, if_neg (by omega), if_neg (by omega), if_pos (by omega),
      Nat.add_sub_cancel_left, List.getD_eq_getElem _ _ below]
  · have inside : 512 + i < f.span := Nat.add_lt_add_left high 512
    rw [Nat.add_assoc, bytes _ inside, TarFile.byte, if_neg (by omega), if_neg (by omega), if_pos (by omega),
      Nat.add_sub_cancel_left, List.getD_eq_default _ _ low]

theorem holdsImage_of_bytes {m : Mem} {a : Nat} {files : List TarFile} (bytes : ∀ i, m (a + i) = archiveByte files i) :
    HoldsImage m a files := by
  induction files generalizing a with
  | nil => exact bytes 0
  | cons f files ih =>
    refine ⟨holdsEntry_of_bytes fun i below => ?_, ih fun i => ?_⟩
    · rw [bytes, archiveByte, if_pos below]
    · rw [Nat.add_assoc, bytes, archiveByte, if_neg (by omega), Nat.add_sub_cancel_left]

theorem archiveAt_holds (base : Nat) (files : List TarFile) : HoldsImage (archiveAt base files) base files :=
  holdsImage_of_bytes fun i => by rw [archiveAt, if_neg (by omega), Nat.add_sub_cancel_left]

def smallFile : TarFile := ⟨[0x61], [0x68, 0x69], by decide, by decide, by simp, by decide⟩

def newerFile : TarFile := ⟨[0x61], [0x62, 0x79, 0x65], by decide, by decide, by simp, by decide⟩

/-- Two files of the same name. -/
def smallArchive : Mem := archiveAt 0x200000 [smallFile, newerFile]

theorem smallArchive_holds : HoldsImage smallArchive 0x200000 [smallFile, newerFile] := archiveAt_holds _ _

theorem ramdisk_round_trip_small :
    ∃ t, Returns (initializeRamdisk ⟨fun i => 0x300000 + 0x1000 * i, fun _ m => m⟩ · 0x200000 { mem := smallArchive }) t ∧
      RoundTrip [smallFile, newerFile] 0x200000 t ∧
      ∀ path, path ≠ null → CString t.mem path [0x61] → Returns (rdFileGetSz · path t) 3 := by
  have fresh : NodeMemory.Fresh ⟨fun i => 0x300000 + 0x1000 * i, fun _ m => m⟩ 0x200000
      (0x200000 + imageSize [smallFile, newerFile] + 1) (0 + [smallFile, newerFile].length) := by
    refine ⟨?_, ?_, ?_, ?_, fun _ _ _ _ _ => rfl⟩
    · decide
    · decide
    · decide
    · decide
  obtain ⟨t, returned, trip⟩ := ramdisk_round_trip (s := { mem := smallArchive }) smallArchive_holds (by decide) rfl fresh
  exact ⟨t, returned, trip, fun path nonnull string => trip.size path [0x61] nonnull string⟩

end System14
