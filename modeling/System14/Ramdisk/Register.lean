import System14.Ramdisk.RoundTrip

/-!
# Registering a file

`InsertEntry` copies the path of a header to a new node up to the first zero
byte. A path of 100 bytes has none of its own, so the copy goes on with the
fields behind it in the header, and into the fields behind it in the node.
-/

namespace System14
open ByteMem Run Chain

variable {a b size count : Nat} {given : NodeMemory} {s t : Ramdisk} {l : List Nat}

/-- Memory when `InsertEntry` calls `strcpy`. -/
def copiedFrom (given : NodeMemory) (s : Ramdisk) : Mem :=
  store 8 (given.touch s.allocations s.mem) (given.node s.allocations + 112) s.filehead

/-- Registering has written to the new node only, and to `FilePath` only what is
the path's, and the list behind `filehead` has the node in front of those it had. -/
structure InsertsInside (given : NodeMemory) (a : Nat) (l : List Nat) (s t : Ramdisk) : Prop where
  path : ∀ fuel, ∀ x ∈ strcpyStores (FileNode.filePath (given.node s.allocations)) a fuel 0 (copiedFrom given s),
    given.node s.allocations ≤ x ∧ x < given.node s.allocations + 100
  node : ∀ x, t.mem x ≠ given.touch s.allocations s.mem x →
    given.node s.allocations ≤ x ∧ x < given.node s.allocations + FileNode.bytes
  next : FileNode.next t.mem (given.node s.allocations) = s.filehead
  listing : Linked (FileNode.next t.mem) null t.filehead (given.node s.allocations :: l)

theorem short_inserts_inside {name : List UInt8} (fresh : given.Fresh a (a + 512) count) (left : s.allocations < count)
    (listed : Linked (FileNode.next s.mem) null s.filehead l) (nodes : ∀ q ∈ l, ∃ k < s.allocations, q = given.node k)
    (path : CString s.mem a name) (short : name.length ≤ 99) :
    ∃ t, Returns (insertEntry given · a size b s) t ∧ InsertsInside given a l s t := by
  have outside := fresh.outside s.allocations left
  have away : ∀ x, a ≤ x → x < a + 512 → given.touch s.allocations s.mem x = s.mem x := fun x low high =>
    fresh.quiet _ left _ _ (Or.inl ⟨low, high⟩)
  obtain ⟨t, run, state, _, _, _, next, kept⟩ :=
    insertEntry_short size b path short (fun x low high => away x low (by omega)) (by omega)
  rw [Nat.mod_eq_of_lt (fresh.head_lt (by omega) listed nodes)] at next
  have head : t.filehead = given.node s.allocations := by rw [state]
  unfold FileNode.bytes at outside
  refine ⟨t, ⟨100, run⟩, ?_, ?_, next, ?_⟩
  · intro fuel x written
    have still : CString (copiedFrom given s) (a + 0) name := by
      apply path.congr
      intro x low high
      unfold copiedFrom
      rw [store_apply_of_not_mem (by omega), away x low (by omega)]
    have := strcpyStores_string still (by unfold FileNode.filePath; omega) written
    unfold FileNode.filePath at this
    omega
  · intro x changed
    by_contra far
    exact changed (kept x (by omega))
  · rw [head]
    apply linked_push listed (fresh.nonnull _ left) next
    intro q member
    obtain ⟨k, earlier, rfl⟩ := nodes q member
    refine load_congr fun x low high => ?_
    have inside : ∃ j < s.allocations, given.node j ≤ x ∧ x < given.node j + FileNode.bytes :=
      ⟨k, earlier, by omega, by unfold FileNode.bytes; omega⟩
    rw [kept x (fresh.away left (Or.inr inside)), fresh.quiet _ left _ _ (Or.inr inside)]

/-- A path without a zero byte among its 100 is copied beyond `FilePath`. -/
theorem unended_path_beyond (fresh : given.Fresh a (a + 512) count) (left : s.allocations < count)
    (unended : ∀ i < 100, s.mem (a + i) ≠ 0) : ¬ InsertsInside given a l s t := by
  intro inside
  have outside := fresh.outside s.allocations left
  unfold FileNode.bytes at outside
  have more : ∀ j < 100, copiedFrom given s (a + 0 + j) ≠ 0 := by
    intro j below
    unfold copiedFrom
    rw [store_apply_of_not_mem (by omega), fresh.quiet _ left _ _ (Or.inl ⟨by omega, by omega⟩)]
    exact unended j below
  have written := strcpyStores_reach (FileNode.filePath (given.node s.allocations)) more
    (by unfold FileNode.filePath; omega) (Nat.lt_succ_self 100)
  have := inside.path _ _ written
  unfold FileNode.filePath at this
  omega

/-- Registering a file stays inside its node just when the path of the header
ends within its field. -/
theorem insert_inside_iff (fresh : given.Fresh a (a + 512) count) (left : s.allocations < count)
    (listed : Linked (FileNode.next s.mem) null s.filehead l) (nodes : ∀ q ∈ l, ∃ k < s.allocations, q = given.node k) :
    (∃ t, Returns (insertEntry given · a size b s) t ∧ InsertsInside given a l s t) ↔ ∃ i < 100, s.mem (a + i) = 0 := by
  constructor
  · rintro ⟨t, _, inside⟩
    by_contra unended
    exact unended_path_beyond fresh left (fun i below ended => unended ⟨i, below, ended⟩) inside
  · rintro ⟨i, below, ended⟩
    obtain ⟨name, path, short⟩ := cstring_before (Nat.le_add_right a i) ended
    exact short_inserts_inside fresh left listed nodes path (by omega)

/-- A header with a path of 100 bytes, and `0000644` as its mode. -/
def longPath (x : Nat) : UInt8 :=
  if 0x200000 ≤ x ∧ x < 0x200064 then 0x61
  else if 0x200064 ≤ x ∧ x < 0x20006b then TarFile.octalDigit 0o644 (0x20006a - x)
  else 0

theorem oneNode_fresh : NodeMemory.Fresh ⟨fun _ => 0x300000, fun _ m => m⟩ 0x200000 0x200200 1 := by
  refine ⟨?_, ?_, ?_, ?_, fun _ _ _ _ _ => rfl⟩
  · decide
  · decide
  · decide
  · decide

theorem longPath_beyond (t : Ramdisk) : ¬ InsertsInside ⟨fun _ => 0x300000, fun _ m => m⟩ 0x200000 [] { mem := longPath } t :=
  unended_path_beyond oneNode_fresh Nat.zero_lt_one fun i below => by
    show longPath (0x200000 + i) ≠ 0
    unfold longPath
    rw [if_pos (by omega)]
    decide

theorem longPath_not_inside : ¬ ∃ t, Returns (insertEntry ⟨fun _ => 0x300000, fun _ m => m⟩ · 0x200000 0 0x200200
    { mem := longPath }) t ∧ InsertsInside ⟨fun _ => 0x300000, fun _ m => m⟩ 0x200000 [] { mem := longPath } t :=
  fun ⟨t, _, inside⟩ => longPath_beyond t inside

theorem insert_inside_iff_small : ∃ t, Returns (insertEntry ⟨fun _ => 0x300000, fun _ m => m⟩ · 0x200000 2 0x200200
    { mem := smallArchive }) t ∧ InsertsInside ⟨fun _ => 0x300000, fun _ m => m⟩ 0x200000 [] { mem := smallArchive } t :=
  (insert_inside_iff (s := { mem := smallArchive }) (l := []) oneNode_fresh Nat.zero_lt_one rfl nofun).mpr
    ⟨1, by decide, by decide⟩

end System14
