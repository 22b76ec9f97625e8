import System14.Bootstrap.Kmain

/-!
# Staying inside the file

Every offset and count that `_kmain` uses comes from the file, and none is
compared with the size of it. What is read lies inside the buffer just when the
file is one whose own numbers keep it there.
-/

namespace System14
open ByteMem Traced Run

variable {given : LoadMemory} {m m' : Mem} {path frame file sz i n fuel first : Nat} {s : Ramdisk} {magics : List UInt8}

/-! ### The file -/

/-- The ramdisk has a file of this path, `sz` bytes from `file` on. -/
structure Executable (s : Ramdisk) (path frame file sz : Nat) : Prop where
  initialized : s.ramdiskInitialized = true
  found : Returns (rdFileGetFrame · path s) frame
  node : frame ≠ null
  size : FileNode.fileSize s.mem frame = sz
  begins : FileNode.fileBegin s.mem frame = file
  placed : file ≠ null

/-- `malloc` leaves the files as they are, its buffer is a place of its own, and
`aligned_alloc` leaves the buffer alone. -/
structure LoadMemory.Fresh (given : LoadMemory) (s : Ramdisk) (path frame file sz : Nat) : Prop where
  kept : Executable { s with mem := given.touch s.mem } path frame file sz
  contents : ∀ i < sz, given.touch s.mem (file + i) = s.mem (file + i)
  room : given.buffer + sz ≤ 2 ^ 64
  apart : given.buffer + sz ≤ file ∨ file + sz ≤ given.buffer
  segments : ∀ size m x, given.buffer ≤ x → x < given.buffer + sz → given.segment size m x = m x

/-- A read of the header is one inside the buffer. The program header number `i`
is inside it, at `e_phoff + i * e_phentsize`. -/
def LoadEvent.Fits (m : Mem) (file sz buffer : Nat) : LoadEvent → Prop
  | .header bytes => buffer ≤ bytes.start ∧ bytes.start + bytes.len ≤ buffer + sz
  | .pheader i address =>
    buffer ≤ address ∧ address + ElfPheader64.bytes ≤ buffer + sz ∧
      address = buffer + load 8 m (ElfHeader64.phoff file) + i * load 2 m (ElfHeader64.phentsize file)

/-- Only bytes of the file are read, and the program headers are the ones it has. -/
def LoadsWithinFile (given : LoadMemory) (path : Nat) (s : Ramdisk) (file sz : Nat) : Prop :=
  ∃ bound, ∀ fuel ≥ bound, Within (LoadEvent.Fits s.mem file sz given.buffer) (kmainLoad given fuel path s) fun _ => True

/-- The file is refused before anything behind its end is looked at, or it has
all of the header that is used and all of its program headers. -/
def ElfFits (m : Mem) (file sz : Nat) : Prop :=
  (∃ i < elfMagic.length, i < sz ∧ m (file + i) ≠ elfMagic.getD i 0) ∨
    (20 ≤ sz ∧ load 2 m (ElfHeader64.machine file) ≠ emX86_64) ∨
    58 ≤ sz ∧
      (load 2 m (ElfHeader64.phnum file) = 0 ∨
        load 8 m (ElfHeader64.phoff file) + 56 * load 2 m (ElfHeader64.phnum file) ≤ sz ∧
          (load 2 m (ElfHeader64.phnum file) = 1 ∨ load 2 m (ElfHeader64.phentsize file) = 56))

/-! ### The header -/

/-- The file stands in the buffer. -/
def Copied (m m' : Mem) (file sz buffer : Nat) : Prop := ∀ i < sz, m' (buffer + i) = m (file + i)

theorem Copied.load {buffer k : Nat} (copied : Copied m m' file sz buffer) (inside : k + n ≤ sz) :
    load n m' (buffer + k) = load n m (file + k) :=
  load_copy fun i below => by
    rw [Nat.add_assoc, Nat.add_assoc]
    exact copied (k + i) (by omega)

theorem readHeader_within {P : LoadEvent → Prop} {Q : Nat → Prop} {a : Nat} :
    Within P (readHeader n m a) Q ↔ P (.header ⟨a, n⟩) ∧ Q (load n m a) := by
  unfold readHeader
  rw [within_bind, within_emit, within_pure]

section Buffer

variable {buffer : Nat} (copied : Copied m m' file sz buffer)
include copied

/-- A character that differs ends the test there. -/
theorem signatureLoop_differs (differs : ∃ k < magics.length, i + k < sz ∧ m (file + (i + k)) ≠ magics.getD k 0) :
    Within (LoadEvent.Fits m file sz buffer) (signatureLoop m' buffer i magics) (· = false) := by
  induction magics generalizing i with
  | nil =>
    obtain ⟨k, below, _⟩ := differs
    exact absurd below (Nat.not_lt_zero k)
  | cons magic magics ih =>
    obtain ⟨k, below, inside, other⟩ := differs
    rw [signatureLoop, within_bind, readHeader_within, load_byte, copied i (by omega)]
    refine ⟨⟨Nat.le_add_right _ _, show buffer + i + 1 ≤ buffer + sz by omega⟩, ?_⟩
    split
    · exact within_pure.mpr rfl
    · rename_i same
      cases k with
      | zero =>
        rw [Nat.add_zero, List.getD_cons_zero] at other
        exact absurd (UInt8.toNat_inj.mp (not_not.mp same)) other
      | succ k =>
        rw [show i + (k + 1) = i + 1 + k by omega, List.getD_cons_succ] at other
        exact ih ⟨k, Nat.lt_of_succ_lt_succ below, by omega, other⟩

/-- Without one, all of the signature has to be there. -/
theorem signatureLoop_same {Q : Bool → Prop} (upTo : i ≤ sz)
    (same : ∀ k < magics.length, i + k < sz → m (file + (i + k)) = magics.getD k 0) :
    Within (LoadEvent.Fits m file sz buffer) (signatureLoop m' buffer i magics) Q ↔
      i + magics.length ≤ sz ∧ Q true := by
  induction magics generalizing i with
  | nil =>
    rw [signatureLoop, within_pure]
    exact (and_iff_right upTo).symm
  | cons magic magics ih =>
    rw [signatureLoop, within_bind, readHeader_within, load_byte, List.length_cons]
    have event : LoadEvent.Fits m file sz buffer (.header ⟨buffer + i, 1⟩) ↔ i < sz := by
      show buffer ≤ buffer + i ∧ buffer + i + 1 ≤ buffer + sz ↔ _
      omega
    rw [event]
    by_cases inside : i < sz
    · have here : m (file + i) = magic := same 0 (Nat.succ_pos _) inside
      rw [copied i inside, here, if_neg (not_not.mpr rfl), and_iff_right inside,
        ih inside fun k below within => ?_, show i + 1 + magics.length = i + (magics.length + 1) by omega]
      have next := same (k + 1) (Nat.succ_lt_succ below) (by omega)
      rw [List.getD_cons_succ, show i + (k + 1) = i + 1 + k by omega] at next
      exact next
    · exact iff_of_false (fun both => inside both.1) fun both => by omega

end Buffer

/-! ### The program headers -/

/-- The pass number `k` of the loop reads the program header there. -/
theorem phdrLoop_within {P : LoadEvent → Prop} (copied : Copied m m' file sz given.buffer) (header : 58 ≤ sz)
    (readable : P (.header ⟨ElfHeader64.phnum given.buffer, 2⟩))
    (segments : ∀ size m x, given.buffer ≤ x → x < given.buffer + sz → given.segment size m x = m x)
    (upTo : i ≤ load 2 m (ElfHeader64.phnum file)) (enough : load 2 m (ElfHeader64.phnum file) < i + fuel) :
    Within P (phdrLoop given given.buffer first fuel i m') (fun _ => True) ↔
      ∀ k, i ≤ k → k < load 2 m (ElfHeader64.phnum file) → P (.pheader k (uadd 64 first (k * ElfPheader64.bytes))) := by
  induction fuel generalizing i m' with
  | zero => omega
  | succ fuel ih =>
    have count : load 2 m' (ElfHeader64.phnum given.buffer) = load 2 m (ElfHeader64.phnum file) :=
      copied.load (k := 56) header
    rw [phdrLoop, within_bind, readHeader_within, and_iff_right readable, count]
    split
    · rename_i more
      have rest : ∀ m', Copied m m' file sz given.buffer →
          (Within P (phdrLoop given given.buffer first fuel (i + 1) m') (fun _ => True) ↔
            ∀ k, i + 1 ≤ k → k < load 2 m (ElfHeader64.phnum file) →
              P (.pheader k (uadd 64 first (k * ElfPheader64.bytes)))) := fun m' copied =>
        ih copied more (by omega)
      have still : ∀ size, Copied m (given.segment size m') file sz given.buffer := fun size x inside => by
        rw [segments size m' _ (Nat.le_add_right _ _) (by omega)]
        exact copied x inside
      dsimp only
      rw [within_bind, within_emit]
      have passes : (P (.pheader i (uadd 64 first (i * ElfPheader64.bytes))) ∧
          ∀ k, i + 1 ≤ k → k < load 2 m (ElfHeader64.phnum file) →
            P (.pheader k (uadd 64 first (k * ElfPheader64.bytes)))) ↔
          ∀ k, i ≤ k → k < load 2 m (ElfHeader64.phnum file) →
            P (.pheader k (uadd 64 first (k * ElfPheader64.bytes))) := by
        constructor
        · intro ⟨here, later⟩ k low high
          by_cases same : k = i
          · exact same ▸ here
          · exact later k (by omega) high
        · exact fun all => ⟨all i (Nat.le_refl i) more, fun k low high => all k (by omega) high⟩
      rw [← passes]
      split
      · rw [rest _ (still _)]
      · rw [rest _ copied]
    · rw [within_pure]
      exact iff_of_true trivial fun k low high => by omega

/-- Where the program headers lie, in wrapping arithmetic. -/
theorem pheaders_fit {buffer phoff phnum phentsize : Nat} (room : buffer + sz ≤ 2 ^ 64) (small : sz < 2 ^ 32)
    (offset : phoff < 2 ^ 64) (number : phnum < 2 ^ 16) :
    (∀ k < phnum, buffer ≤ uadd 64 (uadd 64 buffer phoff) (k * 56) ∧
        uadd 64 (uadd 64 buffer phoff) (k * 56) + 56 ≤ buffer + sz ∧
        uadd 64 (uadd 64 buffer phoff) (k * 56) = buffer + phoff + k * phentsize) ↔
      phnum = 0 ∨ phoff + 56 * phnum ≤ sz ∧ (phnum = 1 ∨ phentsize = 56) := by
  constructor
  · intro fit
    by_cases none : phnum = 0
    · exact Or.inl none
    · obtain ⟨_, high, place⟩ := fit 0 (by omega)
      have start : uadd 64 buffer phoff = buffer + phoff := by
        unfold uadd at place ⊢
        omega
      obtain ⟨low, behind, last⟩ := fit (phnum - 1) (by omega)
      have straight : uadd 64 (uadd 64 buffer phoff) ((phnum - 1) * 56) = buffer + phoff + (phnum - 1) * 56 := by
        rw [start] at place high low ⊢
        unfold uadd at place high low ⊢
        omega
      refine Or.inr ⟨by omega, ?_⟩
      by_cases one : phnum = 1
      · exact Or.inl one
      · rw [straight] at last
        exact Or.inr (Nat.eq_of_mul_eq_mul_left (show 0 < phnum - 1 by omega) (by omega)).symm
  · intro fits k below
    obtain none | ⟨inside, stride⟩ := fits
    · omega
    · have start : uadd 64 buffer phoff = buffer + phoff := uadd_of_lt (by omega)
      have straight : uadd 64 (uadd 64 buffer phoff) (k * 56) = buffer + phoff + k * 56 := by
        rw [start]
        exact uadd_of_lt (by omega)
      rw [straight]
      refine ⟨by omega, by omega, ?_⟩
      obtain rfl | rfl := stride
      · rw [show k = 0 by omega, Nat.zero_mul, Nat.zero_mul]
      · rfl

/-! ### The whole load -/

theorem header_fits {buffer k : Nat} : LoadEvent.Fits m file sz buffer (.header ⟨buffer + k, n⟩) ↔ k + n ≤ sz := by
  show buffer ≤ buffer + k ∧ buffer + k + n ≤ buffer + sz ↔ _
  omega

theorem readELF_within (copied : Copied m m' file sz given.buffer) (small : sz < 2 ^ 32)
    (room : given.buffer + sz ≤ 2 ^ 64)
    (segments : ∀ size m x, given.buffer ≤ x → x < given.buffer + sz → given.segment size m x = m x)
    (enough : 2 ^ 16 ≤ fuel) :
    Within (LoadEvent.Fits m file sz given.buffer) (readELF given fuel given.buffer m') (fun _ => True) ↔
      ElfFits m file sz := by
  have number : load 2 m (ElfHeader64.phnum file) < 2 ^ 16 := load_lt 2 _ _
  unfold readELF ElfFits
  rw [within_bind]
  by_cases differs : ∃ i < elfMagic.length, i < sz ∧ m (file + i) ≠ elfMagic.getD i 0
  · refine iff_of_true ?_ (Or.inl differs)
    refine (signatureLoop_differs (i := 0) copied (by simpa using differs)).mono fun signed refused => ?_
    rw [if_pos refused]
    exact within_pure.mpr trivial
  · have same : ∀ k < elfMagic.length, 0 + k < sz → m (file + (0 + k)) = elfMagic.getD k 0 := fun k below inside => by
      by_contra other
      rw [Nat.zero_add] at inside other
      exact differs ⟨k, below, inside, other⟩
    rw [signatureLoop_same copied (Nat.zero_le _) same, if_neg (by decide), within_bind, readHeader_within,
      ElfHeader64.machine, header_fits, or_iff_right differs]
    by_cases machine : 20 ≤ sz
    · rw [copied.load (k := 18) machine, ElfHeader64.machine]
      split
      · rename_i other
        rw [within_pure]
        exact iff_of_true ⟨show 0 + 4 ≤ sz by omega, machine, trivial⟩ (Or.inl ⟨machine, other⟩)
      · rename_i known
        rw [within_bind, readHeader_within, within_bind, readHeader_within, ElfHeader64.entry, header_fits,
          ElfHeader64.phoff, header_fits, or_iff_right fun refused => known refused.2]
        by_cases header : 58 ≤ sz
        · rw [copied.load (k := 32) (by omega), phdrLoop_within copied header (header_fits.mpr header) segments
            (Nat.zero_le _) (by omega), ← pheaders_fit room small (load_lt 8 _ _) number]
          simp only [Nat.zero_le, true_implies]
          constructor
          · intro ⟨_, _, _, _, all⟩
            exact ⟨header, all⟩
          · intro ⟨_, all⟩
            exact ⟨show 0 + 4 ≤ sz by omega, machine, by omega, by omega, all⟩
        · refine iff_of_false (fun both => header ?_) fun both => header both.1
          obtain ⟨_, _, _, _, loop⟩ := both
          obtain ⟨fuel, rfl⟩ := Nat.exists_eq_add_one.mpr (show 0 < fuel by omega)
          rw [phdrLoop, within_bind, readHeader_within, ElfHeader64.phnum, header_fits] at loop
          exact loop.1
    · exact iff_of_false (fun both => machine both.2.1) fun either => either.elim (fun h => machine h.1) fun h => by omega

theorem Executable.small (exe : Executable s path frame file sz) : sz < 2 ^ 32 := by
  rw [← exe.size]
  exact load_lt 4 _ _

theorem Executable.sized (exe : Executable s path frame file sz) : Returns (rdFileGetSz · path s) sz := by
  obtain ⟨bound, call⟩ := exe.found
  refine ⟨bound, fun fuel enough => ?_⟩
  have call : rdFileGetFrame fuel path s = .ok frame := call fuel enough
  dsimp only
  unfold rdFileGetSz
  rw [if_neg (not_not.mpr exe.initialized), call, ok_bind, if_neg exe.node, exe.size]

theorem Executable.streamed (exe : Executable s path frame file sz) (buffer : Nat) (k : Int) :
    Returns (rdFileGetStream · path buffer k s) { s with mem := memcpy s.mem buffer file (k % 2 ^ 64).toNat } := by
  obtain ⟨bound, call⟩ := exe.found
  refine ⟨bound, fun fuel enough => ?_⟩
  have call : rdFileGetFrame fuel path s = .ok frame := call fuel enough
  dsimp only
  unfold rdFileGetStream
  rw [if_neg (not_not.mpr exe.initialized), call, ok_bind, if_neg exe.node, exe.begins, if_neg exe.placed]

/-- Converted to an `int` and then to a `size_t`, a size only grows. -/
theorem le_streamed (small : sz < 2 ^ 32) : sz ≤ (u64ToInt sz % 2 ^ 64).toNat := by
  unfold u64ToInt
  dsimp only
  split <;> omega

theorem LoadMemory.Fresh.copied (fresh : given.Fresh s path frame file sz) (small : sz < 2 ^ 32) :
    Copied s.mem (memcpy (given.touch s.mem) given.buffer file (u64ToInt sz % 2 ^ 64).toNat) file sz given.buffer := by
  intro i inside
  have apart : given.buffer ≤ file ∨ file + sz ≤ given.buffer := by
    have := fresh.apart
    omega
  rw [memcpy_first apart (le_streamed small) inside]
  exact fresh.contents i inside

/-- Of an executable that is read, what counts are its own numbers. -/
theorem kmainLoad_within (exe : Executable s path frame file sz) (some : 0 < sz) (full : given.buffer ≠ null)
    (fresh : given.Fresh s path frame file sz) : LoadsWithinFile given path s file sz ↔ ElfFits s.mem file sz := by
  obtain ⟨bound, sized⟩ := exe.sized
  obtain ⟨bound', streamed⟩ := fresh.kept.streamed given.buffer (u64ToInt sz)
  have load : ∀ fuel ≥ max bound (max bound' (2 ^ 16)),
      (Within (LoadEvent.Fits s.mem file sz given.buffer) (kmainLoad given fuel path s) (fun _ => True) ↔
        ElfFits s.mem file sz) := by
    intro fuel enough
    have sized : rdFileGetSz fuel path s = .ok sz := sized fuel (by omega)
    have streamed := streamed fuel (by omega)
    dsimp only at streamed
    unfold kmainLoad
    rw [sized, within_bind, within_lift, if_neg (by omega), if_neg full, within_bind, streamed, within_lift]
    exact readELF_within (fresh.copied exe.small) exe.small fresh.room fresh.segments (by omega)
  constructor
  · intro ⟨enough, within⟩
    exact (load _ (Nat.le_max_left _ enough)).mp (within _ (Nat.le_max_right _ _))
  · exact fun fits => ⟨_, fun fuel enough => (load fuel enough).mpr fits⟩

/-- What `_kmain` reads of an executable stays inside it just when there is no
memory for it or its own numbers keep it there. -/
theorem loads_within_file_iff (exe : Executable s path frame file sz) (some : 0 < sz)
    (fresh : given.buffer ≠ null → given.Fresh s path frame file sz) :
    LoadsWithinFile given path s file sz ↔ given.buffer = null ∨ ElfFits s.mem file sz := by
  obtain ⟨bound, sized⟩ := exe.sized
  by_cases full : given.buffer = null
  · refine iff_of_true ⟨bound, fun fuel enough => ?_⟩ (Or.inl full)
    have sized : rdFileGetSz fuel path s = .ok sz := sized fuel enough
    unfold kmainLoad
    rw [sized, within_bind, within_lift, if_neg (by omega), if_pos full]
    exact within_pure.mpr trivial
  · rw [or_iff_right full]
    exact kmainLoad_within exe some full (fresh full)

/-! ### A file of four bytes -/

def aOut : List UInt8 := [0x61, 0x2e, 0x6f, 0x75, 0x74]

def aOutNode (size : UInt8) : List UInt8 :=
  aOut ++ List.replicate 95 0 ++ [size, 0, 0, 0] ++ [0, 2, 0x20, 0, 0, 0, 0, 0] ++ List.replicate 8 0

/-- The path at `0x100`, the file at `0x200200` and its node at `0x300000`. -/
def oneFile (content : List UInt8) (x : Nat) : UInt8 :=
  if x < 0x200000 then aOut.getD (x - 0x100) 0
  else if x < 0x300000 then content.getD (x - 0x200200) 0
  else (aOutNode (UInt8.ofNat content.length)).getD (x - 0x300000) 0

def oneFileDisk (content : List UInt8) : Ramdisk :=
  { mem := oneFile content, filehead := 0x300000, ramdiskInitialized := true }

theorem oneFile_executable {content : List UInt8} (same : strncmp (oneFile content) 0x100 0x300000 100 = 0)
    (size : FileNode.fileSize (oneFile content) 0x300000 = sz)
    (begins : FileNode.fileBegin (oneFile content) 0x300000 = 0x200200) :
    Executable (oneFileDisk content) 0x100 0x300000 0x200200 sz := by
  refine ⟨rfl, ⟨1, fun fuel enough => ?_⟩, by decide, size, begins, by decide⟩
  obtain ⟨fuel, rfl⟩ := Nat.exists_eq_add_one.mpr enough
  dsimp only
  unfold rdFileGetFrame oneFileDisk
  rw [if_neg (not_not.mpr rfl), if_neg (show 0x100 ≠ null by decide), frameLoop, if_pos (show 0x300000 ≠ null by decide)]
  exact if_pos same

/-- The heap has the buffer at `0x400000`. -/
def oneBuffer : LoadMemory := ⟨0x400000, fun m => m, fun _ m => m⟩

theorem oneBuffer_fresh (exe : Executable s path frame 0x200200 sz) (small : sz ≤ 0x1000) :
    oneBuffer.Fresh s path frame 0x200200 sz :=
  ⟨exe, fun _ _ => rfl, show 0x400000 + sz ≤ 2 ^ 64 by omega, Or.inr (show 0x200200 + sz ≤ 0x400000 by omega),
    fun _ _ _ _ _ => rfl⟩

theorem truncated_executable : Executable (oneFileDisk elfMagic) 0x100 0x300000 0x200200 4 :=
  oneFile_executable (by decide +kernel) (by decide +kernel) (by decide +kernel)

/-- Of a file that is nothing but the signature, the machine type is read. -/
theorem truncated_reads_beyond : Executable (oneFileDisk elfMagic) 0x100 0x300000 0x200200 4 ∧
    ¬ LoadsWithinFile oneBuffer 0x100 (oneFileDisk elfMagic) 0x200200 4 := by
  refine ⟨truncated_executable, fun loads => ?_⟩
  have fresh := oneBuffer_fresh truncated_executable (by decide)
  have fits := (kmainLoad_within truncated_executable (by decide) (by decide) fresh).mp loads
  obtain ⟨i, below, _, other⟩ | ⟨long, _⟩ | ⟨long, _⟩ := fits
  · revert i
    decide +kernel
  · exact absurd long (by decide)
  · exact absurd long (by decide)

/-- A header with one program header behind it. -/
def smallELF : List UInt8 :=
  elfMagic ++ List.replicate 14 0 ++ [0x3e, 0] ++ List.replicate 12 0 ++ [64, 0, 0, 0, 0, 0, 0, 0] ++ List.replicate 14 0 ++
    [56, 0, 1, 0] ++ List.replicate 62 0

theorem smallELF_executable : Executable (oneFileDisk smallELF) 0x100 0x300000 0x200200 120 :=
  oneFile_executable (by decide +kernel) (by decide +kernel) (by decide +kernel)

theorem loads_within_file_iff_smallELF : LoadsWithinFile oneBuffer 0x100 (oneFileDisk smallELF) 0x200200 120 := by
  refine (loads_within_file_iff smallELF_executable (by decide) fun _ =>
    oneBuffer_fresh smallELF_executable (by decide)).mpr (Or.inr (Or.inr (Or.inr ⟨by decide, Or.inr ?_⟩)))
  exact ⟨by decide +kernel, Or.inl (by decide +kernel)⟩

end System14
