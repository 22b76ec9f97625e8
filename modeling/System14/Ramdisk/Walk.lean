import System14.Ramdisk.RoundTrip

/-!
# The walk over the ramdisk

`InitializeRamdisk` goes from header to header. A size field of eleven octal
digits holds 33 bits, and the step to the next header is computed in 32, so a
size near `2 ^ 32` takes the walk back to headers it has registered before.
-/

namespace System14
open ByteMem Run

variable {m m' : Mem} {a b lo hi n fuel : Nat} {given : NodeMemory} {s t u : Ramdisk} {sizes starts : List Nat}

/-! ### Headers one after another -/

/-- A header and the content behind it, up to a multiple of 512 bytes. -/
def tarSpan (size : Nat) : Nat := 512 + (size + 511) / 512 * 512

def headerStarts : Nat → List Nat → List Nat
  | _, [] => []
  | a, size :: sizes => a :: headerStarts (a + tarSpan size) sizes

def archiveStop (a : Nat) (sizes : List Nat) : Nat := a + (sizes.map tarSpan).sum

/-- A header with any eleven octal digits in its size field. -/
structure HoldsHeader (m : Mem) (a size : Nat) : Prop where
  first : m a ≠ 0
  bound : size < 8 ^ 11
  digits : ∀ j < 11, m (a + 124 + j) = TarFile.octalDigit size (10 - j)

/-- Headers with these sizes stand at `a`, ended by a zero byte. -/
def HoldsHeaders (m : Mem) : Nat → List Nat → Prop
  | a, [] => m a = 0
  | a, size :: sizes => HoldsHeader m a size ∧ HoldsHeaders m (a + tarSpan size) sizes

theorem archiveStop_cons (a n : Nat) (sizes : List Nat) :
    archiveStop a (n :: sizes) = archiveStop (a + tarSpan n) sizes := by
  simp only [archiveStop, List.map_cons, List.sum_cons]
  omega

theorem archiveStop_le (a : Nat) (sizes : List Nat) : a ≤ archiveStop a sizes := Nat.le_add_right _ _

theorem HoldsHeader.congr (header : HoldsHeader m a n) (same : ∀ x, a ≤ x → x < a + 512 → m' x = m x) :
    HoldsHeader m' a n := by
  refine ⟨?_, header.bound, fun j below => ?_⟩
  · rw [same a (by omega) (by omega)]
    exact header.first
  · rw [same _ (by omega) (by omega), header.digits j below]

theorem HoldsHeaders.stop (headers : HoldsHeaders m a sizes) : m (archiveStop a sizes) = 0 := by
  induction sizes generalizing a with
  | nil => exact headers
  | cons n sizes ih =>
    rw [archiveStop_cons]
    exact ih headers.2

theorem headerStarts_above {x : Nat} (member : x ∈ headerStarts a sizes) : a ≤ x := by
  induction sizes generalizing a with
  | nil => cases member
  | cons n sizes ih =>
    rcases List.mem_cons.mp member with rfl | later
    · exact Nat.le_refl _
    · exact Nat.le_trans (Nat.le_add_right _ _) (ih later)

theorem headerStarts_nodup (a : Nat) (sizes : List Nat) : (headerStarts a sizes).Nodup := by
  induction sizes generalizing a with
  | nil => exact List.nodup_nil
  | cons n sizes ih =>
    refine List.nodup_cons.mpr ⟨fun member => ?_, ih _⟩
    have above := headerStarts_above member
    unfold tarSpan at above
    omega

/-! ### One step -/

theorem HoldsHeader.decode (header : HoldsHeader m a n) : decodeValue m (a + 124) = n % 2 ^ 32 := by
  have value := decodeLoop_mod (j := 11) (Nat.le_refl _) header.bound header.digits
  rw [Nat.sub_self, Nat.pow_zero, Nat.mod_one] at value
  exact value

/-- The step that the walk takes over a header whose size field decodes to `size`. -/
def walkStep (size : Nat) : Nat := alignUp 32 (uadd 32 512 size) 512

theorem walkStep_exact_iff (bound : n < 8 ^ 11) : walkStep (n % 2 ^ 32) = tarSpan n ↔ n + 1023 < 2 ^ 32 := by
  unfold walkStep alignUp uadd tarSpan
  omega

theorem walkStep_lt (n : Nat) : walkStep n < 2 ^ 32 := by
  unfold walkStep alignUp uadd
  omega

/-! ### Passes of the loop -/

/-- The loop makes a pass for each of `starts`, and comes to its end at `stop` in the state `t`. -/
def Walks (given : NodeMemory) (stop : Nat) (t : Ramdisk) : List Nat → Nat → Ramdisk → Prop
  | [], rdstart, s => rdstart = stop ∧ s.mem rdstart = 0 ∧ t = { s with ramdiskInitialized := true }
  | start :: starts, rdstart, s => rdstart = start ∧ s.mem rdstart ≠ 0 ∧
    ∃ u, Returns (insertEntry given · rdstart (decodeValue s.mem (rdstart + 124)) (uadd 64 rdstart 512) s) u ∧
      Walks given stop t starts (uadd 64 rdstart (walkStep (decodeValue u.mem (rdstart + 124)))) u

theorem Walks.loop {stop : Nat} (walk : Walks given stop t starts a s) :
    ∃ bound, ∀ copyFuel ≥ bound, ∀ fuel > starts.length, initializeLoop given copyFuel fuel a s = .ok t := by
  induction starts generalizing a s with
  | nil =>
    obtain ⟨_, ended, rfl⟩ := walk
    refine ⟨0, fun copyFuel _ fuel enough => ?_⟩
    obtain ⟨fuel, rfl⟩ := Nat.exists_eq_add_one.mpr enough
    rw [initializeLoop, if_neg (not_not.mpr ended)]
  | cons start starts ih =>
    obtain ⟨rfl, first, u, ⟨bound, inserted⟩, rest⟩ := walk
    obtain ⟨bound', run⟩ := ih rest
    refine ⟨max bound bound', fun copyFuel copies fuel enough => ?_⟩
    rw [List.length_cons] at enough
    obtain ⟨fuel, rfl⟩ := Nat.exists_eq_add_one.mpr (Nat.zero_lt_of_lt enough)
    have inserted := inserted copyFuel (Nat.le_trans (Nat.le_max_left _ _) copies)
    dsimp only at inserted
    rw [initializeLoop, if_pos first, inserted, ok_bind]
    exact run copyFuel (Nat.le_trans (Nat.le_max_right _ _) copies) fuel (by omega)

theorem Walks.returns {stop : Nat} (walk : Walks given stop t starts a s) : Returns (initializeRamdisk given · a s) t := by
  obtain ⟨bound, run⟩ := walk.loop
  exact ⟨max bound (starts.length + 1), fun fuel enough => run fuel (by omega) fuel (by omega)⟩

theorem strcpyLoop_mono {dest src i fuel' : Nat} (call : strcpyLoop dest src fuel i m = .ok m') (more : fuel ≤ fuel') :
    strcpyLoop dest src fuel' i m = .ok m' := by
  induction fuel generalizing i m fuel' with
  | zero => cases call
  | succ fuel ih =>
    obtain ⟨fuel', rfl⟩ := Nat.exists_eq_add_one.mpr (Nat.zero_lt_of_lt more)
    rw [strcpyLoop] at call ⊢
    split at call
    · rw [if_pos ‹_›]
      exact ih call (by omega)
    · rw [if_neg ‹_›]
      exact call

theorem insertEntry_mono {size fuel' : Nat} (call : insertEntry given fuel a size b s = .ok t) (more : fuel ≤ fuel') :
    insertEntry given fuel' a size b s = .ok t := by
  obtain ⟨m₁, copied, rest⟩ := bind_ok.mp call
  exact bind_ok.mpr ⟨m₁, strcpyLoop_mono copied more, rest⟩

/-- Whenever the loop ends, it has made such passes. -/
theorem initializeLoop_walks {copyFuel : Nat} (call : initializeLoop given copyFuel fuel a s = .ok t) :
    ∃ starts stop, Walks given stop t starts a s := by
  induction fuel generalizing a s with
  | zero => cases call
  | succ fuel ih =>
    rw [initializeLoop] at call
    split at call
    · obtain ⟨u, inserted, rest⟩ := bind_ok.mp call
      obtain ⟨starts, stop, walk⟩ := ih rest
      exact ⟨a :: starts, stop, rfl, ‹_›, u, ⟨copyFuel, fun fuel more => insertEntry_mono inserted more⟩, walk⟩
    · cases call
      exact ⟨[], a, rfl, not_not.mp ‹_›, rfl⟩

/-! ### The image stays as it is -/

/-- Registering leaves the bytes from `lo` up to `hi` alone, where the path is,
if neither the node nor the path that is copied to it reaches them. -/
theorem insertEntry_clear (size b : Nat) {name : List UInt8} (path : CString s.mem a name) (low : lo ≤ a)
    (high : a + name.length < hi)
    (quiet : ∀ x, lo ≤ x → x < hi → given.touch s.allocations s.mem x = s.mem x)
    (apart : given.node s.allocations + max FileNode.bytes (name.length + 1) ≤ lo ∨ hi ≤ given.node s.allocations) :
    ∃ t, Returns (insertEntry given · a size b s) t ∧ t.allocations = s.allocations + 1 ∧
      ∀ x, lo ≤ x → x < hi → t.mem x = s.mem x := by
  obtain ⟨p, here⟩ : ∃ p, p = given.node s.allocations := ⟨_, rfl⟩
  obtain ⟨m₁, linked⟩ : ∃ m₁, m₁ = store 8 (given.touch s.allocations s.mem) (p + 112) s.filehead := ⟨_, rfl⟩
  rw [← here] at apart
  unfold FileNode.bytes at apart
  have still : ∀ x, lo ≤ x → x < hi → m₁ x = s.mem x := by
    intro x low high
    rw [linked, store_apply_of_not_mem (by omega), quiet x low high]
  obtain ⟨m₂, copied, _, kept⟩ :=
    strcpy_spec p (path.congr fun x below above => still x (by omega) (by omega)) (by omega)
  refine ⟨{ s with mem := store 8 (store 4 m₂ (p + 100) size) (p + 104) b, filehead := p, allocations := s.allocations + 1 },
    ⟨name.length + 1, fun fuel enough => ?_⟩, rfl, fun x low high => ?_⟩
  · dsimp only
    unfold insertEntry FileNode.filePath
    dsimp only
    rw [← here, ← linked, copied fuel enough, ok_bind]
    rfl
  · dsimp only
    rw [store_apply_of_not_mem (by omega), store_apply_of_not_mem (by omega), kept x (by omega), still x low high]

/-- The nodes that `malloc` hands out for the headers at `starts`, with the paths
copied to them, are clear of the bytes from `lo` up to `hi`, and so is `malloc`. -/
structure NodeMemory.Clear (given : NodeMemory) (m : Mem) (lo hi first : Nat) (starts : List Nat) : Prop where
  quiet : ∀ k m x, lo ≤ x → x < hi → given.touch k m x = m x
  apart : ∀ k start name, starts[k]? = some start → CString m start name →
    given.node (first + k) + max FileNode.bytes (name.length + 1) ≤ lo ∨ hi ≤ given.node (first + k)

theorem NodeMemory.Clear.next {first start : Nat} (clear : given.Clear m lo hi first (start :: starts)) :
    given.Clear m lo hi (first + 1) starts := by
  refine ⟨clear.quiet, fun k x name here path => ?_⟩
  rw [show first + 1 + k = first + (k + 1) by omega]
  exact clear.apart (k + 1) x name here path

/-! ### The walk as a whole -/

/-- The walk goes from header to header, each once, to the zero byte behind the last of them. -/
def AdvancesExactly (given : NodeMemory) (a : Nat) (sizes : List Nat) (s : Ramdisk) : Prop :=
  ∃ t, Returns (initializeRamdisk given · a s) t ∧
    Walks given (archiveStop a sizes) t (headerStarts a sizes) a s ∧ (headerStarts a sizes).Nodup

theorem walks_start (walk : Walks given (archiveStop b sizes) t (headerStarts b sizes) a s) : a = b := by
  cases sizes with
  | nil => exact walk.1
  | cons n sizes => exact walk.1

/-- A step in 32 bits never covers a span of `2 ^ 32` bytes or more. -/
theorem walks_small (walk : Walks given (archiveStop a sizes) t (headerStarts a sizes) a s) :
    ∀ n ∈ sizes, n + 1023 < 2 ^ 32 := by
  induction sizes generalizing a s with
  | nil => exact nofun
  | cons n sizes ih =>
    rw [archiveStop_cons] at walk
    obtain ⟨_, _, u, _, rest⟩ := walk
    have step := walks_start rest
    rw [step] at rest
    intro k member
    rcases List.mem_cons.mp member with rfl | later
    · have short := walkStep_lt (decodeValue u.mem (a + 124))
      unfold uadd tarSpan at step
      omega
    · exact ih rest k later

theorem headers_walk (headers : HoldsHeaders m a sizes) (same : ∀ x, lo ≤ x → x < hi → s.mem x = m x) (low : lo ≤ a)
    (high : archiveStop a sizes < hi) (bound : hi ≤ 2 ^ 64) (clear : given.Clear m lo hi s.allocations (headerStarts a sizes))
    (small : ∀ n ∈ sizes, n + 1023 < 2 ^ 32) :
    ∃ t, Walks given (archiveStop a sizes) t (headerStarts a sizes) a s := by
  induction sizes generalizing a s with
  | nil =>
    refine ⟨_, rfl, ?_, rfl⟩
    rw [same a low high]
    exact headers
  | cons n sizes ih =>
    obtain ⟨header, later⟩ := headers
    rw [archiveStop_cons] at high ⊢
    have behind := archiveStop_le (a + tarSpan n) sizes
    have span : 512 ≤ tarSpan n := by
      unfold tarSpan
      omega
    obtain ⟨name, path, short⟩ := cstring_before (a := a) (by omega) later.stop
    have quiet := fun x low high => clear.quiet s.allocations s.mem x low high
    obtain ⟨u, inserted, count, kept⟩ := insertEntry_clear (decodeValue s.mem (a + 124))
      (uadd 64 a 512) (path.congr fun x above below => same x (by omega) (by omega)) low (by omega)
      quiet (clear.apart 0 a name rfl path)
    have image : ∀ x, lo ≤ x → x < hi → u.mem x = m x := fun x low high => (kept x low high).trans (same x low high)
    have again : HoldsHeader u.mem a n := header.congr fun x above below => image x (by omega) (by omega)
    have step : uadd 64 a (walkStep (decodeValue u.mem (a + 124))) = a + tarSpan n := by
      rw [again.decode, (walkStep_exact_iff header.bound).mpr (small n List.mem_cons_self)]
      exact uadd_of_lt (by omega)
    obtain ⟨t, walk⟩ := ih later image (by omega) high (by rw [count]; exact clear.next)
      fun k member => small k (List.mem_cons_of_mem _ member)
    refine ⟨t, rfl, ?_, u, inserted, ?_⟩
    · rw [same a low (by omega)]
      exact header.first
    · rw [step]
      exact walk

/-- The walk advances exactly, and ends, just when no size comes within 1023 of `2 ^ 32`. -/
theorem walk_advances_iff (headers : HoldsHeaders s.mem a sizes) (fits : archiveStop a sizes < 2 ^ 64)
    (clear : given.Clear s.mem a (archiveStop a sizes + 1) s.allocations (headerStarts a sizes)) :
    AdvancesExactly given a sizes s ↔ ∀ n ∈ sizes, n + 1023 < 2 ^ 32 := by
  constructor
  · rintro ⟨t, _, walk, _⟩
    exact walks_small walk
  · intro small
    obtain ⟨t, walk⟩ := headers_walk headers (fun _ _ _ => rfl) (Nat.le_refl _) (Nat.lt_succ_self _) fits clear small
    exact ⟨t, walk.returns, walk, headerStarts_nodup a sizes⟩

/-! ### A header that the walk does not get past -/

theorem strcpyLoop_stops {dest src i : Nat} {e : Stop} (call : strcpyLoop dest src fuel i m = .error e) :
    e = .outOfFuel := by
  induction fuel generalizing i m with
  | zero =>
    cases call
    rfl
  | succ fuel ih =>
    rw [strcpyLoop] at call
    split at call
    · exact ih call
    · cases call

/-- Where the step over a header is zero, the loop registers it for ever. -/
theorem initializeLoop_stuck {copyFuel : Nat} {name : List UInt8} (hi : Nat) (header : HoldsHeader s.mem a n)
    (zero : walkStep (n % 2 ^ 32) = 0) (path : CString s.mem a name) (room : a + 512 ≤ hi) (inside : a + name.length < hi)
    (bound : a < 2 ^ 64) (quiet : ∀ k m x, a ≤ x → x < hi → given.touch k m x = m x)
    (apart : ∀ k, given.node k + max FileNode.bytes (name.length + 1) ≤ a ∨ hi ≤ given.node k) :
    initializeLoop given copyFuel fuel a s = .error .outOfFuel := by
  induction fuel generalizing s with
  | zero => rfl
  | succ fuel ih =>
    rw [initializeLoop, if_pos header.first]
    cases call : insertEntry given copyFuel a (decodeValue s.mem (a + 124)) (uadd 64 a 512) s with
    | error e =>
      unfold insertEntry at call
      dsimp only at call
      cases copy : strcpy copyFuel (FileNode.filePath (given.node s.allocations)) a
          (store 8 (given.touch s.allocations s.mem) (given.node s.allocations + 112) s.filehead) with
      | error e' =>
        rw [copy] at call
        cases call
        rw [strcpyLoop_stops copy]
        rfl
      | ok m' =>
        rw [copy] at call
        cases call
    | ok u =>
      obtain ⟨u', ⟨enough, inserted⟩, _, kept⟩ := insertEntry_clear (decodeValue s.mem (a + 124))
        (uadd 64 a 512) path (Nat.le_refl a) inside (fun x => quiet s.allocations s.mem x)
        (apart s.allocations)
      have same := (inserted (max enough copyFuel) (Nat.le_max_left _ _)).symm.trans
        (insertEntry_mono call (Nat.le_max_right _ _))
      cases same
      have again : HoldsHeader u.mem a n := header.congr fun x low high => kept x low (by omega)
      rw [ok_bind, again.decode]
      dsimp only
      rw [show alignUp 32 (uadd 32 512 (n % 2 ^ 32)) 512 = 0 from zero, uadd_of_lt (by omega)]
      exact ih again (path.congr fun x low high => kept x low (by omega))

/-- A header that claims a file of `2 ^ 32 - 512` bytes. -/
def hugeArchive (x : Nat) : UInt8 :=
  if x = 0x200000 then 0x61
  else if 0x20007c ≤ x ∧ x < 0x200087 then TarFile.octalDigit (2 ^ 32 - 512) (0x200086 - x)
  else 0

theorem hugeArchive_holds : HoldsHeaders hugeArchive 0x200000 [2 ^ 32 - 512] := by
  refine ⟨⟨by decide, by decide, fun j below => ?_⟩, show hugeArchive (0x200000 + tarSpan (2 ^ 32 - 512)) = 0 by decide⟩
  unfold hugeArchive
  rw [if_neg (by omega), if_pos (by omega), show 0x200086 - (0x200000 + 124 + j) = 10 - j by omega]

/-- The size is eleven octal digits, the step is zero, and the loop never ends. -/
theorem hugeArchive_stuck : HoldsHeaders hugeArchive 0x200000 [2 ^ 32 - 512] ∧
    (∀ fuel, initializeRamdisk ⟨fun _ => 0x100000, fun _ m => m⟩ fuel 0x200000 { mem := hugeArchive } = .error .outOfFuel) ∧
    ¬ AdvancesExactly ⟨fun _ => 0x100000, fun _ m => m⟩ 0x200000 [2 ^ 32 - 512] { mem := hugeArchive } := by
  refine ⟨hugeArchive_holds, fun fuel => ?_, fun ⟨t, _, walk, _⟩ => absurd (walks_small walk) (by decide)⟩
  have path : CString hugeArchive 0x200000 [0x61] := ⟨rfl, by decide, rfl⟩
  refine initializeLoop_stuck 0x200200 hugeArchive_holds.1 ?_ path ?_ ?_ ?_ ?_ ?_
  · decide
  · decide
  · decide
  · decide
  · exact fun _ _ _ _ _ => rfl
  · exact fun _ => Or.inl (show 0x100000 + max FileNode.bytes 2 ≤ 0x200000 by decide)

theorem walk_advances_iff_small :
    AdvancesExactly ⟨fun _ => 0x300000, fun _ m => m⟩ 0x200000 [2, 3] { mem := smallArchive } := by
  obtain ⟨entry, entry', ended⟩ := smallArchive_holds
  have headers : HoldsHeaders smallArchive 0x200000 [2, 3] :=
    ⟨⟨entry.first, by decide, entry.size⟩, ⟨entry'.first, by decide, entry'.size⟩, ended⟩
  refine (walk_advances_iff (s := { mem := smallArchive }) headers (by decide) ⟨fun _ _ _ _ _ => rfl, ?_⟩).mpr (by decide)
  exact fun _ _ _ _ _ => Or.inr (show archiveStop 0x200000 [2, 3] + 1 ≤ 0x300000 by decide)

end System14
