import System14.Mm.AddressSpace
import Mathlib.Data.Finset.Card
import Mathlib.Data.Finset.Insert
import Mathlib.Data.Finset.Range

/-!
# Sequences of mappings

The loops of `CreateDefaultMappings` and `CreateProcessPML4` make a fixed
sequence of calls of `MapMemory`. A sequence is `Orderly` when no small page is
mapped where an earlier call mapped a large one; an orderly sequence on a blank
root does what `spaceOf` says and takes at most three frames for each 2 MiB
region it touches.
-/

namespace System14
open ByteMem Run Radix

variable {first root : Nat} {s t : Kernel} {calls : List MapCall} {c : MapCall}

/-! ### Loops as sequences -/

def loopCount (start stop step : Nat) : Nat := (stop - start + (step - 1)) / step

def loopValues (start stop step : Nat) : List Nat :=
  (List.range (loopCount start stop step)).map fun k => start + step * k

theorem loopCount_spec (start stop : Nat) {step k : Nat} (positive : 0 < step) :
    start + step * k < stop ↔ k < loopCount start stop step := by
  unfold loopCount
  rw [Nat.lt_iff_add_one_le, Nat.lt_iff_add_one_le, Nat.le_div_iff_mul_le positive, Nat.add_mul, Nat.mul_comm k]
  omega

theorem mem_loopValues {start stop step x : Nat} (positive : 0 < step) :
    x ∈ loopValues start stop step ↔ x < stop ∧ ∃ k, x = start + step * k := by
  unfold loopValues
  constructor
  · intro member
    obtain ⟨k, below, rfl⟩ := List.mem_map.mp member
    exact ⟨(loopCount_spec _ _ positive).mpr (List.mem_range.mp below), k, rfl⟩
  · rintro ⟨below, k, rfl⟩
    exact List.mem_map.mpr ⟨k, List.mem_range.mpr ((loopCount_spec _ _ positive).mp below), rfl⟩

theorem loopCount_le (start stop : Nat) {step : Nat} (positive : 0 < step) : loopCount start stop step ≤ stop := by
  by_contra above
  have last := (loopCount_spec start stop (k := stop) positive).mpr (by omega)
  have grows := Nat.le_mul_of_pos_left stop positive
  omega

def mapAll (mode : Panic) (root : Nat) (calls : List MapCall) (s : Kernel) : Except Stop Kernel :=
  calls.foldlM (fun s c => mapPage mode root c.virt c.phys c.size c.user s) s

theorem mapAll_append (mode : Panic) (one two : List MapCall) :
    mapAll mode root (one ++ two) s = (do let s ← mapAll mode root one s; mapAll mode root two s) :=
  List.foldlM_append

theorem mapAll_single (mode : Panic) (c : MapCall) :
    mapAll mode root [c] s = mapPage mode root c.virt c.phys c.size c.user s := by
  unfold mapAll
  rw [List.foldlM_cons]
  cases mapPage mode root c.virt c.phys c.size c.user s <;> rfl

theorem mapAll_of_call {mode : Panic} {status : KStatus}
    (call : mapMemory mode root c.virt c.phys c.size c.user s = .ok (status, t)) : mapAll mode root [c] s = .ok t := by
  rw [mapAll_single]
  unfold mapPage
  rw [call]
  rfl

theorem mapAll_nil (mode : Panic) : mapAll mode root [] s = .ok s := rfl

-- The sequences below have millions of calls; no proof should try to run one.
attribute [irreducible] mapAll

theorem range_map_succ (start step n : Nat) :
    (List.range (n + 1)).map (fun k => start + step * k) =
      start :: (List.range n).map fun k => start + step + step * k := by
  rw [List.range_succ_eq_map, List.map_cons, List.map_map, Nat.mul_zero, Nat.add_zero]
  congr 1
  apply List.map_congr_left
  intro k _
  simp only [Function.comp_apply, Nat.mul_succ]
  omega

theorem forLoop_eq {mode : Panic} {body : Nat → Kernel → Except Stop Kernel} {f : Nat → List MapCall}
    {start stop step fuel : Nat} (positive : 0 < step) (noWrap : stop + step ≤ 2 ^ 64) (enough : 2 ^ 64 ≤ fuel)
    (calls : ∀ i s, body i s = mapAll mode root (f i) s) :
    forLoop body stop step fuel start s = mapAll mode root ((loopValues start stop step).flatMap f) s := by
  have rounds : ∀ n fuel start s, n < fuel → (∀ k, start + step * k < stop ↔ k < n) →
      forLoop body stop step fuel start s =
        mapAll mode root (((List.range n).map fun k => start + step * k).flatMap f) s := by
    intro n
    induction n with
    | zero =>
      intro fuel start s enough exact_
      have stopped := exact_ 0
      cases fuel with
      | zero => omega
      | succ fuel =>
        rw [forLoop, if_neg (by omega)]
        exact (mapAll_nil mode).symm
    | succ n ih =>
      intro fuel start s enough exact_
      have more := (exact_ 0).mpr (by omega)
      cases fuel with
      | zero => omega
      | succ fuel =>
        rw [range_map_succ, List.flatMap_cons, mapAll_append, forLoop, if_pos (by omega), calls,
          uadd_of_lt (by omega)]
        apply congrArg
        funext u
        apply ih fuel (start + step) u (by omega)
        intro k
        have next := exact_ (k + 1)
        rw [Nat.mul_succ] at next
        omega
  apply rounds
  · have := loopCount_le start stop positive
    omega
  · intro k
    exact loopCount_spec _ _ positive

/-! ### Orderly sequences -/

/-- No small page is mapped in a region that an earlier call mapped as a large page. -/
def Orderly (calls : List MapCall) : Prop :=
  calls.Pairwise fun c' c => c.size = ._4K → c'.size = ._2M → ¬ c'.Covers c.virt

def MapCall.region (c : MapCall) : Nat := c.virt % 2 ^ 48 / 2 ^ 21

def regions (calls : List MapCall) : Finset Nat := (calls.map MapCall.region).toFinset

theorem MapCall.covers_self (c : MapCall) : c.Covers c.virt := by
  have : 0 < c.size.bytes := Nat.two_pow_pos _
  unfold Covers
  omega

theorem Agrees.clear {m : Mem} (agrees : Agrees m root calls)
    (before : ∀ c' ∈ calls, c.size = ._4K → c'.size = ._2M → ¬ c'.Covers c.virt) : Clear m root c.virt c.size := by
  intro small b found
  rw [agrees] at found
  cases last : lastCall calls c.virt with
  | none =>
    rw [last] at found
    exact nomatch found
  | some c' =>
    obtain ⟨member, covers⟩ := lastCall_mem last
    rw [last, Option.map_some] at found
    have level : c'.size.level = 1 := (Prod.mk.inj (Option.some.inj found)).1
    apply before c' member small _ covers
    cases large : c'.size with
    | _2M => rfl
    | _4K =>
      rw [large] at level
      exact nomatch level

theorem Agrees.settled {m : Mem} {c' : MapCall} (agrees : Agrees m root calls) (clear : Clear m root c.virt c.size)
    (member : c' ∈ calls) (same : c'.region = c.region) :
    ∃ T, Reaches (tableView m) 3 root (walkPath c.virt) c.size.level T := by
  obtain ⟨d, last⟩ := lastCall_isSome member c'.covers_self
  have found := agrees c'.virt
  rw [last, Option.map_some] at found
  obtain ⟨T, walk, page⟩ := reaches_of_lookup found
  have agree : ∀ j, 1 ≤ j → j ≤ 3 → walkPath c'.virt j = walkPath c.virt j :=
    (onPage_iff ._2M).mpr same
  have upper : ∀ {l t}, Reaches (tableView m) 3 root (walkPath c'.virt) l t → 1 ≤ l + 1 →
      Reaches (tableView m) 3 root (walkPath c.virt) l t := fun walk _ =>
    walk.agree fun j low high => agree j (by omega) high
  cases large : d.size with
  | _4K =>
    rw [large] at walk
    cases wanted : c.size with
    | _4K => exact ⟨T, upper walk (by omega)⟩
    | _2M =>
      obtain ⟨T', above, _⟩ := walk.up (by decide)
      exact ⟨T', upper above (by omega)⟩
  | _2M =>
    rw [large] at walk page
    cases wanted : c.size with
    | _2M => exact ⟨T, upper walk (by omega)⟩
    | _4K =>
      have here : walkPath c'.virt 1 = walkPath c.virt 1 := agree 1 (by omega) (by omega)
      refine absurd ?_ (clear wanted d.phys)
      have walk' : Reaches (tableView m) 3 root (walkPath c.virt) 1 T := upper walk (by omega)
      rw [lookup_of_reaches walk', lookup, ← here, show tableView m 1 T (walkPath c'.virt 1) = .page d.phys from page]

/-- What a sequence of calls leaves behind, from a blank root in `s`. -/
structure Built (first root : Nat) (calls : List MapCall) (s t : Kernel) : Prop where
  tables : Tables t first root
  move : MapMove first root s t
  agrees : Agrees t.mem root calls
  frames : freeFrames s ≤ freeFrames t + 3 * (regions calls).card

theorem BlankRoot.built (blank : BlankRoot s first root) : Built first root [] s s :=
  ⟨blank.tables, MapMove.refl, blank.agrees, by omega⟩

theorem regions_concat (calls : List MapCall) (c : MapCall) :
    regions (calls ++ [c]) = insert c.region (regions calls) := by
  unfold regions
  rw [List.map_append, List.toFinset_append, Finset.union_comm]
  rfl

theorem mapPage_of {mode : Panic} {virt phys : Nat} {size : PageSizes} {user : Bool} {bad : Stop → Prop}
    {Q : Kernel → Prop} (h : Yields bad (mapMemory mode root virt phys size user s) fun r => Q r.2) :
    Yields bad (mapPage mode root virt phys size user s) Q := h.bind fun _ q => q

theorem Built.next {u : Kernel} (built : Built first root calls s u) (valid : c.Valid)
    (before : ∀ c' ∈ calls, c.size = ._4K → c'.size = ._2M → ¬ c'.Covers c.virt) :
    Yields (Unexpected (3 * (regions (calls ++ [c])).card) s) (mapPage .halts root c.virt c.phys c.size c.user u)
      (Built first root (calls ++ [c]) s) := by
  have clear := built.agrees.clear before
  have frames := built.frames
  have step := mapCall_yields built.tables valid clear
  rw [regions_concat]
  apply mapPage_of
  by_cases old : c.region ∈ regions calls
  · -- The region has its tables, so the call takes no frame and cannot stop.
    rw [Finset.insert_eq_of_mem old]
    obtain ⟨c', member, same⟩ := List.mem_map.mp (List.mem_toFinset.mp old)
    obtain ⟨T, walk⟩ := built.agrees.settled clear member same
    have call := mapMemory_settled c.phys c.user built.tables walk
    obtain ⟨_, mapped⟩ := step.ok call
    have assigned := setLeaf_assigned T (walkPath c.virt c.size.level) c.phys c.size c.user u
    have count := (assigned.sameTable (built.tables.held T ⟨_, _, walk⟩).reserved).freeFrames
    rw [call]
    refine ⟨mapped.tables, built.move.trans mapped.move, mapped.agrees valid built.agrees, ?_⟩
    rw [regions_concat, Finset.insert_eq_of_mem old]
    simp only
    omega
  · rw [Finset.card_insert_of_notMem old]
    apply (Yields.enough step (by omega)).mono
    rintro r ⟨_, mapped⟩
    have used := mapped.frames
    refine ⟨mapped.tables, built.move.trans mapped.move, mapped.agrees valid built.agrees, ?_⟩
    rw [regions_concat, Finset.card_insert_of_notMem old]
    omega

theorem Built.more {u : Kernel} (later : List MapCall) (built : Built first root calls s u)
    (valid : ∀ c ∈ later, c.Valid) (orderly : Orderly (calls ++ later)) :
    Yields (Unexpected (3 * (regions (calls ++ later)).card) s) (mapAll .halts root later u)
      (Built first root (calls ++ later) s) := by
  induction later using List.reverseRecOn with
  | nil =>
    rw [List.append_nil, mapAll_nil]
    exact built
  | append_singleton later c ih =>
    rw [← List.append_assoc] at orderly ⊢
    obtain ⟨before, _, cross⟩ := List.pairwise_append.mp orderly
    have sofar := ih (fun c' member => valid c' (List.mem_append_left _ member)) before
    have fewer : (regions (calls ++ later)).card ≤ (regions (calls ++ later ++ [c])).card := by
      rw [regions_concat]
      exact Finset.card_le_card (Finset.subset_insert _ _)
    rw [mapAll_append]
    apply (Yields.enough sofar (by omega)).bind
    intro v built
    rw [mapAll_single]
    exact built.next (valid c (by simp)) fun c' member => cross c' member c (by simp)

/-- An orderly sequence of valid calls on a blank root builds what it says,
unless frames run out: three for each region are enough. -/
theorem mapAll_yields (blank : BlankRoot s first root) (valid : ∀ c ∈ calls, c.Valid) (orderly : Orderly calls) :
    Yields (Unexpected (3 * (regions calls).card) s) (mapAll .halts root calls s) (Built first root calls s) :=
  blank.built.more _ valid orderly

/-! ### The calls of the kernel's mapping loops -/

namespace GlobalPagingInfo

def kernelCalls (info : GlobalPagingInfo) : List MapCall :=
  (loopValues 0 info.kernelSize 4096).flatMap fun i =>
    [⟨uadd 64 info.kernelVirtBase i, uadd 64 info.kernelPhysBase i, ._4K, false⟩]

def twiceCalls (info : GlobalPagingInfo) (size : PageSizes) (start stop step : Nat) : List MapCall :=
  (loopValues start stop step).flatMap fun i =>
    [⟨i, i, size, false⟩, ⟨uadd 64 info.hhdmBase i, i, size, false⟩]

def firstCalls (info : GlobalPagingInfo) : List MapCall :=
  (loopValues 0 0x200000 4096).flatMap fun i =>
    (if i ≠ 0 then [⟨i, i, ._4K, false⟩] else []) ++ [⟨uadd 64 info.hhdmBase i, i, ._4K, false⟩]

def entryCalls (entry : MemmapEntry) : List MapCall :=
  (loopValues entry.base (uadd 64 entry.base entry.length) 4096).flatMap fun j =>
    if j % 4096 ≠ 0 then [] else [⟨j, j, ._4K, false⟩]

def fbCalls (info : GlobalPagingInfo) : List MapCall :=
  (loopValues info.fbBase (uadd 64 info.fbBase info.fbSize) 4096).flatMap fun i =>
    [⟨i, usub 64 i info.hhdmBase, ._4K, false⟩]

def largeCalls (info : GlobalPagingInfo) : List MapCall := info.twiceCalls ._2M 0x200000 0x40000000 0x200000

def defaultCalls (info : GlobalPagingInfo) : List MapCall :=
  info.kernelCalls ++ (info.firstCalls ++ (info.largeCalls ++ (info.twiceCalls ._4K 0x40000000 0x100000000 0x1000 ++
    (info.mmap.flatMap entryCalls ++ info.fbCalls))))

/-- The pages of a program, mapped at their own addresses as far as an entry can hold them. -/
def userCalls (start stop : Nat) : List MapCall :=
  (loopValues start stop 4096).flatMap fun addr => [⟨uadd 64 addr 0, addr % 2 ^ 52, ._4K, true⟩]

def processCalls (info : GlobalPagingInfo) (start stop : Nat) (inKernelCode : Bool) : List MapCall :=
  info.largeCalls ++ (info.kernelCalls ++ if inKernelCode then [] else userCalls start stop)

structure NoWrap (info : GlobalPagingInfo) : Prop where
  kernel : info.kernelSize + 4096 ≤ 2 ^ 64
  entry : ∀ e ∈ info.mmap, uadd 64 e.base e.length + 4096 ≤ 2 ^ 64
  fb : uadd 64 info.fbBase info.fbSize + 4096 ≤ 2 ^ 64

end GlobalPagingInfo

section Loops

variable {mode : Panic} {fuel : Nat} {info : GlobalPagingInfo}

theorem mapKernel_eq (noWrap : info.kernelSize + 4096 ≤ 2 ^ 64) (enough : 2 ^ 64 ≤ fuel) :
    mapKernel mode fuel root info s = mapAll mode root info.kernelCalls s := by
  unfold mapKernel GlobalPagingInfo.kernelCalls
  apply forLoop_eq (by omega) noWrap enough
  intro i s
  rw [mapAll_single]

theorem mapTwice_eq (size : PageSizes) (start stop step : Nat) (positive : 0 < step)
    (noWrap : stop + step ≤ 2 ^ 64) (enough : 2 ^ 64 ≤ fuel) :
    mapTwice mode fuel root info size start stop step s =
      mapAll mode root (info.twiceCalls size start stop step) s := by
  apply forLoop_eq positive noWrap enough
  intro i s
  rw [← List.singleton_append, mapAll_append, mapAll_single]
  simp only [mapAll_single]

theorem mapFirst_eq (enough : 2 ^ 64 ≤ fuel) :
    forLoop (fun i s => do
      let s ← if i ≠ 0 then mapPage mode root i i ._4K false s else .ok s
      mapPage mode root (uadd 64 info.hhdmBase i) i ._4K false s) 0x200000 4096 fuel 0 s =
      mapAll mode root info.firstCalls s := by
  apply forLoop_eq (by omega) (by omega) enough
  intro i s
  rw [mapAll_append]
  by_cases zero : i ≠ 0
  · simp only [if_pos zero, mapAll_single]
  · simp only [if_neg zero, mapAll_single, mapAll_nil]

theorem mapEntry_eq {e : MemmapEntry} (noWrap : uadd 64 e.base e.length + 4096 ≤ 2 ^ 64) (enough : 2 ^ 64 ≤ fuel) :
    forLoop (fun j s => if j % 4096 ≠ 0 then .ok s else mapPage mode root j j ._4K false s)
      (uadd 64 e.base e.length) 4096 fuel e.base s = mapAll mode root (GlobalPagingInfo.entryCalls e) s := by
  apply forLoop_eq (by omega) noWrap enough
  intro j s
  by_cases skip : j % 4096 ≠ 0
  · rw [if_pos skip, if_pos skip, mapAll_nil]
  · rw [if_neg skip, if_neg skip, mapAll_single]

theorem mapMmap_eq {mmap : List MemmapEntry} (noWrap : ∀ e ∈ mmap, uadd 64 e.base e.length + 4096 ≤ 2 ^ 64)
    (enough : 2 ^ 64 ≤ fuel) :
    mmap.foldlM (fun s entry =>
      forLoop (fun j s => if j % 4096 ≠ 0 then .ok s else mapPage mode root j j ._4K false s)
        (uadd 64 entry.base entry.length) 4096 fuel entry.base s) s =
      mapAll mode root (mmap.flatMap GlobalPagingInfo.entryCalls) s := by
  induction mmap generalizing s with
  | nil => exact (mapAll_nil mode).symm
  | cons e mmap ih =>
    rw [List.foldlM_cons, List.flatMap_cons, mapAll_append, mapEntry_eq (noWrap e List.mem_cons_self) enough]
    apply congrArg
    funext u
    exact ih fun e' member => noWrap e' (List.mem_cons_of_mem _ member)

theorem mapFb_eq (noWrap : uadd 64 info.fbBase info.fbSize + 4096 ≤ 2 ^ 64) (enough : 2 ^ 64 ≤ fuel) :
    forLoop (fun i => mapPage mode root i (usub 64 i info.hhdmBase) ._4K false) (uadd 64 info.fbBase info.fbSize) 4096
      fuel info.fbBase s = mapAll mode root info.fbCalls s := by
  unfold GlobalPagingInfo.fbCalls
  apply forLoop_eq (by omega) noWrap enough
  intro i s
  rw [mapAll_single]

theorem mapPage_mod {virt phys : Nat} {size : PageSizes} {user : Bool} :
    mapPage mode root virt (phys % 2 ^ 52) size user s = mapPage mode root virt phys size user s := by
  have shift : (phys % 2 ^ 52) >>> 12 = phys >>> 12 % 2 ^ PTE.physAddr.width := by
    rw [Nat.shiftRight_eq_div_pow, Nat.shiftRight_eq_div_pow]
    show phys % 2 ^ 52 / 2 ^ 12 = phys / 2 ^ 12 % 2 ^ 40
    omega
  have leaf : ∀ t index u, setLeaf t index (phys % 2 ^ 52) size user u = setLeaf t index phys size user u := by
    intro t index u
    simp only [setLeaf, setEntry, shift, BitField.set_mod]
  simp only [mapPage, mapMemory, leaf]

theorem mapUser_eq {start stop : Nat} (noWrap : stop + 4096 ≤ 2 ^ 64) (enough : 2 ^ 64 ≤ fuel) :
    forLoop (fun addr => mapPage mode root (uadd 64 addr 0) addr ._4K true) stop 4096 fuel start s =
      mapAll mode root (GlobalPagingInfo.userCalls start stop) s := by
  unfold GlobalPagingInfo.userCalls
  apply forLoop_eq (by omega) noWrap enough
  intro addr s
  rw [mapAll_single, mapPage_mod]

theorem createDefaultMappings_eq (noWrap : s.globalPagingInfo.NoWrap) (enough : 2 ^ 64 ≤ fuel) :
    createDefaultMappings mode fuel root s = mapAll mode root s.globalPagingInfo.defaultCalls s := by
  unfold createDefaultMappings GlobalPagingInfo.defaultCalls GlobalPagingInfo.largeCalls
  simp only [mapAll_append, mapKernel_eq noWrap.kernel enough, mapFirst_eq enough,
    mapTwice_eq ._2M 0x200000 0x40000000 0x200000 (by omega) (by omega) enough,
    mapTwice_eq ._4K 0x40000000 0x100000000 0x1000 (by omega) (by omega) enough,
    mapMmap_eq noWrap.entry enough, mapFb_eq noWrap.fb enough]

theorem createProcessPML4_eq {start stop : Nat} {inKernelCode : Bool} (kernel : s.globalPagingInfo.kernelSize + 4096 ≤ 2 ^ 64)
    (user : stop + 4096 ≤ 2 ^ 64) (enough : 2 ^ 64 ≤ fuel) :
    createProcessPML4 mode fuel start stop inKernelCode s = (do
      let (newpml, u) ← pageAlloc mode s
      let u ← mapAll mode newpml (s.globalPagingInfo.processCalls start stop inKernelCode) u
      return (newpml, u)) := by
  unfold createProcessPML4 GlobalPagingInfo.processCalls GlobalPagingInfo.largeCalls
  apply congrArg
  funext ⟨newpml, u⟩
  simp only [mapAll_append, mapKernel_eq kernel enough, bind_assoc,
    mapTwice_eq ._2M 0x200000 0x40000000 0x200000 (by omega) (by omega) enough]
  apply congrArg
  funext v
  apply congrArg
  funext w
  cases inKernelCode with
  | true => simp only [if_true, mapAll_nil]
  | false =>
    simp only [Bool.false_eq_true, if_false, mapUser_eq user enough]

end Loops

end System14
