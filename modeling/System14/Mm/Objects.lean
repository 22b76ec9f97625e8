import System14.Lib.Simulation
import System14.Mm.HeapInvariant
import System14.Mm.Mappings

/-!
# Memory as objects

What the memory manager is for. A client holds blocks and pages, which have
contents of their own, and address spaces, which translate. A call hands out a
new object, changes one or takes one back, and no other object notices. Where an
object lies is up to the memory manager, as long as it lies where no other does.
-/

namespace System14
open Run Extent Simulation

inductive MemoryCall where
  | malloc (size : Nat)
  | calloc (size : Nat)
  | free (b : Block)
  | write (address : Nat) (value : UInt8)
  | pageAlloc
  | pageFree (page : Nat)
  | createProcessPML4 (start stop : Nat) (inKernelCode : Bool)
  | mapMemory (root : Nat) (c : MapCall)
  | allocatePage (cr3 : Nat)

/-- The objects that clients have been given and have not given back. -/
structure Handles where
  blocks : List Block := []
  pages : List Nat := []
  roots : List Nat := []

namespace Handles

/-- The memory of the objects. The header in front of a block is not its client's. -/
def extents (h : Handles) : List Extent := h.blocks.map (fun b => ⟨b.ptr, b.size⟩) ++ h.pages.map fun p => ⟨p, 4096⟩

def Holds (h : Handles) (x : Nat) : Prop := ∃ e ∈ h.extents, e.Has x

/-- Clients use what they hold. -/
def Permits (h : Handles) : MemoryCall → Prop
  | .free b => b ∈ h.blocks
  | .write address _ => h.Holds address
  | .pageFree page => page ∈ h.pages
  | .mapMemory root _ => root ∈ h.roots
  | .allocatePage cr3 => cr3 ∈ h.roots
  | _ => True

/-- The objects after a call that has returned `r`. -/
def after (h : Handles) : MemoryCall → Nat → Handles
  | .malloc size, r => { h with blocks := ⟨r, size⟩ :: h.blocks }
  | .calloc size, r => { h with blocks := ⟨r, size⟩ :: h.blocks }
  | .free b, _ => { h with blocks := h.blocks.erase b }
  | .pageAlloc, r => { h with pages := r :: h.pages }
  | .pageFree page, _ => { h with pages := h.pages.erase page }
  | .createProcessPML4 _ _ _, r => { h with roots := r :: h.roots }
  | .allocatePage _, r => { h with pages := r :: h.pages }
  | .write _ _, _ => h
  | .mapMemory _ _, _ => h

end Handles

/-! ### The abstract machine -/

instance (e : Extent) (x : Nat) : Decidable (e.Has x) := inferInstanceAs (Decidable (_ ∧ _))

/-- Memory that is nobody's has no contents. -/
abbrev Contents := Nat → Option UInt8

def Contents.Vacant (bytes : Contents) (e : Extent) : Prop := ∀ x, e.Has x → bytes x = none

def Contents.grant (bytes : Contents) (e : Extent) (initial : Nat → UInt8) : Contents :=
  fun x => if e.Has x then some (initial x) else bytes x

def Contents.withdraw (bytes : Contents) (e : Extent) : Contents :=
  fun x => if e.Has x then none else bytes x

abbrev Space := Nat → Option Nat

/-- The page of the call is mapped. -/
def Space.remap (space : Space) (c : MapCall) : Space :=
  fun v => if c.Covers v then some (c.phys + (v % 2 ^ 48 - c.virt % 2 ^ 48)) else space v

structure Objects where
  held : Handles
  bytes : Contents
  spaces : Nat → Option Space

namespace Objects

/-- The call hands out new memory with these contents. -/
def Hands (o o' : Objects) (e : Extent) (initial : Nat → UInt8) : Prop :=
  o.bytes.Vacant e ∧ o'.bytes = o.bytes.grant e initial

/-- The call maps a page in the address space at `root`. -/
def Maps (o o' : Objects) (root : Nat) (c : MapCall) : Prop :=
  ∃ space, o.spaces root = some space ∧ o'.spaces = Function.update o.spaces root (some (space.remap c))

/-- What a call that returns `r` may do to the objects. -/
def Changes (info : GlobalPagingInfo) (o : Objects) (call : MemoryCall) (r : Nat) (o' : Objects) : Prop :=
  match call with
  | .malloc size => (∃ initial, o.Hands o' ⟨r, size⟩ initial) ∧ o'.spaces = o.spaces
  | .calloc size => o.Hands o' ⟨r, size⟩ (fun _ => 0) ∧ o'.spaces = o.spaces
  | .free b => o'.bytes = o.bytes.withdraw ⟨b.ptr, b.size⟩ ∧ o'.spaces = o.spaces
  | .write address value => o'.bytes = Function.update o.bytes address (some value) ∧ o'.spaces = o.spaces
  | .pageAlloc => (4096 ∣ r ∧ o.Hands o' ⟨r, 4096⟩ fun _ => 0) ∧ o'.spaces = o.spaces
  | .pageFree page => o'.bytes = o.bytes.withdraw ⟨page, 4096⟩ ∧ o'.spaces = o.spaces
  | .createProcessPML4 start stop inKernelCode => o'.bytes = o.bytes ∧ o.spaces r = none ∧
    o'.spaces = Function.update o.spaces r (some (spaceOf (info.processCalls start stop inKernelCode)))
  | .mapMemory root c => o'.bytes = o.bytes ∧ o.Maps o' root c
  | .allocatePage cr3 => (4096 ∣ r ∧ o.Hands o' ⟨r, 4096⟩ fun _ => 0) ∧ o.Maps o' cr3 ⟨r, r, ._4K, true⟩

def Step (info : GlobalPagingInfo) (o : Objects) (e : MemoryCall × Nat) (o' : Objects) : Prop :=
  o.held.Permits e.1 ∧ o'.held = o.held.after e.1 e.2 ∧ o.Changes info e.1 e.2 o'

/-! ### Objects do not meet -/

/-- The objects have the memory that has contents, no byte is part of two of
them, and the address spaces are those that have been created. -/
structure Sound (o : Objects) : Prop where
  domain : ∀ x, o.bytes x ≠ none ↔ o.held.Holds x
  disjoint : o.held.extents.Pairwise fun e f => ∀ x, e.Has x → ¬ f.Has x
  spaces : ∀ r, o.spaces r ≠ none ↔ r ∈ o.held.roots
  distinct : o.held.roots.Nodup

variable {info : GlobalPagingInfo} {o o' : Objects} {e : Extent} {x r : Nat} {call : MemoryCall} {initial : Nat → UInt8}

theorem disjoint_perm {l l' : List Extent} (perm : l.Perm l') :
    (l.Pairwise fun e f => ∀ x, e.Has x → ¬ f.Has x) ↔ l'.Pairwise fun e f => ∀ x, e.Has x → ¬ f.Has x :=
  perm.pairwise_iff fun h x here there => h x there here

theorem grant_ne_none {bytes : Contents} : bytes.grant e initial x ≠ none ↔ e.Has x ∨ bytes x ≠ none := by
  unfold Contents.grant
  by_cases here : e.Has x <;> simp [here]

theorem withdraw_ne_none {bytes : Contents} : bytes.withdraw e x ≠ none ↔ ¬ e.Has x ∧ bytes x ≠ none := by
  unfold Contents.withdraw
  by_cases here : e.Has x <;> simp [here]

/-- A new object lies where nothing was. -/
theorem Sound.hands (sound : o.Sound) (hands : o.Hands o' e initial)
    (held : o'.held.extents.Perm (e :: o.held.extents)) :
    (∀ x, o'.bytes x ≠ none ↔ o'.held.Holds x) ∧
      o'.held.extents.Pairwise fun e f => ∀ x, e.Has x → ¬ f.Has x := by
  obtain ⟨vacant, after⟩ := hands
  constructor
  · intro x
    rw [after, grant_ne_none, sound.domain x]
    have cons := List.exists_mem_cons_iff (fun f : Extent => f.Has x) e o.held.extents
    exact cons.symm.trans (exists_congr fun f => and_congr_left' held.mem_iff.symm)
  · rw [disjoint_perm held, List.pairwise_cons]
    refine ⟨fun f member x here there => ?_, sound.disjoint⟩
    exact (sound.domain x).mpr ⟨f, member, there⟩ (vacant x here)

/-- What is taken back is what its holder had, and nothing else. -/
theorem Sound.withdrawn (sound : o.Sound) (after : o'.bytes = o.bytes.withdraw e)
    (held : o.held.extents.Perm (e :: o'.held.extents)) :
    (∀ x, o'.bytes x ≠ none ↔ o'.held.Holds x) ∧
      o'.held.extents.Pairwise fun e f => ∀ x, e.Has x → ¬ f.Has x := by
  obtain ⟨apart, disjoint⟩ := List.pairwise_cons.mp ((disjoint_perm held).mp sound.disjoint)
  refine ⟨fun x => ?_, disjoint⟩
  rw [after, withdraw_ne_none, sound.domain x]
  constructor
  · rintro ⟨outside, f, member, has⟩
    rcases List.mem_cons.mp (held.mem_iff.mp member) with rfl | rest
    · exact absurd has outside
    · exact ⟨f, rest, has⟩
  · rintro ⟨f, member, has⟩
    exact ⟨fun here => apart f member x here has, f, held.mem_iff.mpr (List.mem_cons_of_mem _ member), has⟩

theorem extents_block (h : Handles) (b : Block) (blocks : List Block) (perm : h.blocks.Perm (b :: blocks)) :
    h.extents.Perm (⟨b.ptr, b.size⟩ :: { h with blocks := blocks }.extents) :=
  (perm.map _).append_right _

theorem extents_page (h : Handles) (p : Nat) (pages : List Nat) (perm : h.pages.Perm (p :: pages)) :
    h.extents.Perm (⟨p, 4096⟩ :: { h with pages := pages }.extents) :=
  ((perm.map _).append_left _).trans List.perm_middle

/-- An address space is changed or created, and no other one. -/
theorem Sound.mapped {space : Space} {roots : List Nat} (sound : o.Sound)
    (after : o'.spaces = Function.update o.spaces r (some space)) (present : ∀ r', r' ∈ roots ↔ r' = r ∨ r' ∈ o.held.roots) :
    ∀ r', o'.spaces r' ≠ none ↔ r' ∈ roots := by
  intro r'
  rw [after, present]
  by_cases here : r' = r
  · rw [here, Function.update_self]
    simp
  · rw [Function.update_of_ne here, sound.spaces r']
    simp [here]

theorem Step.sound (sound : o.Sound) (taken : Step info o (call, r) o') : o'.Sound := by
  obtain ⟨permitted, held, changes⟩ := taken
  have same : o'.held.roots = o.held.roots → o'.spaces = o.spaces →
      (∀ r, o'.spaces r ≠ none ↔ r ∈ o'.held.roots) ∧ o'.held.roots.Nodup := by
    intro roots spaces
    rw [roots, spaces]
    exact ⟨sound.spaces, sound.distinct⟩
  have mapped : ∀ root c, root ∈ o.held.roots → o'.held.roots = o.held.roots → o.Maps o' root c →
      (∀ r, o'.spaces r ≠ none ↔ r ∈ o'.held.roots) ∧ o'.held.roots.Nodup := by
    rintro root c member roots ⟨space, _, after⟩
    rw [roots]
    refine ⟨sound.mapped after fun r' => ?_, sound.distinct⟩
    exact ⟨Or.inr, fun h => h.elim (fun here => here ▸ member) id⟩
  cases call with
  | malloc size =>
    obtain ⟨⟨initial, hands⟩, spaces⟩ := changes
    obtain ⟨domain, disjoint⟩ := sound.hands hands (by rw [held]; exact extents_block _ ⟨r, size⟩ _ (List.Perm.refl _))
    obtain ⟨present, distinct⟩ := same (by rw [held]; rfl) spaces
    exact ⟨domain, disjoint, present, distinct⟩
  | calloc size =>
    obtain ⟨hands, spaces⟩ := changes
    obtain ⟨domain, disjoint⟩ := sound.hands hands (by rw [held]; exact extents_block _ ⟨r, size⟩ _ (List.Perm.refl _))
    obtain ⟨present, distinct⟩ := same (by rw [held]; rfl) spaces
    exact ⟨domain, disjoint, present, distinct⟩
  | free b =>
    obtain ⟨bytes, spaces⟩ := changes
    obtain ⟨domain, disjoint⟩ := sound.withdrawn bytes (by
      rw [held]
      exact extents_block _ b _ (List.perm_cons_erase permitted))
    obtain ⟨present, distinct⟩ := same (by rw [held]; rfl) spaces
    exact ⟨domain, disjoint, present, distinct⟩
  | write address value =>
    obtain ⟨bytes, spaces⟩ := changes
    obtain ⟨present, distinct⟩ := same (by rw [held]; rfl) spaces
    have held : o'.held = o.held := held
    refine ⟨fun x => ?_, by rw [held]; exact sound.disjoint, present, distinct⟩
    rw [held, bytes]
    by_cases here : x = address
    · rw [here, Function.update_self]
      exact ⟨fun _ => permitted, fun _ => nofun⟩
    · rw [Function.update_of_ne here]
      exact sound.domain x
  | pageAlloc =>
    obtain ⟨⟨_, hands⟩, spaces⟩ := changes
    obtain ⟨domain, disjoint⟩ := sound.hands hands (by rw [held]; exact extents_page _ r _ (List.Perm.refl _))
    obtain ⟨present, distinct⟩ := same (by rw [held]; rfl) spaces
    exact ⟨domain, disjoint, present, distinct⟩
  | pageFree page =>
    obtain ⟨bytes, spaces⟩ := changes
    obtain ⟨domain, disjoint⟩ := sound.withdrawn bytes (by
      rw [held]
      exact extents_page _ page _ (List.perm_cons_erase permitted))
    obtain ⟨present, distinct⟩ := same (by rw [held]; rfl) spaces
    exact ⟨domain, disjoint, present, distinct⟩
  | createProcessPML4 start stop inKernelCode =>
    obtain ⟨bytes, fresh, spaces⟩ := changes
    have outside : r ∉ o.held.roots := fun member => (sound.spaces r).mpr member fresh
    have held : o'.held = { o.held with roots := r :: o.held.roots } := held
    have present : ∀ r', o'.spaces r' ≠ none ↔ r' ∈ r :: o.held.roots := sound.mapped spaces fun r' => List.mem_cons
    refine ⟨by rw [held, bytes]; exact sound.domain, by rw [held]; exact sound.disjoint, by rw [held]; exact present, ?_⟩
    rw [held]
    exact List.nodup_cons.mpr ⟨outside, sound.distinct⟩
  | mapMemory root c =>
    obtain ⟨bytes, maps⟩ := changes
    obtain ⟨present, distinct⟩ := mapped root c permitted (by rw [held]; rfl) maps
    have held : o'.held = o.held := held
    exact ⟨by rw [held, bytes]; exact sound.domain, by rw [held]; exact sound.disjoint, present, distinct⟩
  | allocatePage cr3 =>
    obtain ⟨⟨_, hands⟩, maps⟩ := changes
    obtain ⟨domain, disjoint⟩ := sound.hands hands (by rw [held]; exact extents_page _ r _ (List.Perm.refl _))
    obtain ⟨present, distinct⟩ := mapped cr3 _ permitted (by rw [held]; rfl) maps
    exact ⟨domain, disjoint, present, distinct⟩

/-! ### Objects keep to themselves -/

/-- The call is about the object with the byte at `x`. -/
def Touches : MemoryCall → Nat → Prop
  | .free b, x => (Extent.mk b.ptr b.size).Has x
  | .write address _, x => address = x
  | .pageFree page, x => (Extent.mk page 4096).Has x
  | _, _ => False

/-- The call maps a page in the address space at `r`. -/
def Remaps : MemoryCall → Nat → Prop
  | .mapMemory root _, r => root = r
  | .allocatePage cr3, r => cr3 = r
  | _, _ => False

theorem grant_keeps {v : UInt8} (hands : o.Hands o' e initial) (here : o.bytes x = some v) : o'.bytes x = some v := by
  obtain ⟨vacant, after⟩ := hands
  have outside : ¬ e.Has x := fun has => nomatch here.symm.trans (vacant x has)
  rw [after, Contents.grant, if_neg outside]
  exact here

theorem Step.keeps_byte {v : UInt8} (taken : Step info o (call, r) o') (off : ¬ Touches call x) (here : o.bytes x = some v) :
    o'.bytes x = some v := by
  obtain ⟨_, _, changes⟩ := taken
  cases call with
  | malloc size =>
    obtain ⟨⟨_, hands⟩, _⟩ := changes
    exact grant_keeps hands here
  | calloc size => exact grant_keeps changes.1 here
  | free b =>
    have outside : ¬ (Extent.mk b.ptr b.size).Has x := off
    rw [changes.1, Contents.withdraw, if_neg outside]
    exact here
  | write address value =>
    rw [changes.1, Function.update_of_ne fun same => off same.symm]
    exact here
  | pageAlloc => exact grant_keeps changes.1.2 here
  | pageFree page =>
    have outside : ¬ (Extent.mk page 4096).Has x := off
    rw [changes.1, Contents.withdraw, if_neg outside]
    exact here
  | createProcessPML4 start stop inKernelCode =>
    rw [changes.1]
    exact here
  | mapMemory root c =>
    rw [changes.1]
    exact here
  | allocatePage cr3 => exact grant_keeps changes.1.2 here

theorem Step.keeps_space {root : Nat} {space : Space} (taken : Step info o (call, r) o') (off : ¬ Remaps call root)
    (here : o.spaces root = some space) : o'.spaces root = some space := by
  obtain ⟨_, _, changes⟩ := taken
  have maps : ∀ root' c, root' ≠ root → o.Maps o' root' c → o'.spaces root = some space := by
    rintro root' c other ⟨_, _, after⟩
    rw [after, Function.update_of_ne (Ne.symm other)]
    exact here
  cases call with
  | createProcessPML4 start stop inKernelCode =>
    obtain ⟨_, fresh, after⟩ := changes
    have fresh : o.spaces r = none := fresh
    have other : root ≠ r := fun same => by
      rw [same, fresh] at here
      exact nomatch here
    rw [after, Function.update_of_ne other]
    exact here
  | mapMemory root' c => exact maps root' c off changes.2
  | allocatePage cr3 => exact maps cr3 _ off changes.2
  | _ =>
    rw [changes.2]
    exact here

section Traces

variable {guard : Objects → MemoryCall × Nat → Prop} {es : List (MemoryCall × Nat)}

theorem trace_sound (sound : o.Sound) (trace : Trace (Step info) guard o es o') : o'.Sound :=
  trace.invariant sound fun _ _ _ before _ taken => Step.sound before taken

/-- Memory keeps what was last written to it, and a translation stays until it is changed. -/
theorem trace_keeps_byte {v : UInt8} (trace : Trace (Step info) guard o es o') (here : o.bytes x = some v)
    (off : ∀ e ∈ es, ¬ Touches e.1 x) : o'.bytes x = some v := by
  induction trace with
  | nil => exact here
  | snoc _ _ taken ih =>
    refine Step.keeps_byte taken (off _ (List.mem_append_right _ (List.mem_singleton_self _))) ?_
    exact ih fun e member => off e (List.mem_append_left _ member)

theorem trace_keeps_space {root : Nat} {space : Space} (trace : Trace (Step info) guard o es o')
    (here : o.spaces root = some space) (off : ∀ e ∈ es, ¬ Remaps e.1 root) : o'.spaces root = some space := by
  induction trace with
  | nil => exact here
  | snoc _ _ taken ih =>
    refine Step.keeps_space taken (off _ (List.mem_append_right _ (List.mem_singleton_self _))) ?_
    exact ih fun e member => off e (List.mem_append_left _ member)

end Traces

end Objects

end System14
