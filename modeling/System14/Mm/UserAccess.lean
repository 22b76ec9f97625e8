import System14.Mm.AddressSpace

/-!
# User access

The processor lets user code through to a page only if every entry of the walk
has `UserSupervisor` set. `MapMemory` sets it in the last entry of a walk, but
`GetEntryNextLevel` leaves it clear in the entries above. So the entries of a
PML4 never have it, and no mapping is open to user code.
-/

namespace System14
open ByteMem Run Radix

variable {s t u : Kernel} {first root virt : Nat} {size : PageSizes}

/-! ### The walk of the processor -/

/-- User code gets from a table of the given level to the page of `virt`. -/
def userWalk (m : Mem) (virt : Nat) : Nat → Nat → Bool
  | 0, table =>
    let word := entryWord m table (tableIndex 0 virt)
    PTE.present.get word = 1 && PTE.userSupervisor.get word = 1
  | level + 1, table =>
    let word := entryWord m table (tableIndex (level + 1) virt)
    PTE.userSupervisor.get word = 1 &&
      match entrySlot (level + 1) word with
      | .empty => false
      | .page _ => true
      | .table next => userWalk m virt level next

def userAccess (m : Mem) (root virt : Nat) : Bool := userWalk m virt 3 root

/-- The PML4 of which no entry is open to user code, in a page of its own. -/
structure Supervisor (s : Kernel) (first root : Nat) : Prop where
  frames : FrameTable s first
  reserved : Reserved s first root
  denied : ∀ i : Fin 512, PTE.userSupervisor.get (entryWord s.mem root i) = 0

theorem Supervisor.no_access (supervisor : Supervisor s first root) (v : Nat) : userAccess s.mem root v = false := by
  have denied : PTE.userSupervisor.get (entryWord s.mem root (tableIndex (2 + 1) v)) = 0 :=
    supervisor.denied (walkPath v 3)
  simp only [userAccess, userWalk, denied, Nat.zero_ne_one, decide_false, Bool.false_and]

/-! ### The tables that a call follows -/

/-- `MapMemory` comes to table `T` on the given level, through entries that are present. -/
inductive Follows (m : Mem) (root virt : Nat) : Nat → Nat → Prop where
  | root : Follows m root virt 3 root
  | down {l T : Nat} : Follows m root virt (l + 1) T → T ≠ null →
      PTE.present.get (entryWord m T (tableIndex (l + 1) virt)) ≠ 0 →
      Follows m root virt l ((PTE.physAddr.get (entryWord m T (tableIndex (l + 1) virt)) <<< 12) % 2 ^ 40)

/-- What the call takes for tables below the PML4 is neither the PML4, nor a free
frame, nor the list of frames. -/
def Spares (s : Kernel) (first root virt : Nat) (size : PageSizes) : Prop :=
  ∀ l T, size.level ≤ l → l < 3 → Follows s.mem root virt l T → T = null ∨ Reserved s first T ∧ T ≠ root

/-! ### One call -/

theorem Supervisor.granted {i F : Nat} (supervisor : Supervisor s first root) (granted : Granted s first i F t) :
    Supervisor t first root := by
  obtain ⟨frames, reserved, denied⟩ := supervisor
  refine ⟨granted.table, reserved.granted granted, fun j => ?_⟩
  rw [entryWord_kept fun x => reserved.bytes_granted frames granted]
  exact denied j

theorem Supervisor.assigned {T word : Nat} {e : Fin 512} (supervisor : Supervisor s first root)
    (reserved : Reserved s first T) (assigned : Assigned s T e word t)
    (denied : T = root → PTE.userSupervisor.get word = 0) : Supervisor t first root := by
  have same := assigned.sameTable reserved
  refine ⟨supervisor.frames.congr same, supervisor.reserved.congr same, fun i => ?_⟩
  by_cases here : T = root ∧ i = e
  · obtain ⟨rfl, rfl⟩ := here
    rw [assigned.word]
    exact denied rfl
  · rw [assigned.other reserved.aligned supervisor.reserved.aligned fun table index => here ⟨table.symm, index⟩]
    exact supervisor.denied i

/-- On the way down: the table has been followed, with nothing written yet, or it is a new one. -/
structure Descent (s : Kernel) (first root virt l T : Nat) (u : Kernel) : Prop where
  supervisor : Supervisor u first root
  table : T = null ∨ u = s ∧ Follows s.mem root virt l T ∨
    T ≠ null ∧ T ≠ root ∧ Reserved u first T ∧ ∀ i : Fin 512, entryWord u.mem T i = 0

/-- No error counts, only what is returned. -/
def never (_ : Stop) : Prop := False

theorem Supervisor.link {T : Nat} {e : Fin 512} (virt l : Nat) (supervisor : Supervisor u first root)
    (nonnull : T ≠ null) (reserved : Reserved u first T) (absent : PTE.present.get (entryWord u.mem T e) = 0) :
    Yields never (getEntryNextLevel .halts T e u) fun r => Descent s first root virt l r.1 r.2 := by
  unfold getEntryNextLevel
  rw [if_neg nonnull, if_pos absent]
  apply ((pageAlloc_grant supervisor.frames).weaken fun e none => none.elim).bind
  rintro ⟨F, v⟩ ⟨i, granted⟩
  change Granted u first i F v at granted
  have assigned := (((Assigned.refl v T e).set PTE.physAddr (F >>> 12) (by decide)).set
    PTE.present 1 (by decide)).set PTE.rw 1 (by decide)
  have between := supervisor.granted granted
  have kept := reserved.granted granted
  have fresh := granted.reserved supervisor.frames
  have apart : ∀ a, Reserved u first a → F ≠ a := fun a held same =>
    held.used i granted.lt granted.free (granted.page.symm.trans same)
  have same := assigned.sameTable kept
  refine ⟨between.assigned kept assigned fun here => ?_, Or.inr (Or.inr ⟨granted.nonnull supervisor.frames,
    apart root supervisor.reserved, fresh.congr same, fun j => ?_⟩)⟩
  · subst here
    rw [BitField.get_set_of_apart (by decide), BitField.get_set_of_apart (by decide),
      BitField.get_set_of_apart (by decide)]
    exact between.denied e
  · have bounds := entryAddr_bounds F j
    rw [assigned.other kept.aligned fresh.aligned fun here => absurd here (apart T reserved)]
    exact load_of_zero fun x low high => granted.zero x (by omega) (by omega)

theorem Descent.next {l T : Nat} (descent : Descent s first root virt (l + 1) T u)
    (safe : Follows s.mem root virt (l + 1) T → T = null ∨ Reserved s first T) :
    Yields never (getEntryNextLevel .halts T (tableIndex (l + 1) virt) u) fun r =>
      Descent s first root virt l r.1 r.2 := by
  obtain ⟨supervisor, table⟩ := descent
  by_cases null : T = System14.null
  · unfold getEntryNextLevel
    rw [if_pos null]
    exact ⟨supervisor, Or.inl rfl⟩
  rcases table.resolve_left null with ⟨rfl, follows⟩ | ⟨_, _, reserved, zero⟩
  · have reserved := (safe follows).resolve_left null
    by_cases absent : PTE.present.get (entryWord u.mem T (tableIndex (l + 1) virt)) = 0
    · exact supervisor.link (e := walkPath virt (l + 1)) virt l null reserved absent
    · unfold getEntryNextLevel
      rw [if_neg null, if_neg absent]
      exact ⟨supervisor, Or.inr (Or.inl ⟨rfl, follows.down null absent⟩)⟩
  · refine supervisor.link (e := walkPath virt (l + 1)) virt l null reserved ?_
    rw [zero, BitField.get_zero]

theorem leafEntry_descent {pdpt : Nat} (descent : Descent s first root virt 2 pdpt u)
    (spares : Spares s first root virt size) :
    Yields never (leafEntry .halts pdpt virt size u) fun r =>
      Descent s first root virt size.level r.1 r.2.2 ∧ r.2.1 = walkPath virt size.level := by
  have second := descent.next fun follows =>
    (spares 2 pdpt (by cases size <;> decide) (by decide) follows).imp_right And.left
  unfold leafEntry
  cases size with
  | _2M =>
    apply second.bind
    intro r after
    exact ⟨after, rfl⟩
  | _4K =>
    apply second.bind
    intro r after
    have third := after.next fun follows => (spares 1 r.1 (by decide) (by decide) follows).imp_right And.left
    apply third.bind
    intro r' last
    exact ⟨last, rfl⟩

/-- A call that spares the PML4 leaves it closed to user code. -/
theorem mapMemory_supervisor {phys : Nat} {user : Bool} (supervisor : Supervisor s first root)
    (spares : Spares s first root virt size) :
    Yields never (mapMemory .halts root virt phys size user s) fun r => Supervisor r.2 first root := by
  unfold mapMemory
  have start : Descent s first root virt 3 root s := ⟨supervisor, Or.inr (Or.inl ⟨rfl, .root⟩)⟩
  apply (start.next fun _ => Or.inr supervisor.reserved).bind
  intro r one
  apply (leafEntry_descent one spares).bind
  rintro ⟨T, index, v⟩ ⟨⟨closed, table⟩, here⟩
  change index = _ at here
  subst here
  by_cases null : T = System14.null
  · simp only [if_pos null]
    exact closed
  simp only [if_neg null]
  have target : Reserved v first T ∧ T ≠ root := by
    rcases table.resolve_left null with ⟨same, follows⟩ | ⟨_, other, reserved, _⟩
    · subst same
      exact (spares _ T (Nat.le_refl _) (by cases size <;> decide) follows).resolve_left null
    · exact ⟨reserved, other⟩
  exact closed.assigned target.1 (setLeaf_assigned T (walkPath virt size.level) phys size user v) fun here =>
    absurd here target.2

/-! ### Orderly calls -/

theorem Follows.reaches {l T : Nat} (tables : Tables s first root) (clear : Clear s.mem root virt size)
    (follows : Follows s.mem root virt l T) (high : size.level ≤ l) :
    Reaches (tableView s.mem) 3 root (walkPath virt) l T := by
  induction follows with
  | root => exact .root
  | @down l T _ nonnull present ih =>
    have walk := ih (by omega)
    have entry : tableView s.mem (l + 1) T (walkPath virt (l + 1)) =
        .table (PTE.physAddr.get (entryWord s.mem T (tableIndex (l + 1) virt)) * 4096) := by
      show entrySlot (l + 1) (entryWord s.mem T (tableIndex (l + 1) virt)) = _
      unfold entrySlot
      rw [if_neg present]
      apply if_neg
      intro page
      have bottom : l = 0 := by omega
      subst bottom
      have small : size = ._4K := by
        cases size with
        | _4K => rfl
        | _2M => cases high
      have large : tableView s.mem 1 T (walkPath virt 1) =
          .page (PTE.physAddr.get (entryWord s.mem T (tableIndex 1 virt)) * 4096) := by
        show entrySlot 1 (entryWord s.mem T (tableIndex 1 virt)) = _
        unfold entrySlot
        rw [if_neg present, if_pos page]
      apply clear small
      rw [lookup_of_reaches walk, lookup, large]
    have below := walk.down entry
    have low := (tables.held _ ⟨_, _, below⟩).low
    rw [Nat.shiftLeft_eq, Nat.mod_eq_of_lt low]
    exact below

/-- A call that does not map a small page where a large one is follows only tables of its own. -/
theorem Tables.spares (tables : Tables s first root) (clear : Clear s.mem root virt size) :
    Spares s first root virt size := by
  intro l T high low follows
  have reached := follows.reaches tables clear high
  refine Or.inr ⟨(tables.held T ⟨_, _, reached⟩).reserved, ?_⟩
  intro top
  subst top
  have level := (tables.unshared reached (.root : Reaches (tableView s.mem) 3 T (walkPath virt) 3 T)).1
  omega

/-! ### Runs -/

/-- A page as `PageAlloc` returns it. -/
structure FreshRoot (s : Kernel) (first root : Nat) : Prop where
  frames : FrameTable s first
  reserved : Reserved s first root
  zero : ∀ x, root ≤ x → x < root + 4096 → s.mem x = 0

theorem FreshRoot.supervisor (fresh : FreshRoot s first root) : Supervisor s first root := by
  refine ⟨fresh.frames, fresh.reserved, fun i => ?_⟩
  have bounds := entryAddr_bounds root i
  have zero : entryWord s.mem root i = 0 := load_of_zero fun x low high => fresh.zero x (by omega) (by omega)
  rw [zero, BitField.get_zero]

def CallStep (root : Nat) (s : Kernel) (c : MapCall) (t : Kernel) : Prop :=
  ∃ status, mapMemory .halts root c.virt c.phys c.size c.user s = .ok (status, t)

/-- The states that calls on the PML4 at `root` lead to, each of which spares the PML4. -/
def CallReach (s₀ : Kernel) (first root : Nat) : Kernel → Prop :=
  Reach (· = s₀) (CallStep root) fun s c => Spares s first root c.virt c.size

theorem callReach_supervisor {s₀ : Kernel} (fresh : FreshRoot s₀ first root) (reached : CallReach s₀ first root s) :
    Supervisor s first root := by
  refine reached.invariant (I := fun s => Supervisor s first root) ?_ ?_
  · intro s start
    rw [start]
    exact fresh.supervisor
  · intro s c t supervisor spares taken
    obtain ⟨status, call⟩ := taken
    exact (mapMemory_supervisor supervisor spares).ok call

/-- After a call user code may access its page if and only if the call asked for
that, precisely when it did not ask for it. -/
theorem user_flag_decides_iff {s₀ : Kernel} {c : MapCall} (fresh : FreshRoot s₀ first root)
    (reached : CallReach s₀ first root s) (spares : Spares s first root c.virt c.size)
    (returned : mapMemory .halts root c.virt c.phys c.size c.user s = .ok (.success, t)) :
    (userAccess t.mem root c.virt = true ↔ c.user = true) ↔ c.user = false := by
  have closed := (mapMemory_supervisor (callReach_supervisor fresh reached) spares).ok returned
  rw [closed.no_access]
  cases c.user <;> decide

theorem BlankRoot.fresh (blank : BlankRoot s first root) : FreshRoot s first root :=
  ⟨blank.frames, blank.held.reserved, blank.zero⟩

/-- Calls that do not map a small page where a large one is spare the PML4. -/
theorem MapReach.calls {s₀ : Kernel} {state : Kernel × List MapCall} (blank : BlankRoot s₀ first root)
    (reached : MapReach s₀ root state) : CallReach s₀ first root state.1 := by
  induction reached with
  | init start =>
    cases start
    exact .init rfl
  | step before allowed taken ih =>
    obtain ⟨status, call, _⟩ := taken
    exact ih.step ((mapReach_inv blank before).1.spares allowed.2) ⟨status, call⟩

/-- A page that is mapped again elsewhere, with and without access for user code. -/
theorem user_flag_decides_iff_smallMap : ∃ s₀ s t u, FreshRoot s₀ 0x101000 0x101000 ∧ CallReach s₀ 0x101000 0x101000 s ∧
    mapMemory .halts 0x101000 0x400000 0x200000 ._4K true s₀ = .ok (.success, s) ∧
    mapMemory .halts 0x101000 0x400000 0x300000 ._4K false s = .ok (.success, t) ∧
    (userAccess t.mem 0x101000 0x400000 = true ↔ false = true) ∧
    mapMemory .halts 0x101000 0x400000 0x300000 ._4K true s = .ok (.success, u) ∧
    ¬ (userAccess u.mem 0x101000 0x400000 = true ↔ true = true) := by
  obtain ⟨s₀, blank, three⟩ := smallMap_root
  obtain ⟨s, call, reached⟩ := blank.maps_first (by omega) true
  obtain ⟨tables, _, agrees⟩ := mapReach_inv blank reached
  have found := (agrees 0x400000).trans rfl
  obtain ⟨clear, t, closed⟩ := tables.maps_again found 0x300000 false
  obtain ⟨_, u, opened⟩ := tables.maps_again found 0x300000 true
  have spares := tables.spares clear
  refine ⟨s₀, s, t, u, blank.fresh, reached.calls blank, call, closed, ?_, opened, fun access => ?_⟩
  · exact (user_flag_decides_iff (c := ⟨0x400000, 0x300000, ._4K, false⟩) blank.fresh (reached.calls blank) spares
      closed).mpr rfl
  · exact nomatch (user_flag_decides_iff (c := ⟨0x400000, 0x300000, ._4K, true⟩) blank.fresh (reached.calls blank) spares
      opened).mp access

/-- The first page that is mapped for user code stays closed to it. -/
theorem user_page_closed : ∃ s t, FreshRoot s 0x101000 0x101000 ∧ CallReach s 0x101000 0x101000 s ∧
    mapMemory .halts 0x101000 0x400000 0x200000 ._4K true s = .ok (.success, t) ∧
    userAccess t.mem 0x101000 0x400000 = false := by
  obtain ⟨s, blank, three⟩ := smallMap_root
  obtain ⟨t, call, reached⟩ := blank.maps_first (by omega) true
  exact ⟨s, t, blank.fresh, .init rfl, call, (callReach_supervisor blank.fresh (reached.calls blank)).no_access _⟩

end System14
