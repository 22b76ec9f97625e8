import System14.Multitasking.Termination

/-!
# Taking turns

As long as no task exits, the ticks go round the list and every task has ten of
them in a row. A task that exits hands over to the first task on the list, not
to the next one, so the tasks between them wait for another round, or the first
ones have a turn too many.
-/

namespace System14
open Run Chain

variable {s t : Scheduler} {l pre post : List FramePtr} {stack : Registers} {p : FramePtr}

/-! ### Ticks alone -/

/-- `n` ticks lead from `s` to the state, and nothing else happens. -/
inductive Ticks (s : Scheduler) : Nat → Scheduler → Prop where
  | start : Ticks s 0 s
  | tick {n : Nat} {t u : Scheduler} {stack r : Registers} :
    Ticks s n t → Returns (taskSwitch · stack t) (r, u) → Ticks s (n + 1) u

/-- The tasks of `l` have just been added. -/
structure Fresh (s : Scheduler) (l : List FramePtr) : Prop where
  listed : Listed s l
  idle : s.current = .null
  valid : ∀ p ∈ l, (s.frames p).invalid = false
  quanta : ∀ p ∈ l, (s.frames p).quanta = 10

/-- Where the tasks are after tick number `k`. -/
structure InRound (l : List FramePtr) (k : Nat) (s : Scheduler) : Prop where
  current : l[k / 10 % l.length]? = some s.current
  slice : (s.frames s.current).quanta.toNat = 9 - k % 10
  others : ∀ p ∈ l, p ≠ s.current → (s.frames p).quanta = 10

theorem Scheduler.looksAt_mem (s : Scheduler) (some : l ≠ []) : s.looksAt l ∈ l := by
  unfold Scheduler.looksAt
  split
  · assumption
  · exact Listed.mem_headD some

/-- A tick that finds a valid task keeps the list and counts down. -/
theorem valid_tick {r : Registers} (listed : Listed s l) (placed : Placed s l) (some : l ≠ [])
    (valid : (s.frames (s.looksAt l)).invalid = false) (returned : Returns (taskSwitch · stack s) (r, t)) :
    Listed t l ∧ (∀ p, (t.frames p).invalid = (s.frames p).invalid) ∧ t.current = s.choice l (s.looksAt l) ∧
      ∀ p, (t.frames p).quanta = s.countDown l (s.looksAt l) p := by
  have left : s.survivors l = l := by simp [Scheduler.survivors, valid]
  have turn : s.turn l = s.looksAt l := by simp [Scheduler.turn, valid]
  obtain ⟨after, _, frames, resumed⟩ := tick_turned listed placed returned
  simp only [Scheduler.selected, left, turn] at after frames resumed
  refine ⟨after, fun p => by rw [frames p], ?_, fun p => by rw [frames p, if_neg some]⟩
  rcases resumed with ⟨_, current, _⟩ | ⟨none, _⟩
  · exact current
  · exact absurd none some

theorem nextTurn_index {i : Nat} (distinct : l.Nodup) (here : l[i]? = some p) :
    l[(i + 1) % l.length]? = some (nextTurn l p) := by
  obtain ⟨lt, rfl⟩ := List.getElem?_eq_some_iff.mp here
  have split : l.take i ++ l[i] :: l.drop (i + 1) = l := by
    rw [List.getElem_cons_drop, List.take_append_drop]
  have turn : nextTurn (l.take i ++ l[i] :: l.drop (i + 1)) l[i] = (l.drop (i + 1) ++ l.take i).headD l[i] :=
    nextTurn_split (by rw [split]; exact distinct)
  rw [split] at turn
  rw [turn]
  by_cases last : i + 1 < l.length
  · rw [Nat.mod_eq_of_lt last, List.drop_eq_getElem_cons last, List.getElem?_eq_getElem last]
    rfl
  · have whole : i + 1 = l.length := by omega
    rw [whole, Nat.mod_self, List.drop_length, List.nil_append]
    cases l with
    | nil => cases lt
    | cons a l => cases i <;> simp

/-- While its slice lasts, a task goes on and loses one tick. -/
theorem choice_running (l : List FramePtr) (more : (s.frames p).quanta ≠ 0) :
    s.choice l p = p ∧ ∀ q, s.countDown l p q = if q = p then (s.frames q).quanta - 1 else (s.frames q).quanta := by
  have stays : s.choice l p = p := if_neg more
  refine ⟨stays, fun q => ?_⟩
  have left : s.ticksLeft p q = (s.frames q).quanta := by
    unfold Scheduler.ticksLeft
    rw [if_neg]
    rintro ⟨rfl, ended⟩
    exact more ended
  rw [Scheduler.countDown, stays, left]

/-- When it is over, the task has ten ticks again and the next one loses its first. -/
theorem choice_expired (l : List FramePtr) (ended : (s.frames p).quanta = 0) :
    s.choice l p = nextTurn l p ∧ ∀ q, s.countDown l p q =
      (if q = p then 10 else (s.frames q).quanta) - (if q = nextTurn l p then 1 else 0) := by
  have moves : s.choice l p = nextTurn l p := if_pos ended
  refine ⟨moves, fun q => ?_⟩
  have left : s.ticksLeft p q = if q = p then 10 else (s.frames q).quanta := by
    unfold Scheduler.ticksLeft
    by_cases here : q = p
    · rw [if_pos here, if_pos ⟨here, here ▸ ended⟩]
    · rw [if_neg here, if_neg fun both => here both.1]
  rw [Scheduler.countDown, moves, left]
  split <;> simp

theorem Fresh.first_tick {r : Registers} (fresh : Fresh s l) (some : l ≠ []) (returned : Returns (taskSwitch · stack s) (r, t)) :
    Listed t l ∧ (∀ p ∈ l, (t.frames p).invalid = false) ∧ InRound l 0 t := by
  have idle : s.current ∉ l := fresh.listed.idle (Or.inl fresh.idle)
  have head := Listed.mem_headD some
  obtain ⟨listed, flags, current, quanta⟩ :=
    valid_tick fresh.listed (Or.inl fresh.idle) some (fresh.valid _ (s.looksAt_mem some)) returned
  have looks : s.looksAt l = l.headD .null := if_neg idle
  obtain ⟨stays, count⟩ := choice_running (s := s) l (by rw [fresh.quanta _ head]; decide)
  rw [looks, stays] at current
  rw [looks] at quanta
  refine ⟨listed, fun p member => (flags p).trans (fresh.valid p member), ?_, ?_, fun p member other => ?_⟩
  · rw [current, Nat.zero_div, Nat.zero_mod]
    cases l with
    | nil => exact absurd rfl some
    | cons a l => rfl
  · rw [quanta, current, count, if_pos rfl, fresh.quanta _ head]
    rfl
  · rw [quanta, count, if_neg (current ▸ other), fresh.quanta p member]

theorem InRound.tick {k : Nat} {r : Registers} (round : InRound l k s) (listed : Listed s l)
    (valid : ∀ p ∈ l, (s.frames p).invalid = false) (returned : Returns (taskSwitch · stack s) (r, t)) :
    Listed t l ∧ (∀ p ∈ l, (t.frames p).invalid = false) ∧ InRound l (k + 1) t := by
  have member : s.current ∈ l := List.mem_of_getElem? round.current
  have slice := round.slice
  have some := List.ne_nil_of_mem member
  obtain ⟨listed', flags, current, quanta⟩ :=
    valid_tick listed (Or.inr (Or.inr member)) some (valid _ (s.looksAt_mem some)) returned
  rw [Scheduler.looksAt_current member] at current quanta
  refine ⟨listed', fun p member => (flags p).trans (valid p member), ?_⟩
  by_cases ended : (s.frames s.current).quanta = 0
  · have last : k % 10 = 9 := by
      rw [ended, UInt8.toNat_zero] at slice
      omega
    obtain ⟨moves, count⟩ := choice_expired l ended
    rw [moves] at current
    have full : ∀ p ∈ l, (if p = s.current then 10 else (s.frames p).quanta) = 10 := by
      intro p member
      split
      · rfl
      · exact round.others p member ‹_›
    refine ⟨?_, ?_, fun p member other => ?_⟩
    · have next := nextTurn_index listed.nodup.2 round.current
      rw [current, show (k + 1) / 10 = k / 10 + 1 by omega, ← Nat.mod_add_mod]
      exact next
    · rw [quanta, current, count, full _ (nextTurn_mem l member), if_pos rfl, show (k + 1) % 10 = 0 by omega]
      rfl
    · rw [quanta, count, full p member, if_neg (current ▸ other)]
      rfl
  · have more : (s.frames s.current).quanta.toNat ≠ 0 := fun zero => ended (UInt8.toNat_inj.mp zero)
    obtain ⟨stays, count⟩ := choice_running l ended
    rw [stays] at current
    refine ⟨?_, ?_, fun p member other => ?_⟩
    · rw [current, show (k + 1) / 10 = k / 10 by omega]
      exact round.current
    · rw [quanta, current, count, if_pos rfl, UInt8.toNat_sub_of_le _ _ (UInt8.le_iff_toNat_le.mpr (by
        rw [UInt8.toNat_one]
        omega)), UInt8.toNat_one]
      omega
    · rw [current] at other
      rw [quanta, count, if_neg other, round.others p member other]

theorem Ticks.inRound {n : Nat} (fresh : Fresh s l) (some : l ≠ []) (run : Ticks s n t) :
    Listed t l ∧ (∀ p ∈ l, (t.frames p).invalid = false) ∧ Placed t l ∧ ∀ k, n = k + 1 → InRound l k t := by
  induction run with
  | start => exact ⟨fresh.listed, fresh.valid, Or.inl fresh.idle, nofun⟩
  | @tick n t u stack r run returned ih =>
    obtain ⟨listed, valid, _, round⟩ := ih
    have after : Listed u l ∧ (∀ p ∈ l, (u.frames p).invalid = false) ∧ InRound l n u := by
      cases n with
      | zero =>
        cases run
        exact fresh.first_tick some returned
      | succ k => exact (round k rfl).tick listed valid returned
    obtain ⟨listed', valid', round'⟩ := after
    refine ⟨listed', valid', Or.inr (Or.inr (List.mem_of_getElem? round'.current)), ?_⟩
    rintro k ⟨⟩
    exact round'

/-- Ticks alone go round the list, ten for each task: every one of them returns,
and after tick number `k` the task at place `k / 10`, counted round the list, is
the current one and has `9 - k % 10` ticks left, while all the others have ten. -/
theorem round_robin (fresh : Fresh s l) (some : l ≠ []) :
    (∀ n t, Ticks s n t → ∀ stack, ∃ r u, Returns (taskSwitch · stack t) (r, u)) ∧
    ∀ k t, Ticks s (k + 1) t → InRound l k t ∧ ∀ i < l.length, l[i]? = t.current ↔ k / 10 % l.length = i := by
  refine ⟨fun n t run stack => ?_, fun k t run => ?_⟩
  · obtain ⟨listed, _, placed, _⟩ := run.inRound fresh some
    obtain ⟨r, u, returned, _⟩ := taskSwitch_turned stack listed placed
    exact ⟨r, u, l.length + 1, returned⟩
  · obtain ⟨listed, _, _, round⟩ := run.inRound fresh some
    refine ⟨round k rfl, fun i lt => ?_⟩
    rw [← (round k rfl).current]
    rw [List.getElem?_inj lt listed.nodup.2]
    exact eq_comm

def twoTasks : Scheduler where
  highestPid := 3
  schedulingStarted := true
  current := .null
  frames p :=
    if p = .prochead then { ProcessFrame.zero with next := .heap 0x102010 }
    else if p = .heap 0x102010 then { ProcessFrame.zero with pid := 2, quanta := 10, next := .heap 0x101010 }
    else { ProcessFrame.zero with pid := 1, quanta := 10 }

theorem twoTasks_fresh : Fresh twoTasks [.heap 0x102010, .heap 0x101010] :=
  ⟨⟨rfl, by decide, rfl, by decide, rfl, by decide, rfl⟩, rfl, by decide, by decide⟩

theorem round_robin_twoTasks : ∃ t, Ticks twoTasks 1 t ∧ t.current = .heap 0x102010 ∧
    (t.frames (.heap 0x102010)).quanta.toNat = 9 ∧ (t.frames (.heap 0x101010)).quanta = 10 := by
  obtain ⟨returns, round⟩ := round_robin twoTasks_fresh (by simp)
  obtain ⟨r, t, returned⟩ := returns 0 twoTasks .start .zero
  have run : Ticks twoTasks 1 t := .tick .start returned
  obtain ⟨inRound, _⟩ := round 0 t run
  have current : t.current = .heap 0x102010 := (Option.some.inj inRound.current).symm
  refine ⟨t, run, current, ?_, inRound.others _ (by simp) (by rw [current]; decide)⟩
  rw [← current]
  exact inRound.slice

/-! ### Exits -/

/-- The running task hands over to the task behind it when it exits. Before it
on the list are `pre` and behind it `post`: the first of these is taken, or the
one after that if the first has no ticks left. -/
def ExitInTurn (s : Scheduler) (pre post : List FramePtr) : Prop :=
  match pre ++ post with
  | [] => True
  | h :: rest =>
    (pre = [] ∨ post = []) ∧ ((s.frames h).quanta ≠ 0 ∨ rest = []) ∨
      pre = [h] ∧ post ≠ [] ∧ (s.frames h).quanta = 0

theorem choice_head {h : FramePtr} {rest : List FramePtr} (distinct : (h :: rest).Nodup) :
    s.choice (h :: rest) h = if (s.frames h).quanta = 0 then rest.headD h else h := by
  have turn : nextTurn ([] ++ h :: rest) h = (rest ++ []).headD h := nextTurn_split distinct
  rw [List.nil_append, List.append_nil] at turn
  rw [Scheduler.choice, turn]

theorem headD_eq_self {h : FramePtr} {rest : List FramePtr} (distinct : (h :: rest).Nodup) :
    rest.headD h = h ↔ rest = [] := by
  cases rest with
  | nil => exact ⟨fun _ => rfl, fun _ => rfl⟩
  | cons a rest =>
    refine ⟨fun same => ?_, nofun⟩
    have here : a = h := same
    exact absurd (here ▸ List.mem_cons_self) (List.nodup_cons.mp distinct).1

theorem exitInTurn_iff (distinct : (pre ++ p :: post).Nodup) :
    (pre ++ post ≠ [] → s.choice (pre ++ post) ((pre ++ post).headD .null) = nextTurn (pre ++ p :: post) p) ↔
      ExitInTurn s pre post := by
  have left : (pre ++ post).Nodup := (List.nodup_cons.mp (List.nodup_middle.mp distinct)).2
  rw [nextTurn_split distinct]
  unfold ExitInTurn
  cases pre with
  | nil =>
    cases post with
    | nil => simp
    | cons h rest =>
      have left : (h :: rest).Nodup := left
      have same := headD_eq_self left
      show (_ → s.choice (h :: rest) h = h) ↔ _
      rw [choice_head left]
      by_cases ended : (s.frames h).quanta = 0
      · simpa [ended] using same
      · simp [ended]
  | cons h rest =>
    have left : (h :: (rest ++ post)).Nodup := left
    show (_ → s.choice (h :: (rest ++ post)) h = _) ↔ _
    rw [choice_head left]
    cases post with
    | nil =>
      rw [List.append_nil] at left ⊢
      have same := headD_eq_self left
      show (_ → _ = h) ↔ _
      by_cases ended : (s.frames h).quanta = 0
      · simpa [ended] using same
      · simp [ended]
    | cons q behind =>
      -- The task that follows is not the first one, which is before the one that exits.
      have other : h ≠ q := by
        rintro rfl
        exact (List.nodup_cons.mp left).1 (by simp)
      show (_ → _ = q) ↔ _
      by_cases ended : (s.frames h).quanta = 0
      · cases rest with
        | nil => simp [ended]
        | cons a rest =>
          have between : a ≠ q := by
            rintro rfl
            exact (List.nodup_cons.mp (List.nodup_cons.mp left).2).1 (by simp)
          simp [ended, between]
      · simp [ended, other]

theorem erase_middle (distinct : (pre ++ p :: post).Nodup) : (pre ++ p :: post).erase p = pre ++ post := by
  have before : p ∉ pre := fun present => (List.nodup_append.mp distinct).2.2 _ present _ List.mem_cons_self rfl
  rw [List.erase_append_right _ before, List.erase_cons_head]

theorem exit_tick {r : Registers} (listed : Listed s (pre ++ s.current :: post))
    (distinct : DistinctPids s (pre ++ s.current :: post)) (invalid : (s.frames s.current).invalid = true)
    (returned : Returns (taskSwitch · stack s) (r, t)) :
    Listed t (pre ++ post) ∧
      (pre ++ post ≠ [] → t.current = s.choice (pre ++ post) ((pre ++ post).headD .null)) := by
  have member : s.current ∈ pre ++ s.current :: post := by simp
  have nodup := listed.nodup.2
  have left : s.survivors (pre ++ s.current :: post) = pre ++ post := by
    rw [Scheduler.survivors, Scheduler.looksAt_current member, if_pos invalid]
    rcases eraseP_pid nodup member with ⟨_, same⟩ | ⟨later, _⟩
    · rw [same, erase_middle nodup]
    · exact absurd (distinct.first member) later
  have turn : s.turn (pre ++ s.current :: post) = (pre ++ post).headD .null := by
    rw [Scheduler.turn, Scheduler.looksAt_current member, if_pos invalid, left]
  obtain ⟨after, _, _, resumed⟩ := tick_turned listed (Or.inr (Or.inr member)) returned
  simp only [Scheduler.selected, left, turn] at after resumed
  refine ⟨after, fun some => ?_⟩
  rcases resumed with ⟨_, current, _⟩ | ⟨none, _⟩
  · exact current
  · exact absurd none some

/-! ### Between two turns -/

section Turns

variable {a b c : FramePtr} {used used' : List Nat}

/-- Round the list from `c` on, `b` comes before the next `a`. -/
def Waiting (l : List FramePtr) (c b a : FramePtr) : Prop :=
  ∃ pre post x y, l = pre ++ c :: post ∧ post ++ pre = x ++ b :: y ∧ a ∉ x

theorem waiting_start (distinct : l.Nodup) (running : a ∈ l) (member : b ∈ l) (other : b ≠ a) : Waiting l a b a := by
  obtain ⟨pre, post, rfl⟩ := List.append_of_mem running
  have present : b ∈ post ++ pre := by simpa [other, or_comm] using member
  obtain ⟨x, y, split⟩ := List.append_of_mem present
  refine ⟨pre, post, x, y, rfl, split, fun before => ?_⟩
  have inside : a ∈ post ++ pre := by
    rw [split]
    exact List.mem_append_left _ before
  exact (List.nodup_cons.mp (List.nodup_middle.mp distinct)).1 (by simpa [or_comm] using inside)

theorem Waiting.push (waiting : Waiting l c b a) (fresh : p ≠ a) : Waiting (p :: l) c b a := by
  obtain ⟨pre, post, x, y, rfl, split, before⟩ := waiting
  -- The new task is before the first one, so it may or may not come before `b`.
  rcases List.append_eq_append_iff.mp split with ⟨x', rfl, rfl⟩ | ⟨x', rfl, rest⟩
  · refine ⟨p :: (x' ++ b :: y), post, post ++ p :: x', y, rfl, by simp, ?_⟩
    simpa [fresh.symm] using before
  · cases x' with
    | nil =>
      have rest : b :: y = pre := rest
      subst rest
      exact ⟨p :: b :: y, x ++ [], x ++ [p], y, by simp, by simp, by simpa [fresh.symm] using before⟩
    | cons d x' =>
      obtain ⟨rfl, rfl⟩ := List.cons.inj rest
      exact ⟨p :: pre, x ++ b :: x', x, x' ++ p :: pre, by simp, by simp, before⟩

/-- When the turn passes on, it comes to `b`, or `b` goes on waiting, also if the last task has left the list. -/
theorem Waiting.turn (waiting : Waiting l c b a) (distinct : l.Nodup) :
    nextTurn l c = b ∨ nextTurn l c ≠ a ∧ Waiting l (nextTurn l c) b a ∧ Waiting (l.erase c) (nextTurn l c) b a := by
  obtain ⟨pre, post, x, y, rfl, split, before⟩ := waiting
  rw [nextTurn_split distinct, split, erase_middle distinct]
  cases x with
  | nil => exact Or.inl rfl
  | cons d x =>
    rw [List.mem_cons, not_or] at before
    obtain ⟨other, before⟩ := before
    refine Or.inr ⟨Ne.symm other, ?_⟩
    show Waiting _ d b a ∧ Waiting _ d b a
    cases post with
    | nil =>
      have split : pre = d :: (x ++ b :: y) := split
      subst split
      exact ⟨⟨[], x ++ b :: y ++ [c], x, y ++ [c], by simp, by simp, before⟩,
        [], x ++ b :: y, x, y, by simp, by simp, before⟩
    | cons e post =>
      obtain ⟨rfl, rest⟩ := List.cons.inj split
      have rest : post ++ pre = x ++ b :: y := rest
      refine ⟨⟨pre ++ [c], post, x, y ++ [c], by simp, ?_, before⟩, pre, post, x, y, by simp, rest, before⟩
      rw [← List.append_assoc, rest]
      simp

/-- The running task is valid, or its exit comes in turn. -/
def TickInTurn (s : Scheduler) : Prop :=
  (s.frames s.current).invalid = true → ∀ pre post, Listed s (pre ++ s.current :: post) →
    DistinctPids s (pre ++ s.current :: post) ∧ ExitInTurn s pre post

theorem Listed.unique {l' : List FramePtr} (listed : Listed s l) (listed' : Listed s l') : l = l' :=
  (List.cons.inj (linked_unique listed listed')).2

theorem Waiting.tick {r : Registers} (waiting : Waiting l s.current b a) (linkage : Linkage s used l)
    (inTurn : TickInTurn s) (returned : Returns (taskSwitch · stack s) (r, t)) :
    ∃ l', Linkage t used l' ∧
      (t.current = b ∨ Waiting l' t.current b a ∧ (t.current = s.current ∨ t.current ≠ a)) := by
  have listed := linkage.1
  have placed := linkage.2.1
  have turn := waiting.turn listed.nodup.2
  have after := linkage.tick (tick_ticked listed placed returned)
  obtain ⟨pre, post, x, y, rfl, split, _⟩ := id waiting
  have member : s.current ∈ pre ++ s.current :: post := by simp
  refine ⟨_, after, ?_⟩
  cases invalid : (s.frames s.current).invalid with
  | false =>
    have looks := Scheduler.looksAt_current member
    obtain ⟨kept, _, current, _⟩ :=
      valid_tick listed placed (List.ne_nil_of_mem member) (by rw [looks]; exact invalid) returned
    rw [looks] at current
    rw [after.1.unique kept, current]
    by_cases ended : (s.frames s.current).quanta = 0
    · rw [(choice_expired _ ended).1]
      exact turn.imp_right fun ⟨other, waits, _⟩ => ⟨waits, Or.inr other⟩
    · rw [(choice_running _ ended).1]
      exact Or.inr ⟨waiting, Or.inl rfl⟩
  | true =>
    obtain ⟨distinct, next⟩ := inTurn invalid pre post listed
    obtain ⟨kept, current⟩ := exit_tick listed distinct invalid returned
    have some : pre ++ post ≠ [] := by
      intro none
      obtain ⟨rfl, rfl⟩ := List.append_eq_nil_iff.mp none
      simp at split
    have erased := erase_middle listed.nodup.2
    rw [after.1.unique kept, current some, (exitInTurn_iff listed.nodup.2).mpr next some]
    rw [erased] at turn
    exact turn.imp_right fun ⟨other, _, waits⟩ => ⟨waits, Or.inr other⟩

theorem Waiting.step {k : Nat} {e : SchedulerEvent} (waiting : Waiting l s.current b (.heap k)) (linkage : Linkage s used l)
    (handed : k ∈ used) (allowed : SchedulerAllowed (s, used) e) (taken : SchedulerStep (s, used) e (t, used'))
    (inTurn : (∃ stack, e = .tick stack) → TickInTurn s) :
    k ∈ used' ∧ ∃ l', Linkage t used' l' ∧
      (t.current = b ∨ Waiting l' t.current b (.heap k) ∧ (t.current = s.current ∨ t.current ≠ .heap k)) := by
  by_cases tick : ∃ stack, e = .tick stack
  · have turns := inTurn tick
    obtain ⟨stack, rfl⟩ := tick
    obtain ⟨⟨r, returned⟩, rfl⟩ := taken
    exact ⟨handed, waiting.tick linkage turns returned⟩
  · obtain ⟨current, more, _, new, after, fresh⟩ :=
      schedulerStep_quiet linkage allowed (fun stack same => tick ⟨stack, same⟩) taken
    refine ⟨more k handed, _, after, Or.inr ⟨?_, Or.inl current⟩⟩
    rw [current]
    clear after
    induction new with
    | nil => exact waiting
    | cons p new ih =>
      exact (ih fun q member => fresh q (List.mem_cons_of_mem _ member)).push (fresh p List.mem_cons_self k handed)

/-- The states `σ 0` to `σ n` of a run and the events between them. -/
structure SchedulerTrace (σ : Nat → Scheduler × List Nat) (event : Nat → SchedulerEvent) (n : Nat) : Prop where
  start : SchedulerReach (σ 0)
  step : ∀ m < n, SchedulerAllowed (σ m) (event m) ∧ SchedulerStep (σ m) (event m) (σ (m + 1))

variable {σ : Nat → Scheduler × List Nat} {event : Nat → SchedulerEvent} {n i : Nat}

theorem SchedulerTrace.reached (trace : SchedulerTrace σ event n) {m : Nat} (le : m ≤ n) : SchedulerReach (σ m) := by
  induction m with
  | zero => exact trace.start
  | succ m ih =>
    obtain ⟨allowed, taken⟩ := trace.step m le
    exact (ih (by omega)).step allowed taken

/-- Until it is the turn of `b`, the turn does not come back to a task that it has left. -/
theorem SchedulerTrace.waits {k : Nat} (trace : SchedulerTrace σ event n)
    (inTurn : ∀ m < n, (∃ stack, event m = .tick stack) → TickInTurn (σ m).1)
    (running : (σ i).1.current = .heap k) (listed : Listed (σ i).1 l) (member : b ∈ l) (other : b ≠ .heap k)
    (bound : i ≤ n) (m : Nat) (le : i ≤ m) (last : m ≤ n) (never : ∀ m', i < m' → m' ≤ m → (σ m').1.current ≠ b) :
    k ∈ (σ m).2 ∧ ∃ l, Linkage (σ m).1 (σ m).2 l ∧ Waiting l (σ m).1.current b (.heap k) ∧
      ∀ j, i ≤ j → j ≤ m → (σ j).1.current ≠ .heap k → (σ m).1.current ≠ .heap k := by
  induction m, le using Nat.le_induction with
  | base =>
    obtain ⟨l', linkage⟩ := schedulerReach_linkage (trace.reached bound)
    have same := linkage.1.unique listed
    subst same
    refine ⟨linkage.handed running, l', linkage, ?_, fun j low high => ?_⟩
    · rw [running]
      exact waiting_start listed.nodup.2 (linkage.running running) member other
    · rw [Nat.le_antisymm high low]
      exact id
  | succ m le ih =>
    obtain ⟨handed, l, linkage, waiting, gone⟩ := ih (by omega) fun m' low high => never m' low (by omega)
    obtain ⟨allowed, taken⟩ := trace.step m (by omega)
    obtain ⟨handed', l', linkage', here | ⟨waits, moved⟩⟩ :=
      waiting.step linkage handed allowed taken (inTurn m (by omega))
    · exact absurd here (never (m + 1) (by omega) (le_refl _))
    · refine ⟨handed', l', linkage', waits, fun j low high away => ?_⟩
      rcases Nat.le_or_eq_of_le_succ high with before | rfl
      · rcases moved with same | different
        · rw [same]
          exact gone j low before away
        · exact different
      · exact away

end Turns

/-- When the running task has exited, a tick goes on with the task behind it
exactly when the exit is in turn; and in every run whose exits are all in turn,
every task that is on the list gets a turn between two turns of another task. -/
theorem exit_in_turn_iff (s : Scheduler) (pre post : List FramePtr) (stack : Registers) :
    (Listed s (pre ++ s.current :: post) → DistinctPids s (pre ++ s.current :: post) →
      (s.frames s.current).invalid = true → ∃ r t, Returns (taskSwitch · stack s) (r, t) ∧
        ((pre ++ post ≠ [] → t.current = nextTurn (pre ++ s.current :: post) s.current) ↔ ExitInTurn s pre post)) ∧
    ∀ σ event n, SchedulerTrace σ event n →
      (∀ m < n, (∃ stack, event m = .tick stack) → TickInTurn (σ m).1) →
      ∀ i j k a b l, i < j → j < k → k ≤ n → (σ i).1.current = .heap a → (σ j).1.current ≠ .heap a →
        (σ k).1.current = .heap a → Listed (σ i).1 l → b ∈ l → b ≠ .heap a →
        ∃ m, i < m ∧ m < k ∧ (σ m).1.current = b := by
  constructor
  · intro listed distinct invalid
    obtain ⟨r, t, run, _⟩ := taskSwitch_turned stack listed (Or.inr (Or.inr (by simp)))
    have returned : Returns (taskSwitch · stack s) (r, t) := ⟨_, run⟩
    obtain ⟨_, current⟩ := exit_tick listed distinct invalid returned
    refine ⟨r, t, returned, ?_⟩
    rw [← exitInTurn_iff listed.nodup.2]
    exact forall_congr' fun some => by rw [current some]
  · intro σ event n trace inTurn i j k a b l before after bound first away again listed member other
    by_contra none
    push Not at none
    obtain ⟨_, _, _, _, gone⟩ := trace.waits inTurn first listed member other (by omega) k (by omega) bound
      fun m low high => by
        rcases Nat.lt_or_eq_of_le high with below | rfl
        · exact none m low below
        · rw [again]
          exact Ne.symm other
    exact gone j (by omega) (by omega) away again

/-- Two tasks of which the first runs and has exited. -/
def firstExits : Scheduler where
  highestPid := 3
  schedulingStarted := true
  current := .heap 0x102010
  frames p :=
    if p = .prochead then { ProcessFrame.zero with next := .heap 0x102010 }
    else if p = .heap 0x102010 then
      { ProcessFrame.zero with pid := 2, quanta := 5, invalid := true, next := .heap 0x101010 }
    else { ProcessFrame.zero with pid := 1, quanta := 10 }

theorem exit_in_turn_firstExits : ∃ r t, Returns (taskSwitch · .zero firstExits) (r, t) ∧ t.current = .heap 0x101010 := by
  have listed : Listed firstExits ([] ++ firstExits.current :: [.heap 0x101010]) :=
    ⟨rfl, by decide, rfl, by decide, rfl, by decide, rfl⟩
  obtain ⟨r, t, returned, inTurn⟩ := (exit_in_turn_iff firstExits [] [.heap 0x101010] .zero).1 listed
    (by unfold DistinctPids; decide) rfl
  refine ⟨r, t, returned, inTurn.mpr (Or.inl ⟨Or.inl rfl, Or.inl ?_⟩) (by simp)⟩
  decide

/-- Three tasks of which the second runs and has exited. -/
def secondExits : Scheduler where
  highestPid := 4
  schedulingStarted := true
  current := .heap 0x102010
  frames p :=
    if p = .prochead then { ProcessFrame.zero with next := .heap 0x103010 }
    else if p = .heap 0x103010 then { ProcessFrame.zero with pid := 3, quanta := 10, next := .heap 0x102010 }
    else if p = .heap 0x102010 then
      { ProcessFrame.zero with pid := 2, quanta := 5, invalid := true, next := .heap 0x101010 }
    else { ProcessFrame.zero with pid := 1, quanta := 10 }

/-- The first task has another turn before the third one gets its own. -/
theorem secondExits_out_of_turn :
    Listed secondExits [.heap 0x103010, .heap 0x102010, .heap 0x101010] ∧
    DistinctPids secondExits [.heap 0x103010, .heap 0x102010, .heap 0x101010] ∧
    secondExits.current = .heap 0x102010 ∧ (secondExits.frames (.heap 0x102010)).invalid = true ∧
    nextTurn [.heap 0x103010, .heap 0x102010, .heap 0x101010] (.heap 0x102010) = .heap 0x101010 ∧
    ∃ r t, Returns (taskSwitch · .zero secondExits) (r, t) ∧ t.current = .heap 0x103010 := by
  have listed : Listed secondExits ([.heap 0x103010] ++ .heap 0x102010 :: [.heap 0x101010]) :=
    ⟨rfl, by decide, rfl, by decide, rfl, by decide, rfl, by decide, rfl⟩
  have distinct : DistinctPids secondExits [.heap 0x103010, .heap 0x102010, .heap 0x101010] := by
    unfold DistinctPids
    decide
  obtain ⟨r, t, run, _⟩ := taskSwitch_turned .zero listed (Or.inr (Or.inr (by decide)))
  obtain ⟨_, current⟩ := exit_tick (s := secondExits) listed distinct rfl ⟨_, run⟩
  exact ⟨listed, distinct, rfl, rfl, by decide, r, t, ⟨_, run⟩, current (by simp)⟩

end System14
