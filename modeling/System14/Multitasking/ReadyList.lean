import System14.Lib.Chain
import System14.Multitasking.Scheduler

/-!
# The ready list

The frames behind `prochead` form a list. `TaskSwitch` first drops the task it
finds if that is invalid, then turns the list by one place if a time slice is
over, and counts down the slice of the task it ends up with. `Turned` says this
for the list as a whole; `Ticked` is what most proofs need of it.
-/

namespace System14
open Run Chain

variable {s t : Scheduler} {l : List FramePtr} {p q : FramePtr} {fuel : Nat} {stack : Registers}

/-- The frames behind `prochead` are exactly `l`. -/
def Listed (s : Scheduler) (l : List FramePtr) : Prop := Linked s.next .null .prochead (.prochead :: l)

theorem Listed.nodup (listed : Listed s l) : .prochead ∉ l ∧ l.Nodup := List.nodup_cons.mp (linked_nodup listed)

theorem Listed.ne_null (listed : Listed s l) (member : p ∈ l) : p ≠ .null :=
  linked_ne_nil listed (List.mem_cons_of_mem _ member)

theorem Listed.congr (listed : Listed s l) (same : ∀ p, t.next p = s.next p) : Listed t l :=
  linked_congr listed fun p _ => same p

/-! ### Single operations -/

theorem deref_eq (nonnull : p ≠ .null) : s.deref p = .ok (s.frames p) := if_neg nonnull

theorem modify_eq {f : ProcessFrame → ProcessFrame} (nonnull : p ≠ .null) :
    s.modify p f = .ok { s with frames := Function.update s.frames p (f (s.frames p)) } := if_neg nonnull

theorem modify_nonnull {f : ProcessFrame → ProcessFrame} (done : s.modify p f = .ok t) : p ≠ .null := by
  intro none
  unfold Scheduler.modify at done
  rw [if_pos none] at done
  exact nomatch done

theorem update_keeps {β : Type} {frames : FramePtr → ProcessFrame} {x : ProcessFrame} (g : ProcessFrame → β)
    (same : g x = g (frames p)) (q : FramePtr) : g (Function.update frames p x q) = g (frames q) := by
  by_cases here : q = p
  · rw [here, Function.update_self, same]
  · rw [Function.update_of_ne here]

structure Keeps (s t : Scheduler) : Prop where
  next : ∀ p, t.next p = s.next p
  registers : ∀ p, (t.frames p).registers = (s.frames p).registers

theorem modify_keeps {f : ProcessFrame → ProcessFrame} (nonnull : p ≠ .null) (next : ∀ x, (f x).next = x.next)
    (registers : ∀ x, (f x).registers = x.registers) :
    ∃ t, s.modify p f = .ok t ∧ t.current = s.current ∧ Keeps s t :=
  ⟨_, modify_eq nonnull, rfl, update_keeps ProcessFrame.next (next _), update_keeps ProcessFrame.registers (registers _)⟩

/-! ### Turning the list -/

/-- The frame after `p` in the list, which starts again after its end. -/
def nextTurn (l : List FramePtr) (p : FramePtr) : FramePtr := ((l.dropWhile (· ≠ p)).tail ++ l).headD .null

namespace Scheduler

/-- The task to go on with when it is the turn of `p`: the next one if the slice of `p` is over. -/
def choice (s : Scheduler) (l : List FramePtr) (p : FramePtr) : FramePtr :=
  if (s.frames p).quanta = 0 then nextTurn l p else p

/-- The ticks that `q` has left when it is the turn of `p`. -/
def ticksLeft (s : Scheduler) (p q : FramePtr) : UInt8 :=
  if q = p ∧ (s.frames q).quanta = 0 then 10 else (s.frames q).quanta

def countDown (s : Scheduler) (l : List FramePtr) (p q : FramePtr) : UInt8 :=
  if q = s.choice l p then s.ticksLeft p q - 1 else s.ticksLeft p q

section

variable {u : Scheduler} (quanta : ∀ p, (u.frames p).quanta = (s.frames p).quanta)
include quanta

/-- Only the slices matter for who goes on. -/
theorem choice_congr (l : List FramePtr) (p : FramePtr) : u.choice l p = s.choice l p := by
  unfold choice
  rw [quanta p]

theorem countDown_congr (l : List FramePtr) (p q : FramePtr) : u.countDown l p q = s.countDown l p q := by
  unfold countDown ticksLeft
  rw [choice_congr quanta l p, quanta q]

end

end Scheduler

theorem linked_first {nil : FramePtr} {next : FramePtr → FramePtr} (chain : Linked next nil p l) :
    p = l.headD nil := by
  cases l with
  | nil => exact chain
  | cons a l => exact chain.1

theorem Listed.first (listed : Listed s l) : s.next .prochead = l.headD .null := linked_first listed.2.2

theorem nextTurn_split {pre post : List FramePtr} (distinct : (pre ++ p :: post).Nodup) :
    nextTurn (pre ++ p :: post) p = (post ++ pre).headD p := by
  have before : ∀ x ∈ pre, x ≠ p := fun x present same =>
    (List.nodup_append.mp distinct).2.2 x present p List.mem_cons_self same
  have cut : (pre ++ p :: post).dropWhile (· ≠ p) = p :: post := by
    rw [List.dropWhile_append_of_pos fun x present => by simpa using before x present]
    simp
  rw [nextTurn, cut, List.tail_cons]
  cases post with
  | nil => cases pre <;> rfl
  | cons a post => rfl

theorem Listed.nextTurn (listed : Listed s l) (member : p ∈ l) :
    (if s.next p ≠ .null then s.next p else s.next .prochead) = System14.nextTurn l p := by
  have first := listed.first
  obtain ⟨pre, post, here⟩ := List.append_of_mem member
  have distinct := listed.nodup.2
  subst here
  have rest : Linked s.next .null (s.next p) post :=
    linked_after (show Linked s.next .null .prochead ((.prochead :: pre) ++ p :: post) from listed)
  rw [nextTurn_split distinct]
  cases post with
  | nil =>
    have last : s.next p = .null := rest
    rw [if_neg (not_not.mpr last), first]
    cases pre <;> rfl
  | cons a post =>
    have next : s.next p = a := rest.1
    rw [if_pos (by rw [next]; exact rest.2.1), next]
    rfl

theorem nextTurn_mem (l : List FramePtr) (member : p ∈ l) : nextTurn l p ∈ l := by
  unfold nextTurn
  cases rest : (l.dropWhile (· ≠ p)).tail with
  | nil =>
    cases l with
    | nil => cases member
    | cons a l => exact List.mem_cons_self
  | cons a post =>
    have inside : a ∈ (l.dropWhile (· ≠ p)).tail := by
      rw [rest]
      exact List.mem_cons_self
    exact (List.dropWhile_sublist _).subset (List.mem_of_mem_tail inside)

theorem choice_mem (s : Scheduler) (member : p ∈ l) : s.choice l p ∈ l := by
  unfold Scheduler.choice
  split
  · exact nextTurn_mem l member
  · exact member

theorem expire_exact (listed : Listed s l) (member : s.current ∈ l) :
    expire s = .ok { s with
      current := nextTurn l s.current
      frames := Function.update s.frames s.current { s.frames s.current with quanta := 10 } } := by
  have nonnull := listed.ne_null member
  have keep := update_keeps (p := s.current) (x := { s.frames s.current with quanta := 10 }) ProcessFrame.next
    (show _ = (s.frames s.current).next from rfl)
  unfold expire
  rw [modify_eq nonnull, ok_bind, deref_eq nonnull, ok_bind, ← listed.nextTurn member]
  simp only [keep, pure_eq_ok, Scheduler.next]
  rfl

/-- `rotate` turns the list if it must and counts down the slice of the task it ends up with. -/
theorem rotate_exact (listed : Listed s l) (member : s.current ∈ l) :
    ∃ t, rotate s = .ok ((t.frames t.current).registers, t) ∧ t.highestPid = s.highestPid ∧
      t.current = s.choice l s.current ∧
      ∀ p, t.frames p = { s.frames p with quanta := s.countDown l s.current p } := by
  have nonnull := listed.ne_null member
  have chosen := listed.ne_null (choice_mem s member)
  unfold rotate
  rw [deref_eq nonnull, ok_bind]
  by_cases expired : (s.frames s.current).quanta = 0
  · have here : s.choice l s.current = nextTurn l s.current := if_pos expired
    rw [if_pos expired, expire_exact listed member, ok_bind, modify_eq (by rw [← here]; exact chosen), ok_bind,
      deref_eq (by rw [← here]; exact chosen), ok_bind]
    refine ⟨_, rfl, rfl, here.symm, fun p => ?_⟩
    simp only [Scheduler.countDown, here, Scheduler.ticksLeft]
    by_cases next : p = nextTurn l s.current
    · subst next
      rw [Function.update_self, if_pos rfl]
      by_cases same : nextTurn l s.current = s.current
      · rw [if_pos ⟨same, by rw [same]; exact expired⟩, same, Function.update_self]
      · rw [if_neg fun both => same both.1, Function.update_of_ne same]
    · rw [Function.update_of_ne next, if_neg next]
      by_cases same : p = s.current
      · subst same
        rw [if_pos ⟨rfl, expired⟩, Function.update_self]
      · rw [if_neg fun both => same both.1, Function.update_of_ne same]
  · have here : s.choice l s.current = s.current := if_neg expired
    rw [if_neg expired, ok_bind, modify_eq nonnull, ok_bind, deref_eq nonnull, ok_bind]
    refine ⟨_, rfl, rfl, here.symm, fun p => ?_⟩
    simp only [Scheduler.countDown, here, Scheduler.ticksLeft]
    by_cases same : p = s.current
    · subst same
      rw [Function.update_self, if_pos rfl, if_neg fun both => expired both.2]
    · rw [Function.update_of_ne same, if_neg same, if_neg fun both => same both.1]

/-! ### Unlinking -/

def Scheduler.link (s : Scheduler) (p q : FramePtr) : Scheduler :=
  { s with frames := Function.update s.frames p { s.frames p with next := q } }

@[simp] theorem Scheduler.link_next_self (s : Scheduler) (p q : FramePtr) : (s.link p q).next p = q := by
  simp [Scheduler.next, Scheduler.link]

theorem Scheduler.link_next_of_ne (s : Scheduler) {p q x : FramePtr} (other : x ≠ p) :
    (s.link p q).next x = s.next x := by
  simp [Scheduler.next, Scheduler.link, Function.update_of_ne other]

theorem Scheduler.link_frames (s : Scheduler) (p q x : FramePtr) :
    (s.link p q).frames x = { s.frames x with next := (s.link p q).next x } := by
  by_cases here : x = p
  · subst here
    simp [Scheduler.link, Scheduler.next]
  · simp [Scheduler.link, Scheduler.next, Function.update_of_ne here]

theorem terminateLoop_step {pid : UInt8} (nonnull : p ≠ .null) (more : s.next p ≠ .null) :
    terminateLoop pid (fuel + 1) p s =
      if (s.frames (s.next p)).pid = pid then .ok (s.link p (s.next (s.next p)))
      else terminateLoop pid fuel (s.next p) s := by
  rw [terminateLoop, deref_eq nonnull, ok_bind]
  show (do
    let frame ← s.deref (s.next p)
    if frame.pid = pid then s.modify p ({ · with next := frame.next })
    else if s.next p = FramePtr.null then return s
    else terminateLoop pid fuel (s.next p) s) = _
  rw [deref_eq more, ok_bind, if_neg more, modify_eq nonnull]
  rfl

theorem terminateLoop_finds {pid : UInt8} {a y : FramePtr} {mid post : List FramePtr} (fuel : Nat)
    (chain : Linked s.next .null a (a :: (mid ++ y :: post))) (others : ∀ x ∈ mid, (s.frames x).pid ≠ pid)
    (found : (s.frames y).pid = pid) (enough : mid.length < fuel) :
    ∃ pre prev, a :: mid = pre ++ [prev] ∧ terminateLoop pid fuel a s = .ok (s.link prev (s.next y)) := by
  induction mid generalizing a fuel with
  | nil =>
    obtain ⟨_, nonnull, next, nonnull', _⟩ := chain
    obtain ⟨fuel, rfl⟩ := Nat.exists_eq_add_one.mpr enough
    refine ⟨[], a, rfl, ?_⟩
    rw [terminateLoop_step nonnull (by rw [next]; exact nonnull'), next, if_pos found]
  | cons b mid ih =>
    obtain ⟨_, nonnull, next, nonnull', rest⟩ := chain
    obtain ⟨fuel, rfl⟩ := Nat.exists_eq_add_one.mpr (Nat.zero_lt_of_lt enough)
    obtain ⟨pre, prev, split, run⟩ := ih fuel ⟨rfl, nonnull', rest⟩
      (fun x member => others x (List.mem_cons_of_mem _ member)) (by simpa using enough)
    refine ⟨a :: pre, prev, by rw [split]; rfl, ?_⟩
    rw [terminateLoop_step nonnull (by rw [next]; exact nonnull'), next, if_neg (others b List.mem_cons_self), run]

/-- `TerminateTask` unlinks the first frame with the pid, if there is one. -/
theorem terminateTask_exact {pid : UInt8} (listed : Listed s l) (member : p ∈ l) (here : (s.frames p).pid = pid) :
    ∃ t, (∀ fuel > l.length, terminateTask fuel pid s = .ok t) ∧
      Listed t (l.eraseP fun x => (s.frames x).pid == pid) ∧ t.current = s.current ∧ t.highestPid = s.highestPid ∧
      ∀ q, t.frames q = { s.frames q with next := t.next q } := by
  obtain ⟨y, first⟩ := Option.isSome_iff_exists.mp
    (List.find?_isSome (p := fun x => (s.frames x).pid == pid).mpr ⟨p, member, by simpa using here⟩)
  obtain ⟨found, mid, post, split, others⟩ := List.find?_eq_some_iff_append.mp first
  subst split
  have erased : (mid ++ y :: post).eraseP (fun x => (s.frames x).pid == pid) = mid ++ post := by
    rw [List.eraseP_append_right _ fun x present => by simpa using others x present, List.eraseP_cons_of_pos
      (p := fun x => (s.frames x).pid == pid) found]
  have others : ∀ x ∈ mid, (s.frames x).pid ≠ pid := fun x present => by simpa using others x present
  have found : (s.frames y).pid = pid := by simpa using found
  obtain ⟨pre, prev, cut, _⟩ := terminateLoop_finds _ listed others found (Nat.lt_succ_self _)
  have run : ∀ fuel > (mid ++ y :: post).length, terminateTask fuel pid s = .ok (s.link prev (s.next y)) := by
    intro fuel enough
    obtain ⟨pre', prev', cut', run⟩ := terminateLoop_finds fuel listed others found (by simp at enough; omega)
    have same : prev' = prev := by
      have tails := congrArg List.getLast? (cut'.symm.trans cut)
      simpa using tails
    rw [← same]
    exact run
  have chain : Linked s.next .null .prochead (pre ++ prev :: y :: post) := by
    have whole : FramePtr.prochead :: (mid ++ y :: post) = pre ++ prev :: y :: post := by
      rw [← List.cons_append, cut, List.append_assoc]
      rfl
    rw [← whole]
    exact listed
  have distinct := linked_nodup chain
  rw [List.nodup_append] at distinct
  have unlinked : Linked (s.link prev (s.next y)).next .null .prochead (pre ++ prev :: post) := linked_unlink chain
    (s.link_next_self _ _)
    (fun x before => s.link_next_of_ne (distinct.2.2 x before prev List.mem_cons_self))
    (fun x behind => s.link_next_of_ne fun same => by
      subst same
      exact (List.nodup_cons.mp distinct.2.1).1 (List.mem_cons_of_mem _ behind))
  have short : pre ++ prev :: post = .prochead :: (mid ++ post) := by
    rw [← List.cons_append, cut, List.append_assoc]
    rfl
  rw [short] at unlinked
  rw [erased]
  exact ⟨_, run, unlinked, rfl, rfl, s.link_frames _ _⟩

/-! ### A tick -/

namespace Scheduler

/-- The frame at which a tick starts: the current one, or the first when no task is current. -/
def looksAt (s : Scheduler) (l : List FramePtr) : FramePtr := if s.current ∈ l then s.current else l.headD .null

/-- The list after a tick. The task that is found invalid goes by its pid. -/
def survivors (s : Scheduler) (l : List FramePtr) : List FramePtr :=
  if (s.frames (s.looksAt l)).invalid then l.eraseP fun p => (s.frames p).pid == (s.frames (s.looksAt l)).pid else l

/-- The frame whose turn it is then: an exit starts the list anew. -/
def turn (s : Scheduler) (l : List FramePtr) : FramePtr :=
  if (s.frames (s.looksAt l)).invalid then (s.survivors l).headD .null else s.looksAt l

/-- The task that a tick selects. -/
def selected (s : Scheduler) (l : List FramePtr) : FramePtr := s.choice (s.survivors l) (s.turn l)

end Scheduler

theorem Listed.mem_headD (more : l ≠ []) : l.headD .null ∈ l := by
  cases l with
  | nil => exact absurd rfl more
  | cons a l => exact List.mem_cons_self

/-- What a tick does to a list that is not used up: `t` has the frames of `s`
with `registers` and the slices counted down. -/
structure Turned (registers : FramePtr → Registers) (s : Scheduler) (l : List FramePtr) (r stack : Registers)
    (t : Scheduler) : Prop where
  listed : Listed t (s.survivors l)
  highestPid : t.highestPid = s.highestPid
  frames : ∀ p, t.frames p = { s.frames p with
    registers := registers p
    quanta := if s.survivors l = [] then (s.frames p).quanta else s.countDown (s.survivors l) (s.turn l) p
    next := t.next p }
  resumed : s.survivors l ≠ [] ∧ t.current = s.selected l ∧ r = registers t.current ∨
    s.survivors l = [] ∧ (t.current = .null ∨ t.current = .prochead) ∧ r = stack

theorem Scheduler.looksAt_current (member : s.current ∈ l) : s.looksAt l = s.current := if_pos member

theorem switchFrom_valid (nonnull : s.current ≠ .null) (valid : ¬ (s.frames s.current).invalid) :
    switchFrom fuel stack s = rotate s := by
  unfold switchFrom
  rw [deref_eq nonnull, ok_bind, if_neg valid]

/-- The code advances `current` along the list before it starts the list anew. -/
theorem switchFrom_invalid {u : Scheduler} (nonnull : s.current ≠ .null) (invalid : (s.frames s.current).invalid)
    (removed : terminateTask fuel (s.frames s.current).pid s = .ok u) (current : u.current = s.current) :
    switchFrom fuel stack s = if u.next .prochead ≠ .null then rotate { u with current := u.next .prochead }
      else .ok (stack, { u with current := .prochead }) := by
  unfold switchFrom
  rw [deref_eq nonnull, ok_bind, if_pos invalid, removed, ok_bind, deref_eq (by rw [current]; exact nonnull), ok_bind]
  dsimp only
  by_cases last : (u.frames u.current).next = .null
  · rw [if_neg (not_not.mpr last)]
    rfl
  · rw [if_pos last]
    rfl

/-- A tick of a task that goes on. -/
theorem switchFrom_turned_valid (stack : Registers) (listed : Listed s l) (member : s.current ∈ l)
    (valid : ¬ (s.frames s.current).invalid) :
    ∃ r t, (∀ fuel, switchFrom fuel stack s = .ok (r, t)) ∧ Turned (fun p => (s.frames p).registers) s l r stack t := by
  have nonnull := listed.ne_null member
  have here := Scheduler.looksAt_current member
  have left : s.survivors l = l := by rw [Scheduler.survivors, here, if_neg valid]
  have turn : s.turn l = s.current := by rw [Scheduler.turn, here, if_neg valid]
  have some : l ≠ [] := List.ne_nil_of_mem member
  obtain ⟨t, run, pids, chosen, slices⟩ := rotate_exact listed member
  have after : ∀ p, t.next p = s.next p := by
    intro p
    show (t.frames p).next = (s.frames p).next
    rw [slices p]
  refine ⟨(t.frames t.current).registers, t, fun _ => ?_, ?_, pids, fun p => ?_,
    Or.inl ⟨by rw [left]; exact some, ?_, ?_⟩⟩
  · rw [switchFrom_valid nonnull valid, run]
  · rw [left]
    exact listed.congr after
  · rw [left, turn, if_neg some, after p]
    exact slices p
  · rw [Scheduler.selected, left, turn]
    exact chosen
  · rw [slices]

theorem switchFrom_turned (stack : Registers) (listed : Listed s l) (member : s.current ∈ l) :
    ∃ r t, (∀ fuel > l.length, switchFrom fuel stack s = .ok (r, t)) ∧
      Turned (fun p => (s.frames p).registers) s l r stack t := by
  have nonnull := listed.ne_null member
  have here := Scheduler.looksAt_current member
  by_cases invalid : (s.frames s.current).invalid
  · have left : s.survivors l = l.eraseP fun p => (s.frames p).pid == (s.frames s.current).pid := by
      rw [Scheduler.survivors, here, if_pos invalid]
    have turn : s.turn l = (s.survivors l).headD .null := by rw [Scheduler.turn, here, if_pos invalid]
    obtain ⟨u, removed, listed', current, pids, frames⟩ := terminateTask_exact listed member rfl
    rw [← left] at listed'
    have first := listed'.first
    by_cases empty : s.survivors l = []
    · rw [empty, List.headD_nil] at first
      refine ⟨stack, { u with current := .prochead }, fun fuel enough => ?_, listed', pids, fun p => ?_,
        Or.inr ⟨empty, Or.inr rfl, rfl⟩⟩
      · rw [switchFrom_invalid nonnull invalid (removed fuel enough) current, if_neg (not_not.mpr first)]
      · rw [if_pos empty]
        exact frames p
    · have head := Listed.mem_headD empty
      rw [← first] at head turn
      have listed'' : Listed { u with current := u.next .prochead } (s.survivors l) := listed'
      obtain ⟨t, run, pids', chosen, slices⟩ := rotate_exact listed'' head
      have quanta : ∀ p, (u.frames p).quanta = (s.frames p).quanta := fun p => by rw [frames p]
      have choice : t.current = s.selected l := by
        rw [Scheduler.selected, turn]
        exact chosen.trans (Scheduler.choice_congr quanta _ _)
      have after : ∀ p, t.frames p = { u.frames p with quanta := s.countDown (s.survivors l) (s.turn l) p } := by
        intro p
        rw [turn, ← Scheduler.countDown_congr quanta]
        exact slices p
      refine ⟨(t.frames t.current).registers, t, fun fuel enough => ?_, listed''.congr fun p => ?_, pids'.trans pids,
        fun p => ?_, Or.inl ⟨empty, choice, ?_⟩⟩
      · rw [switchFrom_invalid nonnull invalid (removed fuel enough) current, if_pos (listed'.ne_null head), run]
      · show (t.frames p).next = (u.frames p).next
        rw [after p]
      · rw [if_neg empty]
        unfold Scheduler.next
        rw [after p, frames p]
      · rw [after, frames]
  · obtain ⟨r, t, run, turned⟩ := switchFrom_turned_valid stack listed member invalid
    exact ⟨r, t, fun fuel _ => run fuel, turned⟩

def Placed (s : Scheduler) (l : List FramePtr) : Prop := s.current = .null ∨ s.current = .prochead ∨ s.current ∈ l

theorem Placed.task (placed : Placed s l) (task : ¬ (s.current = .null ∨ s.current = .prochead)) : s.current ∈ l := by
  rcases placed with none | head | member
  · exact absurd (Or.inl none) task
  · exact absurd (Or.inr head) task
  · exact member

theorem Listed.idle (listed : Listed s l) (idle : s.current = .null ∨ s.current = .prochead) : s.current ∉ l := by
  intro member
  rcases idle with none | head
  · exact listed.ne_null member none
  · rw [head] at member
    exact listed.nodup.1 member

/-- The tick saves the registers of the task that ran; nothing else depends on them. -/
theorem Turned.saved {u : Scheduler} {r : Registers} (current : u.current = s.current)
    (pids : u.highestPid = s.highestPid)
    (frames : ∀ p, u.frames p = { s.frames p with
      registers := if p = s.current ∧ p ∈ l then stack else (s.frames p).registers })
    (turned : Turned (fun p => (u.frames p).registers) u l r stack t) :
    Turned (fun p => if p = s.current ∧ p ∈ l then stack else (s.frames p).registers) s l r stack t := by
  have looks : u.looksAt l = s.looksAt l := by rw [Scheduler.looksAt, Scheduler.looksAt, current]
  have left : u.survivors l = s.survivors l := by simp only [Scheduler.survivors, looks, frames]
  have turn : u.turn l = s.turn l := by simp only [Scheduler.turn, looks, left, frames]
  have quanta : ∀ p, (u.frames p).quanta = (s.frames p).quanta := fun p => by rw [frames p]
  obtain ⟨listed, pids', slices, resumed⟩ := turned
  rw [left] at listed slices resumed
  rw [turn] at slices
  refine ⟨listed, pids'.trans pids, fun p => ?_, ?_⟩
  · rw [slices p, frames p, Scheduler.countDown_congr quanta]
  · have selected : u.selected l = s.selected l := by
      rw [Scheduler.selected, Scheduler.selected, left, turn, Scheduler.choice_congr quanta]
    rw [selected] at resumed
    simpa only [frames] using resumed

theorem taskSwitch_turned (stack : Registers) (listed : Listed s l) (placed : Placed s l) :
    ∃ r t, (∀ fuel > l.length, taskSwitch fuel stack s = .ok (r, t)) ∧
      Turned (fun p => if p = s.current ∧ p ∈ l then stack else (s.frames p).registers) s l r stack t := by
  unfold taskSwitch
  by_cases idle : s.current = .null ∨ s.current = .prochead
  · simp only [if_pos idle]
    have away := listed.idle idle
    have registers : (fun p => if p = s.current ∧ p ∈ l then stack else (s.frames p).registers) =
        fun p => (s.frames p).registers := by
      funext p
      apply if_neg
      intro ⟨here, present⟩
      exact away (here ▸ present)
    rw [registers]
    have first := listed.first
    by_cases empty : l = []
    · subst empty
      have none : s.survivors [] = [] := by
        unfold Scheduler.survivors
        split <;> rfl
      have first : s.next .prochead = .null := first
      simp only [if_neg (not_not.mpr first)]
      refine ⟨stack, s, fun _ _ => rfl, by rw [none]; exact listed, rfl, fun p => ?_, Or.inr ⟨none, idle, rfl⟩⟩
      rw [if_pos none]
      rfl
    · have head := Listed.mem_headD empty
      rw [← first] at head
      simp only [if_pos (listed.ne_null head)]
      have looks : Scheduler.looksAt { s with current := s.next .prochead } l = s.looksAt l := by
        rw [Scheduler.looksAt, Scheduler.looksAt, if_neg away, if_pos head, first]
      have left : Scheduler.survivors { s with current := s.next .prochead } l = s.survivors l := by
        simp only [Scheduler.survivors, looks]
      have turn : Scheduler.turn { s with current := s.next .prochead } l = s.turn l := by
        simp only [Scheduler.turn, looks, left]
      have listed' : Listed { s with current := s.next .prochead } l := listed
      obtain ⟨r, t, run, after, pids, frames, resumed⟩ := switchFrom_turned stack listed' head
      simp only [Scheduler.selected, left, turn] at after frames resumed
      exact ⟨r, t, run, after, pids, frames, resumed⟩
  · have member := placed.task idle
    obtain ⟨u, here⟩ : ∃ u : Scheduler, u = { s with
        frames := Function.update s.frames s.current { s.frames s.current with registers := stack } } := ⟨_, rfl⟩
    have frames : ∀ p, u.frames p = { s.frames p with
        registers := if p = s.current ∧ p ∈ l then stack else (s.frames p).registers } := by
      intro p
      rw [here]
      by_cases mine : p = s.current
      · subst mine
        simp only [Function.update_self, true_and, if_pos member]
      · simp only [Function.update_of_ne mine, if_neg fun both : p = s.current ∧ p ∈ l => mine both.1]
    have current : u.current = s.current := by rw [here]
    have next : ∀ p, u.next p = s.next p := fun p => by rw [Scheduler.next, frames p]; rfl
    obtain ⟨r, t, run, turned⟩ := switchFrom_turned stack (listed.congr next) (by rw [current]; exact member)
    simp only [if_neg idle, modify_eq (listed.ne_null member), ok_bind]
    rw [← here]
    exact ⟨r, t, run, turned.saved current (by rw [here]) frames⟩

/-- A tick saves the registers in the frame of the task that ran and in no other. -/
structure Ticked (stack : Registers) (s : Scheduler) (l : List FramePtr) (r : Registers) (t : Scheduler)
    (l' : List FramePtr) : Prop where
  listed : Listed t l'
  shorter : ∀ q ∈ l', q ∈ l
  saved : ∀ q, (t.frames q).registers = if q = s.current ∧ q ∈ l then stack else (s.frames q).registers
  resumed : t.current ∈ l' ∧ r = (t.frames t.current).registers ∨ (t.current = .null ∨ t.current = .prochead) ∧ r = stack

theorem Turned.ticked {r : Registers}
    (turned : Turned (fun p => if p = s.current ∧ p ∈ l then stack else (s.frames p).registers) s l r stack t)
    (turn : s.survivors l ≠ [] → s.turn l ∈ s.survivors l) : Ticked stack s l r t (s.survivors l) := by
  have registers : ∀ p, (t.frames p).registers = if p = s.current ∧ p ∈ l then stack else (s.frames p).registers :=
    fun p => by rw [turned.frames p]
  refine ⟨turned.listed, ?_, registers, ?_⟩
  · intro q member
    unfold Scheduler.survivors at member
    split at member
    · exact List.mem_of_mem_eraseP member
    · exact member
  · rcases turned.resumed with ⟨some, current, next⟩ | ⟨_, none, same⟩
    · refine Or.inl ⟨?_, next.trans (registers _).symm⟩
      rw [current]
      exact choice_mem s (turn some)
    · exact Or.inr ⟨none, same⟩

theorem Scheduler.turn_mem (s : Scheduler) (left : s.survivors l ≠ []) : s.turn l ∈ s.survivors l := by
  unfold Scheduler.turn
  split
  · exact Listed.mem_headD left
  · rename_i valid
    have all : s.survivors l = l := if_neg valid
    rw [all] at left ⊢
    unfold Scheduler.looksAt
    split
    · assumption
    · exact Listed.mem_headD left

theorem taskSwitch_spec (stack : Registers) (listed : Listed s l) (placed : Placed s l) :
    ∃ r t l', (∀ fuel > l.length, taskSwitch fuel stack s = .ok (r, t)) ∧ Ticked stack s l r t l' := by
  obtain ⟨r, t, run, turned⟩ := taskSwitch_turned stack listed placed
  exact ⟨r, t, _, run, turned.ticked s.turn_mem⟩

theorem tick_turned {r : Registers} (listed : Listed s l) (placed : Placed s l)
    (returned : Returns (taskSwitch · stack s) (r, t)) :
    Turned (fun p => if p = s.current ∧ p ∈ l then stack else (s.frames p).registers) s l r stack t := by
  obtain ⟨r', t', run, turned⟩ := taskSwitch_turned stack listed placed
  cases returned.unique ⟨l.length + 1, run⟩
  exact turned

theorem tick_ticked {r : Registers} (listed : Listed s l) (placed : Placed s l)
    (returned : Returns (taskSwitch · stack s) (r, t)) : Ticked stack s l r t (s.survivors l) :=
  (tick_turned listed placed returned).ticked s.turn_mem

/-! ### Adding a task -/

/-- The registers in the frame of a new task. What `IntAddTask` does not assign is left from `malloc`. -/
def TaskMemory.initial (given : TaskMemory) (taskName : List UInt8) (start : Nat) : Registers :=
  { (given.contents.copyName (if taskName.length > 32 then defaultName else taskName)).registers with
    cs := 0x08
    rip := .ofNat 64 start
    ss := 0x10
    rsp := .ofNat 64 given.stack
    flags := 0x202 }

/-- The frame of a new task. -/
def TaskMemory.newFrame (given : TaskMemory) (taskName : List UInt8) (start stop : Nat) (kernel : Bool)
    (s : Scheduler) : ProcessFrame where
  pid := s.highestPid
  processName := (given.contents.copyName (if taskName.length > 32 then defaultName else taskName)).processName
  registers := given.initial taskName start
  quanta := 10
  cr3 := given.createProcessPML4 start stop kernel
  invalid := given.contents.invalid
  next := s.next .prochead

/-- A call links the new frame behind `prochead` and touches nothing else. -/
theorem intAddTask_new (given : TaskMemory) (taskName : List UInt8) (start stop : Nat) (kernel : Bool) (s : Scheduler) :
    intAddTask given taskName start stop kernel s = .ok { s with
      highestPid := s.highestPid + 1
      frames := Function.update (Function.update s.frames (.heap given.frame) (given.newFrame taskName start stop kernel s))
        .prochead { s.frames .prochead with next := .heap given.frame } } := by
  have heap : FramePtr.heap given.frame ≠ .null := nofun
  have head : FramePtr.prochead ≠ .null := nofun
  have other : FramePtr.prochead ≠ .heap given.frame := nofun
  unfold intAddTask
  simp only [modify_eq heap, modify_eq head, ok_bind, Function.update_idem, Function.update_self,
    Function.update_of_ne other, Scheduler.next]
  rfl

theorem intAddTask_eq (given : TaskMemory) (taskName : List UInt8) (start stop : Nat) (kernel : Bool) (s : Scheduler) :
    ∃ frame : ProcessFrame, intAddTask given taskName start stop kernel s = .ok { s with
        highestPid := s.highestPid + 1
        frames := Function.update (Function.update s.frames (.heap given.frame) frame) .prochead
          { s.frames .prochead with next := .heap given.frame } } ∧
      frame.pid = s.highestPid ∧ frame.next = s.next .prochead ∧ frame.registers = given.initial taskName start :=
  ⟨_, intAddTask_new given taskName start stop kernel s, rfl, rfl, rfl⟩

theorem intAddTask_spec (given : TaskMemory) (taskName : List UInt8) (start stop : Nat) (kernel : Bool)
    (listed : Listed s l) (fresh : .heap given.frame ∉ l) :
    ∃ t, intAddTask given taskName start stop kernel s = .ok t ∧ Listed t (.heap given.frame :: l) ∧
      t.current = s.current ∧ ∀ q ≠ .heap given.frame, (t.frames q).registers = (s.frames q).registers := by
  obtain ⟨frame, run, _, next, _⟩ := intAddTask_eq given taskName start stop kernel s
  have heap : FramePtr.heap given.frame ≠ .null := nofun
  have other : FramePtr.heap given.frame ≠ .prochead := nofun
  refine ⟨_, run, ⟨rfl, nofun, ?_⟩, rfl, ?_⟩
  · have old : ∀ q ∈ l, q ≠ .prochead := fun q member same => listed.nodup.1 (same ▸ member)
    have rest : Linked s.next .null (s.next .prochead) l := listed.2.2
    simp only [Scheduler.next, Function.update_self]
    apply linked_push rest heap
    · simp only [Scheduler.next, Function.update_of_ne other, Function.update_self, next]
    · intro q member
      have away : q ≠ .heap given.frame := fun same => fresh (same ▸ member)
      simp only [Function.update_of_ne away, Function.update_of_ne (old q member), Scheduler.next]
  · intro q away
    by_cases atHead : q = .prochead
    · simp only [atHead, Function.update_self]
    · simp only [Function.update_of_ne away, Function.update_of_ne atHead]

theorem intAddTask_frames {given : TaskMemory} {taskName : List UInt8} {start stop : Nat} {kernel : Bool}
    (added : intAddTask given taskName start stop kernel s = .ok t) :
    t.highestPid = s.highestPid + 1 ∧ (t.frames (.heap given.frame)).pid = s.highestPid ∧
      ∀ q ≠ .heap given.frame, t.frames q = { s.frames q with next := t.next q } := by
  obtain ⟨frame, run, pid, _, _⟩ := intAddTask_eq given taskName start stop kernel s
  have other : FramePtr.heap given.frame ≠ .prochead := nofun
  cases run.symm.trans added
  refine ⟨rfl, ?_, fun q away => ?_⟩
  · simp only [Function.update_of_ne other, Function.update_self, pid]
  · by_cases atHead : q = .prochead
    · simp only [atHead, Function.update_self, Scheduler.next]
    · simp only [Function.update_of_ne away, Function.update_of_ne atHead, Scheduler.next]

theorem intAddTask_registers {given : TaskMemory} {taskName : List UInt8} {start stop : Nat} {kernel : Bool}
    (added : intAddTask given taskName start stop kernel s = .ok t) :
    (t.frames (.heap given.frame)).registers = given.initial taskName start := by
  obtain ⟨frame, run, _, _, registers⟩ := intAddTask_eq given taskName start stop kernel s
  have other : FramePtr.heap given.frame ≠ .prochead := nofun
  cases run.symm.trans added
  simp only [Function.update_of_ne other, Function.update_self, registers]

end System14
