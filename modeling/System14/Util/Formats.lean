import System14.Util.Print

/-!
# What `printf` prints

The loop goes two characters on for each directive. A `%` at the end of the
format takes it over the terminator, so the formats that are printed as they
should be are the ones that do not end in the middle of a directive.
-/

namespace System14
open ByteMem Traced Run

variable {given : PrintMemory} {m m' : Mem} {a p start fuel textFuel : Nat} {args args' : List Arg} {f out text : List UInt8}
  {c : UInt8}

/-! ### The text of a format -/

/-- Whatever memory it finds, `itoa` returns this text. -/
def ItoaText (ret : Nat) (n : Int) (text : List UInt8) : Prop :=
  ∀ m, ∃ m', Returns (itoa · ret n m) (ret, m') ∧ CString m' ret text

def HexText (hexChars hexString value : Nat) (text : List UInt8) : Prop :=
  ∀ m, CString m hexChars hexCharacters →
    ∃ p m', Returns (hexToString · hexChars hexString value m) (p, m') ∧ CString m' p text

/-- The format has the arguments it asks for, and stands for this text. -/
inductive Renders (given : PrintMemory) (m : Mem) : List UInt8 → List Arg → List UInt8 → Prop where
  | done (args : List Arg) : Renders given m [] args []
  | ordinary {f : List UInt8} {args : List Arg} {out : List UInt8} (c : UInt8) :
    c ≠ 0x25 → Renders given m f args out → Renders given m (c :: f) args (c :: out)
  | int {f : List UInt8} {args : List Arg} {out text : List UInt8} (v : BitVec 32) :
    ItoaText given.ret v.toInt text → Renders given m f args out →
      Renders given m (0x25 :: 0x64 :: f) (.int v :: args) (text ++ out)
  | string {f : List UInt8} {args : List Arg} {out text : List UInt8} (p : Nat) :
    CString m p text → Renders given m f args out →
      Renders given m (0x25 :: 0x73 :: f) (.string p :: args) (text ++ out)
  | word {f : List UInt8} {args : List Arg} {out text : List UInt8} (v : BitVec 64) :
    HexText given.hexChars given.hexString v.toNat text → Renders given m f args out →
      Renders given m (0x25 :: 0x78 :: f) (.word v :: args) (text ++ out)
  | char {f : List UInt8} {args : List Arg} {out : List UInt8} (v : BitVec 32) :
    Renders given m f args out → Renders given m (0x25 :: 0x63 :: f) (.int v :: args) (UInt8.ofNat v.toNat :: out)
  | other {f : List UInt8} {args : List Arg} {out : List UInt8} (c : UInt8) :
    c ∉ [0x64, 0x73, 0x78, 0x63] → Renders given m f args out → Renders given m (0x25 :: c :: f) args out
  | cut (args : List Arg) : Renders given m [0x25] args []

/-- The format does not end in the middle of a directive. -/
def Complete : List UInt8 → Prop
  | [] => True
  | [c] => c ≠ 0x25
  | c :: d :: f => if c = 0x25 then Complete f else Complete (d :: f)

theorem complete_ordinary (plain : c ≠ 0x25) : Complete (c :: f) ↔ Complete f := by
  cases f with
  | nil => exact iff_of_true plain trivial
  | cons d f => rw [Complete, if_neg plain]

theorem complete_directive : Complete (0x25 :: c :: f) ↔ Complete f := by
  rw [Complete, if_pos rfl]

/-- The read is one of the format itself, its terminator included. -/
def PrintEvent.InString (m : Mem) : PrintEvent → Prop
  | .read format address => ∃ f, CString m format f ∧ format ≤ address ∧ address ≤ format + f.length
  | .putchar _ => True

def PrintEvent.char? : PrintEvent → Option UInt8
  | .read _ _ => none
  | .putchar c => some c

def printed (log : List PrintEvent) : List UInt8 := log.filterMap PrintEvent.char?

/-- `printf` returns, looks at characters of its formats only, and prints just this text. -/
def PrintsExactly (given : PrintMemory) (m : Mem) (format : Nat) (args : List Arg) (out : List UInt8) : Prop :=
  ∃ bound, ∀ fuel ≥ bound,
    Ends (printf given fuel format args m) fun log _ => (∀ e ∈ log, e.InString m) ∧ printed log = out

/-! ### Memory -/

/-- The bytes from `p` up to and with `p + n` are in neither of the static buffers. -/
def PrintMemory.Clear (given : PrintMemory) (p n : Nat) : Prop :=
  (p + n < given.ret ∨ given.ret + 64 ≤ p) ∧ (p + n < given.hexString ∨ given.hexString + 128 ≤ p)

/-- Only the static buffers have changed. -/
def PrintMemory.Kept (given : PrintMemory) (m m' : Mem) : Prop := ∀ x, given.Clear x 0 → m' x = m x

/-- The texts of the program, the format and the strings to be printed lie
outside the static buffers, which nothing but `printf` has pointers to. -/
structure PrintTexts (given : PrintMemory) (m : Mem) (format : Nat) (f : List UInt8) (args : List Arg) : Prop where
  text : CString m format f
  clear : given.Clear format f.length
  strings : ∀ p text, Arg.string p ∈ args → CString m p text → given.Clear p text.length
  percentC : CString m given.percentC [0x25, 0x63]
  percentClear : given.Clear given.percentC 2
  hexChars : CString m given.hexChars hexCharacters
  hexClear : given.Clear given.hexChars 16

theorem PrintMemory.Clear.at {n x : Nat} (clear : given.Clear p n) (low : p ≤ x) (high : x ≤ p + n) : given.Clear x 0 := by
  unfold PrintMemory.Clear at *
  omega

theorem PrintMemory.Kept.string {n : Nat} (kept : given.Kept m m') (string : CString m p text) (clear : given.Clear p n)
    (upTo : text.length ≤ n) : CString m' p text :=
  string.congr fun x low high => kept x (clear.at low (by omega))

/-! ### Conversions -/

def chars (text : List UInt8) : List PrintEvent := text.map PrintEvent.putchar

theorem printed_chars (text : List UInt8) : printed (chars text) = text := by
  unfold printed chars
  rw [List.filterMap_map]
  exact List.filterMap_some

theorem printString_done (string : CString m p text) (enough : text.length < fuel) :
    printString m fuel p = done (chars text) () := by
  induction text generalizing p fuel with
  | nil =>
    obtain ⟨fuel, rfl⟩ := Nat.exists_eq_add_one.mpr enough
    have ended : m p = 0 := string
    rw [printString, if_neg (not_not.mpr ended)]
    rfl
  | cons c text ih =>
    obtain ⟨fuel, rfl⟩ := Nat.exists_eq_add_one.mpr (Nat.zero_lt_of_lt enough)
    obtain ⟨first, nonzero, rest⟩ := string
    rw [printString, first, if_pos nonzero]
    exact bind_done rfl (ih rest (Nat.lt_of_succ_lt_succ enough))

theorem printString_then {α : Type} (string : CString m p text) (enough : text.length < fuel) (r : α) :
    (printString m fuel p >>= fun _ => Pure.pure r) = done (chars text) r := by
  rw [printString_done string enough]
  exact congrArg (done · r) (List.append_nil _)

/-- The conversion prints this text and takes its argument. -/
def Converts (given : PrintMemory) (textFuel : Nat) (m m' : Mem) (c : UInt8) (args args' : List Arg) (text : List UInt8) :
    Prop :=
  ∃ m'', convert given textFuel c args m' = done (chars text) (args', m'') ∧ given.Kept m m''

theorem convert_int {v : BitVec 32} (kept : given.Kept m m') (returns : ItoaText given.ret v.toInt text)
    (enough : text.length + 20 ≤ textFuel) : Converts given textFuel m m' 0x64 (.int v :: args) args text := by
  have small : v.toInt.natAbs < 2 ^ 32 := by
    have := BitVec.toInt_lt (x := v)
    have := BitVec.le_toInt (x := v)
    omega
  obtain ⟨m₁, call, _, outside⟩ := itoa_spec m' given.ret small
  obtain ⟨m₂, call', string⟩ := returns m'
  cases call'.unique ⟨10, call⟩
  refine ⟨m₁, ?_, fun x clear => ?_⟩
  · have argument : vaInt (.int v :: args) = done [] (v, args) := rfl
    unfold convert
    rw [if_pos rfl, argument, done_nil_bind]
    dsimp only
    rw [call textFuel (by omega), lift_ok, done_nil_bind]
    dsimp only
    exact printString_then string (by omega) _
  · rw [outside x (by unfold PrintMemory.Clear at clear; omega)]
    exact kept x clear

theorem convert_string (kept : given.Kept m m') (string : CString m' p text) (enough : text.length + 20 ≤ textFuel) :
    Converts given textFuel m m' 0x73 (.string p :: args) args text := by
  refine ⟨m', ?_, kept⟩
  have argument : vaString (.string p :: args) = done [] (p, args) := rfl
  unfold convert
  rw [if_neg (by decide), if_pos rfl, argument, done_nil_bind]
  dsimp only
  exact printString_then string (by omega) _

theorem convert_word {v : BitVec 64} (kept : given.Kept m m') (returns : HexText given.hexChars given.hexString v.toNat text)
    (hexChars : CString m' given.hexChars hexCharacters) (clear : given.Clear given.hexChars 16)
    (enough : text.length + 20 ≤ textFuel) : Converts given textFuel m m' 0x78 (.word v :: args) args text := by
  obtain ⟨p₁, m₁, call, _, outside⟩ := hexToString_spec given.hexString v.isLt hexChars
    (by unfold PrintMemory.Clear at clear; omega)
  obtain ⟨p₂, m₂, call', string⟩ := returns m' hexChars
  cases call'.unique ⟨17, call⟩
  refine ⟨m₁, ?_, fun x clear => ?_⟩
  · have argument : vaWord (.word v :: args) = done [] (v, args) := rfl
    unfold convert
    rw [if_neg (by decide), if_neg (by decide), if_pos rfl, argument, done_nil_bind]
    dsimp only
    rw [call textFuel (by omega), lift_ok, done_nil_bind]
    dsimp only
    exact printString_then string (by omega) _
  · rw [outside x (by unfold PrintMemory.Clear at clear; omega)]
    exact kept x clear

theorem convert_char {v : BitVec 32} (kept : given.Kept m m') :
    Converts given textFuel m m' 0x63 (.int v :: args) args [UInt8.ofNat v.toNat] :=
  ⟨m', rfl, kept⟩

theorem convert_other (kept : given.Kept m m') (unknown : c ∉ [0x64, 0x73, 0x78, 0x63]) :
    Converts given textFuel m m' c args args [] := by
  simp only [List.mem_cons, List.not_mem_nil, or_false, not_or] at unknown
  obtain ⟨d, s, x, c⟩ := unknown
  refine ⟨m', ?_, kept⟩
  unfold convert
  rw [if_neg d, if_neg s, if_neg x, if_neg c]
  rfl

/-! ### One pass of the loop -/

theorem ends_readFormat {Q : List PrintEvent → UInt8 → Prop} :
    Ends (readFormat m start a) Q ↔ Q [.read start a] (m a) := by
  unfold readFormat
  rw [ends_bind, ends_emit, ends_pure]
  rfl

theorem printfLoop_end {Q : List PrintEvent → Mem → Prop} (here : m' a = 0) :
    Ends (printfLoop given textFuel (fuel + 1) start a args m') Q ↔ Q [.read start a] m' := by
  rw [printfLoop, ends_bind, ends_readFormat, here, if_pos rfl, ends_pure]
  rfl

theorem printfLoop_directive {Q : List PrintEvent → Mem → Prop} {log : List PrintEvent} {m'' : Mem} (here : m' a = 0x25)
    (converts : convert given textFuel (m' (a + 1)) args m' = done log (args', m'')) :
    Ends (printfLoop given textFuel (fuel + 1) start a args m') Q ↔
      Ends (printfLoop given textFuel fuel start (a + 2) args' m'') fun after m =>
        Q (.read start a :: .read start (a + 1) :: log ++ after) m := by
  rw [printfLoop, ends_bind, ends_readFormat, here, if_neg (by decide), if_pos rfl, ends_bind, ends_readFormat, ends_bind,
    converts, ends_done]
  rfl

theorem charValue_toNat (c : UInt8) : UInt8.ofNat (BitVec.ofInt 32 (charValue c)).toNat = c := by
  have small := c.toNat_lt
  apply UInt8.toNat_inj.mp
  rw [UInt8.toNat_ofNat', BitVec.toNat_ofInt]
  unfold charValue
  split <;> omega

/-- The call for an ordinary character prints it. -/
theorem printf_percentC (percentC : CString m' given.percentC [0x25, 0x63]) (c : UInt8) :
    printfLoop given textFuel (fuel + 2) given.percentC given.percentC [.int (.ofInt 32 (charValue c))] m' =
      done [.read given.percentC given.percentC, .read given.percentC (given.percentC + 1), .putchar c,
        .read given.percentC (given.percentC + 2)] m' := by
  obtain ⟨percent, _, letter, _, ended⟩ := percentC
  apply Ends.eq_done
  have converts : convert given textFuel (m' (given.percentC + 1)) [.int (.ofInt 32 (charValue c))] m' =
      done [.putchar c] ([], m') := by
    rw [letter]
    have call : convert given textFuel 0x63 [.int (.ofInt 32 (charValue c))] m' =
      done [.putchar (UInt8.ofNat (BitVec.ofInt 32 (charValue c)).toNat)] ([], m') := rfl
    rw [call, charValue_toNat]
  rw [printfLoop_directive percent converts, printfLoop_end ended]
  exact ⟨rfl, rfl⟩

theorem printfLoop_ordinary {Q : List PrintEvent → Mem → Prop} (here : m' a = c) (nonzero : c ≠ 0) (ordinary : c ≠ 0x25)
    (percentC : CString m' given.percentC [0x25, 0x63]) (enough : 2 ≤ fuel) :
    Ends (printfLoop given textFuel (fuel + 1) start a args m') Q ↔
      Ends (printfLoop given textFuel fuel start (a + 1) args m') fun after m =>
        Q (.read start a :: .read given.percentC given.percentC :: .read given.percentC (given.percentC + 1) ::
          .putchar c :: .read given.percentC (given.percentC + 2) :: after) m := by
  obtain ⟨fuel, rfl⟩ := Nat.exists_eq_add_of_le' enough
  rw [printfLoop, ends_bind, ends_readFormat, here, if_neg nonzero, if_neg ordinary, ends_bind,
    printf_percentC percentC, ends_done]
  rfl

/-! ### The whole format -/

/-- The passes that the loop makes over a format. -/
inductive Passes (given : PrintMemory) (textFuel : Nat) (m : Mem) : List UInt8 → List Arg → List UInt8 → Prop where
  | done (args : List Arg) : Passes given textFuel m [] args []
  | ordinary {f : List UInt8} {args : List Arg} {out : List UInt8} (c : UInt8) :
    c ≠ 0x25 → Passes given textFuel m f args out → Passes given textFuel m (c :: f) args (c :: out)
  | directive {f : List UInt8} {args args' : List Arg} {out : List UInt8} (c : UInt8) (text : List UInt8) :
    (∀ m', given.Kept m m' → Converts given textFuel m m' c args args' text) → Passes given textFuel m f args' out →
      Passes given textFuel m (0x25 :: c :: f) args (text ++ out)
  | cut (args : List Arg) : Passes given textFuel m [0x25] args []

theorem Renders.passes (renders : Renders given m f args out) (hexChars : CString m given.hexChars hexCharacters)
    (hexClear : given.Clear given.hexChars 16)
    (strings : ∀ p text, Arg.string p ∈ args → CString m p text → given.Clear p text.length)
    (enough : out.length + 20 ≤ textFuel) : Passes given textFuel m f args out := by
  induction renders with
  | done args => exact .done args
  | ordinary c plain _ ih =>
    rw [List.length_cons] at enough
    exact .ordinary c plain (ih strings (by omega))
  | int v returns _ ih =>
    rw [List.length_append] at enough
    exact .directive 0x64 _ (fun m' kept => convert_int kept returns (by omega))
      (ih (fun p text member => strings p text (List.mem_cons_of_mem _ member)) (by omega))
  | string p string _ ih =>
    rw [List.length_append] at enough
    have clear := strings p _ List.mem_cons_self string
    exact .directive 0x73 _ (fun m' kept => convert_string kept (kept.string string clear (Nat.le_refl _)) (by omega))
      (ih (fun p text member => strings p text (List.mem_cons_of_mem _ member)) (by omega))
  | word v returns _ ih =>
    rw [List.length_append] at enough
    exact .directive 0x78 _
      (fun m' kept => convert_word kept returns (kept.string hexChars hexClear (by decide)) hexClear (by omega))
      (ih (fun p text member => strings p text (List.mem_cons_of_mem _ member)) (by omega))
  | char v _ ih =>
    rw [List.length_cons] at enough
    exact .directive 0x63 [_] (fun m' kept => convert_char kept)
      (ih (fun p text member => strings p text (List.mem_cons_of_mem _ member)) (by omega))
  | other c unknown _ ih => exact .directive c [] (fun m' kept => convert_other kept unknown) (ih strings enough)
  | cut args => exact .cut args

/-- The rest of the format that starts at `start`, and the text of `%c`. -/
structure Rest (given : PrintMemory) (m : Mem) (start a : Nat) (whole f : List UInt8) : Prop where
  string : CString m start whole
  clear : given.Clear start whole.length
  suffix : CString m a f
  after : start ≤ a
  ends : a + f.length = start + whole.length
  percentC : CString m given.percentC [0x25, 0x63]
  percentClear : given.Clear given.percentC 2

namespace Rest

variable {whole : List UInt8} {x : Nat}

theorem inString (rest : Rest given m start a whole f) (low : a ≤ x) (high : x ≤ a + f.length) :
    PrintEvent.InString m (.read start x) := by
  have := rest.after
  have := rest.ends
  exact ⟨whole, rest.string, by omega, by omega⟩

theorem inPercentC (rest : Rest given m start a whole f) (low : given.percentC ≤ x) (high : x ≤ given.percentC + 2) :
    PrintEvent.InString m (.read given.percentC x) := ⟨_, rest.percentC, low, high⟩

theorem kept (rest : Rest given m start a whole f) (kept : given.Kept m m') (low : a ≤ x) (high : x ≤ a + f.length) :
    m' x = m x := by
  have := rest.after
  have := rest.ends
  exact kept x (rest.clear.at (by omega) (by omega))

theorem tail (rest : Rest given m start a whole (c :: f)) : Rest given m start (a + 1) whole f := by
  obtain ⟨string, clear, suffix, after, ends, percentC, percentClear⟩ := rest
  rw [List.length_cons] at ends
  exact ⟨string, clear, suffix.2.2, by omega, by omega, percentC, percentClear⟩

theorem first (rest : Rest given m start a whole (c :: f)) (kept : given.Kept m m') : m' a = c :=
  (rest.kept kept (Nat.le_refl a) (Nat.le_add_right _ _)).trans rest.suffix.1

/-- A run that stays inside its formats looks at a character of this one first. -/
theorem first_read (rest : Rest given m start a whole f)
    (run : Ends (printfLoop given textFuel fuel start p args m') fun log _ => ∀ e ∈ log, e.InString m) :
    p ≤ start + whole.length := by
  cases fuel with
  | zero => exact (ends_stop.mp run).elim
  | succ fuel =>
    rw [printfLoop, ends_bind, ends_readFormat] at run
    obtain ⟨log, _, _, inside⟩ := run
    obtain ⟨f', string, _, high⟩ := inside _ List.mem_cons_self
    rw [string.unique rest.string] at high
    exact high

/-- A complete format is gone over to its end, and the passes print their texts. -/
theorem printed_all (rest : Rest given m start a whole f) (passes : Passes given textFuel m f args out)
    (complete : Complete f) (kept : given.Kept m m') (enough : f.length + 3 ≤ fuel) :
    Ends (printfLoop given textFuel fuel start a args m') fun log _ => (∀ e ∈ log, e.InString m) ∧ printed log = out := by
  induction passes generalizing a m' fuel with
  | done args =>
    obtain ⟨fuel, rfl⟩ := Nat.exists_eq_add_of_le' (Nat.le_of_add_left_le enough)
    have ended : m' a = 0 := (rest.kept kept (Nat.le_refl a) (Nat.le_add_right _ _)).trans rest.suffix
    rw [printfLoop_end ended]
    refine ⟨fun e member => ?_, rfl⟩
    rw [List.mem_singleton.mp member]
    exact rest.inString (Nat.le_refl a) (Nat.le_add_right _ _)
  | ordinary c plain _ ih =>
    rw [List.length_cons] at enough
    obtain ⟨fuel, rfl⟩ := Nat.exists_eq_add_one.mpr (Nat.zero_lt_of_lt enough)
    have here : m' a = c := rest.first kept
    have percent := kept.string rest.percentC rest.percentClear (Nat.le_refl 2)
    rw [printfLoop_ordinary here rest.suffix.2.1 plain percent (by omega)]
    refine (ih rest.tail ((complete_ordinary plain).mp complete) kept (by omega)).mono fun log _ good => ⟨?_, ?_⟩
    · simp only [List.forall_mem_cons]
      exact ⟨rest.inString (Nat.le_refl a) (Nat.le_add_right _ _), rest.inPercentC (Nat.le_refl _) (by omega),
        rest.inPercentC (by omega) (by omega), trivial, rest.inPercentC (by omega) (by omega), good.1⟩
    · rw [← good.2]
      rfl
  | directive c text converts _ ih =>
    rw [List.length_cons, List.length_cons] at enough
    obtain ⟨fuel, rfl⟩ := Nat.exists_eq_add_one.mpr (Nat.zero_lt_of_lt enough)
    have here : m' a = 0x25 := rest.first kept
    have second : m' (a + 1) = c := rest.tail.first kept
    obtain ⟨m'', call, kept'⟩ := converts m' kept
    rw [← second] at call
    rw [printfLoop_directive here call]
    refine (ih rest.tail.tail (complete_directive.mp complete) kept' (by omega)).mono fun log _ good => ⟨?_, ?_⟩
    · intro e member
      simp only [List.cons_append, List.mem_cons, List.mem_append] at member
      obtain rfl | rfl | shown | later := member
      · exact rest.inString (Nat.le_refl a) (Nat.le_add_right _ _)
      · exact rest.inString (Nat.le_add_right _ _) (by rw [List.length_cons]; omega)
      · obtain ⟨c, _, rfl⟩ := List.mem_map.mp shown
        trivial
      · exact good.1 e later
    · rw [← good.2]
      conv => rhs; rw [← printed_chars text]
      exact List.filterMap_append
  | cut args => exact absurd rfl complete

/-- A cut format is gone over too far. -/
theorem reads_beyond (rest : Rest given m start a whole f) (passes : Passes given textFuel m f args out)
    (incomplete : ¬ Complete f) (kept : given.Kept m m') (enough : f.length + 3 ≤ fuel) :
    ¬ Ends (printfLoop given textFuel fuel start a args m') fun log _ => ∀ e ∈ log, e.InString m := by
  intro run
  induction passes generalizing a m' fuel with
  | done args => exact incomplete trivial
  | ordinary c plain _ ih =>
    rw [List.length_cons] at enough
    obtain ⟨fuel, rfl⟩ := Nat.exists_eq_add_one.mpr (Nat.zero_lt_of_lt enough)
    have here : m' a = c := rest.first kept
    rw [printfLoop_ordinary here rest.suffix.2.1 plain (kept.string rest.percentC rest.percentClear (Nat.le_refl 2))
      (by omega)] at run
    refine ih rest.tail (fun complete => incomplete ((complete_ordinary plain).mpr complete)) kept (by omega)
      (run.mono fun log _ inside e member => inside e ?_)
    simp only [List.mem_cons, member, or_true]
  | directive c text converts _ ih =>
    rw [List.length_cons, List.length_cons] at enough
    obtain ⟨fuel, rfl⟩ := Nat.exists_eq_add_one.mpr (Nat.zero_lt_of_lt enough)
    have here : m' a = 0x25 := rest.first kept
    have second : m' (a + 1) = c := rest.tail.first kept
    obtain ⟨m'', call, kept'⟩ := converts m' kept
    rw [← second] at call
    rw [printfLoop_directive here call] at run
    exact ih rest.tail.tail (fun complete => incomplete (complete_directive.mpr complete)) kept' (by omega)
      (run.mono fun log _ inside e member => inside e (List.mem_append_right _ member))
  | cut args =>
    obtain ⟨fuel, rfl⟩ := Nat.exists_eq_add_one.mpr (Nat.zero_lt_of_lt enough)
    have here : m' a = 0x25 := rest.first kept
    have second : m' (a + 1) = 0 := (rest.tail.kept kept (Nat.le_refl _) (Nat.le_refl _)).trans rest.tail.suffix
    have call : convert given textFuel (m' (a + 1)) args m' = done [] (args, m') := by
      rw [second]
      rfl
    rw [printfLoop_directive here call] at run
    have far := rest.first_read (run.mono fun log _ inside e member => inside e (List.mem_append_right _ member))
    have ends : a + 1 = start + whole.length := rest.ends
    omega

end Rest

theorem PrintTexts.rest (texts : PrintTexts given m start f args) : Rest given m start start f f :=
  ⟨texts.text, texts.clear, texts.text, Nat.le_refl _, rfl, texts.percentC, texts.percentClear⟩

theorem PrintsExactly.complete (prints : PrintsExactly given m start args out) (texts : PrintTexts given m start f args)
    (renders : Renders given m f args out) : Complete f := by
  obtain ⟨bound, prints⟩ := prints
  by_contra incomplete
  obtain ⟨fuel, large⟩ : ∃ fuel, fuel = bound + (out.length + 20) + (f.length + 3) := ⟨_, rfl⟩
  have passes : Passes given fuel m f args out := renders.passes texts.hexChars texts.hexClear texts.strings (by omega)
  have inside := (prints fuel (by omega)).mono fun _ _ good => good.1
  exact texts.rest.reads_beyond passes incomplete (fun _ _ => rfl) (by omega) inside

/-- Every format is printed as it should be, except those that end in the middle of a directive. -/
theorem printf_renders_iff (texts : PrintTexts given m start f args) (renders : Renders given m f args out) :
    PrintsExactly given m start args out ↔ Complete f := by
  constructor
  · intro prints
    exact prints.complete texts renders
  · intro complete
    refine ⟨out.length + 20 + (f.length + 3), fun fuel enough => ?_⟩
    have passes : Passes given fuel m f args out := renders.passes texts.hexChars texts.hexClear texts.strings (by omega)
    exact texts.rest.printed_all passes complete (fun _ _ => rfl) (by omega)

/-! ### A cut format -/

theorem itoaText_returned (ret : Nat) {n : Int} (small : n.natAbs < 2 ^ 32) : ItoaText ret n (itoaText n) := fun m =>
  have ⟨m', call, string, _⟩ := itoa_spec m ret small
  ⟨m', ⟨10, call⟩, string⟩

/-- The text `%c` at `0x100`, the digits at `0x110` and a format at `0x200`. -/
def formatMemory (f : List UInt8) (x : Nat) : UInt8 :=
  if x < 0x110 then ([0x25, 0x63] : List UInt8).getD (x - 0x100) 0
  else if x < 0x200 then hexCharacters.getD (x - 0x110) 0
  else f.getD (x - 0x200) 0

def formatPlaces : PrintMemory := ⟨0x1000, 0x2000, 0x110, 0x100⟩

/-- The format `%` takes `printf` behind its terminator. -/
theorem percent_reads_beyond : PrintTexts formatPlaces (formatMemory [0x25]) 0x200 [0x25] [] ∧
    Renders formatPlaces (formatMemory [0x25]) [0x25] [] [] ∧
    ¬ PrintsExactly formatPlaces (formatMemory [0x25]) 0x200 [] [] := by
  have texts : PrintTexts formatPlaces (formatMemory [0x25]) 0x200 [0x25] [] := by
    refine ⟨by decide +kernel, ?_, nofun, by decide +kernel, ?_, by decide +kernel, ?_⟩
    all_goals exact ⟨Or.inl (by decide), Or.inl (by decide)⟩
  exact ⟨texts, .cut [], fun prints => prints.complete texts (.cut []) rfl⟩

/-- The format `n=%d` with the argument 7. -/
theorem printf_renders_iff_seven :
    PrintsExactly formatPlaces (formatMemory [0x6e, 0x3d, 0x25, 0x64]) 0x200 [.int 7] [0x6e, 0x3d, 0x37] := by
  have texts : PrintTexts formatPlaces (formatMemory [0x6e, 0x3d, 0x25, 0x64]) 0x200 [0x6e, 0x3d, 0x25, 0x64] [.int 7] := by
    refine ⟨by decide +kernel, ?_, by simp, by decide +kernel, ?_, by decide +kernel, ?_⟩
    all_goals exact ⟨Or.inl (by decide), Or.inl (by decide)⟩
  have seven : itoaText 7 = [0x37] := by decide +kernel
  have digit : ItoaText 0x1000 7 [0x37] := seven ▸ itoaText_returned 0x1000 (by decide)
  exact (printf_renders_iff texts (.ordinary _ (by decide) (.ordinary _ (by decide) (.int 7 digit (.done []))))).mpr trivial

end System14
