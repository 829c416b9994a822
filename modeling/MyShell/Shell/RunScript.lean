import MyShell.Lib.TextFile
import MyShell.Shell.VariableStore

/-! The command `run` of interpreter.c in a1. It executes what it has read before it asks for the
end of the file, which only a read that ran into it has marked. -/
namespace MyShell.Shell
open TextFile

/-- The loop of `run`, with the line that was read. A read of nothing leaves the cleared buffer. -/
def runLoop {m : Type → Type} [Monad m] (parseInput : Text → m Int) : Nat → Text → TextFile → m Int
  | 0, _, _ => pure 0
  | fuel+1, line, p => do
    let errCode ← parseInput line
    if p.eof then pure errCode
    else
      let (read,p) := fgets 999 p
      runLoop parseInput fuel (read.getD []) p

/-- `run`, with the file that `fopen` returns and what the buffer `line` has in it at first. -/
def runScript {m : Type → Type} [Monad m] (parseInput : Text → m Int) (garbage : Text) (fuel : Nat) : Option TextFile → m Int
  | none => pure 3
  | some p =>
    let (read,p) := fgets 999 p
    runLoop parseInput fuel (read.getD garbage) p

/-- Whatever `parseInput` does, `run` calls it once for each line in order, and returns what the last call does. -/
def RunsEachLineOnce (text : Text) : Prop :=
  ∀ (m : Type → Type) [Monad m] [LawfulMonad m] (parseInput : Text → m Int) (garbage : Text), ∃ enough, ∀ fuel ≥ enough,
    runScript parseInput garbage fuel (some ⟨text,0,false⟩) = (lines text).foldlM (fun _ line => parseInput line) 0

/-- The last read runs into the end of the file, and each of the others takes one line. -/
structure ReadsByLine (text : Text) : Prop where
  nonempty : text ≠ []
  unended : text.getLast? ≠ some '\n'
  short : ∀ line ∈ lines text, line.length ≤ 998
  lastShort : ∀ line, (lines text).getLast? = some line → line.length < 998

/-- The arguments of `parseInput` for a text that is not empty. -/
def callsFrom : Nat → Text → List Text
  | 0, _ => []
  | fuel+1, text =>
    let line := chunk 998 text
    line :: if line.length < 998 ∧ '\n' ∉ line then []
      else if text.drop line.length = [] then [[]] else callsFrom fuel (text.drop line.length)

section
variable {text : Text} {p : TextFile} {fuel k : Nat}

theorem fgets_rest (nonempty : p.rest ≠ []) (more : p.eof = false) : fgets 999 p = (some (chunk 998 p.rest),
    p.advance (chunk 998 p.rest).length (decide ((chunk 998 p.rest).length < 998 ∧ '\n' ∉ chunk 998 p.rest))) := by
  rw [fgets,if_neg (by omega),if_neg nonempty,more,Bool.decide_and]
  rfl

theorem callsFrom_ne_nil (text : Text) : callsFrom (k+1) text ≠ [] := List.cons_ne_nil _ _

theorem length_drop_chunk (nonempty : text ≠ []) : (text.drop (chunk 998 text).length).length < text.length := by
  have positive : 0 < (chunk 998 text).length := length_chunk_pos 997 text nonempty
  have long := List.length_pos_iff.mpr nonempty
  rw [List.length_drop]
  omega

/-- The calls that are still to come when the file has something left. -/
theorem runLoop_calls {m : Type → Type} [Monad m] [LawfulMonad m] (parseInput : Text → m Int) (start : Int)
    (nonempty : p.rest ≠ []) (more : p.eof = false) (calls : p.rest.length < k) (enough : p.rest.length + 1 < fuel) :
    runLoop parseInput fuel ((fgets 999 p).1.getD []) (fgets 999 p).2 =
      (callsFrom k p.rest).foldlM (fun _ line => parseInput line) start := by
  induction k generalizing p fuel start with
  | zero => exact absurd calls (Nat.not_lt_zero _)
  | succ k ih =>
    obtain ⟨fuel,rfl⟩ : ∃ n, fuel = n + 1 := ⟨fuel - 1,by omega⟩
    have shorter := length_drop_chunk nonempty
    rw [fgets_rest nonempty more,Option.getD_some,runLoop,callsFrom,List.foldlM_cons]
    congr 1
    funext errCode
    by_cases noticed : (chunk 998 p.rest).length < 998 ∧ '\n' ∉ chunk 998 p.rest
    · rw [if_pos noticed,List.foldlM_nil]
      exact if_pos (decide_eq_true noticed)
    · rw [if_neg noticed]
      have running : (p.advance (chunk 998 p.rest).length
          (decide ((chunk 998 p.rest).length < 998 ∧ '\n' ∉ chunk 998 p.rest))).eof = false := decide_eq_false noticed
      have left := advance_rest p (chunk 998 p.rest).length (decide ((chunk 998 p.rest).length < 998 ∧ '\n' ∉ chunk 998 p.rest))
      rw [running,if_neg Bool.false_ne_true,← left]
      generalize p.advance (chunk 998 p.rest).length _ = q at running left
      rw [← left] at shorter
      simp only
      by_cases ended : q.rest = []
      · rw [if_pos ended,fgets_end 999 q (by decide) ended]
        obtain ⟨fuel,rfl⟩ : ∃ n, fuel = n + 1 := ⟨fuel - 1,by omega⟩
        rw [runLoop,List.foldlM_cons]
        congr 1
      · rw [if_neg ended]
        exact ih errCode ended running (by omega) (by omega)

/-- A line at the front that was read, and whether the rest is read by line. -/
theorem readsByLine_cons {line next : Text} {others : List Text} (split : lines text = line :: next :: others)
    (fits : line.length ≤ 998) : ReadsByLine text ↔ ReadsByLine (text.drop line.length) := by
  have rest := lines_drop text line (next :: others) split
  have whole := lines_flatten text
  have behind := lines_flatten (text.drop line.length)
  have goesOn : text.drop line.length ≠ [] := fun ended => List.cons_ne_nil _ _ (rest.symm.trans ((lines_eq_nil _).mpr ended))
  have nonempty : text ≠ [] := fun ended => List.cons_ne_nil _ _ (split.symm.trans ((lines_eq_nil _).mpr ended))
  have last : (text.drop line.length).getLast? = text.getLast? := by
    rw [split,List.flatten_cons] at whole
    rw [rest] at behind
    rw [← behind] at goesOn
    rw [← behind,← whole,List.getLast?_append_of_ne_nil _ goesOn]
  have ends : (lines text).getLast? = (lines (text.drop line.length)).getLast? := by
    rw [rest,split,List.getLast?_cons_cons]
  constructor
  · rintro ⟨-,unended,short,lastShort⟩
    rw [← last] at unended
    rw [split] at short
    rw [ends] at lastShort
    exact ⟨goesOn,unended,fun l member => short l (List.mem_cons_of_mem _ (rest ▸ member)),lastShort⟩
  · rintro ⟨-,unended,short,lastShort⟩
    rw [last] at unended
    rw [← ends] at lastShort
    refine ⟨nonempty,unended,fun l member => ?_,lastShort⟩
    rw [split] at member
    rcases List.mem_cons.mp member with rfl | later
    · exact fits
    · exact short l (rest.symm ▸ later)

theorem readsByLine_single {line : Text} (split : lines text = [line]) :
    ReadsByLine text ↔ line.length < 998 ∧ '\n' ∉ line := by
  have whole := lines_flatten text
  rw [split,List.flatten_singleton] at whole
  subst whole
  have nonempty := line_ne_nil line line [] split
  constructor
  · rintro ⟨-,unended,-,lastShort⟩
    exact ⟨lastShort line (by rw [split]; rfl),fun newline => unended (getLast_line line line [] split newline)⟩
  · rintro ⟨short,plain⟩
    refine ⟨nonempty,fun ends => plain (List.mem_of_getLast? ends),fun l member => ?_,fun l last => ?_⟩
    · rw [split] at member
      rw [List.mem_singleton.mp member]
      omega
    · rw [split] at last
      exact Option.some.inj last ▸ short

/-- The calls are the lines of a text that is read by line, and of no other. -/
theorem callsFrom_eq_lines (nonempty : text ≠ []) (enough : text.length < k) : callsFrom k text = lines text ↔ ReadsByLine text := by
  induction k generalizing text with
  | zero => exact absurd enough (Nat.not_lt_zero _)
  | succ k ih =>
    rw [callsFrom]
    cases split : lines text with
    | nil => exact absurd ((lines_eq_nil _).mp split) nonempty
    | cons line more =>
      by_cases fits : line.length ≤ 998
      · rw [chunk_line text line more 998 split fits,List.cons.injEq,and_iff_right rfl]
        have rest := lines_drop text line more split
        cases more with
        | nil =>
          have ended := (lines_eq_nil _).mp rest
          rw [readsByLine_single split,if_pos ended]
          by_cases noticed : line.length < 998 ∧ '\n' ∉ line
          · rw [if_pos noticed]
            exact iff_of_true rfl noticed
          · rw [if_neg noticed]
            exact iff_of_false (List.cons_ne_nil _ _) noticed
        | cons next others =>
          have newline := newline_mem_line text line _ split (List.cons_ne_nil _ _)
          have goesOn : text.drop line.length ≠ [] :=
            fun ended => List.cons_ne_nil _ _ (rest.symm.trans ((lines_eq_nil _).mpr ended))
          have positive := List.length_pos_iff.mpr (line_ne_nil text line _ split)
          have shorter : (text.drop line.length).length < k := by
            have long := List.length_pos_iff.mpr nonempty
            rw [List.length_drop]
            omega
          rw [readsByLine_cons split fits,if_neg fun noticed => noticed.2 newline,if_neg goesOn,← rest]
          exact ih goesOn shorter
      · have read := length_chunk_le 998 text
        refine iff_of_false (fun same => fits ?_) fun reads => fits (reads.short line (by rw [split]; exact List.mem_cons_self))
        rw [← (List.cons.inj same).1]
        exact read

/-- All calls, with one for what is in the buffer when the file is empty. -/
theorem runScript_calls {m : Type → Type} [Monad m] [LawfulMonad m] (parseInput : Text → m Int) (garbage : Text)
    (enough : text.length + 2 ≤ fuel) : runScript parseInput garbage fuel (some ⟨text,0,false⟩) =
      (if text = [] then [garbage] else callsFrom (text.length + 1) text).foldlM (fun _ line => parseInput line) 0 := by
  have rest : (TextFile.mk text 0 false).rest = text := rfl
  unfold runScript
  simp only
  by_cases empty : text = []
  · subst empty
    obtain ⟨fuel,rfl⟩ : ∃ n, fuel = n + 1 := ⟨fuel - 1,by omega⟩
    rw [if_pos rfl,fgets_end 999 _ (by decide) rest]
    simp only
    rw [runLoop,List.foldlM_cons]
    congr 1
  · have calls := runLoop_calls (p := ⟨text,0,false⟩) parseInput 0 empty rfl (Nat.lt_succ_self _) (Nat.lt_of_succ_le enough)
    rw [if_neg empty]
    rw [fgets_rest (p := ⟨text,0,false⟩) empty rfl] at calls ⊢
    exact calls

/-- A `parseInput` that does nothing but record its calls. -/
def record (line : Text) : StateM (List Text) Int := fun calls => (0,calls ++ [line])

theorem foldlM_record (calls before : List Text) (start : Int) :
    ((calls.foldlM (fun _ line => record line) start).run before).2 = before ++ calls := by
  induction calls generalizing before start with
  | nil => exact (List.append_nil before).symm
  | cons line calls ih =>
    rw [List.foldlM_cons]
    refine (ih (before ++ [line]) 0).trans ?_
    rw [List.append_assoc,List.singleton_append]

theorem RunsEachLineOnce.readsByLine (runs : RunsEachLineOnce text) : ReadsByLine text := by
  obtain ⟨enough,same⟩ := runs (StateM (List Text)) record []
  have same := same (max enough (text.length + 2)) (Nat.le_max_left _ _)
  rw [runScript_calls _ _ (Nat.le_max_right _ _)] at same
  have calls := congrArg (fun run => (StateT.run run []).2) same
  simp only [foldlM_record,List.nil_append] at calls
  by_cases empty : text = []
  · subst empty
    exact absurd calls (List.cons_ne_nil _ _)
  · rw [if_neg empty] at calls
    exact (callsFrom_eq_lines empty (Nat.lt_succ_self _)).mp calls

/-- Each line is executed once, in order, exactly for the texts that are read by line. -/
theorem runs_each_line_once_iff (text : Text) : RunsEachLineOnce text ↔ ReadsByLine text := by
  refine ⟨RunsEachLineOnce.readsByLine,fun reads m _ _ parseInput garbage => ⟨text.length + 2,fun fuel enough => ?_⟩⟩
  rw [runScript_calls parseInput garbage enough,if_neg reads.nonempty,
    (callsFrom_eq_lines reads.nonempty (Nat.lt_succ_self _)).mpr reads]

/-- A script of one line with its newline: `parseInput` is called once more, for an empty line. -/
theorem run_ends_with_empty_line : ¬∀ text, (∀ line ∈ lines text, line.length < 999) → RunsEachLineOnce text := by
  intro all
  have runs := all ['a','\n'] (by decide)
  exact absurd rfl runs.readsByLine.unended

end

end MyShell.Shell
