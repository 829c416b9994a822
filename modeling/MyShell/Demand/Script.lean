import MyShell.Lib.TextFile

/-! The scripts of the demand-paging shell: `count_lines`, by which a process gets its size,
and the calls of `fgets` that load its pages. -/
namespace MyShell.Demand
open TextFile

abbrev Text := List Char

/-- The loop of `count_lines`; `last` is the character before. -/
def countNewlines (last : Char) : Text → Nat
  | [] => 0
  | c :: text => (if c = '\n' ∧ last ≠ '\n' then 1 else 0) + countNewlines c text

/-- `count_lines` of a script that can be opened. -/
def countLines (text : Text) : Nat := countNewlines '\n' text + 1

/-- The loop of `PCB_init` and `load_PAGE` that reads a page, up to the first NULL. -/
def readLines : Nat → TextFile → List Text × TextFile
  | 0, file => ([],file)
  | left+1, file =>
    match fgets 999 file with
    | (none,file) => ([],file)
    | (some line,file) =>
      let more := readLines left file
      (line :: more.1,more.2)

/-- The lines of a page. -/
abbrev pageLines : Nat := 3

/-- The lines that the loads of `count` pages deliver, one page after the other. -/
def readPages : Nat → TextFile → List Text × TextFile
  | 0, file => ([],file)
  | count+1, file =>
    let page := readLines pageLines file
    let more := readPages count page.2
    (page.1 ++ more.1,more.2)

def startOfFile (text : Text) : TextFile := ⟨text,0,false⟩

/-- As many lines are counted as the page loads deliver, however many pages are loaded. -/
def CountsLines (text : Text) : Prop :=
  ∃ enough, ∀ count, enough ≤ count → (readPages count (startOfFile text)).1.length = countLines text

/-- The lines that hold nothing but their newline. -/
def blankLines (text : Text) : Nat := (lines text).count ['\n']

def EndsWithNewline (text : Text) : Prop := text.getLast? = some '\n'

instance (text : Text) : Decidable (EndsWithNewline text) := inferInstanceAs (Decidable (_ = _))

/-- One for a last line without its newline. -/
def unfinished (text : Text) : Nat := if text = [] ∨ EndsWithNewline text then 0 else 1

theorem unfinished_cons (c : Char) (text : Text) (more : text ≠ []) : unfinished (c :: text) = unfinished text := by
  have same : EndsWithNewline (c :: text) ↔ EndsWithNewline text := by
    unfold EndsWithNewline
    rw [List.getLast?_cons_of_ne_nil more]
  simp only [unfinished,List.cons_ne_nil,false_or,more,same]

/-- Each newline is counted but those of blank lines. The second part is about the rest of a
line of which `c` was read last. -/
theorem countNewlines_eq (text : Text) :
    countNewlines '\n' text + blankLines text + unfinished text = (lines text).length ∧
      ∀ c, c ≠ '\n' → countNewlines c text + blankLines (c :: text) + unfinished (c :: text) = (lines (c :: text)).length := by
  induction text with
  | nil =>
    refine ⟨rfl,fun c plain => ?_⟩
    have single : lines [c] = [[c]] := by simp [lines,plain]
    unfold blankLines unfinished EndsWithNewline
    simp [single,countNewlines,plain]
  | cons d text ih =>
    by_cases newline : d = '\n'
    · subst newline
      have tail : unfinished ('\n' :: text) = unfinished text := by
        rcases eq_or_ne text [] with rfl | more
        · rfl
        · exact unfinished_cons _ _ more
      have first := ih.1
      refine ⟨?_,fun c plain => ?_⟩
      · rw [tail]
        unfold blankLines at first ⊢
        rw [lines_cons_newline,List.count_cons_self,List.length_cons,countNewlines]
        simp only [ne_eq,not_true,and_false,if_false]
        omega
      · have head : lines (c :: '\n' :: text) = [c,'\n'] :: lines text := by
          rw [lines_cons c _ plain,lines_cons_newline]
          rfl
        have other : [c,'\n'] ≠ ['\n'] := fun same => plain (List.cons.inj same).1
        rw [unfinished_cons _ _ (List.cons_ne_nil _ _),tail]
        unfold blankLines at first ⊢
        rw [head,List.count_cons_of_ne other,List.length_cons,countNewlines]
        simp only [ne_eq,plain,not_false_eq_true,and_true,if_true]
        omega
    · have first := ih.2 d newline
      have step (c : Char) : countNewlines c (d :: text) = countNewlines d text := by
        rw [countNewlines,if_neg fun both => newline both.1,Nat.zero_add]
      refine ⟨(step '\n').symm ▸ first,fun c plain => ?_⟩
      have split := lines_cons c (d :: text) plain
      have inner := lines_cons d text newline
      have other : c :: d :: (lines text).headD [] ≠ ['\n'] := fun same => plain (List.cons.inj same).1
      have other' : d :: (lines text).headD [] ≠ ['\n'] := fun same => newline (List.cons.inj same).1
      rw [inner,List.headD_cons,List.tail_cons] at split
      rw [step,unfinished_cons _ _ (List.cons_ne_nil _ _)]
      unfold blankLines at first ⊢
      rw [inner,List.count_cons_of_ne other',List.length_cons] at first
      rw [split,List.count_cons_of_ne other,List.length_cons]
      exact first

/-- All lines of a script fit the buffer. -/
def ShortLines (text : Text) : Prop := ∀ line ∈ lines text, line.length < 999

instance (text : Text) : Decidable (ShortLines text) := inferInstanceAs (Decidable (∀ line ∈ lines text, line.length < 999))

theorem readLines_spec (left : Nat) (file : TextFile) (short : ∀ line ∈ lines file.rest, line.length < 999) :
    (readLines left file).1 = (lines file.rest).take left ∧
      lines (readLines left file).2.rest = (lines file.rest).drop left := by
  induction left generalizing file with
  | zero => exact ⟨rfl,rfl⟩
  | succ left ih =>
    cases split : lines file.rest with
    | nil =>
      have ended := fgets_end 999 file (by decide) ((lines_eq_nil _).mp split)
      rw [readLines,ended]
      exact ⟨rfl,split⟩
    | cons line more =>
      rw [split] at short
      have read := fgets_line 999 file line more split (short line List.mem_cons_self)
      have rest : lines ((file.advance line.length (file.eof ||
          (decide (line.length < 998) && decide ('\n' ∉ line)))).rest) = more := by
        rw [advance_rest]
        exact lines_drop _ line more split
      obtain ⟨page,after⟩ := ih (file.advance line.length (file.eof || (decide (line.length < 998) && decide ('\n' ∉ line))))
        (by rw [rest]; exact fun line member => short line (List.mem_cons_of_mem _ member))
      rw [rest] at page after
      rw [readLines,read]
      exact ⟨congrArg (line :: ·) page,after⟩

theorem readPages_spec (count : Nat) (file : TextFile) (short : ∀ line ∈ lines file.rest, line.length < 999) :
    (readPages count file).1 = (lines file.rest).take (pageLines*count) := by
  induction count generalizing file with
  | zero => rfl
  | succ count ih =>
    obtain ⟨page,after⟩ := readLines_spec pageLines file short
    have rest := ih (readLines pageLines file).2 (by
      rw [after]
      exact fun line member => short line (List.mem_of_mem_drop member))
    rw [after] at rest
    rw [readPages,rest,page,Nat.mul_succ,Nat.add_comm,List.take_add]

/-- The count is right exactly for scripts of which one line is blank or the last one lacks
its newline, but not both. -/
theorem countLines_exact (text : Text) (short : ShortLines text) :
    CountsLines text ↔ text ≠ [] ∧ blankLines text = if EndsWithNewline text then 1 else 0 := by
  have total := (countNewlines_eq text).1
  have loaded (count : Nat) : (readPages count (startOfFile text)).1.length = min (pageLines*count) (lines text).length := by
    rw [readPages_spec count (startOfFile text) short,List.length_take]
    rfl
  have many (count : Nat) (enough : (lines text).length ≤ count) : (lines text).length ≤ pageLines*count :=
    Nat.le_trans enough (Nat.le_mul_of_pos_left count (Nat.succ_pos _))
  have delivered : CountsLines text ↔ (lines text).length = countLines text := by
    constructor
    · rintro ⟨enough,counts⟩
      have large := counts (enough + (lines text).length) (Nat.le_add_right _ _)
      rw [loaded,Nat.min_eq_right (many _ (Nat.le_add_left _ _))] at large
      exact large
    · intro same
      refine ⟨(lines text).length,fun count enough => ?_⟩
      rw [loaded,Nat.min_eq_right (many _ enough)]
      exact same
  rw [delivered]
  unfold countLines
  unfold unfinished at total
  rcases eq_or_ne text [] with rfl | some
  · exact ⟨fun same => absurd same (by decide),fun both => absurd rfl both.1⟩
  · by_cases ends : EndsWithNewline text
    · rw [if_pos (Or.inr ends)] at total
      rw [if_pos ends]
      exact ⟨fun same => ⟨some,by omega⟩,fun one => by omega⟩
    · rw [if_neg (not_or.mpr ⟨some,ends⟩)] at total
      rw [if_neg ends]
      exact ⟨fun same => ⟨some,by omega⟩,fun none => by omega⟩

/-- One line, with its newline. -/
def oneLine : Text := ['a','\n']

theorem oneLine_counted : ¬CountsLines oneLine := by
  rintro ⟨enough,counts⟩
  have large := counts (enough+1) (Nat.le_succ _)
  rw [readPages_spec (enough+1) (startOfFile oneLine) (by decide),List.take_of_length_le (by
    exact Nat.mul_pos (Nat.succ_pos _) (Nat.succ_pos _))] at large
  exact absurd large (by decide)

theorem countLines_exact_oneLine :
    CountsLines oneLine ↔ oneLine ≠ [] ∧ blankLines oneLine = if EndsWithNewline oneLine then 1 else 0 :=
  countLines_exact oneLine (by decide)

example : countLines ['a','\n','b'] = 2 ∧ countLines ['a','\n','\n','b','\n'] = 3 := by decide

end MyShell.Demand
