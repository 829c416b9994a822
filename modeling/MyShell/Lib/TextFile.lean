import Mathlib.Data.List.Basic

/-! A text file read through a buffer of fixed size, as `fgets` of the C library reads
it, and the lines of the text that it reads. -/
structure TextFile where
  text : List Char
  position : Nat
  eof : Bool
deriving DecidableEq

namespace TextFile

def rest (file : TextFile) : List Char := file.text.drop file.position

/-- The lines of a text, each with its newline; the last one may have none. -/
def lines : List Char → List (List Char)
  | [] => []
  | c :: text =>
    if c = '\n' then [c] :: lines text
    else match lines text with
      | [] => [[c]]
      | line :: more => (c :: line) :: more

/-- At most `limit` characters, through the first newline. -/
def chunk : Nat → List Char → List Char
  | 0, _ => []
  | _, [] => []
  | limit+1, c :: text => if c = '\n' then [c] else c :: chunk limit text

/-- `fgets` into a buffer of `size` bytes. The end of the file is noticed only by a read
that runs into it: not after a newline, and not when the buffer is full. -/
def fgets (size : Nat) (file : TextFile) : Option (List Char) × TextFile :=
  if size ≤ 1 then (if size = 0 then none else some [],file)
  else if file.rest = [] then (none,{file with eof := true})
  else
    let line := chunk (size-1) file.rest
    (some line,{file with
      position := file.position+line.length
      eof := file.eof || (decide (line.length < size-1) && decide ('\n' ∉ line))})

/-- `fseek` from the current position: it fails before the start of the file, and clears
the end-of-file mark when it succeeds. -/
def fseek (offset : Int) (file : TextFile) : TextFile :=
  if file.position+offset < 0 then file
  else {file with position := (file.position+offset).toNat, eof := false}

theorem lines_cons_newline (text : List Char) : lines ('\n' :: text) = ['\n'] :: lines text := by
  simp only [lines,if_true]

theorem lines_cons (c : Char) (text : List Char) (plain : c ≠ '\n') :
    lines (c :: text) = (c :: (lines text).headD []) :: (lines text).tail := by
  rw [lines,if_neg plain]
  cases lines text <;> rfl

theorem lines_eq_nil (text : List Char) : lines text = [] ↔ text = [] := by
  cases text with
  | nil => simp only [lines]
  | cons c text =>
    by_cases newline : c = '\n'
    · subst newline
      simp [lines_cons_newline]
    · simp [lines_cons c text newline]

theorem lines_flatten (text : List Char) : (lines text).flatten = text := by
  induction text with
  | nil => rfl
  | cons c text ih =>
    by_cases newline : c = '\n'
    · subst newline
      rw [lines_cons_newline,List.flatten_cons,ih,List.singleton_append]
    · rw [lines_cons c text newline,List.flatten_cons,List.cons_append]
      congr 1
      cases split : lines text with
      | nil =>
        rw [split] at ih
        exact ih
      | cons line more =>
        rw [split] at ih
        exact ih

/-- Only the last line of a text can lack its newline. -/
theorem newline_mem_line (text line : List Char) (more : List (List Char))
    (split : lines text = line :: more) (goesOn : more ≠ []) : '\n' ∈ line := by
  induction text generalizing line with
  | nil => exact absurd split (List.cons_ne_nil _ _).symm
  | cons c text ih =>
    by_cases newline : c = '\n'
    · subst newline
      rw [lines_cons_newline] at split
      obtain ⟨rfl,_⟩ := List.cons.inj split
      exact List.mem_singleton_self _
    · rw [lines_cons c text newline] at split
      obtain ⟨rfl,after⟩ := List.cons.inj split
      cases inner : lines text with
      | nil =>
        rw [inner] at after
        exact absurd after.symm goesOn
      | cons first others =>
        rw [inner] at after
        subst after
        exact List.mem_cons_of_mem _ (ih first inner)

theorem line_ne_nil (text line : List Char) (more : List (List Char))
    (split : lines text = line :: more) : line ≠ [] := by
  cases text with
  | nil => exact absurd split (List.cons_ne_nil _ _).symm
  | cons c text =>
    by_cases newline : c = '\n'
    · subst newline
      rw [lines_cons_newline] at split
      obtain ⟨rfl,_⟩ := List.cons.inj split
      exact List.cons_ne_nil _ _
    · rw [lines_cons c text newline] at split
      obtain ⟨rfl,_⟩ := List.cons.inj split
      exact List.cons_ne_nil _ _

theorem lines_drop (text line : List Char) (more : List (List Char))
    (split : lines text = line :: more) : lines (text.drop line.length) = more := by
  induction text generalizing line more with
  | nil => exact absurd split (List.cons_ne_nil _ _).symm
  | cons c text ih =>
    by_cases newline : c = '\n'
    · subst newline
      rw [lines_cons_newline] at split
      obtain ⟨rfl,rfl⟩ := List.cons.inj split
      rfl
    · rw [lines_cons c text newline] at split
      obtain ⟨rfl,rfl⟩ := List.cons.inj split
      cases inner : lines text with
      | nil =>
        have empty := (lines_eq_nil text).mp inner
        subst empty
        rfl
      | cons first others => exact ih first _ inner

theorem chunk_line (text line : List Char) (more : List (List Char)) (limit : Nat)
    (split : lines text = line :: more) (fits : line.length ≤ limit) : chunk limit text = line := by
  induction text generalizing line more limit with
  | nil => exact absurd split (List.cons_ne_nil _ _).symm
  | cons c text ih =>
    cases limit with
    | zero => exact absurd (List.eq_nil_of_length_eq_zero (Nat.le_zero.mp fits)) (line_ne_nil _ _ _ split)
    | succ limit =>
      by_cases newline : c = '\n'
      · subst newline
        rw [lines_cons_newline] at split
        obtain ⟨rfl,_⟩ := List.cons.inj split
        rw [chunk,if_pos rfl]
      · rw [lines_cons c text newline] at split
        obtain ⟨rfl,_⟩ := List.cons.inj split
        rw [chunk,if_neg newline]
        cases inner : lines text with
        | nil =>
          have empty := (lines_eq_nil text).mp inner
          subst empty
          cases limit <;> rfl
        | cons first others =>
          rw [inner] at fits
          exact congrArg _ (ih first _ limit inner (Nat.le_of_succ_le_succ fits))

theorem length_chunk_le (limit : Nat) (text : List Char) : (chunk limit text).length ≤ limit := by
  induction text generalizing limit with
  | nil => cases limit <;> exact Nat.zero_le _
  | cons c text ih =>
    cases limit with
    | zero => exact Nat.le_refl 0
    | succ limit =>
      rw [chunk]
      split
      · exact Nat.succ_le_succ (Nat.zero_le limit)
      · exact Nat.succ_le_succ (ih limit)

theorem length_chunk_pos (limit : Nat) (text : List Char) (nonempty : text ≠ []) : 0 < (chunk (limit+1) text).length := by
  cases text with
  | nil => exact absurd rfl nonempty
  | cons c text =>
    rw [chunk]
    split <;> exact Nat.succ_pos _

/-- A newline ends its line. -/
theorem getLast_line (text line : List Char) (more : List (List Char)) (split : lines text = line :: more)
    (newline : '\n' ∈ line) : line.getLast? = some '\n' := by
  induction text generalizing line more with
  | nil => exact absurd split (List.cons_ne_nil _ _).symm
  | cons c text ih =>
    by_cases here : c = '\n'
    · subst here
      rw [lines_cons_newline] at split
      obtain ⟨rfl,_⟩ := List.cons.inj split
      rfl
    · rw [lines_cons c text here] at split
      obtain ⟨rfl,_⟩ := List.cons.inj split
      cases inner : lines text with
      | nil =>
        rw [inner] at newline
        exact absurd (List.mem_singleton.mp newline).symm here
      | cons first others =>
        rw [inner] at newline
        have later := (List.mem_cons.mp newline).resolve_left (Ne.symm here)
        rw [List.headD_cons,List.getLast?_cons,ih first others inner later]
        rfl

/-- The file after `count` more characters, with the mark as the read left it. -/
def advance (file : TextFile) (count : Nat) (eof : Bool) : TextFile :=
  {file with position := file.position+count, eof := eof}

/-- A line shorter than the buffer is read whole. -/
theorem fgets_line (size : Nat) (file : TextFile) (line : List Char) (more : List (List Char))
    (split : lines file.rest = line :: more) (fits : line.length < size) :
    fgets size file = (some line,
      file.advance line.length (file.eof || (decide (line.length < size-1) && decide ('\n' ∉ line)))) := by
  have some_char := List.length_pos_iff.mpr (line_ne_nil _ _ _ split)
  have nonempty : file.rest ≠ [] := fun empty => by
    rw [(lines_eq_nil _).mpr empty] at split
    exact absurd split (List.cons_ne_nil _ _).symm
  have read := chunk_line file.rest line more (size-1) split (by omega)
  rw [fgets,if_neg (by omega),if_neg nonempty,read]
  rfl

theorem advance_rest (file : TextFile) (count : Nat) (eof : Bool) :
    (file.advance count eof).rest = file.rest.drop count := by
  simp only [advance,rest,List.drop_drop]

theorem fgets_end (size : Nat) (file : TextFile) (large : 1 < size) (ended : file.rest = []) :
    fgets size file = (none,{file with eof := true}) := by
  rw [fgets,if_neg (by omega),if_pos ended]

/-- The place where the line number `count` starts. -/
def lineStart (text : List Char) (count : Nat) : Nat := ((lines text).take count).flatten.length

theorem lines_drop_lineStart (text : List Char) (count : Nat) :
    lines (text.drop (lineStart text count)) = (lines text).drop count := by
  induction count generalizing text with
  | zero => rfl
  | succ count ih =>
    cases split : lines text with
    | nil =>
      have empty := (lines_eq_nil text).mp split
      subst empty
      rfl
    | cons line more =>
      have after := lines_drop text line more split
      have start : lineStart text (count+1) = line.length+lineStart (text.drop line.length) count := by
        simp only [lineStart,split,after,List.take_succ_cons,List.flatten_cons,List.length_append]
      rw [start,← List.drop_drop,ih,after,List.drop_succ_cons]

end TextFile
