import MyShell.Shell.VariableStore
import Mathlib.Data.List.TakeWhile

/-! The command `if` of interpreter.c in a1. Its loops look at a token before they look whether
there is one, and the texts that it puts together go into buffers of a fixed size. -/
namespace MyShell.Shell

/-- What C leaves undefined: a read behind the arguments, and a write behind a buffer. -/
inductive Fault
  | outOfRange | overflow

/-- How `interpreter` ends for a conditional. A command is passed to `parseInput`. -/
inductive Outcome
  | badcommand
  | incorrectUsage (command : String)
  | emptyClause
  | parseInput (command : Text)
  deriving DecidableEq

def ifText : Text := ['i','f']
def thenText : Text := ['t','h','e','n']
def elseText : Text := ['e','l','s','e']
def fiText : Text := ['f','i']
def newline : Text := ['\n']
def equalsText : Text := ['=','=']
def differsText : Text := ['!','=']
def missingText : Text := "Variable does not exist".toList

/-- `strcpy`, and `strcat` for what is in the buffer already, when it has `size` bytes. -/
def put (size : Nat) (text : Text) : Except Fault Text := if text.length < size then .ok text else .error .overflow

/-- What is copied for an identifier: the value behind a dollar sign, or the token itself. -/
def identifierText (slots : List Slot) (token : Text) : Text :=
  if token.head? = some '$' then (memGetValue Version.a1.notFound slots token.tail).getD [] else token

/-- The identifier that is compared. A variable that does not exist is empty. -/
def expand (slots : List Slot) (token : Text) : Text :=
  if token.head? = some '$' ∧ identifierText slots token = missingText then [] else identifierText slots token

/-- A loop that appends tokens until it sees one of `stops`, with the tokens from that one on.
The index is checked after the token was read. -/
def collect (stops : List Text) : Text → List Text → Except Fault (Text × List Text)
  | _, [] => .error .outOfRange
  | command, token :: tokens =>
    if token ∈ stops then .ok (command,token :: tokens)
    else do
      let command ← put 1000 (command ++ [' '])
      let command ← put 1000 (command ++ token)
      collect stops command tokens

/-- `command2`, from the tokens that the first loop stopped at. There is none without an end. -/
def secondCommand : List Text → Except Fault (Option Text)
  | [] => .ok none
  | token :: tokens =>
    if token = elseText then
      match tokens with
      | [] => .error .outOfRange
      | first :: tokens => do
        let command2 ← put 1000 first
        let (command2,_) ← collect [fiText,newline] command2 tokens
        pure (some command2)
    else if token = fiText ∨ token = newline then .ok (some []) else .ok none

/-- The commands behind `then` and `else`, from the first token of the one behind `then` on. -/
def commands (first : Text) (rest : List Text) : Except Fault (Option (Text × Text)) := do
  let command1 ← put 1000 first
  let (command1,rest) ← collect [elseText,fiText,newline] command1 rest
  let command2 ← secondCommand rest
  pure (command2.map fun command2 => (command1,command2))

/-- The command that is executed at the end. -/
def clause (command : Text) : Outcome := if command = [] then .emptyClause else .parseInput command

/-- `condition`, for one of the two operators -/
def Holds (slots : List Slot) (x op y : Text) : Prop :=
  if op = equalsText then expand slots x = expand slots y else expand slots x ≠ expand slots y

instance (slots : List Slot) (x op y : Text) : Decidable (Holds slots x op y) := by
  unfold Holds
  infer_instance

def ifCommand (slots : List Slot) : List Text → Except Fault Outcome
  | _ :: x :: op :: y :: keyword :: first :: rest => do
    let _ ← put 101 (identifierText slots x)
    let _ ← put 101 (identifierText slots y)
    if op ≠ equalsText ∧ op ≠ differsText then pure (.incorrectUsage "invalid operator in if-conditional")
    else
      if keyword ≠ thenText then pure (.incorrectUsage "cannot find 'then' in if-conditional")
      else if first = elseText ∨ first = fiText ∨ first = newline then pure .emptyClause
      else do
        let found ← commands first rest
        match found with
        | none => pure (.incorrectUsage "cannot find 'fi' in if-conditional")
        | some (command1,command2) => pure (clause (if Holds slots x op y then command1 else command2))
  | _ => pure (.incorrectUsage "too few arguments in if-conditional")

/-- The part of a token before a carriage return or a newline. -/
def strip (token : Text) : Text := token.takeWhile fun c => c != '\r' && c != '\n'

/-- `interpreter` on the tokens of a conditional. `none` stands for the other commands. -/
def interpreter (slots : List Slot) (commandArgs : List Text) : Option (Except Fault Outcome) :=
  if commandArgs.length < 1 ∨ 20 < commandArgs.length then some (.ok .badcommand)
  else if (commandArgs.map strip).head? = some ifText then some (ifCommand slots (commandArgs.map strip)) else none

/-- The tokens of `if x op y then C1 fi`, or of `if x op y then C1 else C2 fi`. -/
def conditional (x op y : Text) (c1 : List Text) (c2 : Option (List Text)) : List Text :=
  [ifText,x,op,y,thenText] ++ c1 ++ match c2 with
    | none => [fiText]
    | some c2 => elseText :: (c2 ++ [fiText])

/-- A clause has a token, and no `else` or `fi`. -/
structure IsClause (tokens : List Text) : Prop where
  long : tokens ≠ []
  noElse : elseText ∉ tokens
  noFi : fiText ∉ tokens

def joinSpaces (tokens : List Text) : Text := [' '].intercalate tokens

/-- What is to happen when the comparison fails. -/
def elseOutcome : Option (List Text) → Outcome
  | none => .emptyClause
  | some c2 => .parseInput (joinSpaces c2)

/-- No fault, and the right clause for a conditional that is complete. -/
structure StaysInside (slots : List Slot) (commandArgs : List Text) : Prop where
  inside : ∃ outcome, interpreter slots commandArgs = some (.ok outcome)
  clauses : ∀ x op y c1 c2, commandArgs.map strip = conditional x op y c1 c2 → op = equalsText ∨ op = differsText →
    IsClause c1 → (∀ c ∈ c2, IsClause c) → interpreter slots commandArgs =
      some (.ok (if Holds slots x op y then .parseInput (joinSpaces c1) else elseOutcome c2))

/-- The tokens of a clause with the spaces between them and the null fit the buffer. -/
def Room (tokens : List Text) : Prop := (joinSpaces tokens).length < 1000

/-- The loops come to a `fi` behind the first token of a clause, and have put together the two
commands: there is a token behind `else`, and the second command is empty without one. -/
def Completes (first : Text) (rest : List Text) (command1 command2 : Text) : Prop :=
  ∃ c1 more, elseText ∉ c1 ∧ fiText ∉ c1 ∧ Room (first :: c1) ∧ command1 = joinSpaces (first :: c1) ∧
    (rest = c1 ++ fiText :: more ∧ command2 = [] ∨
      ∃ d c2 more, rest = c1 ++ elseText :: d :: (c2 ++ fiText :: more) ∧ fiText ∉ c2 ∧ Room (d :: c2) ∧
        command2 = joinSpaces (d :: c2))

/-- The handler answers before it comes to the loops, or the loops come to their end. -/
def Ends (slots : List Slot) : List Text → Prop
  | _ :: x :: op :: y :: keyword :: first :: rest =>
    (identifierText slots x).length ≤ 100 ∧ (identifierText slots y).length ≤ 100 ∧
      (op ≠ equalsText ∧ op ≠ differsText ∨ keyword ≠ thenText ∨ first = elseText ∨ first = fiText ∨
        ∃ command1 command2, Completes first rest command1 command2)
  | _ => True

/-- The clause chosen is not one empty token. -/
def NotBlank (slots : List Slot) (args : List Text) : Prop :=
  ∀ x op y c1 c2, args = conditional x op y c1 c2 → op = equalsText ∨ op = differsText → IsClause c1 → (∀ c ∈ c2, IsClause c) →
    if Holds slots x op y then c1 ≠ [[]] else c2 ≠ some [[]]

section
variable {slots : List Slot} {stops tokens args c1 rest : List Text} {command text first x op y : Text} {outcome : Outcome}

theorem bind_ok {ε α β : Type} {m : Except ε α} {f : α → Except ε β} {b : β} :
    (m >>= f) = .ok b ↔ ∃ a, m = .ok a ∧ f a = .ok b := by
  cases m with
  | error e => exact ⟨fun contrary => (nomatch contrary),fun ⟨_,contrary,_⟩ => (nomatch contrary)⟩
  | ok a => exact ⟨fun same => ⟨a,rfl,same⟩,fun ⟨_,same,result⟩ => Except.ok.inj same ▸ result⟩

theorem put_ok {size : Nat} {result : Text} : put size text = .ok result ↔ text.length < size ∧ result = text := by
  unfold put
  split
  · rename_i fits
    rw [Except.ok.injEq,and_iff_right fits,eq_comm]
  · rename_i fits
    exact ⟨fun contrary => (nomatch contrary),fun both => absurd both.1 fits⟩

theorem joinSpaces_cons (first : Text) (tokens : List Text) :
    joinSpaces (first :: tokens) = first ++ tokens.flatMap (' ' :: ·) := by
  induction tokens generalizing first with
  | nil =>
    rw [List.flatMap_nil,List.append_nil]
    exact List.intercalate_singleton
  | cons token tokens ih =>
    have next : joinSpaces (first :: token :: tokens) = first ++ [' '] ++ joinSpaces (token :: tokens) :=
      List.intercalate_cons_cons
    rw [next,ih,List.flatMap_cons,List.append_assoc,List.singleton_append,List.cons_append]

/-- Two ways to come to the first of some tokens are the same. -/
theorem split_unique {l l' m m' : List Text} {s s' : Text} (same : l ++ s :: m = l' ++ s' :: m') (stop : s ∈ stops)
    (stop' : s' ∈ stops) (before : ∀ t ∈ l, t ∉ stops) (before' : ∀ t ∈ l', t ∉ stops) : l = l' ∧ s = s' ∧ m = m' := by
  induction l generalizing l' with
  | nil =>
    cases l' with
    | nil =>
      obtain ⟨rfl,rfl⟩ := List.cons.inj same
      exact ⟨rfl,rfl,rfl⟩
    | cons t l' =>
      obtain ⟨rfl,-⟩ := List.cons.inj same
      exact absurd stop (before' s List.mem_cons_self)
  | cons t l ih =>
    cases l' with
    | nil =>
      obtain ⟨rfl,-⟩ := List.cons.inj same
      exact absurd stop' (before t List.mem_cons_self)
    | cons t' l' =>
      obtain ⟨rfl,later⟩ := List.cons.inj same
      obtain ⟨rfl,rfl,rfl⟩ := ih later (fun t member => before t (List.mem_cons_of_mem _ member))
        fun t member => before' t (List.mem_cons_of_mem _ member)
      exact ⟨rfl,rfl,rfl⟩

/-- The loop ends at the first of the tokens it stops at, if what is before it fits the buffer. -/
theorem collect_ok {collected : Text} (room : command.length < 1000) : collect stops command tokens = .ok (collected,rest) ↔
    ∃ c stop more, tokens = c ++ stop :: more ∧ stop ∈ stops ∧ (∀ t ∈ c, t ∉ stops) ∧ rest = stop :: more ∧
      collected = command ++ c.flatMap (' ' :: ·) ∧ collected.length < 1000 := by
  induction tokens generalizing command with
  | nil =>
    refine ⟨fun contrary => (nomatch contrary),?_⟩
    rintro ⟨c,stop,more,same,-⟩
    exact absurd same.symm (List.append_ne_nil_of_right_ne_nil _ (List.cons_ne_nil _ _))
  | cons token tokens ih =>
    rw [collect]
    by_cases here : token ∈ stops
    · rw [if_pos here,Except.ok.injEq,Prod.mk.injEq]
      constructor
      · rintro ⟨rfl,rfl⟩
        exact ⟨[],token,tokens,rfl,here,fun t member => absurd member List.not_mem_nil,rfl,(List.append_nil _).symm,room⟩
      · rintro ⟨c,stop,more,same,-,before,rfl,rfl,-⟩
        cases c with
        | nil => exact ⟨(List.append_nil _).symm,same⟩
        | cons t c =>
          obtain ⟨rfl,-⟩ := List.cons.inj same
          exact absurd here (before token List.mem_cons_self)
    · rw [if_neg here,bind_ok]
      simp only [bind_ok,put_ok]
      constructor
      · rintro ⟨spaced,⟨fits,rfl⟩,grown,⟨fits',rfl⟩,later⟩
        obtain ⟨c,stop,more,rfl,member,before,rfl,rfl,short⟩ := (ih fits').mp later
        refine ⟨token :: c,stop,more,rfl,member,?_,rfl,?_,short⟩
        · rintro t (_ | ⟨_,inside⟩)
          · exact here
          · exact before t inside
        · rw [List.flatMap_cons,List.append_assoc,List.append_assoc,List.singleton_append,List.cons_append]
      · rintro ⟨c,stop,more,same,member,before,rfl,rfl,short⟩
        cases c with
        | nil =>
          obtain ⟨rfl,-⟩ := List.cons.inj same
          exact absurd member here
        | cons t c =>
          obtain ⟨rfl,rfl⟩ := List.cons.inj same
          have whole : command ++ (token :: c).flatMap (' ' :: ·) = command ++ [' '] ++ token ++ c.flatMap (' ' :: ·) := by
            rw [List.flatMap_cons,List.append_assoc,List.append_assoc,List.singleton_append,List.cons_append]
          have fits' : (command ++ [' '] ++ token).length < 1000 := by
            rw [whole,List.length_append] at short
            omega
          have fits : (command ++ [' ']).length < 1000 := by
            rw [List.length_append] at fits'
            omega
          refine ⟨_,⟨fits,rfl⟩,_,⟨fits',rfl⟩,(ih fits').mpr ⟨c,stop,more,rfl,member,fun t inside => ?_,rfl,whole,short⟩⟩
          exact before t (List.mem_cons_of_mem _ inside)

theorem secondCommand_ok {stop : Text} {more : List Text} {result : Option Text}
    (member : stop ∈ [elseText,fiText,newline]) (plain : newline ∉ stop :: more) : secondCommand (stop :: more) = .ok result ↔
      stop = fiText ∧ result = some [] ∨ stop = elseText ∧ ∃ d c2 more', more = d :: (c2 ++ fiText :: more') ∧ fiText ∉ c2 ∧
        Room (d :: c2) ∧ result = some (joinSpaces (d :: c2)) := by
  have other : fiText ≠ elseText := by decide
  have notNewline : stop ≠ newline := fun same => plain (same ▸ List.mem_cons_self)
  rw [secondCommand.eq_def]
  simp only
  by_cases isElse : stop = elseText
  · subst isElse
    rw [if_pos rfl]
    simp only [Ne.symm other,false_and,true_and,false_or]
    cases more with
    | nil =>
      refine ⟨fun contrary => (nomatch contrary),?_⟩
      rintro ⟨d,c2,more',same,-⟩
      exact absurd same.symm (List.cons_ne_nil _ _)
    | cons d tokens =>
      have plain' : newline ∉ tokens := fun inside => plain (List.mem_cons_of_mem _ (List.mem_cons_of_mem _ inside))
      simp only [bind_ok,put_ok]
      constructor
      · rintro ⟨_,⟨fits,rfl⟩,⟨c,rest⟩,loop,final⟩
        obtain ⟨c2,stop,more',rfl,last,before,rfl,rfl,short⟩ := (collect_ok fits).mp loop
        have isFi : stop = fiText := by
          rcases List.mem_cons.mp last with here | last
          · exact here
          · exact absurd (List.mem_append_right _ (List.mem_singleton.mp last ▸ List.mem_cons_self)) plain'
        rw [← joinSpaces_cons] at short final
        rw [isFi]
        exact ⟨_,c2,more',rfl,fun inside => before _ inside List.mem_cons_self,short,(Except.ok.inj final).symm⟩
      · rintro ⟨d',c2,more',same,noFi,short,rfl⟩
        obtain ⟨here,rfl⟩ := List.cons.inj same
        rw [← here] at short ⊢
        have fits : d.length < 1000 := by
          unfold Room at short
          rw [joinSpaces_cons,List.length_append] at short
          omega
        refine ⟨d,⟨fits,rfl⟩,(joinSpaces (d :: c2),fiText :: more'),(collect_ok fits).mpr ?_,rfl⟩
        refine ⟨c2,fiText,more',rfl,List.mem_cons_self,fun t inside stops => ?_,rfl,joinSpaces_cons d c2,short⟩
        rcases List.mem_cons.mp stops with rfl | stops
        · exact noFi inside
        · exact plain' (List.mem_append_left _ (List.mem_singleton.mp stops ▸ inside))
  · have isFi : stop = fiText := by
      simpa only [List.mem_cons,isElse,notNewline,List.not_mem_nil,or_false,false_or] using member
    subst isFi
    rw [if_neg isElse,if_pos (Or.inl rfl)]
    simp only [isElse,false_and,or_false,true_and,Except.ok.injEq,eq_comm]

theorem commands_ok {result : Option (Text × Text)} (plain : newline ∉ rest) : commands first rest = .ok result ↔
    ∃ command1 command2, result = some (command1,command2) ∧ Completes first rest command1 command2 := by
  unfold commands
  simp only [bind_ok,put_ok]
  constructor
  · rintro ⟨_,⟨fits,rfl⟩,⟨command1,rest'⟩,loop,found,second,final⟩
    obtain ⟨c1,stop,more,rfl,member,before,rfl,rfl,short⟩ := (collect_ok fits).mp loop
    rw [← joinSpaces_cons] at short final
    have plain' : newline ∉ stop :: more := fun inside => plain (List.mem_append_right _ inside)
    have noElse : elseText ∉ c1 := fun inside => before _ inside List.mem_cons_self
    have noFi : fiText ∉ c1 := fun inside => before _ inside (List.mem_cons_of_mem _ List.mem_cons_self)
    rcases (secondCommand_ok member plain').mp second with ⟨rfl,rfl⟩ | ⟨rfl,d,c2,more',rfl,noFi',short',rfl⟩
    · exact ⟨_,[],(Except.ok.inj final).symm,c1,more,noElse,noFi,short,rfl,Or.inl ⟨rfl,rfl⟩⟩
    · exact ⟨_,_,(Except.ok.inj final).symm,c1,more',noElse,noFi,short,rfl,Or.inr ⟨d,c2,more',rfl,noFi',short',rfl⟩⟩
  · rintro ⟨command1,command2,rfl,c1,more,noElse,noFi,short,rfl,ended⟩
    have fits : first.length < 1000 := by
      unfold Room at short
      rw [joinSpaces_cons,List.length_append] at short
      omega
    have loop (stop : Text) (more : List Text) (member : stop ∈ [elseText,fiText,newline]) (shape : rest = c1 ++ stop :: more) :
        collect [elseText,fiText,newline] first rest = .ok (joinSpaces (first :: c1),stop :: more) := by
      refine (collect_ok fits).mpr ⟨c1,stop,more,shape,member,fun t inside stops => ?_,rfl,joinSpaces_cons first c1,short⟩
      simp only [List.mem_cons,List.not_mem_nil,or_false] at stops
      rcases stops with rfl | rfl | rfl
      · exact noElse inside
      · exact noFi inside
      · exact plain (shape ▸ List.mem_append_left _ inside)
    rcases ended with ⟨shape,rfl⟩ | ⟨d,c2,more',shape,noFi',short',rfl⟩
    · have member : fiText ∈ [elseText,fiText,newline] := List.mem_cons_of_mem _ List.mem_cons_self
      have plain' : newline ∉ fiText :: more := fun inside => plain (shape ▸ List.mem_append_right _ inside)
      exact ⟨first,⟨fits,rfl⟩,_,loop _ _ member shape,some [],(secondCommand_ok member plain').mpr (Or.inl ⟨rfl,rfl⟩),rfl⟩
    · have member : elseText ∈ [elseText,fiText,newline] := List.mem_cons_self
      have plain' : newline ∉ elseText :: d :: (c2 ++ fiText :: more') := fun inside => plain (shape ▸ List.mem_append_right _ inside)
      exact ⟨first,⟨fits,rfl⟩,_,loop _ _ member shape,_,
        (secondCommand_ok member plain').mpr (Or.inr ⟨rfl,d,c2,more',rfl,noFi',short',rfl⟩),rfl⟩

theorem ifCommand_ok {word keyword : Text} (plain : newline ∉ first :: rest) :
    ifCommand slots (word :: x :: op :: y :: keyword :: first :: rest) = .ok outcome ↔
      ((identifierText slots x).length < 101 ∧ (identifierText slots y).length < 101) ∧
        if op ≠ equalsText ∧ op ≠ differsText then outcome = .incorrectUsage "invalid operator in if-conditional"
        else if keyword ≠ thenText then outcome = .incorrectUsage "cannot find 'then' in if-conditional"
        else if first = elseText ∨ first = fiText then outcome = .emptyClause
        else ∃ command1 command2, Completes first rest command1 command2 ∧
          outcome = clause (if Holds slots x op y then command1 else command2) := by
  have notNewline : first ≠ newline := fun same => plain (same ▸ List.mem_cons_self)
  rw [ifCommand]
  simp only [bind_ok,put_ok]
  constructor
  · rintro ⟨_,⟨fitsX,rfl⟩,_,⟨fitsY,rfl⟩,answer⟩
    refine ⟨⟨fitsX,fitsY⟩,?_⟩
    split at answer
    · rename_i invalid
      rw [if_pos invalid]
      exact (Except.ok.inj answer).symm
    · rename_i valid
      rw [if_neg valid]
      split at answer
      · rename_i missing
        rw [if_pos missing]
        exact (Except.ok.inj answer).symm
      · rename_i found
        rw [if_neg found]
        split at answer
        · rename_i empty
          rw [if_pos (by simpa only [notNewline,or_false] using empty)]
          exact (Except.ok.inj answer).symm
        · rename_i some
          rw [if_neg (by simpa only [notNewline,or_false] using some)]
          obtain ⟨result,loops,final⟩ := bind_ok.mp answer
          obtain ⟨command1,command2,rfl,completes⟩ :=
            (commands_ok fun inside => plain (List.mem_cons_of_mem _ inside)).mp loops
          exact ⟨command1,command2,completes,(Except.ok.inj final).symm⟩
  · rintro ⟨⟨fitsX,fitsY⟩,answer⟩
    refine ⟨_,⟨fitsX,rfl⟩,_,⟨fitsY,rfl⟩,?_⟩
    split at answer
    · rename_i invalid
      rw [if_pos invalid,answer]
      rfl
    · rename_i valid
      rw [if_neg valid]
      split at answer
      · rename_i missing
        rw [if_pos missing,answer]
        rfl
      · rename_i found
        rw [if_neg found]
        split at answer
        · rename_i empty
          rw [if_pos (by simpa only [notNewline,or_false] using empty),answer]
          rfl
        · rename_i some
          rw [if_neg (by simpa only [notNewline,or_false] using some)]
          obtain ⟨command1,command2,completes,rfl⟩ := answer
          exact bind_ok.mpr ⟨_,(commands_ok fun inside => plain (List.mem_cons_of_mem _ inside)).mpr ⟨_,_,rfl,completes⟩,rfl⟩

/-- The handler comes to an end exactly for the arguments that have one. -/
theorem inside_iff (plain : newline ∉ args) : (∃ outcome, ifCommand slots args = .ok outcome) ↔ Ends slots args := by
  match args with
  | [] | [_] | [_,_] | [_,_,_] | [_,_,_,_] | [_,_,_,_,_] => exact iff_of_true ⟨_,rfl⟩ trivial
  | word :: x :: op :: y :: keyword :: first :: rest =>
    have plain : newline ∉ first :: rest := fun inside => plain (by simp only [List.mem_cons] at inside ⊢; tauto)
    simp only [ifCommand_ok plain,exists_and_left,Ends,and_assoc,Nat.lt_succ_iff]
    refine and_congr_right fun _ => and_congr_right fun _ => ?_
    by_cases invalid : op ≠ equalsText ∧ op ≠ differsText
    · simp only [if_pos invalid,exists_eq]
      exact iff_of_true trivial (Or.inl invalid)
    · by_cases missing : keyword ≠ thenText
      · simp only [if_neg invalid,if_pos missing,exists_eq]
        exact iff_of_true trivial (Or.inr (Or.inl missing))
      · by_cases empty : first = elseText ∨ first = fiText
        · simp only [if_neg invalid,if_neg missing,if_pos empty,exists_eq]
          refine iff_of_true trivial (Or.inr (Or.inr ?_))
          rw [← or_assoc]
          exact Or.inl empty
        · simp only [if_neg invalid,if_neg missing,if_neg empty]
          rw [or_iff_right invalid,or_iff_right missing,← or_assoc,or_iff_right empty]
          constructor
          · rintro ⟨_,command1,command2,completes,-⟩
            exact ⟨command1,command2,completes⟩
          · rintro ⟨command1,command2,completes⟩
            exact ⟨_,command1,command2,completes,rfl⟩

theorem not_stop {tokens : List Text} {t : Text} (noElse : elseText ∉ tokens) (noFi : fiText ∉ tokens) (member : t ∈ tokens) :
    t ∉ [elseText,fiText] := by
  intro stops
  rcases List.mem_cons.mp stops with rfl | stops
  · exact noElse member
  · exact noFi (List.mem_singleton.mp stops ▸ member)

/-- The commands of a conditional without `else`. -/
theorem completes_then {command1 command2 : Text} (noElse : elseText ∉ c1) (noFi : fiText ∉ c1)
    (completes : Completes first (c1 ++ [fiText]) command1 command2) :
    command1 = joinSpaces (first :: c1) ∧ command2 = [] := by
  have other : fiText ≠ elseText := by decide
  have isFi : fiText ∈ [elseText,fiText] := List.mem_cons_of_mem _ List.mem_cons_self
  obtain ⟨c,more,noElse',noFi',-,rfl,⟨shape,rfl⟩ | ⟨d,c2,more',shape,-⟩⟩ := completes
  · obtain ⟨rfl,-⟩ := split_unique shape isFi isFi (fun _ => not_stop noElse noFi) fun _ => not_stop noElse' noFi'
    exact ⟨rfl,rfl⟩
  · have same := split_unique shape isFi List.mem_cons_self (fun _ => not_stop noElse noFi) fun _ => not_stop noElse' noFi'
    exact absurd same.2.1 other

theorem completes_else {command1 command2 d : Text} {c2 : List Text} (noElse : elseText ∉ c1) (noFi : fiText ∉ c1)
    (noFi2 : fiText ∉ c2) (completes : Completes first (c1 ++ elseText :: d :: (c2 ++ [fiText])) command1 command2) :
    command1 = joinSpaces (first :: c1) ∧ command2 = joinSpaces (d :: c2) := by
  have other : elseText ≠ fiText := by decide
  have isElse : elseText ∈ [elseText,fiText] := List.mem_cons_self
  obtain ⟨c,more,noElse',noFi',-,rfl,⟨shape,-⟩ | ⟨d',c',more',shape,noFi2',-,rfl⟩⟩ := completes
  · have same := split_unique shape isElse (List.mem_cons_of_mem _ List.mem_cons_self) (fun _ => not_stop noElse noFi)
      fun _ => not_stop noElse' noFi'
    exact absurd same.2.1 other
  · obtain ⟨rfl,-,same⟩ := split_unique shape isElse isElse (fun _ => not_stop noElse noFi) fun _ => not_stop noElse' noFi'
    obtain ⟨rfl,tail⟩ := List.cons.inj same
    have stop {tokens : List Text} {t : Text} (noFi : fiText ∉ tokens) (member : t ∈ tokens) : t ∉ [fiText] :=
      fun stops => noFi (List.mem_singleton.mp stops ▸ member)
    obtain ⟨rfl,-⟩ := split_unique tail List.mem_cons_self List.mem_cons_self (fun _ => stop noFi2) fun _ => stop noFi2'
    exact ⟨rfl,rfl⟩

theorem joinSpaces_eq_nil (first : Text) (tokens : List Text) : joinSpaces (first :: tokens) = [] ↔ first :: tokens = [[]] := by
  rw [joinSpaces_cons,List.append_eq_nil_iff,List.flatMap_eq_nil_iff,List.cons.injEq]
  refine and_congr_right fun _ => ⟨fun blank => ?_,fun none => ?_⟩
  · exact List.eq_nil_iff_forall_not_mem.mpr fun token member => List.cons_ne_nil _ _ (blank token member)
  · rw [none]
    exact fun token member => absurd member List.not_mem_nil

theorem clause_joinSpaces (first : Text) (tokens : List Text) : clause (joinSpaces (first :: tokens)) =
    .parseInput (joinSpaces (first :: tokens)) ↔ first :: tokens ≠ [[]] := by
  rw [ne_eq,← joinSpaces_eq_nil]
  unfold clause
  split
  · rename_i blank
    exact iff_of_false (fun contrary => (nomatch contrary)) (not_not.mpr blank)
  · rename_i some
    exact iff_of_true rfl some

def elseCommand : Option (List Text) → Text
  | none => []
  | some c2 => joinSpaces c2

/-- The outcome of a complete conditional, when there is one. -/
theorem ifCommand_conditional {c1 : List Text} {c2 : Option (List Text)} (plain : newline ∉ conditional x op y c1 c2)
    (valid : op = equalsText ∨ op = differsText) (isClause : IsClause c1) (isClause2 : ∀ c ∈ c2, IsClause c)
    (ends : ifCommand slots (conditional x op y c1 c2) = .ok outcome) :
    outcome = clause (if Holds slots x op y then joinSpaces c1 else elseCommand c2) := by
  obtain ⟨long,noElse,noFi⟩ := isClause
  have operator : ¬(op ≠ equalsText ∧ op ≠ differsText) := fun both => valid.elim both.1 both.2
  match c1 with
  | first :: c1 =>
    rw [List.mem_cons,not_or] at noElse noFi
    have start : ¬(first = elseText ∨ first = fiText) := fun either => either.elim (Ne.symm noElse.1) (Ne.symm noFi.1)
    match c2 with
    | none =>
      have plain : newline ∉ first :: (c1 ++ [fiText]) := fun inside => plain (List.mem_append_right [ifText,x,op,y,thenText] inside)
      obtain ⟨-,answer⟩ := (ifCommand_ok plain).mp ends
      rw [if_neg operator,if_neg (not_not.mpr rfl),if_neg start] at answer
      obtain ⟨command1,command2,completes,rfl⟩ := answer
      obtain ⟨rfl,rfl⟩ := completes_then noElse.2 noFi.2 completes
      rfl
    | some c2 =>
      obtain ⟨long2,-,noFi2⟩ := isClause2 c2 rfl
      match c2 with
      | d :: c2 =>
        rw [List.mem_cons,not_or] at noFi2
        have plain : newline ∉ first :: (c1 ++ elseText :: d :: (c2 ++ [fiText])) :=
          fun inside => plain (List.mem_append_right [ifText,x,op,y,thenText] inside)
        obtain ⟨-,answer⟩ := (ifCommand_ok plain).mp ends
        rw [if_neg operator,if_neg (not_not.mpr rfl),if_neg start] at answer
        obtain ⟨command1,command2,completes,rfl⟩ := answer
        obtain ⟨rfl,rfl⟩ := completes_else noElse.2 noFi.2 noFi2.2 completes
        rfl

theorem strip_plain (token : Text) : strip token ≠ newline := by
  intro same
  have member : '\n' ∈ strip token := same ▸ List.mem_cons_self
  exact absurd (List.mem_takeWhile_imp member) (by decide)

theorem interpreter_if (accepted : 1 ≤ args.length ∧ args.length ≤ 20) (isIf : (args.map strip).head? = some ifText) :
    interpreter slots args = some (ifCommand slots (args.map strip)) := by
  unfold interpreter
  rw [if_neg (by omega),if_pos isIf]

theorem clause_chosen (chosen : Prop) [Decidable chosen] {c1 : List Text} {c2 : Option (List Text)} (isClause : IsClause c1)
    (isClause2 : ∀ c ∈ c2, IsClause c) :
    clause (if chosen then joinSpaces c1 else elseCommand c2) =
      (if chosen then .parseInput (joinSpaces c1) else elseOutcome c2) ↔ if chosen then c1 ≠ [[]] else c2 ≠ some [[]] := by
  by_cases holds : chosen
  · simp only [if_pos holds]
    match c1, isClause.long with
    | first :: tokens, _ => exact clause_joinSpaces first tokens
  · simp only [if_neg holds]
    match c2 with
    | none => exact iff_of_true rfl (Ne.symm (Option.some_ne_none _))
    | some c2 =>
      match c2, (isClause2 c2 rfl).long with
      | first :: tokens, _ => exact (clause_joinSpaces first tokens).trans (not_congr (Option.some_inj).symm)

/-- The handler keeps to its arguments, and executes the right clause, exactly for the arguments
that end in time and whose clause is not blank. -/
theorem stays_inside_iff (slots : List Slot) (commandArgs : List Text)
    (accepted : 1 ≤ commandArgs.length ∧ commandArgs.length ≤ 20) (isIf : (commandArgs.map strip).head? = some ifText) :
    StaysInside slots commandArgs ↔ Ends slots (commandArgs.map strip) ∧ NotBlank slots (commandArgs.map strip) := by
  have plain : newline ∉ commandArgs.map strip := by
    intro inside
    obtain ⟨token,-,same⟩ := List.mem_map.mp inside
    exact strip_plain token same
  have same : interpreter slots commandArgs = some (ifCommand slots (commandArgs.map strip)) := interpreter_if accepted isIf
  have inside : (∃ outcome, interpreter slots commandArgs = some (.ok outcome)) ↔ Ends slots (commandArgs.map strip) := by
    rw [← inside_iff plain,same]
    simp only [Option.some.injEq]
  -- the two sides speak of the same outcome, where there is one
  have chosen (ends : ∃ outcome, interpreter slots commandArgs = some (.ok outcome)) (x op y : Text) (c1 : List Text)
      (c2 : Option (List Text)) (shape : commandArgs.map strip = conditional x op y c1 c2)
      (valid : op = equalsText ∨ op = differsText) (isClause : IsClause c1) (isClause2 : ∀ c ∈ c2, IsClause c) :
      interpreter slots commandArgs = some (.ok (if Holds slots x op y then .parseInput (joinSpaces c1) else elseOutcome c2)) ↔
        if Holds slots x op y then c1 ≠ [[]] else c2 ≠ some [[]] := by
    obtain ⟨outcome,run⟩ := ends
    have run' := run
    rw [same,shape,Option.some.injEq] at run'
    have result := ifCommand_conditional (shape ▸ plain) valid isClause isClause2 run'
    rw [run,Option.some.injEq,Except.ok.injEq,result]
    exact clause_chosen _ isClause isClause2
  constructor
  · intro stays
    refine ⟨inside.mp stays.inside,fun x op y c1 c2 shape valid isClause isClause2 => ?_⟩
    exact (chosen stays.inside x op y c1 c2 shape valid isClause isClause2).mp
      (stays.clauses x op y c1 c2 shape valid isClause isClause2)
  · rintro ⟨ends,notBlank⟩
    refine ⟨inside.mpr ends,fun x op y c1 c2 shape valid isClause isClause2 => ?_⟩
    exact (chosen (inside.mpr ends) x op y c1 c2 shape valid isClause isClause2).mpr
      (notBlank x op y c1 c2 shape valid isClause isClause2)

end

theorem stays_inside_simple : StaysInside [] [ifText,['a'],equalsText,['a'],thenText,['b'],fiText] := by
  refine (stays_inside_iff [] [ifText,['a'],equalsText,['a'],thenText,['b'],fiText] (by decide) rfl).mpr ⟨?_,?_⟩
  · refine ⟨by decide,by decide,Or.inr (Or.inr (Or.inr (Or.inr ⟨['b'],[],[],[],?_⟩)))⟩
    have room : Room [['b']] := by
      unfold Room
      decide
    exact ⟨List.not_mem_nil,List.not_mem_nil,room,rfl,Or.inl ⟨rfl,rfl⟩⟩
  · intro x op y c1 c2 shape _ isClause _
    split
    · rintro rfl
      have sixth : some ['b'] = some [] := congrArg (fun args => args[5]?) shape
      exact absurd sixth (by decide)
    · rintro rfl
      have length := congrArg List.length shape
      have positive := List.length_pos_iff.mpr isClause.long
      simp only [conditional,List.length_map,List.length_append,List.length_cons,List.length_nil] at length
      omega

/-- `if a == a then b c` has no `fi`, and the loop reads on behind `c`. -/
theorem reads_outside : ¬∀ (slots : List Slot) (commandArgs : List Text), 1 ≤ commandArgs.length ∧ commandArgs.length ≤ 20 →
    (commandArgs.map strip).head? = some ifText → StaysInside slots commandArgs := by
  intro all
  obtain ⟨outcome,run⟩ := (all [] [ifText,['a'],equalsText,['a'],thenText,['b'],['c']] (by decide) rfl).inside
  have fault : interpreter [] [ifText,['a'],equalsText,['a'],thenText,['b'],['c']] = some (.error .outOfRange) := rfl
  rw [fault] at run
  exact nomatch Option.some.inj run

end MyShell.Shell
