import MyShell.Lib.Tokens
import MyShell.Demand.Residence

/-! shell.c and interpreter.c of the demand-paging shell, for the lines of scripts. The commands on variables
are here; the others, which do not touch the shell memory, are a parameter, and so is the output. -/
namespace MyShell.Demand
open Tokens

/-- The sizes fixed by the build: `-D FRAME_STORE_SIZE=...` and `-D VAR_STORE_SIZE=...`. -/
structure Sizes where
  frameStoreSize : Nat
  varStoreSize : Nat

/-- What is behind the commands on variables. `run` and `exec` would come back to the kernel, so
they are not among the others. -/
structure Surroundings (W : Type) where
  print : Text → W → W
  others : List Text → W → Int × W

/-- The errors of the commands on variables. -/
inductive Error where
  | tooManyTokens
  | tooFewTokens
  | nonAlphanumericToken
deriving DecidableEq

def Error.code : Error → Nat
  | tooManyTokens => 4
  | tooFewTokens => 5
  | nonAlphanumericToken => 6

/-- `error_msgs` -/
def Error.message : Error → Text
  | tooManyTokens => "too many tokens".toList
  | tooFewTokens => "too few tokens".toList
  | nonAlphanumericToken => "non-alphanumeric token".toList

inductive Command where
  | fail (error : Error)
  | set (var value : Text)
  | print (var : Text)
  | echo (word : Text)
  | echoVar (var : Text)
  | resetmem
  | other (args : List Text)

def isAlphaNumStr (str : Text) : Bool := !str.isEmpty && str.all Char.isAlphanum

def stripEnd (arg : Text) : Text := arg.takeWhile fun c => c ≠ '\r' ∧ c ≠ '\n'

/-- The choice of `set`. -/
def readSet : List Text → Command
  | name :: word :: words =>
    if isAlphaNumStr name && (word :: words).all isAlphaNumStr then .set name (List.intercalate [' '] (word :: words))
    else .fail .nonAlphanumericToken
  | _ => .fail .tooFewTokens

/-- The choice of `print`. -/
def readPrint : List Text → Command
  | [] => .fail .tooFewTokens
  | [name] => .print name
  | _ => .fail .tooManyTokens

/-- The choice of `echo`, and of `echo` itself. -/
def readEcho : List Text → Command
  | ['$' :: name] => if name.all Char.isAlphanum then .echoVar name else .fail .nonAlphanumericToken
  | [word] => if isAlphaNumStr word then .echo word else .fail .nonAlphanumericToken
  | _ => .fail .tooManyTokens

/-- The choice of `interpreter`. An `echo` without its word would read a word that is not there. -/
def readCommand (args : List Text) : Command :=
  match args.map stripEnd with
  | [] => .fail .tooFewTokens
  | command :: rest =>
    if command = "set".toList then readSet rest
    else if command = "print".toList then readPrint rest
    else if command = "echo".toList ∧ rest ≠ [] then readEcho rest
    else if command = "resetmem".toList then .resetmem
    else .other (command :: rest)

section
variable {W : Type} (z : Sizes) (around : Surroundings W)

def handleError (error : Error) (m : Memory) (world : W) : Int × Memory × W :=
  (error.code,m,around.print ("Bad command: ".toList ++ error.message ++ ['\n']) world)

/-- The slots of the variables, in the order of the loops. -/
def varSlots : List Nat := List.range' z.frameStoreSize z.varStoreSize

def findVar (m : Memory) (name : Text) : Option Nat := (varSlots z).find? fun i => (m i).var == name

def memSetValue (m : Memory) (varIn valueIn : Text) : Memory :=
  match findVar z m varIn with
  | some i => Function.update m i {m i with value := valueIn}
  | none =>
    match findVar z m noneText with
    | some i => Function.update m i ⟨varIn,valueIn⟩
    | none => m

def memGetValue (m : Memory) (varIn : Text) (caller : Char) : Text :=
  match findVar z m varIn with
  | some i => (m i).value
  | none => if caller = 'p' then "Variable does not exist".toList else []

def resetVarZone (m : Memory) : Memory := (varSlots z).foldl memFreeAt m

def interpreter (args : List Text) (m : Memory) (world : W) : Int × Memory × W :=
  match readCommand args with
  | .fail error => handleError around error m world
  | .set var value => (0,memSetValue z m var value,world)
  | .print var => (0,m,around.print (memGetValue z m var 'p' ++ ['\n']) world)
  | .echo word => (0,m,around.print (word ++ ['\n']) world)
  | .echoVar var => (0,m,around.print (memGetValue z m var 'e' ++ ['\n']) world)
  | .resetmem => (0,resetVarZone z m,world)
  | .other args =>
    let (ret,world) := around.others args world
    (ret,m,world)

/-- The loop over the words of a section behind its leading blanks. Each blank ends a word. -/
def splitWords : Text → List Text
  | [] => []
  | c :: text =>
    if c = ' ' then [] :: splitWords text
    else
      match splitWords text with
      | [] => [[c]]
      | word :: words => (c :: word) :: words

/-- The words of a section of a line. -/
def sectionWords (token : Text) : List Text := splitWords (token.dropWhile fun c => c = ' ')

def runSections : List Text → Int → Memory → W → Int × Memory × W
  | [], ret, m, world => (ret,m,world)
  | token :: tokens, _, m, world =>
    let (ret,m,world) := interpreter z around (sectionWords token) m world
    if ret = -1 then (ret,m,world) else runSections tokens ret m world

/-- `parseInput` -/
def parseInput : Shell W := fun line m world => runSections z around (tokens ';' line) 0 m world

/-- The line does not come back to the kernel, and none of its commands returns what stands for a page fault. -/
def Harmless (line : Text) : Prop :=
  ∀ token ∈ tokens ';' line, ∀ args, readCommand (sectionWords token) = .other args →
    args.head? ≠ some "run".toList ∧ args.head? ≠ some "exec".toList ∧ ∀ world, (around.others args world).1 ≠ 1

/-- All commands of the line are on variables, or refused as such. -/
def onVariables (line : Text) : Bool :=
  (tokens ';' line).all fun token => match readCommand (sectionWords token) with
    | .other _ => false
    | _ => true

end

section
variable {W : Type} {z : Sizes} {around : Surroundings W} {left right : Memory × W}

theorem harmless_of_onVariables {line : Text} (plain : onVariables line = true) : Harmless around line := by
  intro token member args read
  have own := List.all_eq_true.mp plain token member
  rw [read] at own
  exact absurd own Bool.false_ne_true

/-- Two results of a command agree, but for frames. -/
structure SameResult (border : Nat) (left right : Int × Memory × W) : Prop where
  ret : left.1 = right.1
  outside : SameOutside border left.2 right.2

theorem findVar_beyond {m : Memory} {name : Text} {i : Nat} (found : findVar z m name = some i) : z.frameStoreSize ≤ i := by
  exact (List.mem_range'_1.mp (List.mem_of_find?_eq_some found)).1

theorem find_congr {α : Type} {l : List α} {p q : α → Bool} (same : ∀ x ∈ l, p x = q x) : l.find? p = l.find? q := by
  induction l with
  | nil => rfl
  | cons x l ih =>
    rw [List.find?_cons,List.find?_cons,same x List.mem_cons_self,ih fun y member => same y (List.mem_cons_of_mem _ member)]

theorem findVar_same (same : SameOutside z.frameStoreSize left right) (name : Text) :
    findVar z left.1 name = findVar z right.1 name := by
  refine find_congr fun i member => ?_
  rw [same.slots i (List.mem_range'_1.mp member).1]

theorem update_same (same : SameOutside z.frameStoreSize left right) (i : Nat) (l r : Slot) (equal : l = r) :
    SameOutside z.frameStoreSize (Function.update left.1 i l,left.2) (Function.update right.1 i r,right.2) where
  slots j beyond := by
    subst equal
    simp only [Function.update_apply]
    split
    · rfl
    · exact same.slots j beyond
  world := same.world

theorem memSetValue_same (same : SameOutside z.frameStoreSize left right) (varIn valueIn : Text) :
    SameOutside z.frameStoreSize (memSetValue z left.1 varIn valueIn,left.2) (memSetValue z right.1 varIn valueIn,right.2) := by
  unfold memSetValue
  rw [findVar_same same varIn,findVar_same same noneText]
  split
  · rename_i i found
    exact update_same same i _ _ (by rw [same.slots i (findVar_beyond found)])
  · split
    · rename_i i _
      exact update_same same i _ _ rfl
    · exact same

theorem memGetValue_same (same : SameOutside z.frameStoreSize left right) (varIn : Text) (caller : Char) :
    memGetValue z left.1 varIn caller = memGetValue z right.1 varIn caller := by
  unfold memGetValue
  rw [findVar_same same varIn]
  split
  · rename_i i found
    rw [same.slots i (findVar_beyond found)]
  · rfl

theorem freeSlots_same (slots : List Nat) (same : SameOutside z.frameStoreSize left right) :
    SameOutside z.frameStoreSize (slots.foldl memFreeAt left.1,left.2) (slots.foldl memFreeAt right.1,right.2) := by
  induction slots generalizing left right with
  | nil => exact same
  | cons i slots ih => exact ih (update_same same i freeSlot freeSlot rfl)

theorem print_same (same : SameOutside z.frameStoreSize left right) (text : Text) :
    SameOutside z.frameStoreSize (left.1,around.print text left.2) (right.1,around.print text right.2) :=
  ⟨same.slots,congrArg (around.print text) same.world⟩

theorem interpreter_same (same : SameOutside z.frameStoreSize left right) (args : List Text) :
    SameResult z.frameStoreSize (interpreter z around args left.1 left.2) (interpreter z around args right.1 right.2) := by
  unfold interpreter
  cases readCommand args with
  | fail error => exact ⟨rfl,print_same same _⟩
  | set var value => exact ⟨rfl,memSetValue_same same _ _⟩
  | print var =>
    simp only [memGetValue_same same]
    exact ⟨rfl,print_same same _⟩
  | echo word => exact ⟨rfl,print_same same _⟩
  | echoVar var =>
    simp only [memGetValue_same same]
    exact ⟨rfl,print_same same _⟩
  | resetmem => exact ⟨rfl,freeSlots_same _ same⟩
  | other args =>
    have ret : (around.others args left.2).1 = (around.others args right.2).1 := by rw [same.world]
    have world : (around.others args left.2).2 = (around.others args right.2).2 := by rw [same.world]
    exact ⟨ret,same.slots,world⟩

/-- The frames, below the variables, stay. -/
def KeepsFrames (border : Nat) (m m' : Memory) : Prop := ∀ i < border, m' i = m i

theorem memSetValue_frames (m : Memory) (varIn valueIn : Text) : KeepsFrames z.frameStoreSize m (memSetValue z m varIn valueIn) := by
  have others {i j : Nat} {name : Text} (below : i < z.frameStoreSize) (found : findVar z m name = some j) : i ≠ j :=
    Nat.ne_of_lt (below.trans_le (findVar_beyond found))
  intro i below
  unfold memSetValue
  cases named : findVar z m varIn with
  | some j => exact Function.update_of_ne (others below named) ..
  | none =>
    cases free : findVar z m noneText with
    | some j => exact Function.update_of_ne (others below free) ..
    | none => rfl

theorem freeSlots_frames (slots : List Nat) (m : Memory) (border : Nat) (beyond : ∀ i ∈ slots, border ≤ i) :
    KeepsFrames border m (slots.foldl memFreeAt m) := by
  induction slots generalizing m with
  | nil => exact fun _ _ => rfl
  | cons j slots ih =>
    intro i below
    have rest := ih (memFreeAt m j) (fun k member => beyond k (List.mem_cons_of_mem _ member)) i below
    exact rest.trans (Function.update_of_ne (Nat.ne_of_lt (below.trans_le (beyond j List.mem_cons_self))) ..)

theorem interpreter_frames (args : List Text) (m : Memory) (world : W) :
    KeepsFrames z.frameStoreSize m (interpreter z around args m world).2.1 := by
  unfold interpreter
  cases readCommand args with
  | set var value => exact memSetValue_frames _ _ _
  | resetmem => exact freeSlots_frames _ _ _ fun i member => (List.mem_range'_1.mp member).1
  | fail | print | echo | echoVar | other => exact fun _ _ => rfl

/-- Only one of the other commands could return 1. -/
theorem interpreter_result (args : List Text) (m : Memory) (world : W)
    (others : ∀ other, readCommand args = .other other → ∀ world, (around.others other world).1 ≠ 1) :
    (interpreter z around args m world).1 ≠ 1 := by
  have zero : (0 : Int) ≠ 1 := by decide
  unfold interpreter
  cases read : readCommand args with
  | fail error =>
    have code : (error.code : Int) ≠ 1 := by cases error <;> decide
    exact code
  | other args => exact others args read world
  | set | print | echo | echoVar | resetmem => exact zero

theorem runSections_same (tokens : List Text) (ret : Int) (same : SameOutside z.frameStoreSize left right) :
    SameOutside z.frameStoreSize (runSections z around tokens ret left.1 left.2).2
      (runSections z around tokens ret right.1 right.2).2 := by
  induction tokens generalizing ret left right with
  | nil => exact same
  | cons token tokens ih =>
    have first : SameResult z.frameStoreSize (interpreter z around (sectionWords token) left.1 left.2)
      (interpreter z around (sectionWords token) right.1 right.2) := interpreter_same same _
    obtain ⟨equal,outside⟩ := first
    unfold runSections
    simp only [equal]
    split
    · exact outside
    · exact ih _ outside

theorem runSections_frames (tokens : List Text) (ret : Int) (m : Memory) (world : W) :
    KeepsFrames z.frameStoreSize m (runSections z around tokens ret m world).2.1 := by
  induction tokens generalizing ret m world with
  | nil => exact fun _ _ => rfl
  | cons token tokens ih =>
    have first : KeepsFrames z.frameStoreSize m (interpreter z around (sectionWords token) m world).2.1 :=
      interpreter_frames _ _ _
    unfold runSections
    simp only
    split
    · exact first
    · exact fun i below => (ih _ _ _ i below).trans (first i below)

theorem runSections_result (tokens : List Text) (ret : Int) (m : Memory) (world : W) (start : ret ≠ 1)
    (others : ∀ token ∈ tokens, ∀ m world, (interpreter z around (sectionWords token) m world).1 ≠ 1) :
    (runSections z around tokens ret m world).1 ≠ 1 := by
  induction tokens generalizing ret m world with
  | nil => exact start
  | cons token tokens ih =>
    have first := others token List.mem_cons_self m world
    unfold runSections
    simp only
    split
    · exact first
    · exact ih _ _ _ first fun token member => others token (List.mem_cons_of_mem _ member)

/-- The lines of scripts, as the shell runs them, leave the frames alone. -/
theorem Harmless.quiet {line : Text} (harmless : Harmless around line) :
    Quiet z.frameStoreSize (parseInput z around) line where
  result m world := runSections_result _ _ m world (by decide) fun token member m world =>
    interpreter_result _ m world fun args read => (harmless token member args read).2.2
  frames m world := runSections_frames _ _ m world
  blind _ _ same := runSections_same _ _ same

end
end MyShell.Demand
