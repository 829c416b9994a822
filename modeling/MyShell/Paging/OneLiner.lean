import Mathlib.Data.List.Chain
import Mathlib.Data.List.TakeWhile
import MyShell.Paging.Kernel

/-! The scanning loops of `parseInput` with the calls they make, for any interpreter. A `;`
where no word ends is never passed over. -/
namespace MyShell.Paging

/-- What a call of `parseInput` did: the words of each call of the interpreter, and the last result. -/
structure Parsed (σ : Type) where
  calls : List (List Text)
  errorCode : Int
  state : σ

section
variable {σ : Type} (interpreter : List Text → σ → Int × σ)

/-- The call behind the loop. -/
def lastCall (words : List Text) (s : σ) : Parsed σ := ⟨[words],(interpreter words s).1,(interpreter words s).2⟩

/-- The loop at index `a`, where `ui` is what follows; lists stand for the arrays `tmp` and
`words`. A loop that never ends runs out of `turns`. -/
def scanLoop : Nat → Nat → Text → List Text → σ → Option (Parsed σ)
  | 0, _, _, _, _ => none
  | turns+1, a, ui, words, s =>
    if 1000 ≤ a ∨ ui = [] ∨ ui.head? = some '\n' then some (lastCall interpreter words s)
    else
      let ui' := ui.dropWhile (· = ' ')
      let a := a+(ui.length-ui'.length)
      if ui' = [] then some (lastCall interpreter words s)
      else
        let word := (ui'.take (1000-a)).takeWhile fun c => !endsWord c
        let rest := ui'.drop word.length
        let a := a+word.length
        -- `continue`: the loop comes back with the same index
        if word = [] then scanLoop turns a rest words s
        else if rest.head? = some ';' then
          let result := interpreter (words ++ [word]) s
          if result.1 = -1 then some ⟨[words ++ [word]],-1,result.2⟩
          else
            let spaces := (rest.tail.take (1000-(a+1))).takeWhile (· = ' ')
            (scanLoop turns (a+1+spaces.length) (rest.tail.drop spaces.length) [] result.2).map fun p =>
              {p with calls := (words ++ [word]) :: p.calls}
        else scanLoop turns (a+1) rest.tail (words ++ [word]) s

def scanInputWith (turns : Nat) (ui : Text) (s : σ) : Option (Parsed σ) :=
  let spaces := (ui.take 1000).takeWhile (· = ' ')
  scanLoop interpreter turns spaces.length (ui.drop spaces.length) [] s

/-- Commands passed one after the other, up to one whose result is -1. -/
def passCommands : List (List Text) → σ → Parsed σ
  | [], s => ⟨[],0,s⟩
  | [words], s => lastCall interpreter words s
  | words :: next :: more, s =>
    let result := interpreter words s
    if result.1 = -1 then ⟨[words],-1,result.2⟩
    else
      let p := passCommands (next :: more) result.2
      {p with calls := words :: p.calls}

end

/-- The maximal runs of characters other than space, `;` and newline. -/
def splitWords (command : Text) : List Text := (command.splitOnP endsWord).filter fun word => !word.isEmpty

/-- The words of each command that a `;` ends, and of what is behind the last one. -/
def lineCommands (ui : Text) : List (List Text) := (ui.splitOn ';').map splitWords

/-- The loops end, and every command is passed once, in order. -/
def Passes {σ : Type} (interpreter : List Text → σ → Int × σ) (ui : Text) (s : σ) : Prop :=
  ∃ turns, scanInputWith interpreter turns ui s = some (passCommands interpreter (lineCommands ui) s)

/-- Every `;` ends a word: none is at the start, and none behind a space or another one. -/
def WordsEnd (ui : Text) : Prop := ui.head? ≠ some ';' ∧ ui.IsChain fun c d => d = ';' → c ≠ ' ' ∧ c ≠ ';'

instance (ui : Text) : Decidable (WordsEnd ui) := inferInstanceAs (Decidable (_ ∧ _))

section
variable {u v word : Text} {c : Char}

theorem splitWords_append (u v : Text) (c : Char) (ends : endsWord c = true) :
    splitWords (u ++ c :: v) = splitWords u ++ splitWords v := by
  unfold splitWords
  rw [List.splitOnP_append_cons u v ends,List.filter_append]

theorem splitWords_word (word : Text) (plain : ∀ c ∈ word, endsWord c = false) (long : word ≠ []) :
    splitWords word = [word] := by
  unfold splitWords
  rw [List.splitOnP_eq_singleton plain,List.filter_singleton,List.isEmpty_eq_false_iff.mpr long]
  rfl

theorem splitWords_spaces (spaces v : Text) (blank : ∀ c ∈ spaces, c = ' ') : splitWords (spaces ++ v) = splitWords v := by
  induction spaces with
  | nil => rfl
  | cons c spaces ih =>
    obtain rfl := blank c List.mem_cons_self
    exact (splitWords_append [] _ ' ' rfl).trans (ih fun c member => blank c (List.mem_cons_of_mem _ member))

/-- A part without `;` in front joins the first command. -/
theorem splitOn_join (u v : Text) (plain : ';' ∉ u) : (u ++ v).splitOn ';' = (v.splitOn ';').modifyHead (u ++ ·) := by
  induction u with
  | nil => cases split : v.splitOn ';' <;> simp [split]
  | cons c u ih =>
    have other : (c == ';') = false := beq_eq_false_iff_ne.mpr fun same => plain (same ▸ List.mem_cons_self)
    rw [List.cons_append,List.splitOn_cons_eq_if_modifyHead,other,ih fun member => plain (List.mem_cons_of_mem _ member)]
    cases split : v.splitOn ';' <;> simp

theorem lineCommands_spaces (spaces v : Text) (blank : ∀ c ∈ spaces, c = ' ') :
    lineCommands (spaces ++ v) = lineCommands v := by
  have plain : ';' ∉ spaces := fun member => absurd (blank _ member) (by decide)
  unfold lineCommands
  rw [splitOn_join spaces v plain]
  cases v.splitOn ';' with
  | nil => rfl
  | cons first more =>
    rw [List.modifyHead_cons,List.map_cons,List.map_cons,splitWords_spaces spaces first blank]

theorem endsWord_semicolon {word : Text} (plain : ∀ c ∈ word, endsWord c = false) : ';' ∉ word :=
  fun member => absurd (plain _ member) (by decide)

theorem lineCommands_word (word v : Text) (plain : ∀ c ∈ word, endsWord c = false) (long : word ≠ []) (c : Char)
    (blank : c = ' ' ∨ c = '\n') : lineCommands (word ++ c :: v) = (lineCommands v).modifyHead (word :: ·) := by
  have ends : endsWord c = true := by rcases blank with rfl | rfl <;> rfl
  have apart : ';' ∉ word ++ [c] := by
    rw [List.mem_append,not_or,List.mem_singleton]
    refine ⟨endsWord_semicolon plain,?_⟩
    rcases blank with rfl | rfl <;> decide
  unfold lineCommands
  rw [List.append_cons,splitOn_join _ v apart]
  cases v.splitOn ';' with
  | nil => rfl
  | cons first more =>
    rw [List.modifyHead_cons,List.map_cons,List.map_cons,List.modifyHead_cons,List.append_assoc,List.singleton_append,
      splitWords_append word first c ends,splitWords_word word plain long,List.singleton_append]

theorem lineCommands_last (word : Text) (plain : ∀ c ∈ word, endsWord c = false) (long : word ≠ []) :
    lineCommands word = [[word]] := by
  unfold lineCommands
  rw [List.splitOn_eq_singleton (endsWord_semicolon plain),List.map_singleton,splitWords_word word plain long]

theorem lineCommands_ended (word v : Text) (plain : ∀ c ∈ word, endsWord c = false) (long : word ≠ []) :
    lineCommands (word ++ ';' :: v) = [word] :: lineCommands v := by
  unfold lineCommands
  rw [List.splitOn_append_cons_of_beq word v (beq_self_eq_true _),List.splitOn_eq_singleton (endsWord_semicolon plain),
    List.map_append,List.map_singleton,splitWords_word word plain long,List.singleton_append]

theorem WordsEnd.append (left : WordsEnd u) (right : WordsEnd v) : WordsEnd (u ++ v) := by
  refine ⟨?_,List.isChain_append.mpr ⟨left.2,right.2,fun c _ d first same => absurd (same ▸ first) right.1⟩⟩
  cases u with
  | nil => exact right.1
  | cons c u => exact left.1

/-- Behind a space or a `;` there is nothing to see of what was before. -/
theorem WordsEnd.suffix (ends : WordsEnd (u ++ c :: v)) (blank : c = ' ' ∨ c = ';') : WordsEnd v := by
  rw [List.append_cons] at ends
  obtain ⟨-,right,joint⟩ := List.isChain_append.mp ends.2
  refine ⟨fun first => ?_,right⟩
  have apart := joint c (by simp) ';' first rfl
  rcases blank with rfl | rfl
  · exact apart.1 rfl
  · exact apart.2 rfl

theorem wordsEnd_plain (plain : ';' ∉ u) : WordsEnd u := by
  induction u with
  | nil => exact ⟨(Option.some_ne_none _).symm,List.isChain_nil⟩
  | cons c u ih =>
    rw [List.mem_cons,not_or] at plain
    have rest := ih plain.2
    refine ⟨fun first => plain.1 (Option.some.inj first).symm,List.isChain_cons.mpr ⟨fun d next same => ?_,rest.2⟩⟩
    exact absurd (same ▸ next) rest.1

/-- A `;` right behind a word. -/
theorem wordsEnd_word (plain : ∀ c ∈ word, endsWord c = false) (long : word ≠ []) : WordsEnd (word ++ [';']) := by
  refine ⟨?_,List.isChain_append.mpr ⟨(wordsEnd_plain (endsWord_semicolon plain)).2,List.isChain_singleton _,
    fun c last d _ _ => ?_⟩⟩
  · cases word with
    | nil => exact absurd rfl long
    | cons c word => exact fun first => endsWord_semicolon plain (Option.some.inj first ▸ List.mem_cons_self)
  · have inner := plain c (List.mem_of_getLast? last)
    constructor
    · rintro rfl
      exact Bool.false_ne_true inner.symm
    · rintro rfl
      exact Bool.false_ne_true inner.symm

theorem wordsEnd_spaces (spaces v : Text) (blank : ∀ c ∈ spaces, c = ' ') : WordsEnd (spaces ++ v) ↔ WordsEnd v := by
  induction spaces with
  | nil => exact Iff.rfl
  | cons c spaces ih =>
    have inner := ih fun c member => blank c (List.mem_cons_of_mem _ member)
    obtain rfl := blank c List.mem_cons_self
    refine Iff.trans ⟨fun ends => ?_,fun ends => ?_⟩ inner
    · exact WordsEnd.suffix (u := []) ends (Or.inl rfl)
    · exact (wordsEnd_plain (u := [' ']) (by decide)).append ends

/-- A line: what `fgets` delivers has no newline before its end. -/
def IsLine (ui : Text) : Prop := '\n' ∉ ui.dropLast

instance (ui : Text) : Decidable (IsLine ui) := inferInstanceAs (Decidable (¬_))

theorem IsLine.suffix (line : IsLine (u ++ v)) : IsLine v := by
  unfold IsLine at line ⊢
  rcases eq_or_ne v [] with rfl | some
  · exact List.not_mem_nil
  · rw [List.dropLast_append_of_ne_nil some,List.mem_append,not_or] at line
    exact line.2

theorem IsLine.newline (line : IsLine ('\n' :: v)) : v = [] := by
  cases v with
  | nil => rfl
  | cons c v => exact absurd List.mem_cons_self line

/-- What the loop finds: spaces, and behind them the end, a `;` or a word. -/
inductive LoopHead : Text → Prop
  | blank (spaces : Text) (blank : ∀ c ∈ spaces, c = ' ') : LoopHead spaces
  | newline (spaces : Text) (blank : ∀ c ∈ spaces, c = ' ') : LoopHead (spaces ++ ['\n'])
  | semicolon (spaces v : Text) (blank : ∀ c ∈ spaces, c = ' ') : LoopHead (spaces ++ ';' :: v)
  | word (spaces word rest : Text) (blank : ∀ c ∈ spaces, c = ' ') (plain : ∀ c ∈ word, endsWord c = false)
      (long : word ≠ []) (ended : ∀ c, rest.head? = some c → endsWord c = true) : LoopHead (spaces ++ (word ++ rest))

theorem IsLine.loopHead (line : IsLine u) : LoopHead u := by
  have blank : ∀ c ∈ u.takeWhile (· = ' '), c = ' ' := fun c member => by
    simpa using List.mem_takeWhile_imp member
  rw [← List.takeWhile_append_dropWhile (p := (· = ' ')) (l := u)] at line ⊢
  generalize u.takeWhile (· = ' ') = spaces at blank line
  have first : ∀ c, (u.dropWhile (· = ' ')).head? = some c → c ≠ ' ' := by
    intro c head same
    have other := List.head?_dropWhile_not (· = ' ') u
    rw [head] at other
    exact absurd (decide_eq_true same) (by simpa using other)
  generalize u.dropWhile (· = ' ') = v at first line
  cases v with
  | nil => exact (List.append_nil spaces).symm ▸ .blank spaces blank
  | cons c v =>
    by_cases ends : endsWord c = true
    · unfold endsWord at ends
      simp only [Bool.or_eq_true,beq_iff_eq] at ends
      rcases ends with (rfl | rfl) | rfl
      · exact .semicolon spaces v blank
      · obtain rfl := line.suffix.newline
        exact .newline spaces blank
      · exact absurd rfl (first ' ' rfl)
    · rw [← List.takeWhile_append_dropWhile (p := fun c => !endsWord c) (l := c :: v)]
      refine .word spaces _ _ blank (fun d member => ?_) ?_ fun d head => ?_
      · simpa using List.mem_takeWhile_imp member
      · rw [List.takeWhile_cons_of_pos (by simpa using ends)]
        exact List.cons_ne_nil _ _
      · have other := List.head?_dropWhile_not (fun c => !endsWord c) (c :: v)
        rw [head] at other
        simpa using other

end

section
variable {σ : Type} (interpreter : List Text → σ → Int × σ)

theorem dropWhile_spaces (spaces v : Text) (blank : ∀ c ∈ spaces, c = ' ') (first : ∀ c, v.head? = some c → c ≠ ' ') :
    (spaces ++ v).dropWhile (· = ' ') = v := by
  induction spaces with
  | nil =>
    cases v with
    | nil => rfl
    | cons c v => exact List.dropWhile_cons_of_neg (by simpa using first c rfl)
  | cons c spaces ih =>
    rw [List.cons_append,List.dropWhile_cons_of_pos (by simpa using blank c List.mem_cons_self)]
    exact ih fun c member => blank c (List.mem_cons_of_mem _ member)

theorem takeWhile_spaces (spaces v : Text) (blank : ∀ c ∈ spaces, c = ' ') (first : ∀ c, v.head? = some c → c ≠ ' ') :
    (spaces ++ v).takeWhile (· = ' ') = spaces := by
  have whole := List.takeWhile_append_dropWhile (p := (· = ' ')) (l := spaces ++ v)
  rw [dropWhile_spaces spaces v blank first] at whole
  exact List.append_cancel_right whole

theorem takeWhile_word (word rest : Text) (plain : ∀ c ∈ word, endsWord c = false)
    (ended : ∀ c, rest.head? = some c → endsWord c = true) :
    (word ++ rest).takeWhile (fun c => !endsWord c) = word := by
  induction word with
  | nil =>
    cases rest with
    | nil => rfl
    | cons c rest => exact List.takeWhile_cons_of_neg (by simpa using ended c rfl)
  | cons c word ih =>
    rw [List.cons_append,List.takeWhile_cons_of_pos (by simpa using plain c List.mem_cons_self),
      ih fun c member => plain c (List.mem_cons_of_mem _ member)]

theorem drop_spaces (v : Text) : v.drop (v.takeWhile (· = ' ')).length = v.dropWhile (· = ' ') := by
  have parts : (v.takeWhile (· = ' ') ++ v.dropWhile (· = ' ')).drop (v.takeWhile (· = ' ')).length =
    v.dropWhile (· = ' ') := List.drop_left
  rw [List.takeWhile_append_dropWhile] at parts
  exact parts

variable {turns a : Nat} {ui : Text} {words : List Text} {s : σ}

theorem scanLoop_blank (spaces : Text) (blank : ∀ c ∈ spaces, c = ' ') :
    scanLoop interpreter (turns+1) a spaces words s = some (lastCall interpreter words s) := by
  have none := dropWhile_spaces spaces [] blank (fun c head => absurd head.symm (Option.some_ne_none _))
  rw [List.append_nil] at none
  unfold scanLoop
  rw [none]
  simp only [if_true,ite_self]

theorem scanLoop_newline (v : Text) : scanLoop interpreter (turns+1) a ('\n' :: v) words s =
    some (lastCall interpreter words s) := by
  rw [scanLoop]
  exact if_pos (Or.inr (Or.inr rfl))

/-- A pass that finds no word leaves the loop where it is. -/
theorem scanLoop_idle (spaces v : Text) (c : Char) (blank : ∀ c ∈ spaces, c = ' ') (ends : endsWord c = true) (other : c ≠ ' ')
    (goesOn : ¬(1000 ≤ a ∨ (spaces ++ c :: v).head? = some '\n')) :
    scanLoop interpreter (turns+1) a (spaces ++ c :: v) words s =
      scanLoop interpreter turns (a+spaces.length) (c :: v) words s := by
  have spaced := dropWhile_spaces spaces (c :: v) blank fun d head => Option.some.inj head ▸ other
  have size : (spaces ++ c :: v).length - (c :: v).length = spaces.length := by
    rw [List.length_append,Nat.add_sub_cancel]
  have nonempty : spaces ++ c :: v ≠ [] := List.append_ne_nil_of_right_ne_nil _ (List.cons_ne_nil _ _)
  have stop : ((c :: v).take (1000-(a+spaces.length))).takeWhile (fun c => !endsWord c) = [] := by
    cases 1000-(a+spaces.length) with
    | zero => rfl
    | succ n => exact List.takeWhile_cons_of_neg (by simpa using ends)
  rw [not_or] at goesOn
  rw [scanLoop,if_neg fun past => past.elim goesOn.1 fun past => past.elim nonempty goesOn.2]
  simp only [spaced,size,if_neg (List.cons_ne_nil c v),stop,if_true,List.length_nil,List.drop_zero,Nat.add_zero]

/-- A pass that finds a word. -/
theorem scanLoop_word (spaces word rest : Text) (blank : ∀ c ∈ spaces, c = ' ') (plain : ∀ c ∈ word, endsWord c = false)
    (long : word ≠ []) (ended : ∀ c, rest.head? = some c → endsWord c = true)
    (short : a + (spaces ++ (word ++ rest)).length < 1000) :
    scanLoop interpreter (turns+1) a (spaces ++ (word ++ rest)) words s =
      if rest.head? = some ';' then
        if (interpreter (words ++ [word]) s).1 = -1 then
          some ⟨[words ++ [word]],-1,(interpreter (words ++ [word]) s).2⟩
        else
          (scanLoop interpreter turns (a+spaces.length+word.length+1+(rest.tail.takeWhile (· = ' ')).length)
            (rest.tail.dropWhile (· = ' ')) [] (interpreter (words ++ [word]) s).2).map fun p =>
              {p with calls := (words ++ [word]) :: p.calls}
      else scanLoop interpreter turns (a+spaces.length+word.length+1) rest.tail (words ++ [word]) s := by
  obtain ⟨c,w,rfl⟩ := List.exists_cons_of_ne_nil long
  have letter := plain c List.mem_cons_self
  have spaced := dropWhile_spaces spaces (c :: w ++ rest) blank fun d head same => by
    rw [← Option.some.inj head] at same
    exact Bool.false_ne_true (letter.symm.trans (same ▸ rfl))
  have size : (spaces ++ (c :: w ++ rest)).length - (c :: w ++ rest).length = spaces.length := by
    rw [List.length_append,Nat.add_sub_cancel]
  have total : (spaces ++ (c :: w ++ rest)).length = spaces.length + ((c :: w).length + rest.length) := by
    rw [List.length_append,List.length_append]
  have tail : rest.tail.length = rest.length - 1 := List.length_tail
  have whole : (c :: w ++ rest).take (1000-(a+spaces.length)) = c :: w ++ rest :=
    List.take_of_length_le (by rw [List.length_append]; omega)
  have after : rest.tail.take (1000-(a+spaces.length+(c :: w).length+1)) = rest.tail :=
    List.take_of_length_le (by omega)
  have goesOn : ¬(1000 ≤ a ∨ spaces ++ (c :: w ++ rest) = [] ∨ (spaces ++ (c :: w ++ rest)).head? = some '\n') := by
    rintro (past | empty | newline)
    · omega
    · exact List.cons_ne_nil c w (List.append_eq_nil_iff.mp (List.append_eq_nil_iff.mp empty).2).1
    · cases spaces with
      | nil => exact Bool.false_ne_true (letter.symm.trans (Option.some.inj newline ▸ rfl))
      | cons d spaces =>
        have same := blank d List.mem_cons_self
        rw [Option.some.inj newline] at same
        exact absurd same (by decide)
  rw [scanLoop,if_neg goesOn]
  simp only [spaced,size,whole,takeWhile_word (c :: w) rest plain ended,List.drop_left,
    if_neg (List.append_ne_nil_of_left_ne_nil (List.cons_ne_nil c w) rest),if_neg (List.cons_ne_nil c w),after,drop_spaces]

theorem lineCommands_ne_nil (ui : Text) : lineCommands ui ≠ [] := by
  unfold lineCommands
  rw [ne_eq,List.map_eq_nil_iff]
  exact List.splitOn_ne_nil ';' ui

theorem passCommands_cons (first : List Text) (more : List (List Text)) (nonempty : more ≠ []) (s : σ) :
    passCommands interpreter (first :: more) s =
      if (interpreter first s).1 = -1 then ⟨[first],-1,(interpreter first s).2⟩
      else
        {passCommands interpreter more (interpreter first s).2 with
          calls := first :: (passCommands interpreter more (interpreter first s).2).calls} := by
  cases more with
  | nil => exact absurd rfl nonempty
  | cons next more => rfl

theorem modifyHead_nothing (commands : List (List Text)) : commands.modifyHead ([] ++ ·) = commands := by
  cases commands <;> rfl

theorem wordsEnd_newline : WordsEnd ['\n'] := by decide

/-- The character behind a word that no `;` ends. -/
theorem lineCommands_rest (word rest : Text) (plain : ∀ c ∈ word, endsWord c = false) (long : word ≠ [])
    (ended : ∀ c, rest.head? = some c → endsWord c = true) :
    lineCommands (word ++ rest) =
      if rest.head? = some ';' then [word] :: lineCommands rest.tail else (lineCommands rest.tail).modifyHead (word :: ·) := by
  cases rest with
  | nil => rw [List.append_nil,lineCommands_last word plain long]; rfl
  | cons c v =>
    by_cases semicolon : c = ';'
    · subst semicolon
      rw [List.head?_cons,if_pos rfl,lineCommands_ended word v plain long]
      rfl
    · have ends := ended c rfl
      unfold endsWord at ends
      simp only [Bool.or_eq_true,beq_iff_eq] at ends
      rw [List.head?_cons,if_neg fun head => semicolon (Option.some.inj head),
        lineCommands_word word v plain long c (ends.elim (fun early => Or.inr (early.resolve_left semicolon)) Or.inl)]
      rfl

/-- Behind a word and the character that ends it, up to the next word if that is a `;`. -/
theorem WordsEnd.rest {spaces rest : Text} (ends : WordsEnd (spaces ++ (word ++ rest))) (blank : ∀ c ∈ spaces, c = ' ')
    (line : IsLine rest) (ended : ∀ c, rest.head? = some c → endsWord c = true) : WordsEnd rest.tail := by
  rw [wordsEnd_spaces spaces _ blank] at ends
  cases rest with
  | nil => exact wordsEnd_plain List.not_mem_nil
  | cons c v =>
    have kind := ended c rfl
    unfold endsWord at kind
    simp only [Bool.or_eq_true,beq_iff_eq] at kind
    rcases kind with (rfl | rfl) | rfl
    · exact ends.suffix (Or.inr rfl)
    · obtain rfl := line.newline
      exact wordsEnd_plain List.not_mem_nil
    · exact ends.suffix (Or.inl rfl)

theorem WordsEnd.of_rest {spaces rest : Text} (after : WordsEnd rest.tail) (blank : ∀ c ∈ spaces, c = ' ')
    (plain : ∀ c ∈ word, endsWord c = false) (long : word ≠ []) : WordsEnd (spaces ++ (word ++ rest)) := by
  rw [wordsEnd_spaces spaces _ blank]
  cases rest with
  | nil =>
    rw [List.append_nil]
    exact wordsEnd_plain (endsWord_semicolon plain)
  | cons c v =>
    rw [List.append_cons]
    refine WordsEnd.append ?_ after
    by_cases semicolon : c = ';'
    · exact semicolon ▸ wordsEnd_word plain long
    · refine wordsEnd_plain fun member => ?_
      rcases List.mem_append.mp member with inner | last
      · exact endsWord_semicolon plain inner
      · exact semicolon (List.mem_singleton.mp last).symm

theorem skipSpaces (v : Text) : v = v.takeWhile (· = ' ') ++ v.dropWhile (· = ' ') ∧ ∀ c ∈ v.takeWhile (· = ' '), c = ' ' :=
  ⟨List.takeWhile_append_dropWhile.symm,fun c member => by simpa using List.mem_takeWhile_imp member⟩

/-- The loop passes every command, if each `;` ends a word. -/
theorem scanLoop_passes (short : ui ≠ [] → a + ui.length < 1000) (line : IsLine ui) (ends : WordsEnd ui)
    (enough : ui.length < turns) :
    scanLoop interpreter turns a ui words s =
      some (passCommands interpreter ((lineCommands ui).modifyHead (words ++ ·)) s) := by
  have nothing : lineCommands [] = [[]] := rfl
  induction turns generalizing a ui words s with
  | zero => exact absurd enough (Nat.not_lt_zero _)
  | succ turns ih =>
    cases line.loopHead with
    | blank spaces blank =>
      have none := lineCommands_spaces ui [] blank
      rw [List.append_nil] at none
      rw [scanLoop_blank interpreter ui blank,none,nothing,List.modifyHead_cons,List.append_nil]
      rfl
    | newline spaces blank =>
      have none : lineCommands ['\n'] = [[]] := rfl
      rw [lineCommands_spaces spaces ['\n'] blank]
      cases spaces with
      | nil =>
        rw [List.nil_append,scanLoop_newline,none,List.modifyHead_cons,List.append_nil]
        rfl
      | cons c spaces =>
        have inside := short (List.cons_ne_nil _ _)
        rw [List.length_append,List.length_singleton] at inside enough
        rw [scanLoop_idle interpreter (c :: spaces) [] '\n' blank rfl (by decide) (by
          rw [List.length_cons] at inside
          rintro (past | newline)
          · omega
          · have same := blank c List.mem_cons_self
            rw [Option.some.inj newline] at same
            exact absurd same (by decide))]
        rw [List.length_cons] at enough inside
        refine ih (fun _ => ?_) (line.suffix) wordsEnd_newline ?_
        · rw [List.length_singleton,List.length_cons]
          exact inside
        · rw [List.length_singleton]
          omega
    | semicolon spaces v blank =>
      rw [wordsEnd_spaces spaces _ blank] at ends
      exact absurd rfl ends.1
    | word spaces word rest blank plain long ended =>
      have inside := short (by simp [long])
      have after := ends.rest blank line.suffix.suffix ended
      have total : (spaces ++ (word ++ rest)).length = spaces.length + (word.length + rest.length) := by
        rw [List.length_append,List.length_append]
      have tail : rest.tail.length = rest.length - 1 := List.length_tail
      have letters : 0 < word.length := List.length_pos_iff.mpr long
      have lines : IsLine rest.tail := by
        cases rest with
        | nil => exact List.not_mem_nil
        | cons c v => exact IsLine.suffix (u := [c]) line.suffix.suffix
      rw [scanLoop_word interpreter spaces word rest blank plain long ended inside,lineCommands_spaces spaces _ blank,
        lineCommands_rest word rest plain long ended]
      by_cases semicolon : rest.head? = some ';'
      · obtain ⟨parts,spaced⟩ := skipSpaces rest.tail
        have length := congrArg List.length parts
        rw [List.length_append] at length
        have same := lineCommands_spaces _ (rest.tail.dropWhile (· = ' ')) spaced
        rw [← parts] at same
        have after' := after
        rw [parts,wordsEnd_spaces _ _ spaced] at after'
        rw [if_pos semicolon,if_pos semicolon,List.modifyHead_cons,passCommands_cons _ _ _ (lineCommands_ne_nil _)]
        split
        · rfl
        · have step := @ih (a+spaces.length+word.length+1+(rest.tail.takeWhile (· = ' ')).length)
            (rest.tail.dropWhile (· = ' ')) [] (interpreter (words ++ [word]) s).2
            (fun more => by have := List.length_pos_iff.mpr more; omega)
            (IsLine.suffix (parts ▸ lines)) after' (by omega)
          rw [step,modifyHead_nothing,same]
          rfl
      · rw [if_neg semicolon,if_neg semicolon]
        have step := @ih (a+spaces.length+word.length+1) rest.tail (words ++ [word]) s
          (fun more => by have := List.length_pos_iff.mpr more; omega) lines after (by omega)
        rw [step]
        cases lineCommands rest.tail with
        | nil => rfl
        | cons first more => rw [List.modifyHead_cons,List.modifyHead_cons,List.modifyHead_cons,List.append_assoc,List.singleton_append]

end

section
variable {σ : Type} {turns a : Nat} {ui : Text} {words : List Text} {s : σ}

/-- Without a result of -1 the loop makes the calls that `scanInput` lists. -/
theorem scanLoop_calls (interpreter : List Text → σ → Int × σ) (quiet : ∀ words s, (interpreter words s).1 ≠ -1) :
    (scanLoop interpreter turns a ui words s).map Parsed.calls = scanInput turns a ui words := by
  induction turns generalizing a ui words s with
  | zero => rfl
  | succ turns ih =>
    rw [scanLoop,scanInput]
    simp only [if_neg (quiet _ _)]
    split
    · rfl
    · split
      · rfl
      · split
        · exact ih
        · split
          · rw [← ih,Option.map_map,Option.map_map]
            rfl
          · exact ih

/-- At a `;` that ends no word the loop turns for ever, whatever the calls before it return. -/
theorem scanLoop_stuck (interpreter : List Text → σ → Int × σ) (quiet : ∀ words s, (interpreter words s).1 ≠ -1)
    (short : a + ui.length < 1000) (line : IsLine ui) (bad : ¬WordsEnd ui) :
    scanLoop interpreter turns a ui words s = none := by
  induction turns generalizing a ui words s with
  | zero => rfl
  | succ turns ih =>
    cases line.loopHead with
    | blank spaces blank =>
      refine absurd (wordsEnd_plain fun member => ?_) bad
      exact absurd (blank _ member) (by decide)
    | newline spaces blank =>
      rw [wordsEnd_spaces spaces _ blank] at bad
      exact absurd wordsEnd_newline bad
    | semicolon spaces v blank =>
      have first : (spaces ++ ';' :: v).head? ≠ some '\n' := by
        cases spaces with
        | nil => exact fun head => absurd (Option.some.inj head) (by decide)
        | cons c spaces => exact fun head => absurd ((blank c List.mem_cons_self).symm.trans (Option.some.inj head)) (by decide)
      rw [List.length_append] at short
      rw [scanLoop_idle interpreter spaces v ';' blank rfl (by decide) (not_or.mpr ⟨by omega,first⟩)]
      exact ih (by omega) line.suffix fun ends => ends.1 rfl
    | word spaces word rest blank plain long ended =>
      have total : (spaces ++ (word ++ rest)).length = spaces.length + (word.length + rest.length) := by
        rw [List.length_append,List.length_append]
      have tail : rest.tail.length = rest.length - 1 := List.length_tail
      have bad' : ¬WordsEnd rest.tail := fun after => bad (after.of_rest blank plain long)
      have some : rest.tail ≠ [] := fun empty => bad' (empty ▸ wordsEnd_plain List.not_mem_nil)
      have more : 0 < rest.tail.length := List.length_pos_iff.mpr some
      have lines : IsLine rest.tail := by
        cases rest with
        | nil => exact List.not_mem_nil
        | cons c v => exact IsLine.suffix (u := [c]) line.suffix.suffix
      rw [scanLoop_word interpreter spaces word rest blank plain long ended short]
      split
      · obtain ⟨parts,spaced⟩ := skipSpaces rest.tail
        have length := congrArg List.length parts
        rw [List.length_append] at length
        rw [parts,wordsEnd_spaces _ _ spaced] at bad'
        rw [if_neg (quiet _ _),ih (by omega) (IsLine.suffix (parts ▸ lines)) bad',Option.map_none]
      · exact ih (by omega) lines bad'

/-- The scanning ends and passes every command, whatever the interpreter does, exactly on the
lines in which each `;` ends a word. -/
theorem parseInput_passes (ui : Text) (short : ui.length < 1000) (line : IsLine ui) :
    (∀ (σ : Type) (interpreter : List Text → σ → Int × σ) (s : σ), Passes interpreter ui s) ↔ WordsEnd ui := by
  obtain ⟨parts,spaced⟩ := skipSpaces ui
  have length := congrArg List.length parts
  rw [List.length_append] at length
  have whole : ui.take 1000 = ui := List.take_of_length_le (Nat.le_of_lt short)
  have start {σ : Type} (interpreter : List Text → σ → Int × σ) (turns : Nat) (s : σ) :
      scanInputWith interpreter turns ui s =
        scanLoop interpreter turns (ui.takeWhile (· = ' ')).length (ui.dropWhile (· = ' ')) [] s := by
    unfold scanInputWith
    simp only [whole,drop_spaces]
  have line' : IsLine (ui.dropWhile (· = ' ')) := IsLine.suffix (parts ▸ line)
  have same := lineCommands_spaces _ (ui.dropWhile (· = ' ')) spaced
  have ends := wordsEnd_spaces _ (ui.dropWhile (· = ' ')) spaced
  rw [← parts] at same ends
  constructor
  · intro passes
    by_contra bad
    have quiet : (0 : Int) ≠ -1 := by decide
    obtain ⟨turns,ended⟩ := passes Unit (fun _ s => (0,s)) ()
    rw [start,scanLoop_stuck _ (fun _ _ => quiet) (by omega) line' (fun good => bad (ends.mpr good))] at ended
    exact Option.some_ne_none _ ended.symm
  · intro good σ interpreter s
    refine ⟨(ui.dropWhile (· = ' ')).length + 1,?_⟩
    rw [start,scanLoop_passes interpreter (fun _ => by omega) line' (ends.mp good) (Nat.lt_succ_self _),
      modifyHead_nothing,same]

/-- A space before the `;`. -/
def spacedLine : Text := ['a',' ',';','b']

theorem spacedLine_hangs : ¬Passes (fun (_ : List Text) (s : Unit) => ((0 : Int),s)) spacedLine () := by
  rintro ⟨turns,ended⟩
  have quiet : (0 : Int) ≠ -1 := by decide
  have stuck : scanInputWith (fun (_ : List Text) (s : Unit) => ((0 : Int),s)) turns spacedLine () = none :=
    scanLoop_stuck _ (fun _ _ => quiet) (by decide) (by decide) (by decide)
  rw [stuck] at ended
  exact Option.some_ne_none _ ended.symm

theorem parseInput_passes_spacedLine : (∀ (σ : Type) (interpreter : List Text → σ → Int × σ) (s : σ),
    Passes interpreter spacedLine s) ↔ WordsEnd spacedLine :=
  parseInput_passes spacedLine (by decide) (by decide)

example : lineCommands ['a',' ','b',';','c','\n'] = [[['a'],['b']],[['c']]] := by decide

end
end MyShell.Paging
