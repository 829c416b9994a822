import Mathlib.Algebra.Ring.Nat
import Mathlib.Data.List.Basic
import Mathlib.Data.List.Count
import Mathlib.Data.List.TakeWhile

/-! The pieces of a text between separators, and the reading of them one after the other as
`strtok` of the C library does it. Empty pieces are no tokens. -/
namespace Tokens
variable {α : Type} [DecidableEq α]

def tokens (separator : α) (text : List α) : List (List α) := (text.splitOn separator).filter fun token => !token.isEmpty

/-- The next token and what follows the separator behind it; no token is left for `none`. -/
def strtok (separator : α) (text : List α) : Option (List α × List α) :=
  match text.dropWhile (· == separator) with
  | [] => none
  | c :: more =>
    let token := (c :: more).takeWhile (· != separator)
    some (token,(c :: more).drop (token.length + 1))

variable {separator : α} {text word more : List α}

theorem tokens_nil : tokens separator [] = [] := by
  unfold tokens
  rw [List.splitOn_nil]
  rfl

theorem tokens_separator (text : List α) : tokens separator (separator :: text) = tokens separator text := by
  unfold tokens
  rw [List.splitOn_cons_eq_if_modifyHead,if_pos (beq_self_eq_true _),List.filter_cons_of_neg (by simp)]

theorem tokens_word (plain : separator ∉ word) (long : word ≠ []) : tokens separator word = [word] := by
  unfold tokens
  rw [List.splitOn_eq_singleton plain,List.filter_cons_of_pos (by simpa using long),List.filter_nil]

theorem tokens_word_separator (plain : separator ∉ word) (long : word ≠ []) :
    tokens separator (word ++ separator :: more) = word :: tokens separator more := by
  unfold tokens
  rw [List.splitOn_append_cons_self_of_not_mem plain,List.filter_cons_of_pos (by simpa using long)]

theorem tokens_dropWhile (text : List α) : tokens separator (text.dropWhile (· == separator)) = tokens separator text := by
  induction text with
  | nil => rfl
  | cons c text ih =>
    by_cases here : c = separator
    · subst here
      rw [tokens_separator,← ih,List.dropWhile_cons_of_pos (p := (· == c)) (beq_self_eq_true c)]
    · rw [List.dropWhile_cons_of_neg (by simpa using here)]

/-- A token read is the first one, and the others are those of the rest. -/
structure FirstToken (separator : α) (text token rest : List α) : Prop where
  first : tokens separator text = token :: tokens separator rest
  long : token ≠ []
  plain : separator ∉ token
  shorter : rest.length < text.length

theorem strtok_none (ended : strtok separator text = none) : tokens separator text = [] := by
  unfold strtok at ended
  rw [← tokens_dropWhile]
  cases left : text.dropWhile (· == separator) with
  | nil => exact tokens_nil
  | cons c more =>
    rw [left] at ended
    exact absurd ended (Option.some_ne_none _)

theorem strtok_some {token rest : List α} (read : strtok separator text = some (token,rest)) :
    FirstToken separator text token rest := by
  unfold strtok at read
  cases left : text.dropWhile (· == separator) with
  | nil =>
    rw [left] at read
    exact absurd read.symm (Option.some_ne_none _)
  | cons c more =>
    rw [left] at read
    simp only [Option.some.injEq,Prod.mk.injEq] at read
    obtain ⟨rfl,rfl⟩ := read
    have start : c ≠ separator := by
      have stopped := List.head?_dropWhile_not (· == separator) text
      rw [left,List.head?_cons] at stopped
      simpa using stopped
    have fewer : (c :: more).length ≤ text.length := left ▸ List.length_dropWhile_le (· == separator) text
    have parts := List.takeWhile_append_dropWhile (p := (· != separator)) (l := c :: more)
    have word : (c :: more).takeWhile (· != separator) = c :: more.takeWhile (· != separator) :=
      List.takeWhile_cons_of_pos (by simpa using start)
    have plain : separator ∉ (c :: more).takeWhile (· != separator) := fun member => by
      simpa using List.mem_takeWhile_imp member
    have long : (c :: more).takeWhile (· != separator) ≠ [] := by
      rw [word]
      exact List.cons_ne_nil _ _
    refine ⟨?_,long,plain,?_⟩
    · rw [← tokens_dropWhile,left]
      generalize (c :: more).takeWhile (· != separator) = token at parts plain long
      cases behind : (c :: more).dropWhile (· != separator) with
      | nil =>
        rw [behind,List.append_nil] at parts
        rw [← parts,List.drop_of_length_le (Nat.le_succ _),tokens_nil,tokens_word plain long]
      | cons d rest =>
        have stopped := List.head?_dropWhile_not (· != separator) (c :: more)
        rw [behind,List.head?_cons] at stopped
        obtain rfl : d = separator := by simpa using stopped
        rw [behind] at parts
        rw [← parts,tokens_word_separator plain long,List.drop_append,List.drop_of_length_le (Nat.le_succ _),
          Nat.add_sub_cancel_left,List.nil_append,List.drop_succ_cons,List.drop_zero]
    · rw [List.length_drop]
      rw [List.length_cons] at fewer ⊢
      omega

theorem length_pieces (separator : α) (text : List α) :
    ((text.splitOn separator).map List.length).sum + text.count separator = text.length ∧
      (text.splitOn separator).length = text.count separator + 1 := by
  induction text with
  | nil =>
    rw [List.splitOn_nil]
    exact ⟨rfl,rfl⟩
  | cons c text ih =>
    obtain ⟨characters,pieces⟩ := ih
    rw [List.splitOn_cons_eq_if_modifyHead]
    by_cases here : c = separator
    · subst here
      rw [if_pos (beq_self_eq_true c),List.map_cons,List.sum_cons,List.length_cons,List.length_cons,List.count_cons_self,
        List.length_nil]
      omega
    · rw [if_neg (by simpa using here),List.length_modifyHead,List.count_cons_of_ne here,List.length_cons]
      refine ⟨?_,pieces⟩
      cases split : text.splitOn separator with
      | nil => exact absurd split (List.splitOn_ne_nil _ _)
      | cons piece others =>
        rw [split,List.map_cons,List.sum_cons] at characters
        rw [List.modifyHead_cons,List.map_cons,List.sum_cons,List.length_cons]
        omega

/-- The characters of a text are those of its tokens and its separators. -/
theorem length_tokens (separator : α) (text : List α) :
    ((tokens separator text).map List.length).sum + text.count separator = text.length ∧
      (tokens separator text).length ≤ text.count separator + 1 := by
  obtain ⟨characters,pieces⟩ := length_pieces separator text
  have sums (l : List (List α)) : ((l.filter fun token => !token.isEmpty).map List.length).sum = (l.map List.length).sum := by
    induction l with
    | nil => rfl
    | cons token l ih =>
      cases token with
      | nil => rw [List.filter_cons_of_neg (by simp),ih,List.map_cons,List.sum_cons,List.length_nil,Nat.zero_add]
      | cons c token => rw [List.filter_cons_of_pos rfl,List.map_cons,List.sum_cons,ih,List.map_cons,List.sum_cons]
  refine ⟨?_,pieces ▸ List.length_filter_le _ _⟩
  unfold tokens
  rw [sums,characters]

theorem plain_piece (text piece : List α) (member : piece ∈ text.splitOn separator) : separator ∉ piece := by
  induction text generalizing piece with
  | nil =>
    rw [List.splitOn_nil,List.mem_singleton] at member
    rw [member]
    exact List.not_mem_nil
  | cons c text ih =>
    rw [List.splitOn_cons_eq_if_modifyHead] at member
    split at member
    · rcases List.mem_cons.mp member with rfl | later
      · exact List.not_mem_nil
      · exact ih piece later
    · rename_i other
      cases split : text.splitOn separator with
      | nil => exact absurd split (List.splitOn_ne_nil _ _)
      | cons first others =>
        rw [split] at ih member
        rw [List.modifyHead_cons] at member
        rcases List.mem_cons.mp member with rfl | later
        · intro inside
          rcases List.mem_cons.mp inside with same | inside
          · exact other (beq_iff_eq.mpr same.symm)
          · exact ih first List.mem_cons_self inside
        · exact ih piece (List.mem_cons_of_mem _ later)

theorem mem_tokens {token : List α} (member : token ∈ tokens separator text) : separator ∉ token ∧ token ≠ [] := by
  obtain ⟨piece,long⟩ := List.mem_filter.mp member
  exact ⟨plain_piece text token piece,by simpa using long⟩

theorem subset_piece (text piece : List α) (member : piece ∈ text.splitOn separator) : piece ⊆ text := by
  induction text generalizing piece with
  | nil =>
    rw [List.splitOn_nil,List.mem_singleton] at member
    rw [member]
    exact List.Subset.refl _
  | cons c text ih =>
    rw [List.splitOn_cons_eq_if_modifyHead] at member
    split at member
    · rcases List.mem_cons.mp member with rfl | later
      · exact List.nil_subset _
      · exact List.subset_cons_of_subset _ (ih piece later)
    · cases split : text.splitOn separator with
      | nil => exact absurd split (List.splitOn_ne_nil _ _)
      | cons first others =>
        rw [split] at ih member
        rw [List.modifyHead_cons] at member
        rcases List.mem_cons.mp member with rfl | later
        · exact List.cons_subset_cons _ (ih first List.mem_cons_self)
        · exact List.subset_cons_of_subset _ (ih piece (List.mem_cons_of_mem _ later))

theorem subset_tokens {token : List α} (member : token ∈ tokens separator text) : token ⊆ text :=
  subset_piece text token (List.mem_filter.mp member).1

end Tokens
