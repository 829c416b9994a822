import MyShell.Lib.Tokens
import MyShell.FS.Directory
import Mathlib.Data.List.TakeDrop

/-! `split_path_filename` of directory.c with its loop, and the arrays that its callers in
filesys.c have it fill. -/
namespace MyShell.FS
open Tokens

/-- The loop: what stands in `directory` so far and `last_token`. -/
def splitLoop : Nat → List Byte → List Byte → List Byte → List Byte × List Byte
  | 0, _, directory, lastToken => (directory,lastToken)
  | fuel+1, rest, directory, lastToken =>
    match strtok 47 rest with
    | none => (directory,lastToken)
    | some (token,rest) =>
      splitLoop fuel rest (directory ++ if 0 < lastToken.length then lastToken ++ [47] else []) token

/-- The strings in `directory` and `filename`, without their terminating nulls. Each pass
takes a character at least. -/
def splitPath (path : List Byte) : List Byte × List Byte :=
  splitLoop (path.length + 1) path (if path.head? = some 47 then [47] else []) []

/-- The non-empty parts of a path. -/
abbrev components (path : List Byte) : List (List Byte) := tokens 47 path

/-- What stands before the last name: the leading slash, and a slash behind each part. -/
def directoryPart (path : List Byte) : List Byte :=
  (if path.head? = some 47 then [47] else []) ++ (components path).dropLast.flatMap (· ++ [47])

def filenamePart (path : List Byte) : List Byte := (components path).getLastD []

theorem splitLoop_spec (fuel : Nat) (rest directory lastToken : List Byte) (enough : rest.length < fuel) :
    splitLoop fuel rest directory lastToken =
      (directory ++ ((if 0 < lastToken.length then [lastToken] else []) ++ tokens 47 rest).dropLast.flatMap (· ++ [47]),
        (tokens 47 rest).getLastD lastToken) := by
  induction fuel generalizing rest directory lastToken with
  | zero => exact absurd enough (Nat.not_lt_zero _)
  | succ fuel ih =>
    rw [splitLoop]
    cases read : strtok 47 rest with
    | none =>
      rw [strtok_none read,List.append_nil,List.getLastD_nil]
      have single : (if 0 < lastToken.length then [lastToken] else []).dropLast = [] := by split <;> rfl
      rw [single,List.flatMap_nil,List.append_nil]
    | some next =>
      obtain ⟨token,behind⟩ := next
      have next := strtok_some read
      have positive : 0 < token.length := List.length_pos_iff.mpr next.long
      have shorter := next.shorter
      simp only
      rw [ih behind _ token (by omega),if_pos positive,next.first,List.getLastD_cons,List.append_assoc]
      congr 2
      rw [List.dropLast_append_of_ne_nil (List.cons_ne_nil _ _),List.flatMap_append,List.singleton_append]
      congr 1
      split
      · rw [List.flatMap_cons,List.flatMap_nil,List.append_nil]
      · rfl

theorem splitPath_eq (path : List Byte) : splitPath path = (directoryPart path,filenamePart path) := by
  unfold splitPath
  rw [splitLoop_spec _ _ _ _ (Nat.lt_succ_self _)]
  rfl

/-- The parts of a path that is put together from its parts. -/
theorem components_join (parts : List (List Byte)) (last : List Byte) (plain : ∀ part ∈ parts, (47 : Byte) ∉ part ∧ part ≠ []) :
    components (parts.flatMap (· ++ [47]) ++ last) = parts ++ components last := by
  induction parts with
  | nil => rfl
  | cons part parts ih =>
    obtain ⟨here,long⟩ := plain part List.mem_cons_self
    rw [List.flatMap_cons,List.append_assoc,List.append_assoc,List.singleton_append,components,
      tokens_word_separator here long,List.cons_append]
    exact congrArg (part :: ·) (ih fun other member => plain other (List.mem_cons_of_mem _ member))

theorem components_filenamePart (path : List Byte) :
    components (filenamePart path) = (components path).drop ((components path).length - 1) := by
  unfold filenamePart
  rcases eq_or_ne (components path) [] with none | some
  · rw [none]
    exact tokens_nil
  · obtain ⟨plain,long⟩ := mem_tokens (List.getLast_mem some)
    have last : (components path).getLastD [] = (components path).getLast some := by
      rw [List.getLastD_eq_getLast?,List.getLast?_eq_some_getLast some,Option.getD_some]
    rw [last,components,tokens_word plain long,List.drop_length_sub_one some]

/-- Splitting the directory followed by the name gives the same parts. -/
theorem components_joined (path : List Byte) : components (directoryPart path ++ filenamePart path) = components path := by
  have plain : ∀ part ∈ (components path).dropLast, (47 : Byte) ∉ part ∧ part ≠ [] :=
    fun part member => mem_tokens (List.dropLast_subset _ member)
  have joined : components ((components path).dropLast.flatMap (· ++ [47]) ++ filenamePart path) = components path := by
    rw [components_join _ _ plain,components_filenamePart,List.dropLast_eq_take,List.take_append_drop]
  unfold directoryPart
  rw [List.append_assoc]
  split
  · rw [List.singleton_append,components,tokens_separator]
    exact joined
  · exact joined

/-- Without a leading slash of its own the joined path starts with its first part. -/
theorem head_joined (parts : List (List Byte)) (plain : ∀ part ∈ parts, (47 : Byte) ∉ part ∧ part ≠ []) :
    (parts.dropLast.flatMap (· ++ [47]) ++ parts.getLastD []).head? ≠ some 47 := by
  have head (part more : List Byte) (fine : (47 : Byte) ∉ part ∧ part ≠ []) : (part ++ more).head? ≠ some 47 := by
    rw [List.head?_append_of_ne_nil _ fine.2]
    exact fun slash => fine.1 (List.mem_of_head? slash)
  match parts with
  | [] => exact fun slash => Option.some_ne_none _ slash.symm
  | [part] => simpa using head part [] (plain part List.mem_cons_self)
  | part :: next :: parts =>
    rw [List.dropLast_cons_cons,List.flatMap_cons,List.append_assoc,List.append_assoc]
    exact head part _ (plain part List.mem_cons_self)

theorem absolute_joined (path : List Byte) :
    (directoryPart path ++ filenamePart path).head? = some 47 ↔ path.head? = some 47 := by
  have relative := head_joined (components path) fun part => mem_tokens
  unfold directoryPart
  rw [List.append_assoc]
  by_cases absolute : path.head? = some 47
  · rw [if_pos absolute]
    exact iff_of_true rfl absolute
  · rw [if_neg absolute]
    exact iff_of_false relative absolute

theorem split_path_exact (path : CString) :
    splitPath path.chars = (directoryPart path.chars,filenamePart path.chars) ∧
      splitPath ((splitPath path.chars).1 ++ (splitPath path.chars).2) = splitPath path.chars := by
  refine ⟨splitPath_eq _,?_⟩
  rw [splitPath_eq,splitPath_eq]
  have parts := components_joined path.chars
  have slash := absolute_joined path.chars
  generalize directoryPart path.chars ++ filenamePart path.chars = joined at parts slash
  unfold directoryPart filenamePart
  simp only [parts,slash]

theorem chars_ofBuffer (buffer : List Byte) (plain : (0 : Byte) ∉ buffer) : (CString.ofBuffer buffer).chars = buffer := by
  refine List.takeWhile_eq_self_iff.mpr fun c member => ?_
  simp only [ne_eq,decide_not,Bool.not_eq_eq_eq_not,Bool.not_true,decide_eq_false_iff_not]
  exact fun null => plain (null ▸ member)

theorem noNull_component (path : CString) (token : List Byte) (member : token ∈ components path.chars) : (0 : Byte) ∉ token :=
  fun null => path.noNull (subset_tokens member null)

/-- The strings that the functions of filesys.c go on with are those that the loop leaves. -/
theorem splitPath_eq_filename (path : CString) :
    splitPath path.chars = ((splitPathFilename path).1.chars,(splitPathFilename path).2.chars) := by
  have parts : pathTokens path = (components path.chars).map CString.ofBuffer := rfl
  have restored : ∀ token ∈ components path.chars, (CString.ofBuffer token).chars = token :=
    fun token member => chars_ofBuffer token (noNull_component path token member)
  have joined : (pathTokens path).dropLast.flatMap (fun token => token.chars ++ [47]) =
      (components path.chars).dropLast.flatMap (· ++ [47]) := by
    rw [parts,← List.map_dropLast,List.flatMap_map]
    refine List.flatMap_congr fun token member => ?_
    rw [restored token (List.dropLast_subset _ member)]
  have lead : (if isAbsolute path = true then [47] else []) = (if path.chars.head? = some 47 then [(47 : Byte)] else []) := by
    unfold isAbsolute
    simp only [beq_iff_eq]
  have directory : (splitPathFilename path).1.chars = directoryPart path.chars := by
    unfold splitPathFilename directoryPart
    rw [joined,lead]
    refine chars_ofBuffer _ fun null => ?_
    rcases List.mem_append.mp null with slash | null
    · split at slash
      · exact absurd (List.mem_singleton.mp slash) (by decide)
      · exact List.not_mem_nil slash
    · obtain ⟨token,member,null⟩ := List.mem_flatMap.mp null
      rcases List.mem_append.mp null with null | slash
      · exact noNull_component path token (List.dropLast_subset _ member) null
      · exact absurd (List.mem_singleton.mp slash) (by decide)
  have filename : (splitPathFilename path).2.chars = filenamePart path.chars := by
    unfold splitPathFilename filenamePart
    rw [parts,List.getLastD_eq_getLast?,List.getLastD_eq_getLast?,List.getLast?_map]
    cases last : (components path.chars).getLast? with
    | none => rfl
    | some token => exact restored token (List.mem_of_getLast? last)
  rw [splitPath_eq,directory,filename]

/-- The functions of filesys.c that split a path into arrays of their own. -/
inductive PathCaller
  | filesysCreate | filesysOpen | filesysRemove

/-- The length of each of the two arrays of a caller. -/
def PathCaller.arrayLength (path : CString) : PathCaller → Nat
  | filesysCreate => strlen path
  | filesysOpen => strlen path + 1
  | filesysRemove => strlen path

/-- Both strings with their terminating nulls fit. -/
def PathCaller.Fits (caller : PathCaller) (path : CString) : Prop :=
  (splitPath path.chars).1.length + 1 ≤ caller.arrayLength path ∧ (splitPath path.chars).2.length + 1 ≤ caller.arrayLength path

theorem length_flatMap_slash (parts : List (List Byte)) :
    (parts.flatMap (· ++ [47])).length = (parts.map List.length).sum + parts.length := by
  induction parts with
  | nil => rfl
  | cons part parts ih =>
    rw [List.flatMap_cons,List.length_append,List.length_append,ih,List.map_cons,List.sum_cons,List.length_cons]
    simp only [List.length_cons,List.length_nil]
    omega

/-- The two strings share out the characters of the path. The last name is in none of the parts before it. -/
theorem length_parts (path : List Byte) (named : components path ≠ []) :
    (directoryPart path).length + (filenamePart path).length ≤ path.length ∧
      0 < (filenamePart path).length ∧ (filenamePart path).length + path.count 47 ≤ path.length := by
  have last : filenamePart path = (components path).getLast named := by
    unfold filenamePart
    rw [List.getLastD_eq_getLast?,List.getLast?_eq_some_getLast named,Option.getD_some]
  have shares := congrArg (fun parts => (parts.map List.length).sum) (List.dropLast_concat_getLast named)
  have pieces := congrArg List.length (List.dropLast_concat_getLast named)
  have long := List.length_pos_iff.mpr (mem_tokens (List.getLast_mem named)).2
  simp only [List.map_append,List.sum_append,List.map_cons,List.map_nil,List.sum_cons,List.sum_nil,← last] at shares
  rw [List.length_append,List.length_singleton] at pieces
  obtain ⟨characters,count⟩ := length_tokens 47 path
  rw [← last] at long
  change _ + _ = _ at characters
  refine ⟨?_,long,by unfold components at shares; omega⟩
  unfold directoryPart
  rw [List.length_append,length_flatMap_slash]
  by_cases absolute : path.head? = some 47
  · obtain ⟨rest,rfl⟩ := List.head?_eq_some_iff.mp absolute
    obtain ⟨-,fewer⟩ := length_tokens 47 rest
    rw [List.count_cons_self] at characters count
    rw [if_pos absolute,List.length_singleton]
    unfold components at *
    rw [tokens_separator] at *
    omega
  · rw [if_neg absolute,List.length_nil]
    unfold components at *
    omega

/-- A path of slashes alone. -/
theorem splitPath_slashes (path : List Byte) (long : path ≠ []) (nameless : components path = []) :
    splitPath path = ([47],[]) ∧ (47 : Byte) ∈ path := by
  obtain ⟨characters,-⟩ := length_tokens 47 path
  unfold components at nameless
  rw [nameless,List.map_nil,List.sum_nil,Nat.zero_add] at characters
  have slashes := List.count_eq_length.mp characters
  cases path with
  | nil => exact absurd rfl long
  | cons c path =>
    obtain rfl : 47 = c := slashes c List.mem_cons_self
    rw [splitPath_eq]
    unfold directoryPart filenamePart components
    rw [nameless]
    exact ⟨rfl,List.mem_cons_self⟩

/-- Two arrays as long as the path without its terminating null do when a slash takes a
character of its own from each of the strings. -/
theorem fits_without_null (path : List Byte) (long : path ≠ []) :
    (splitPath path).1.length + 1 ≤ path.length ∧ (splitPath path).2.length + 1 ≤ path.length ↔
      (47 : Byte) ∈ path ∧ path ≠ [47] := by
  by_cases named : components path = []
  · obtain ⟨parts,slash⟩ := splitPath_slashes path long named
    rw [parts,List.length_singleton,List.length_nil]
    refine ⟨fun fits => ⟨slash,fun single => ?_⟩,fun proper => ?_⟩
    · rw [single,List.length_singleton] at fits
      omega
    · match path, long with
      | [c], _ => exact absurd (congrArg (fun c => [c]) (List.mem_singleton.mp proper.1).symm) proper.2
      | _ :: _ :: _, _ => exact ⟨by simp,by simp⟩
  · obtain ⟨shared,positive,fewer⟩ := length_parts path named
    rw [splitPath_eq]
    refine ⟨fun fits => ⟨?_,fun single => ?_⟩,fun proper => ?_⟩
    · by_contra plain
      have whole : filenamePart path = path := by
        unfold filenamePart components
        rw [tokens_word plain long]
        rfl
      simp only [whole] at fits
      omega
    · rw [single] at named
      exact absurd (by decide) named
    · have slashes := List.count_pos_iff.mpr proper.1
      simp only
      omega

/-- The arrays of `filesys_open` have room for the null. Those of the others do
where the path has a slash and another character. -/
theorem path_buffers_fit (caller : PathCaller) (path : CString) (long : path.chars ≠ []) :
    caller.Fits path ↔ caller = .filesysOpen ∨ (47 : Byte) ∈ path.chars ∧ path.chars ≠ [47] := by
  have tight := fits_without_null path.chars long
  cases caller with
  | filesysCreate => exact tight.trans ⟨Or.inr,fun either => either.resolve_left PathCaller.noConfusion⟩
  | filesysRemove => exact tight.trans ⟨Or.inr,fun either => either.resolve_left PathCaller.noConfusion⟩
  | filesysOpen =>
    refine iff_of_true ?_ (Or.inl rfl)
    change _ ≤ path.chars.length + 1 ∧ _ ≤ path.chars.length + 1
    by_cases named : components path.chars = []
    · rw [(splitPath_slashes path.chars long named).1,List.length_singleton,List.length_nil]
      have positive := List.length_pos_iff.mpr long
      omega
    · obtain ⟨shared,-⟩ := length_parts path.chars named
      rw [splitPath_eq]
      simp only
      omega

theorem path_buffers_fit_nested : PathCaller.filesysCreate.Fits (CString.ofBuffer [97,47,98]) :=
  (path_buffers_fit .filesysCreate (CString.ofBuffer [97,47,98]) (by decide)).mpr (Or.inr (by decide))

/-- The name `a` has no room for its null in the arrays of `filesys_create`. -/
theorem path_buffers_overrun :
    ¬ ∀ (caller : PathCaller) (path : CString), path.chars ≠ [] → caller.Fits path := by
  intro fits
  have small := (fits .filesysCreate (CString.ofBuffer [97]) (by decide)).2
  exact absurd small (by decide)

end MyShell.FS
