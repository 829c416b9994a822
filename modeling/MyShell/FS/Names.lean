import MyShell.FS.Session
import MyShell.Lib.Tokens
import MyShell.FS.Opening

/-! The names in the root directory: single path components of at most 30 bytes, each once.
Every run of the file system keeps them so. -/
namespace MyShell.FS
open BlockProgram PointerForest Bitmap

/-- The name of the entry `i`. -/
def nameAt (a : List Byte) (i : Nat) : CString := (entryAt a i).nameString

/-- A name that `dir_add` takes from a path. -/
structure ProperName (name : CString) : Prop where
  some : 0 < strlen name
  fits : strlen name ≤ nameMax
  plain : SlashFree name

/-- The names of a root directory, whose first entry is its own parent. -/
structure NamedRoot (a : List Byte) : Prop where
  parent : (entryAt a 0).inodeSector = rootDirSector
  proper : ∀ i, ListedAt a i → ProperName (nameAt a i)
  distinct : ∀ i j, ListedAt a i → ListedAt a j → nameAt a i = nameAt a j → i = j

section
variable {a : List Byte} {e : DirEntry} {name : CString} {i x : Nat}

theorem slashFree_lastName (path : CString) : SlashFree (lastName path) := by
  unfold lastName splitPathFilename
  cases last : (pathTokens path).getLast? with
  | none =>
    rw [List.getLastD_eq_getLast?,last]
    exact List.not_mem_nil
  | some token =>
    rw [List.getLastD_eq_getLast?,last,Option.getD_some]
    obtain ⟨piece,member,rfl⟩ := List.mem_map.mp (List.mem_of_getLast? last)
    exact fun slash => Tokens.plain_piece path.chars piece (List.mem_of_mem_filter member)
      (List.takeWhile_subset _ slash)

theorem lastName_slashFree (plain : SlashFree name) : lastName name = name := by
  unfold lastName
  rw [splitPathFilename_slashFree name plain]

/-- A name is found where it is listed. -/
theorem NamedRoot.found (named : NamedRoot a) (listed : ListedAt a i) : findName a (nameAt a i) = some i := by
  refine findEntry_unique _ _ _ _ listed.positive listed.inside ?_ fun k low high other => ?_
  · unfold nameTest nameAt
    rw [listed.used,Bool.true_and]
    exact beq_self_eq_true _
  · rw [Bool.eq_false_iff]
    intro same
    obtain ⟨used,equal⟩ := Bool.and_eq_true_iff.mp same
    exact other (named.distinct k i ⟨low,high,used⟩ listed (beq_iff_eq.mp equal).symm)

/-- Storing an entry whose name, if it is in use, is a new one. -/
theorem NamedRoot.write (named : NamedRoot a) (slot : i ≤ entryCount a) (positive : 1 ≤ i)
    (self : 0 < entryCount a) (stored : DirEntry.ofBytes e.bytes = e) (proper : e.inUse = true → ProperName e.nameString)
    (fresh : e.inUse = true → ∀ k, ListedAt a k → k ≠ i → nameAt a k ≠ e.nameString) :
    NamedRoot (arrayWrite a e.bytes (36*i) 36) := by
  have name (k : Nat) (listed : ListedAt (arrayWrite a e.bytes (36*i) 36) k) :
      nameAt (arrayWrite a e.bytes (36*i) 36) k = if k = i then e.nameString else nameAt a k := by
    unfold nameAt
    rw [entryAt_listed slot stored listed]
    split <;> rfl
  refine ⟨?_,fun k listed => ?_,fun j k first second same => ?_⟩
  · rw [entryAt_write slot (by omega),if_neg (by omega)]
    exact named.parent
  · rw [name k listed]
    rw [listedAt_write slot positive stored] at listed
    split at listed
    · rename_i here
      rw [if_pos here]
      exact proper listed
    · rename_i other
      rw [if_neg other]
      exact named.proper k listed
  · rw [name j first,name k second] at same
    rw [listedAt_write slot positive stored] at first second
    by_cases left : j = i <;> by_cases right : k = i
    · rw [left,right]
    · rw [if_pos left,if_neg right] at same
      rw [if_pos left] at first
      rw [if_neg right] at second
      exact absurd same.symm (fresh first k second right)
    · rw [if_neg left,if_pos right] at same
      rw [if_neg left] at first
      rw [if_pos right] at second
      exact absurd same (fresh second j first left)
    · rw [if_neg left,if_neg right] at same
      rw [if_neg left] at first
      rw [if_neg right] at second
      exact named.distinct j k first second same

/-- `dir_add` of a name that it does not refuse. -/
theorem NamedRoot.add (named : NamedRoot a) (root : RootArray a) (plain : SlashFree name) (good : ¬BadName a name)
    (small : x < 4294967296) : NamedRoot (arrayWrite a (newEntry name x).bytes (36 * freeSlot a) 36) := by
  obtain ⟨positive,slot,-⟩ := freeSlot_spec root.self root.used
  unfold BadName at good
  rw [not_or,not_or] at good
  obtain ⟨some,fits,absent⟩ := good
  have same : (newEntry name x).nameString = name := nameString_strncpy name (Nat.le_of_not_lt fits)
  refine named.write slot positive root.self (newEntry_bytes name x small) (fun _ => ?_) fun _ k listed _ equal => ?_
  · rw [same]
    exact ⟨Nat.pos_of_ne_zero some,Nat.le_of_not_lt fits,plain⟩
  · rw [same] at equal
    have found := named.found listed
    rw [equal] at found
    exact absent (by rw [found]; rfl)

theorem NamedRoot.erase (named : NamedRoot a) (listed : ListedAt a i) :
    NamedRoot (arrayWrite a (erasedEntry a i).bytes (36*i) 36) :=
  named.write (Nat.le_of_lt listed.inside) listed.positive (by have := listed.inside; omega)
    (erasedEntry_bytes a i listed.inside) (fun used => absurd used Bool.false_ne_true)
    fun used => absurd used Bool.false_ne_true

end

theorem newRoot_named : NamedRoot newRoot := by
  refine ⟨?_,fun i listed => absurd listed (newRoot_unlisted i),fun i _ listed => absurd listed (newRoot_unlisted i)⟩
  unfold newRoot
  have entry := entryAt_write (a := List.replicate 36000 0) (e := selfEntry) (Nat.zero_le _) (Nat.lt_of_lt_of_le
    (Nat.succ_pos 0) (Nat.le_max_right _ _)) (k := 0)
  rw [Nat.mul_zero] at entry
  rw [entry,if_pos rfl]
  decide

section
variable {reserved dirty : Nat → Prop} {s t : Volume}

theorem leakAt_good {name : CString} {size : Int} (made : leakAt s name size = none) : ¬BadName (rootArray s) name :=
  (createLeak_good _ made).2

/-- The step lemma: an operation keeps the names. -/
theorem Mounted.step_named (mounted : Mounted reserved dirty s) (named : NamedRoot (rootArray s)) (op : FileOp)
    (allowed : op.Allowed s) : NamedRoot (rootArray (op.task.exec s).2) := by
  have array : contents (s.device rootDirSector) s.device = rootArray s := rfl
  cases op with
  | create stale path size =>
    obtain ⟨low,high⟩ := allowed
    obtain ⟨t,same,outcome⟩ := filesysCreate_spec mounted.layout mounted.ready mounted.origin owns_root
      mounted.idle.closed stale path low high
    unfold FileOp.task
    rw [Task.exec_bind,Task.exec_pure]
    cases leak : leakAt s (splitPathFilename path).2 size with
    | some leaked =>
      rw [leak] at outcome
      obtain ⟨run,done,refused⟩ := outcome
      rw [run,(mounted.refused same refused).2]
      exact named
    | none =>
      rw [leak] at outcome
      obtain ⟨run,x,made⟩ := outcome
      have small : x < 4294967296 :=
        (marked_small _ made.ready.packed made.ready.small x (made.layout.marked x (Or.inr rfl))).trans (by decide)
      rw [run,(mounted.made same made).2]
      exact named.add mounted.root (slashFree_lastName path) (leakAt_good leak) small
  | remove path =>
    obtain ⟨t,same,outcome⟩ := filesysRemove_spec mounted.layout mounted.ready mounted.origin owns_root
      mounted.idle.closed path allowed fun i listed => mounted.listed listed
    unfold FileOp.task
    rw [Task.exec_bind,Task.exec_pure]
    rw [array] at outcome
    cases search : findName (rootArray s) path with
    | none =>
      rw [search] at outcome
      obtain ⟨run,unchanged,-⟩ := outcome
      rw [run,unchanged]
      exact named
    | some i =>
      rw [search] at outcome
      obtain ⟨run,removed⟩ := outcome
      have listed := (findName_listed search).1
      rw [run,(mounted.removed same listed removed).2]
      exact named.erase listed
  | write sector buffer size offset =>
    obtain ⟨listed,some,second,low,first⟩ := allowed
    obtain ⟨owns,apart⟩ := mounted.inside listed
    obtain ⟨n,rfl⟩ := Int.eq_ofNat_of_zero_le (by omega : 0 ≤ size)
    obtain ⟨ofs,rfl⟩ := Int.eq_ofNat_of_zero_le low
    obtain ⟨done,t,run,same,stored⟩ := writeSector_spec mounted.layout mounted.ready mounted.origin owns
      mounted.idle.live (mounted.idle.unopened (mounted.nonzero owns)) buffer ofs n (by omega) (by omega) (by omega)
    unfold FileOp.task
    rw [Task.exec_bind,Task.exec_pure,run,(mounted.stored same apart stored).2]
    exact named
  | read sector size offset =>
    obtain ⟨listed,natural,low⟩ := allowed
    obtain ⟨owns,-⟩ := mounted.inside listed
    obtain ⟨n,rfl⟩ := Int.eq_ofNat_of_zero_le natural
    obtain ⟨ofs,rfl⟩ := Int.eq_ofNat_of_zero_le low
    obtain ⟨h,run,-,-⟩ := readSector_spec mounted.layout mounted.ready owns mounted.idle.live
      (mounted.idle.unopened (mounted.nonzero owns)) n ofs
    unfold FileOp.task
    rw [Task.exec_bind,Task.exec_pure,run]
    exact named

end

section
variable {reserved dirty : Nat → Prop} {s t : FileSys}

/-- The run lemma. -/
theorem Sane.named (sane : Sane reserved dirty s) (named : NamedRoot (rootArray (volume s))) (run : Reached s t) :
    NamedRoot (rootArray (volume t)) := by
  induction run with
  | start => exact named
  | step op before allowed ih =>
    have after := (sane.reached before).mounted.step_named ih op allowed
    rwa [exec_volume] at after

/-- In every run from a new file system. -/
theorem formatted_named (c : CacheStore) (fits : Formattable c.cache.fsDevice.size) (run : Reached (formatted c) t) :
    NamedRoot (rootArray (volume t)) := by
  obtain ⟨reserved,dirty,made⟩ := formatted_spec c fits
  obtain ⟨reserved',dirty',sane⟩ := formatted_sane c fits
  refine sane.named ?_ run
  have array : rootArray (volume (formatted c)) = newRoot := made.array
  rw [array]
  exact newRoot_named

end
end MyShell.FS
