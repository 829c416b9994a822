import MyShell.FS.Session

/-! What a `filesys_create` that fails leaves behind: of the sectors it took, only the one
for the inode is released. -/
namespace MyShell.FS
open BlockProgram PointerForest Bitmap

/-- The free map, the root directory and the files of `owner` are the same. -/
structure Untouched (owner : Nat → Prop) (s t : Volume) : Prop where
  freeMap : t.vars.freeMap = s.vars.freeMap
  root : rootArray t = rootArray s
  files : ∀ z, owner z → contents (t.device z) t.device = contents (s.device z) s.device

/-- A request for a file that can only fail before it takes a sector, or that takes no
sector but that of the inode. -/
def TakesNothing (s : Volume) (name : CString) (size : Int) : Prop :=
  s.vars.freeMap.clearCount ≤ 1 ∨ size < 0 ∨
    size = 0 ∧ (BadName (rootArray s) name ∨ rootGrowth s.device < s.vars.freeMap.clearCount)

theorem blocksFor_zero : blocksFor 0 = 0 := by decide

theorem blocksFor_pos (size : Int) (some : 0 < size) (high : size < 2147483648) : 0 < blocksFor size := by
  have wanted : 0 < bytesToSectors size := by
    rcases Int.lt_or_le 2147483136 size with large | small
    · have := bytesToSectors_large size large high
      omega
    · obtain ⟨n,rfl⟩ := Int.eq_ofNat_of_zero_le (Int.le_of_lt some)
      rw [bytesToSectors_nat n (by omega)]
      omega
  exact List.length_pos_of_mem (inodeReach_data _ 0 wanted (by decide))

/-- When a request that fails leaks no sector. -/
theorem createLeak_zero {free slot growth leaked : Nat} {size : Int} {badName : Prop} [Decidable badName]
    (high : size < 2147483648) (leak : createLeak free size badName slot growth = some leaked) :
    leaked = 0 ↔ free ≤ 1 ∨ size < 0 ∨ size = 0 ∧ (badName ∨ growth < free) := by
  have blocks : size = 0 ∧ blocksFor size = 0 ∨ size < 0 ∨ 0 < size ∧ 0 < blocksFor size := by
    rcases Int.lt_trichotomy size 0 with negative | rfl | some
    · exact Or.inr (Or.inl negative)
    · exact Or.inl ⟨rfl,blocksFor_zero⟩
    · exact Or.inr (Or.inr ⟨some,blocksFor_pos size some high⟩)
  unfold createLeak at leak
  generalize blocksFor size = k at leak blocks
  split at leak
  · obtain rfl := Option.some.inj leak
    omega
  · split at leak
    · obtain rfl := Option.some.inj leak
      omega
    · split at leak
      · rename_i refused
        obtain rfl := Option.some.inj leak
        by_cases bad : badName
        · simp only [bad,true_or,and_true]
          omega
        · have large : 8517120 < size := refused.resolve_right bad
          omega
      · rename_i good
        rw [not_or] at good
        simp only [good.2,false_or]
        split at leak
        · obtain rfl := Option.some.inj leak
          omega
        · split at leak
          · obtain rfl := Option.some.inj leak
            omega
          · exact absurd leak.symm (Option.some_ne_none _)

section
variable {reserved dirty owner : Nat → Prop}

/-- A refusal leaves no trace exactly when it leaks no sector. -/
theorem Refused.untouched_iff {s t : Volume} {done : Bool} {leaked : Nat} (ready : Ready reserved dirty s)
    (refused : Refused reserved dirty owner s t done leaked) (owns : owner rootDirSector) :
    Untouched owner s t ↔ leaked = 0 := by
  have count := refused.count
  refine ⟨fun same => ?_,fun none => ⟨?_,?_,fun z inside => ?_⟩⟩
  · rw [same.freeMap] at count
    omega
  · exact (eq_of_clearCount _ _ ready.packed refused.ready.packed refused.logged.size.symm refused.mono (by omega)).symm
  · exact refused.rootArray_eq owns
  · rw [refused.kept.inodes z inside,refused.kept.files z inside]

end

/-- A name of 31 characters, one more than an entry has room for. -/
def longName : CString := ⟨List.replicate 31 97,by decide⟩

theorem longName_leak {s : Volume} (room : 2 + blocksFor 5000 ≤ s.vars.freeMap.clearCount) :
    leakAt s longName 5000 = some (blocksFor 5000) := by
  have long : strlen longName > nameMax := by decide
  have some : s.vars.freeMap.clearCount ≠ 0 := by omega
  have enough : 1 + blocksFor 5000 ≤ s.vars.freeMap.clearCount := by omega
  exact createLeak_refused 5000 some (by decide) enough (Or.inr (Or.inr (Or.inl long)))

/-- A file system with room for the file. The name is refused after its blocks were taken. -/
theorem longName_refused {reserved dirty : Nat → Prop} (s : FileSys) (mounted : Mounted reserved dirty (volume s))
    (room : 2 + blocksFor 5000 ≤ (volume s).vars.freeMap.clearCount) :
    ((filesysCreate [] longName 5000 false).exec s).1 = false ∧
      ¬Untouched (Owns (rootArray (volume s))) (volume s) (volume ((filesysCreate [] longName 5000 false).exec s).2) := by
  obtain ⟨v,-,outcome⟩ := filesysCreate_spec mounted.layout mounted.ready mounted.origin owns_root mounted.idle.closed []
    longName (show -2147483648 ≤ (5000 : Int) by decide) (by decide)
  rw [splitPathFilename_slashFree longName (by decide),longName_leak room,exec_volume] at outcome
  obtain ⟨run,done,refused⟩ := outcome
  obtain ⟨result,state⟩ := Prod.mk.inj run
  rw [state,refused.untouched_iff mounted.ready owns_root]
  exact ⟨result,Nat.ne_of_gt (blocksFor_pos 5000 (by decide) (by decide))⟩

end MyShell.FS
