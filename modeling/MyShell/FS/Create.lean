import MyShell.FS.Stages

/-! `filesys_create` of a regular file as a whole. -/
namespace MyShell.FS
open BlockProgram PointerForest Bitmap

section
variable {free slot growth : Nat} {badName : Prop} [Decidable badName] (size : Int)

theorem createLeak_early (early : free = 0 ∨ size < 0) : createLeak free size badName slot growth = some 0 := if_pos early

theorem createLeak_blocks (some : free ≠ 0) (natural : 0 ≤ size) (short : free < 1 + blocksFor size) :
    createLeak free size badName slot growth = .some (free - 1) := by
  unfold createLeak
  rw [if_neg (not_or.mpr ⟨some,Int.not_lt.mpr natural⟩),if_pos short]

theorem createLeak_refused (some : free ≠ 0) (natural : 0 ≤ size) (enough : 1 + blocksFor size ≤ free)
    (refused : 8517120 < size ∨ badName) : createLeak free size badName slot growth = .some (blocksFor size) := by
  unfold createLeak
  rw [if_neg (not_or.mpr ⟨some,Int.not_lt.mpr natural⟩),if_neg (Nat.not_lt.mpr enough),if_pos refused]

theorem createLeak_growth (some : free ≠ 0) (natural : 0 ≤ size) (enough : 1 + blocksFor size ≤ free)
    (small : size ≤ 8517120) (good : ¬badName) (short : free < 1 + blocksFor size + growth) :
    createLeak free size badName slot growth = .some (free - 1) := by
  unfold createLeak
  rw [if_neg (not_or.mpr ⟨some,Int.not_lt.mpr natural⟩),if_neg (Nat.not_lt.mpr enough),
    if_neg (not_or.mpr ⟨Int.not_lt.mpr small,good⟩),if_pos short]

theorem createLeak_full (some : free ≠ 0) (natural : 0 ≤ size) (small : size ≤ 8517120) (good : ¬badName)
    (enough : 1 + blocksFor size + growth ≤ free) (full : 8517120 < 36 * slot + 36) :
    createLeak free size badName slot growth = .some (blocksFor size) := by
  unfold createLeak
  rw [if_neg (not_or.mpr ⟨some,Int.not_lt.mpr natural⟩),if_neg (Nat.not_lt.mpr (by omega)),
    if_neg (not_or.mpr ⟨Int.not_lt.mpr small,good⟩),if_neg (Nat.not_lt.mpr enough),if_pos full]

theorem createLeak_none (some : free ≠ 0) (natural : 0 ≤ size) (small : size ≤ 8517120) (good : ¬badName)
    (enough : 1 + blocksFor size + growth ≤ free) (room : 36 * slot + 36 ≤ 8517120) :
    createLeak free size badName slot growth = none := by
  unfold createLeak
  rw [if_neg (not_or.mpr ⟨some,Int.not_lt.mpr natural⟩),if_neg (Nat.not_lt.mpr (by omega)),
    if_neg (not_or.mpr ⟨Int.not_lt.mpr small,good⟩),if_neg (Nat.not_lt.mpr enough),if_neg (Nat.not_lt.mpr room)]

theorem createLeak_good (made : createLeak free size badName slot growth = none) : 0 ≤ size ∧ ¬badName := by
  unfold createLeak at made
  split at made
  · exact absurd made (Option.some_ne_none _)
  · rename_i early
    split at made
    · exact absurd made (Option.some_ne_none _)
    · split at made
      · exact absurd made (Option.some_ne_none _)
      · rename_i refused
        exact ⟨Int.not_lt.mp fun negative => early (Or.inr negative),fun bad => refused (Or.inr bad)⟩

end

section
variable {reserved dirty owner : Nat → Prop} {s t u : Volume} {x p dir : Nat} {inode : Inode} {size : Int}

/-- What `filesys_create` leaks in the state `s`, if it fails. -/
def leakAt (s : Volume) (name : CString) (size : Int) : Option Nat :=
  createLeak s.vars.freeMap.clearCount size (BadName (contents (s.device rootDirSector) s.device) name)
    (freeSlot (contents (s.device rootDirSector) s.device)) (rootGrowth s.device)

/-- The stages in the open root directory. -/
theorem createInode_spec (layout : Layout reserved owner s.device s) (ready : Ready reserved dirty s)
    (origin : reserved 0) (owns : owner rootDirSector) (holds : Holds s.device s p rootDirSector inode)
    (opened : (s.vars.handles.dir dir).inode = p) (stale : List Byte) (name : CString)
    (low : -2147483648 ≤ size) (high : size < 2147483648) :
    ∃ v d, v.vars.handles = s.vars.handles.setData p d ∧
      match leakAt s name size with
      | some leaked => ((createInode stale dir name size false).exec s = ((false,0),v) ∧
          ∃ done, Refused reserved dirty owner s v done leaked) ∨
        ∃ x, x ≠ 0 ∧ (createInode stale dir name size false).exec s = ((false,x),v) ∧
          ∃ done, Stuck reserved dirty owner s v done leaked x
      | none => ∃ x, (createInode stale dir name size false).exec s = ((true,x),v) ∧
          Made reserved dirty owner s v x name size := by
  rcases layout.allocate ready isWrite_inodeWriteAt with ⟨x,t,run,allocated,ready₁,after,aside,out⟩ | ⟨run,empty⟩
  · have nonnull : x ≠ 0 := fun null => out.unowned.free (null ▸ origin)
    have count := allocated.count rfl
    have some : s.vars.freeMap.clearCount ≠ 0 := by omega
    obtain ⟨v,handles,filling⟩ := createBlocks_spec allocated ready₁ after aside out origin low high
    by_cases enough : 0 ≤ size ∧ 1 + blocksFor size ≤ s.vars.freeMap.clearCount ∧ size ≤ 8517120
    · rw [if_pos enough] at filling
      obtain ⟨created,filled⟩ := filling
      obtain ⟨w,d,handles',adding⟩ := addEntry_spec filled origin owns holds opened stale name
      have step : (createInode stale dir name size false).exec s =
          ((((dirAdd stale dir name x false).exec v).1,x),((dirAdd stale dir name x false).exec v).2) := by
        unfold createInode
        simp only [Task.exec_bind,run,created,if_true,Task.exec_pure]
      refine ⟨w,d,handles',?_⟩
      by_cases success : ¬BadName (contents (s.device rootDirSector) s.device) name ∧
          1 + blocksFor size + rootGrowth s.device ≤ s.vars.freeMap.clearCount ∧
          36 * freeSlot (contents (s.device rootDirSector) s.device) + 36 ≤ 8517120
      · rw [if_pos success] at adding
        have leak : leakAt s name size = none :=
          createLeak_none size some enough.1 enough.2.2 success.1 success.2.1 success.2.2
        rw [leak]
        rw [adding.1] at step
        exact ⟨x,step,adding.2⟩
      · rw [if_neg success] at adding
        obtain ⟨added,done,stuck⟩ := adding
        rw [added] at step
        by_cases bad : BadName (contents (s.device rootDirSector) s.device) name
        · rw [if_pos bad] at stuck
          have leak : leakAt s name size = .some _ := createLeak_refused size some enough.1 enough.2.1 (Or.inr bad)
          rw [leak]
          exact Or.inr ⟨x,nonnull,step,done,stuck⟩
        · rw [if_neg bad] at stuck
          by_cases short : s.vars.freeMap.clearCount < 1 + blocksFor size + rootGrowth s.device
          · rw [if_pos short] at stuck
            have leak : leakAt s name size = .some _ :=
              createLeak_growth size some enough.1 enough.2.1 enough.2.2 bad short
            rw [leak]
            exact Or.inr ⟨x,nonnull,step,done,stuck⟩
          · rw [if_neg short] at stuck
            have room : 8517120 < 36 * freeSlot (contents (s.device rootDirSector) s.device) + 36 := by
              by_contra fits
              exact success ⟨bad,Nat.le_of_not_lt short,Nat.le_of_not_lt fits⟩
            have leak : leakAt s name size = .some _ :=
              createLeak_full size some enough.1 enough.2.2 bad (Nat.le_of_not_lt short) room
            rw [leak]
            exact Or.inr ⟨x,nonnull,step,done,stuck⟩
    · rw [if_neg enough] at filling
      obtain ⟨created,done,stuck⟩ := filling
      have step : (createInode stale dir name size false).exec s = ((false,x),v) := by
        unfold createInode
        simp only [Task.exec_bind,run,created,Bool.false_eq_true,if_false,Task.exec_pure]
      refine ⟨v,s.device rootDirSector,handles.trans holds.setData_self.symm,?_⟩
      by_cases negative : size < 0
      · rw [if_pos negative] at stuck
        have leak : leakAt s name size = .some _ := createLeak_early size (Or.inr negative)
        rw [leak]
        exact Or.inr ⟨x,nonnull,step,done,stuck⟩
      · rw [if_neg negative] at stuck
        by_cases short : s.vars.freeMap.clearCount < 1 + blocksFor size
        · rw [if_pos short] at stuck
          have leak : leakAt s name size = .some _ := createLeak_blocks size some (Int.not_lt.mp negative) short
          rw [leak]
          exact Or.inr ⟨x,nonnull,step,done,stuck⟩
        · rw [if_neg short] at stuck
          have large : 8517120 < size := by
            by_contra small
            exact enough ⟨Int.not_lt.mp negative,Nat.le_of_not_lt short,Int.not_lt.mp small⟩
          have leak : leakAt s name size = .some _ :=
            createLeak_refused size some (Int.not_lt.mp negative) (Nat.le_of_not_lt short) (Or.inl large)
          rw [leak]
          exact Or.inr ⟨x,nonnull,step,done,stuck⟩
  · have leak : leakAt s name size = .some _ := createLeak_early size (Or.inl empty)
    rw [leak]
    have step : (createInode stale dir name size false).exec s =
        ((false,0),{s with vars.allocations := s.vars.allocations ++ [none]}) := by
      unfold createInode
      simp only [Task.exec_bind,run,Task.exec_pure]
    refine ⟨({s with vars.allocations := s.vars.allocations ++ [none]} : Volume),s.device rootDirSector,
      holds.setData_self.symm,Or.inl ⟨step,false,?_⟩⟩
    exact ⟨layout.congr rfl rfl,ready.vars _ rfl rfl rfl,Kept.of_device rfl,⟨rfl,rfl,[none],rfl,by simp,by simp⟩,
      fun _ marked => marked,rfl⟩

/-- The handles take no part in what the stages do to the device. -/
theorem Refused.rehandle {done : Bool} {leaked : Nat} {h : Handles}
    (refused : Refused reserved dirty owner (withHandles s h) t done leaked) (h' : Handles)
    (ready : Ready reserved dirty (withHandles t h')) :
    Refused reserved dirty owner s (withHandles t h') done leaked :=
  ⟨refused.layout.congr rfl rfl,ready,⟨refused.kept.inodes,refused.kept.system,refused.kept.files⟩,
    ⟨refused.logged.panics,refused.logged.size,refused.logged.log⟩,refused.mono,refused.count⟩

theorem Made.rehandle {name : CString} {h : Handles} (made : Made reserved dirty owner (withHandles s h) t x name size)
    (h' : Handles) (ready : Ready reserved dirty (withHandles t h')) :
    Made reserved dirty owner s (withHandles t h') x name size :=
  ⟨made.layout.congr rfl rfl,ready,⟨made.marks.panics,made.marks.size,made.marks.mono,made.marks.log⟩,made.count,
    made.system,made.inodes,made.files,made.root,made.length,made.regular,made.zeros,made.clear,made.trees,made.exact,made.fresh⟩

/-- The root directory is not open, and nothing is out of the way of opening it. -/
structure RootClosed (h : Handles) : Prop where
  unset : h.cwd = none
  absent : h.Unopened rootDirSector
  live : Live h

theorem RootClosed.same {h h' : Handles} (closed : RootClosed h) (same : h.Same h') : RootClosed h' :=
  ⟨same.cwd.trans closed.unset,same.unopened _ closed.absent,closed.live.same same⟩

/-- Readiness goes over to the state after the root directory is closed. -/
theorem Ready.closeRoot {v : Volume} {d : Sector} (closed : RootClosed s.vars.handles) (ready : Ready reserved dirty v)
    (handles : ((s.vars.handles.openRoot (s.device rootDirSector)).setData s.vars.handles.inodes.next d).Same
      v.vars.handles) :
    (dirClose (some s.vars.handles.dirs.next)).exec v =
        ((),withHandles v (v.vars.handles.closeDir s.vars.handles.dirs.next)) ∧
      s.vars.handles.Same (v.vars.handles.closeDir s.vars.handles.dirs.next) ∧
      Ready reserved dirty (withHandles v (v.vars.handles.closeDir s.vars.handles.dirs.next)) := by
  have same := (openRoot_same s.vars.handles (s.device rootDirSector) d closed.unset).trans (handles.closeDir _)
  refine ⟨exec_closeRoot _ _ d v handles,same,ready.rehandle rfl fun f pointer => ?_⟩
  have apart := closed.live.ne_next f (handles.freeMapFile.symm.trans pointer)
  rw [same.inode_eq,same.file_eq,handles.inode_eq,handles.file_eq]
  refine Eq.symm ((ObjectHeap.deref_modify_of_ne _ _ _ _ ?_).trans (ObjectHeap.deref_alloc_of_ne _ _ _ ?_))
  · exact apart
  · exact apart

/-- `filesys_create` of a regular file: what `leakAt` says. -/
theorem filesysCreate_spec (layout : Layout reserved owner s.device s) (ready : Ready reserved dirty s)
    (origin : reserved 0) (owns : owner rootDirSector) (closed : RootClosed s.vars.handles) (stale : List Byte)
    (path : CString) (low : -2147483648 ≤ size) (high : size < 2147483648) :
    ∃ v, s.vars.handles.Same v.vars.handles ∧
      match leakAt s (splitPathFilename path).2 size with
      | some leaked => (filesysCreate stale path size false).exec s = (false,v) ∧
          ∃ done, Refused reserved dirty owner s v done leaked
      | none => (filesysCreate stale path size false).exec s = (true,v) ∧
          ∃ x, Made reserved dirty owner s v x (splitPathFilename path).2 size := by
  have opening := exec_dirOpenRoot_new s closed.unset closed.absent
  change _ = (_,withHandles s (s.vars.handles.openRoot (s.device rootDirSector))) at opening
  have ready' := ready.openRoot closed.live (s.device rootDirSector)
  have holds := holds_openRoot s closed.live
  have opened := dir_openRoot s.vars.handles (s.device rootDirSector)
  obtain ⟨v,d,handles,stages⟩ := createInode_spec (layout.congr (t := withHandles s
    (s.vars.handles.openRoot (s.device rootDirSector))) rfl rfl) ready' origin owns holds opened stale
    (splitPathFilename path).2 low high
  have leak : leakAt (withHandles s (s.vars.handles.openRoot (s.device rootDirSector))) (splitPathFilename path).2 size =
      leakAt s (splitPathFilename path).2 size := rfl
  rw [leak] at stages
  cases verdict : leakAt s (splitPathFilename path).2 size with
  | none =>
    rw [verdict] at stages
    obtain ⟨x,run,made⟩ := stages
    obtain ⟨closing,same,after⟩ := Ready.closeRoot closed made.ready (.of_eq handles)
    refine ⟨_,same,?_,x,made.rehandle _ after⟩
    unfold filesysCreate
    simp only [Task.exec_bind,opening,run,Bool.not_true,Bool.false_and,Bool.false_eq_true,if_false,Task.exec_pure,closing]
  | some leaked =>
    rw [verdict] at stages
    rcases stages with ⟨run,done,refused⟩ | ⟨x,nonnull,run,done,stuck⟩
    · obtain ⟨closing,same,after⟩ := Ready.closeRoot closed refused.ready (.of_eq handles)
      refine ⟨_,same,?_,done,refused.rehandle _ after⟩
      unfold filesysCreate
      simp only [Task.exec_bind,opening,run,bne_self_eq_false,Bool.and_false,Bool.false_eq_true,if_false,Task.exec_pure,
        closing]
    · obtain ⟨w,release,kept,refused⟩ := stuck.release origin
      obtain ⟨closing,same,after⟩ := Ready.closeRoot closed refused.ready (.of_eq (kept.trans handles))
      refine ⟨_,same,?_,done,refused.rehandle _ after⟩
      have given : (x != 0) = true := bne_iff_ne.mpr nonnull
      unfold filesysCreate
      simp only [Task.exec_bind,opening,run,given,Bool.not_false,Bool.and_self,if_true,release,closing,Task.exec_pure]

end
end MyShell.FS
