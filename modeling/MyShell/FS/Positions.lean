import MyShell.FS.Commands
import MyShell.FS.Undo

/-! The positions of the files in the table, along any run of commands. -/
namespace MyShell.FS
open BlockProgram PointerForest Bitmap

/-- What keeps the position of a file from becoming negative: no seek to a negative offset,
and no write that fails less than two bytes after the start of the file. -/
def FileCommand.Safe (s : Volume) : FileCommand → Prop
  | .write fileName words _ => words.length ≠ 0 → ∀ start, startOf s fileName = some start → 2 ≤ start.1 ∨
      (start.1.toNat + writeSize words ≤ 8517120 ∧
        need start.2 s.device (start.1.toNat + writeSize words) ≤ s.vars.freeMap.clearCount)
  | .seek fileName offset => (startOf s fileName).isSome = true → 0 ≤ atoi offset
  | _ => True

/-- The states of the runs of commands on files that `spelled` spells. -/
inductive CommandRun (spelled : CString → Prop) (s : FileSys) : FileSys → Prop
  | start : CommandRun spelled s s
  | step {t : FileSys} (command : FileCommand) (before : CommandRun spelled s t) (named : spelled command.fileName)
      (safe : command.Safe (volume t)) : CommandRun spelled s (command.task.exec t).2

/-- The positions of all files in the table are offsets. -/
def NaturalPositions (h : Handles) : Prop := ∀ entry ∈ h.fileTable, 0 ≤ (h.file entry.2).pos

section
variable {reserved dirty : Nat → Prop} {spelled : CString → Prop} {img : Nat → Sector} {s t : Volume} {h : Handles}
  {path : CString} {f p i x : Nat} {pos : Int}

theorem Serving.natural (serving : Serving reserved dirty spelled img s) : NaturalPositions s.vars.handles := by
  intro entry member
  obtain ⟨p,i,pos,file⟩ := serving.files entry member
  rw [file.file_eq]
  exact file.low

/-- A file that moved before the start. -/
theorem TableFile.negative (file : TableFile spelled img s path f p i pos) (member : (path,f) ∈ s.vars.handles.fileTable)
    (next : Int) (below : next < 0) : ¬NaturalPositions (s.vars.handles.setPos f next) := by
  intro natural
  have cell : (s.vars.handles.setPos f next).files.cell f = some ⟨p,next,false⟩ := by
    refine (ObjectHeap.modify_cell _ _ _ _).trans ?_
    rw [if_pos rfl,file.file]
    rfl
  have low := natural (path,f) member
  have moved : (s.vars.handles.setPos f next).file f = ⟨p,next,false⟩ := ObjectHeap.deref_of_cell _ _ _ cell
  rw [moved] at low
  exact absurd low (Int.not_le.mpr below)

/-- How a command ends: the file system serves the next one if the command was safe, and
otherwise a position is negative. -/
structure Commanded (reserved dirty : Nat → Prop) (spelled : CString → Prop) (t : Volume) (safe : Prop) : Prop where
  serving : safe → ∃ img, Serving reserved dirty spelled img t
  negative : ¬safe → ¬NaturalPositions t.vars.handles

theorem Commanded.of_serving {safe : Prop} (serving : Serving reserved dirty spelled img t) (always : safe) :
    Commanded reserved dirty spelled t safe := ⟨fun _ => ⟨img,serving⟩,fun contrary => absurd always contrary⟩

/-- A command that ends in a move of its file. -/
theorem Commanded.moved {safe : Prop} (serving : Serving reserved dirty spelled img t) (spelling : Spelling spelled)
    (member : (path,f) ∈ t.vars.handles.fileTable) (file : TableFile spelled img t path f p i pos) (next : Int)
    (high : next < 2147483648) (exact : safe ↔ 0 ≤ next) :
    Commanded reserved dirty spelled (withHandles t (t.vars.handles.setPos f next)) safe :=
  ⟨fun low => ⟨img,serving.setPos spelling member file next (exact.mp low) high⟩,
    fun below => file.negative member next (Int.not_le.mp fun low => below (exact.mpr low))⟩

theorem atoi_bounds (s : CString) : -2147483648 ≤ atoi s ∧ atoi s < 2147483648 := by
  unfold atoi clipLong
  split <;> exact i32_bounds _

theorem writeSize_pos (words : List CString) (some : words.length ≠ 0) : 2 ≤ writeSize words := by
  unfold writeSize
  omega

theorem Serving.writeWords (serving : Serving reserved dirty spelled img s) (spelling : Spelling spelled)
    (written : spelled path) (words : List CString) (some : words.length ≠ 0) (line : writeSize words ≤ maxUserInput) :
    ∃ count t, (writeWords path words).exec s = (count,t) ∧
      Commanded reserved dirty spelled t (FileCommand.Safe s (.write path words line)) := by
  have positive := writeSize_pos words some
  have found := serving.tableFile spelling written
  unfold FS.writeWords fsutilWrite
  have size : i32 (writeSize words) = writeSize words := by
    simp only [maxUserInput] at line
    exact i32_of_bounds _ (by omega) (by omega)
  rw [size,Task.exec_bind]
  cases start : startOf s path with
  | none =>
    rw [start] at found
    obtain ⟨h,run,after⟩ := found
    rw [run]
    exact ⟨_,_,rfl,.of_serving after fun _ start' contrary => absurd (start.symm.trans contrary) (Option.some_ne_none _).symm⟩
  | some start' =>
    rw [start] at found
    obtain ⟨f,p,i,h,run,after,member,file,image⟩ := found
    rw [run]
    obtain ⟨full,t,wrote,outcome⟩ := after.fileWrite spelling member file (writeBuffer words) (writeSize words) (by omega)
      (by simp only [maxUserInput] at line; omega)
    obtain ⟨img',serving',file'⟩ := outcome.serving
    have exact : full = true ↔ start'.1.toNat + writeSize words ≤ 8517120 ∧
        need start'.2 s.device (start'.1.toNat + writeSize words) ≤ s.vars.freeMap.clearCount := image ▸ outcome.exact
    have low := file.low
    have high := file.high
    refine ⟨_,_,wrote,.moved serving' spelling (outcome.table ▸ member) file' _ ?_ ?_⟩
    · cases full with
      | true =>
        have small := (exact.mp rfl).1
        rw [if_pos rfl]
        omega
      | false =>
        rw [if_neg Bool.false_ne_true]
        omega
    · have unfolded : FileCommand.Safe s (.write path words line) ↔ 2 ≤ start'.1 ∨ full = true := by
        rw [exact]
        exact ⟨fun safe => safe some start' start,fun either _ other equal =>
          Option.some.inj (start.symm.trans equal) ▸ either⟩
      rw [unfolded]
      cases full with
      | true =>
        rw [if_pos rfl]
        exact ⟨fun _ => by omega,fun _ => Or.inr rfl⟩
      | false =>
        rw [if_neg Bool.false_ne_true]
        exact ⟨fun either => by
          have two := either.resolve_right Bool.false_ne_true
          omega,fun natural => Or.inl (by omega)⟩

theorem Serving.fsutilRead (serving : Serving reserved dirty spelled img s) (spelling : Spelling spelled)
    (written : spelled path) (size : Int) :
    ∃ bytes t, (fsutilRead path size).exec s = (bytes,t) ∧ Serving reserved dirty spelled img t := by
  have found := serving.tableFile spelling written
  unfold FS.fsutilRead
  rw [Task.exec_bind]
  cases start : startOf s path with
  | none =>
    rw [start] at found
    obtain ⟨h,run,after⟩ := found
    rw [run]
    exact ⟨_,_,rfl,after⟩
  | some start' =>
    rw [start] at found
    obtain ⟨f,p,i,h,run,after,member,file,-⟩ := found
    obtain ⟨reading,bound⟩ := after.fileRead file size
    rw [run]
    dsimp only
    rw [Task.exec_bind,reading,Task.exec_pure]
    have low := file.low
    exact ⟨_,_,rfl,after.setPos spelling member file _ (by omega) bound⟩

theorem Serving.fsutilSeek (serving : Serving reserved dirty spelled img s) (spelling : Spelling spelled)
    (written : spelled path) (offset : Int) (high : offset < 2147483648) :
    ∃ status t, (fsutilSeek path offset).exec s = (status,t) ∧
      Commanded reserved dirty spelled t ((startOf s path).isSome = true → 0 ≤ offset) := by
  have found := serving.tableFile spelling written
  unfold FS.fsutilSeek
  rw [Task.exec_bind]
  cases start : startOf s path with
  | none =>
    rw [start] at found
    obtain ⟨h,run,after⟩ := found
    rw [run]
    exact ⟨_,_,rfl,.of_serving after fun contrary => absurd contrary Bool.false_ne_true⟩
  | some start' =>
    rw [start] at found
    obtain ⟨f,p,i,h,run,after,member,file,-⟩ := found
    rw [run]
    dsimp only
    rw [Task.exec_bind,Option.isSome_some,forall_prop_of_true rfl]
    rcases Int.lt_or_le offset 0 with below | natural
    · have seek : (fileSeek f offset).exec (withHandles s h) =
          ((),withHandles ⟨{s.vars with panics := s.vars.panics + 1},s.device⟩ (h.setPos f offset)) := by
        unfold fileSeek panicUnless
        rw [decide_eq_false (Int.not_le.mpr below)]
        rfl
      rw [seek,Task.exec_pure]
      exact ⟨_,_,rfl,fun low => absurd low (Int.not_le.mpr below),fun _ => file.negative member offset below⟩
    · rw [exec_fileSeek _ f offset natural,Task.exec_pure]
      exact ⟨_,_,rfl,.of_serving (after.setPos spelling member file offset natural high) natural⟩

/-- `fsutil_size` opens the file and leaves it at its start. -/
theorem Serving.fsutilSize (serving : Serving reserved dirty spelled img s) (spelling : Spelling spelled)
    (written : spelled path) :
    ∃ length h, (fsutilSize path).exec s = (length,withHandles s h) ∧
      Serving reserved dirty spelled img (withHandles s h) ∧
      ∀ start, startOf s path = some start → ∃ f p i, (path,f) ∈ h.fileTable ∧
        TableFile spelled img (withHandles s h) path f p i start.1 ∧ img (entrySector s i) = start.2 := by
  have found := serving.tableFile spelling written
  unfold FS.fsutilSize
  rw [Task.exec_bind]
  cases start : startOf s path with
  | none =>
    rw [start] at found
    obtain ⟨h,run,after⟩ := found
    rw [run]
    exact ⟨_,h,rfl,after,fun start' contrary => absurd contrary.symm (Option.some_ne_none _)⟩
  | some start' =>
    rw [start] at found
    obtain ⟨f,p,i,h,run,after,member,file,image⟩ := found
    have told : (fileTell f).exec (withHandles s h) = (start'.1,withHandles s h) := by
      unfold fileTell
      simp only [Task.exec_bind,exec_getHandles,Task.exec_pure,file.file_eq]
    rw [run]
    dsimp only
    rw [Task.exec_bind,told]
    dsimp only
    rw [Task.exec_bind]
    have measured : ((fileLength f).exec (withHandles s h)).2 = withHandles s h := rfl
    rw [measured,Task.exec_bind,exec_fileSeek _ f start'.1 file.low,Task.exec_pure,file.setPos_self]
    refine ⟨_,h,rfl,after,fun other same => ?_⟩
    obtain rfl := Option.some.inj same
    exact ⟨f,p,i,member,file,image⟩

theorem Serving.fsutilCat (serving : Serving reserved dirty spelled img s) (spelling : Spelling spelled)
    (written : spelled path) :
    ∃ outcome t, (fsutilCat path).exec s = (outcome,t) ∧ Serving reserved dirty spelled img t := by
  unfold FS.fsutilCat
  rw [Task.exec_bind,exec_getFileByFname]
  cases known : s.vars.handles.fileTable.find? fun entry => entry.1 == path with
  | some entry =>
    have member := List.mem_of_find?_eq_some known
    obtain ⟨p,i,pos,file⟩ := serving.files entry member
    obtain ⟨dumps,run,-⟩ := serving.catFile spelling member file
    dsimp only [Option.map_some,Option.isNone_some]
    rw [Task.exec_bind,exec_tableFile_known s entry known]
    dsimp only
    rw [Task.exec_bind,run]
    exact ⟨_,_,rfl,serving⟩
  | none =>
    have opening := filesysOpen_new serving.layout owns_root serving.image serving.unset serving.absent_root
      (spelling.names path written)
    dsimp only [Option.map_none,Option.isNone_none]
    rw [Task.exec_bind]
    cases found : findName (rootArray s) (lastName path) with
    | none =>
      rw [found] at opening
      obtain ⟨h,run,same⟩ := opening
      rw [exec_tableFile_none known run]
      exact ⟨_,_,rfl,serving.same same⟩
    | some i =>
      rw [found] at opening
      obtain ⟨f,p,h,run,new⟩ := opening (serving.apart i (findName_listed found).1)
        (serving.unopened spelling written (find_path known) found)
      obtain ⟨after,file⟩ := serving.add spelling written (find_path known) found new
      obtain ⟨dumps,run',-⟩ := after.catFile spelling (List.mem_append_right _ (List.mem_singleton_self _)) file
      have tabled := exec_tableFile_new known run new.fileTable
      change _ = (some f,withHandles s {h with fileTable := s.vars.handles.fileTable ++ [(path,f)]}) at tabled
      obtain ⟨h',removing,same⟩ := new.remove (s := withHandles s {h with
        fileTable := s.vars.handles.fileTable ++ [(path,f)]}) known rfl
      rw [tabled]
      dsimp only
      rw [Task.exec_bind,run']
      dsimp only
      rw [if_pos rfl,Task.exec_bind,removing]
      exact ⟨_,_,rfl,serving.same same⟩

/-- The step lemma: a command keeps the file system serving if it is safe, and only then
the positions natural. -/
theorem Serving.step (serving : Serving reserved dirty spelled img s) (spelling : Spelling spelled) (command : FileCommand)
    (named : spelled command.fileName) :
    Commanded reserved dirty spelled (command.task.exec s).2 (command.Safe s) := by
  cases command with
  | write path words line =>
    change spelled path at named
    unfold FileCommand.task
    dsimp only
    by_cases none : words.length = 0
    · rw [if_pos none,Task.exec_pure]
      exact .of_serving serving fun some => absurd none some
    · obtain ⟨count,t,run,after⟩ := serving.writeWords spelling named words none line
      rw [if_neg none,Task.exec_bind,run]
      dsimp only
      rw [Task.exec_ite,Task.exec_pure,Task.exec_pure]
      split <;> exact after
  | read path count =>
    change spelled path at named
    obtain ⟨bytes,t,run,after⟩ := serving.fsutilRead spelling named (atoi count)
    unfold FileCommand.task
    rw [Task.exec_bind,run]
    cases bytes <;> exact .of_serving after trivial
  | seek path offset =>
    change spelled path at named
    obtain ⟨status,t,run,after⟩ := serving.fsutilSeek spelling named (atoi offset) (atoi_bounds offset).2
    unfold FileCommand.task
    rw [Task.exec_bind,run]
    dsimp only
    rw [Task.exec_ite,Task.exec_pure,Task.exec_pure]
    split <;> exact after
  | size path =>
    change spelled path at named
    obtain ⟨length,h,run,after,-⟩ := serving.fsutilSize spelling named
    unfold FileCommand.task
    rw [Task.exec_bind,run]
    dsimp only
    rw [Task.exec_ite,Task.exec_pure,Task.exec_pure]
    split <;> exact .of_serving after trivial
  | cat path =>
    change spelled path at named
    obtain ⟨outcome,t,run,after⟩ := serving.fsutilCat spelling named
    unfold FileCommand.task
    rw [Task.exec_bind,run]
    exact .of_serving after trivial

/-- Nothing but the free map file is open. -/
theorem Mounted.serving (mounted : Mounted reserved dirty s) (spelled : CString → Prop) :
    Serving reserved dirty spelled s.device s := by
  obtain ⟨f,p,c,mapped⟩ := mounted.idle.mapped
  have table := mounted.idle.table
  refine ⟨mounted.layout,mounted.ready,mounted.origin,rfl,mounted.root,mounted.apart,mounted.idle.unset,mounted.idle.live,
    fun g pointer => ?_,fun entry member => ?_,?_,fun q member => Or.inl (mounted.idle.only q member),fun z _ _ => rfl⟩
  · obtain rfl : f = g := Option.some.inj (mapped.pointer.symm.trans pointer)
    rw [mapped.file]
    exact ⟨⟨_,mapped.held⟩,(congrArg Inode.sector (ObjectHeap.deref_of_cell _ _ _ mapped.cell)).trans mapped.sector⟩
  · rw [table] at member
    exact absurd member List.not_mem_nil
  · rw [table]
    exact List.nodup_nil

end

section
variable {reserved dirty : Nat → Prop} {spelled : CString → Prop} {s t : FileSys}

theorem exec_natural (s : FileSys) (command : FileCommand) :
    (command.task.exec (volume s)).2.vars.handles = (command.task.exec s).2.vars.handles := by
  rw [exec_volume]
  rfl

/-- The run lemma. -/
theorem CommandRun.serving (run : CommandRun spelled s t) (spelling : Spelling spelled)
    (mounted : Mounted reserved dirty (volume s)) : ∃ img, Serving reserved dirty spelled img (volume t) := by
  induction run with
  | start => exact ⟨_,mounted.serving spelled⟩
  | step command _ named safe ih =>
    obtain ⟨img,serving⟩ := ih
    have after := (serving.step spelling command named).serving safe
    rwa [exec_volume] at after

/-- After every safe run of commands the positions are offsets, so that the next read or
write starts at one, and they stay offsets exactly if the next command is safe as well. -/
theorem positions_natural (c : CacheStore) (fits : Formattable c.cache.fsDevice.size) (reached : Reached (formatted c) s)
    (spelling : Spelling spelled) (run : CommandRun spelled s t) :
    NaturalPositions t.vars.handles ∧
      (∀ path start, spelled path → startOf (volume t) path = some start → 0 ≤ start.1) ∧
      ∀ command : FileCommand, spelled command.fileName →
        (NaturalPositions (command.task.exec t).2.vars.handles ↔ command.Safe (volume t)) := by
  obtain ⟨reserved,dirty,sane⟩ := formatted_sane c fits
  obtain ⟨img,serving⟩ := run.serving spelling (sane.reached reached).mounted
  refine ⟨serving.natural,fun path start written here => ?_,fun command named => ?_⟩
  · have found := serving.tableFile spelling written
    rw [here] at found
    obtain ⟨f,p,i,h,-,-,-,file,-⟩ := found
    exact file.low
  · have after := serving.step spelling command named
    rw [← exec_natural]
    constructor
    · intro natural
      by_contra risky
      exact after.negative risky natural
    · intro safe
      obtain ⟨img',serving'⟩ := after.serving safe
      exact serving'.natural

end

theorem spelling_nameA : Spelling fun path => path = nameA where
  names path same := by
    subst same
    exact ⟨by decide,by decide,by decide,by decide⟩
  single _ _ first second _ := first.trans second.symm

/-- A file on the new device. -/
theorem blankStore_created : ∃ s d, Reached (formatted blankStore) s ∧ startOf (volume s) nameA = some (0,d) ∧
    d.length = 5000 := by
  have work {reserved dirty : Nat → Prop} (s : FileSys) (mounted : Mounted reserved dirty (volume s))
      (leak : leakAt (volume s) nameA 5000 = none) :
      ∃ d, startOf (volume ((FileOp.create [] nameA 5000).task.exec s).2) nameA = some (0,d) ∧ d.length = 5000 := by
    obtain ⟨v,same,outcome⟩ := filesysCreate_spec mounted.layout mounted.ready mounted.origin owns_root mounted.idle.closed
      [] nameA (show -2147483648 ≤ (5000 : Int) by decide) (by decide)
    rw [splitPathFilename_slashFree nameA (by decide),leak] at outcome
    obtain ⟨run,x,made⟩ := outcome
    have grown := mounted.grown same (createLeak_good _ leak).2 made
    have named := grown.named
    have table := grown.mounted.idle.table
    have state : volume ((FileOp.create [] nameA 5000).task.exec s).2 = v := by
      unfold FileOp.task
      rw [exec_volume] at run
      simp only [Task.exec_bind,Task.exec_pure]
      exact (Prod.mk.inj run).2
    have last : lastName nameA = nameA := by decide
    refine ⟨v.device x,?_,made.length⟩
    rw [state]
    unfold startOf
    rw [table,last]
    unfold sectorOf at named
    cases found : findName (rootArray v) nameA with
    | none =>
      rw [found] at named
      exact absurd named.symm (Option.some_ne_none _)
    | some i =>
      rw [found] at named
      rw [← Option.some.inj named]
      rfl
  obtain ⟨reserved,dirty,sane⟩ := formatted_sane blankStore blankStore_formattable
  obtain ⟨d,start,length⟩ := work _ sane.mounted formatted_blankStore_leak
  exact ⟨_,d,.step (.create [] nameA 5000) .start ⟨by decide,by decide⟩,start,length⟩

def minusOne : CString := ⟨[45,49],by decide⟩
def five : CString := ⟨[53],by decide⟩

theorem blankStore_seeks : ∃ s t, Reached (formatted blankStore) s ∧ CommandRun (fun path => path = nameA) s t ∧
    NaturalPositions t.vars.handles := by
  obtain ⟨s,-,reached,-,-⟩ := blankStore_created
  have run : CommandRun (fun path => path = nameA) s _ := .step (.seek nameA five) .start rfl fun _ => by decide
  exact ⟨s,_,reached,run,(positions_natural blankStore blankStore_formattable reached spelling_nameA run).1⟩

/-- `seek` to -1 passes its assertion. -/
theorem seek_before_start : ∃ s, Reached (formatted blankStore) s ∧ NaturalPositions s.vars.handles ∧
    ¬NaturalPositions ((FileCommand.seek nameA minusOne).task.exec s).2.vars.handles := by
  have seek {reserved dirty : Nat → Prop} (s : FileSys) (mounted : Mounted reserved dirty (volume s))
      (there : (startOf (volume s) nameA).isSome = true) : NaturalPositions s.vars.handles ∧
        ¬NaturalPositions ((FileCommand.seek nameA minusOne).task.exec s).2.vars.handles := by
    have serving := mounted.serving fun path => path = nameA
    have after := serving.step spelling_nameA (.seek nameA minusOne) rfl
    rw [← exec_natural]
    exact ⟨serving.natural,after.negative fun safe => absurd (safe there) (by decide)⟩
  obtain ⟨s,d,reached,there,-⟩ := blankStore_created
  obtain ⟨reserved,dirty,sane⟩ := formatted_sane blankStore blankStore_formattable
  exact ⟨s,reached,seek s (sane.reached reached).mounted (by rw [there]; rfl)⟩

end MyShell.FS
