import MyShell.FS.Serving

/-! What the functions of fsutil.c do to the file that a path names. -/
namespace MyShell.FS
open BlockProgram PointerForest Bitmap

/-- The position and the inode that a command on the path starts with: those of the file in
the table, or of the entry of the root directory. -/
def startOf (s : Volume) (path : CString) : Option (Int × Sector) :=
  match s.vars.handles.fileTable.find? fun entry => entry.1 == path with
  | some entry => some ((s.vars.handles.file entry.2).pos,
      (s.vars.handles.inode (s.vars.handles.file entry.2).inode).data)
  | none => (findName (rootArray s) (lastName path)).map fun i => (0,s.device (entrySector s i))

section
variable {reserved dirty : Nat → Prop} {spelled : CString → Prop} {img : Nat → Sector} {s t : Volume} {h : Handles}
  {path : CString} {f p i x : Nat} {pos : Int}

theorem setPos_setPos (h : Handles) (f : Nat) (first second : Int) : (h.setPos f first).setPos f second = h.setPos f second := by
  unfold Handles.setPos
  congr 1
  unfold ObjectHeap.modify
  simp only [ObjectHeap.mk.injEq,and_true]
  funext g
  by_cases same : g = f
  · rw [same,Function.update_self,Function.update_self,Function.update_self]
    cases h.files.cell f <;> rfl
  · rw [Function.update_of_ne same,Function.update_of_ne same,Function.update_of_ne same]

theorem TableFile.setPos_self (file : TableFile spelled img s path f p i pos) :
    s.vars.handles.setPos f pos = s.vars.handles := by
  unfold Handles.setPos
  rw [ObjectHeap.modify_self]
  rw [file.file]
  rfl

theorem TableFile.moved (file : TableFile spelled img s path f p i pos) (next : Int) (low : 0 ≤ next)
    (high : next < 2147483648) :
    TableFile spelled img (withHandles s (s.vars.handles.setPos f next)) path f p i next := by
  refine ⟨file.spelled,file.found,?_,file.cell,file.opened,low,high⟩
  change (s.vars.handles.files.modify f _).cell f = _
  rw [ObjectHeap.modify_cell,if_pos rfl,file.file]
  rfl

theorem exec_getFileByFname (s : Volume) (path : CString) :
    (getFileByFname path).exec s = ((s.vars.handles.fileTable.find? fun entry => entry.1 == path).map Prod.snd,s) := rfl

theorem exec_addToFileTable (s : Volume) (path : CString) (f : Nat)
    (missing : (s.vars.handles.fileTable.find? fun entry => entry.1 == path) = none) :
    (addToFileTable f path).exec s =
      ((),withHandles s {s.vars.handles with fileTable := s.vars.handles.fileTable ++ [(path,f)]}) := by
  unfold addToFileTable
  rw [Task.exec_bind,exec_getFileByFname,missing]
  rfl

theorem exec_tableFile_known (s : Volume) (entry : CString × Nat)
    (known : (s.vars.handles.fileTable.find? fun entry => entry.1 == path) = some entry) :
    (tableFile path).exec s = (some entry.2,s) := by
  unfold tableFile
  rw [Task.exec_bind,exec_getFileByFname,known]
  rfl

theorem exec_tableFile_none (missing : (s.vars.handles.fileTable.find? fun entry => entry.1 == path) = none)
    (opening : (filesysOpen path).exec s = (none,t)) : (tableFile path).exec s = (none,t) := by
  unfold tableFile
  rw [Task.exec_bind,exec_getFileByFname,missing]
  dsimp only [Option.map_none]
  rw [Task.exec_bind,opening,Task.exec_pure]

theorem exec_tableFile_new (missing : (s.vars.handles.fileTable.find? fun entry => entry.1 == path) = none)
    (opening : (filesysOpen path).exec s = (some f,t)) (table : t.vars.handles.fileTable = s.vars.handles.fileTable) :
    (tableFile path).exec s =
      (some f,withHandles t {t.vars.handles with fileTable := s.vars.handles.fileTable ++ [(path,f)]}) := by
  unfold tableFile
  rw [Task.exec_bind,exec_getFileByFname,missing]
  dsimp only [Option.map_none]
  rw [Task.exec_bind,opening]
  dsimp only
  rw [Task.exec_bind,exec_addToFileTable t path f (by rw [table]; exact missing),Task.exec_pure,table]

theorem find_path {table : List (CString × Nat)} (missing : (table.find? fun entry => entry.1 == path) = none)
    (entry : CString × Nat) (member : entry ∈ table) : entry.1 ≠ path := by
  have other := List.find?_eq_none.mp missing entry member
  rwa [beq_iff_eq] at other

/-- How a command finds the file of a path in the file system as it is. -/
theorem Serving.tableFile (serving : Serving reserved dirty spelled img s) (spelling : Spelling spelled)
    (written : spelled path) :
    match startOf s path with
    | none => ∃ h, (tableFile path).exec s = (none,withHandles s h) ∧ Serving reserved dirty spelled img (withHandles s h)
    | some start => ∃ f p i h, (tableFile path).exec s = (some f,withHandles s h) ∧
        Serving reserved dirty spelled img (withHandles s h) ∧ (path,f) ∈ h.fileTable ∧
        TableFile spelled img (withHandles s h) path f p i start.1 ∧ img (entrySector s i) = start.2 := by
  unfold startOf
  cases known : s.vars.handles.fileTable.find? fun entry => entry.1 == path with
  | some entry =>
    have key := List.find?_some known
    have here : entry.1 = path := beq_iff_eq.mp key
    have member := List.mem_of_find?_eq_some known
    obtain ⟨p,i,pos,file⟩ := serving.files entry member
    have inode : s.vars.handles.inode p = ⟨entrySector s i,1,false,0,img (entrySector s i)⟩ :=
      ObjectHeap.deref_of_cell _ _ _ file.cell
    refine ⟨entry.2,p,i,s.vars.handles,exec_tableFile_known s entry known,serving,here ▸ member,?_,?_⟩
    · dsimp only
      rw [file.file_eq]
      exact here ▸ file
    · dsimp only
      rw [file.file_eq]
      dsimp only
      rw [inode]
  | none =>
    have opening := filesysOpen_new serving.layout owns_root serving.image serving.unset serving.absent_root
      (spelling.names path written)
    cases found : findName (rootArray s) (lastName path) with
    | none =>
      rw [found] at opening
      obtain ⟨h,run,same⟩ := opening
      exact ⟨h,exec_tableFile_none known run,serving.same same⟩
    | some i =>
      rw [found] at opening
      obtain ⟨f,p,h,run,new⟩ := opening (serving.apart i (findName_listed found).1)
        (serving.unopened spelling written (find_path known) found)
      obtain ⟨after,file⟩ := serving.add spelling written (find_path known) found new
      exact ⟨f,p,i,{h with fileTable := s.vars.handles.fileTable ++ [(path,f)]},exec_tableFile_new known run new.fileTable,after,
        List.mem_append_right _ (List.mem_singleton_self _),file,
        serving.closed _ (serving.owns (findName_listed found).1).1 (serving.unopened spelling written (find_path known) found)⟩

/-- `file_read` at the position of a file. -/
theorem Serving.fileRead (serving : Serving reserved dirty spelled img s) (file : TableFile spelled img s path f p i pos)
    (size : Int) :
    (fileRead f size).exec s = (arrayRead (contents (img (entrySector s i)) s.device) pos.toNat size.toNat,
        withHandles s (s.vars.handles.setPos f
          (pos + (arrayRead (contents (img (entrySector s i)) s.device) pos.toNat size.toNat).length))) ∧
      pos + (arrayRead (contents (img (entrySector s i)) s.device) pos.toNat size.toNat).length < 2147483648 := by
  have held : (s.vars.handles.inode p).data = img (entrySector s i) :=
    congrArg Inode.data (ObjectHeap.deref_of_cell _ _ _ file.cell)
  exact exec_fileRead serving.layout (serving.owns file.listed.1).1 file.file held file.low file.high size

/-- The bytes of an open file in the table. -/
theorem TableFile.array_eq (file : TableFile spelled img s path f p i pos) :
    fileArray s p = contents (img (entrySector s i)) s.device := by
  have inode : s.vars.handles.inode p = ⟨entrySector s i,1,false,0,img (entrySector s i)⟩ :=
    ObjectHeap.deref_of_cell _ _ _ file.cell
  rw [fileArray,inode]

/-- How a write to a file of the table ends: it is complete if the end is in range and the
sectors that are missing are there, and otherwise it writes nothing. -/
structure FileWritten (reserved dirty : Nat → Prop) (spelled : CString → Prop) (img : Nat → Sector) (s t : Volume)
    (path : CString) (f p i : Nat) (pos : Int) (buffer : List Byte) (n : Nat) (full : Bool) : Prop where
  exact : full = true ↔ pos.toNat + n ≤ 8517120 ∧
    need (img (entrySector s i)) s.device (pos.toNat + n) ≤ s.vars.freeMap.clearCount
  serving : ∃ img', Serving reserved dirty spelled img' t ∧ TableFile spelled img' t path f p i pos
  table : t.vars.handles.fileTable = s.vars.handles.fileTable
  files : t.vars.handles.files = s.vars.handles.files
  bytes : fileArray t p = if full then arrayWrite (fileArray s p) buffer pos.toNat n else fileArray s p

theorem Serving.inodeWriteAt (serving : Serving reserved dirty spelled img s) (spelling : Spelling spelled)
    (member : (path,f) ∈ s.vars.handles.fileTable) (file : TableFile spelled img s path f p i pos) (buffer : List Byte)
    (n : Nat) (some : 0 < n) (second : n < 2147483648) :
    ∃ full t, (FS.inodeWriteAt p buffer n pos).exec s = (if full = true then (n : Int) else 0,t) ∧
      FileWritten reserved dirty spelled img s t path f p i pos buffer n full := by
  have owns := (serving.owns file.listed.1).1
  have holds := serving.holds file
  have low := file.low
  have high := file.high
  obtain ⟨write,isWrite,steps⟩ := inodeWriteAt_step s
  have start := steps p buffer n pos
  by_cases bound : pos.toNat + n < 2147483648
  · obtain ⟨done,t,d,run,outcome,image⟩ := writeStep_image isWrite serving.layout serving.ready serving.origin owns holds
      buffer pos.toNat n some bound
    rw [Int.toNat_of_nonneg low] at run
    obtain ⟨after,file',table,files⟩ := serving.write spelling member file outcome image
    have found : done = true ↔ need (img (entrySector s i)) s.device (pos.toNat + n) ≤ s.vars.freeMap.clearCount := by
      cases done with
      | true =>
        have count := outcome.counts.count rfl
        exact ⟨fun _ => by omega,fun _ => rfl⟩
      | false =>
        have short := outcome.counts.short rfl
        exact ⟨fun contrary => absurd contrary Bool.false_ne_true,fun enough => by omega⟩
    have array := outcome.aside.rootArray_eq owns_root (serving.apart i file.listed.1) serving.image
    refine ⟨done && decide (pos.toNat + n ≤ 8517120),t,?_,?_,⟨_,after,file'⟩,table,files,?_⟩
    · rw [start,run]
      simp only [Bool.and_eq_true,decide_eq_true_eq]
    · rw [Bool.and_eq_true,decide_eq_true_eq,found,and_comm]
    · rw [file'.array_eq,file.array_eq,entrySector_congr array,Function.update_self,image.bytes]
      simp only [Bool.and_eq_true,decide_eq_true_eq]
  · have run := writeStep_overflow write serving.layout owns holds buffer pos.toNat n (by omega) second (Nat.le_of_not_lt bound)
    rw [Int.toNat_of_nonneg low] at run
    refine ⟨false,s,start.trans run,?_,⟨img,serving,file⟩,rfl,rfl,rfl⟩
    exact ⟨fun contrary => absurd contrary Bool.false_ne_true,fun ⟨small,_⟩ => absurd small (by omega)⟩

/-- `file_write` takes the position on by two bytes less than it writes. -/
theorem Serving.fileWrite (serving : Serving reserved dirty spelled img s) (spelling : Spelling spelled)
    (member : (path,f) ∈ s.vars.handles.fileTable) (file : TableFile spelled img s path f p i pos) (buffer : List Byte)
    (n : Nat) (some : 0 < n) (second : n < 2147483648) :
    ∃ full t, (FS.fileWrite f buffer n).exec s = (if full = true then (n : Int) else 0,
        withHandles t (t.vars.handles.setPos f (pos + ((if full = true then (n : Int) else 0) - 2)))) ∧
      FileWritten reserved dirty spelled img s t path f p i pos (buffer.set (n-1) 0) n full := by
  obtain ⟨full,t,run,written⟩ := serving.inodeWriteAt spelling member file (buffer.set (n-1) 0) n some second
  refine ⟨full,t,?_,written⟩
  have low := file.low
  have high := file.high
  have last : ((n : Int) - 1).toNat = n - 1 := by omega
  have bounds : -2147483648 ≤ pos + ((if full = true then (n : Int) else 0) - 2) ∧
      pos + ((if full = true then (n : Int) else 0) - 2) < 2147483648 := by
    split
    · rename_i complete
      have small := (written.exact.mp complete).1
      omega
    · omega
  unfold FS.fileWrite
  simp only [Task.exec_bind,exec_getHandles,file.file_eq,last,run,exec_modifyFile,Task.exec_pure]
  generalize (if full = true then (n : Int) else 0) = count at bounds
  have modified : (t.vars.handles.files.modify f fun c => {c with pos := i32 (c.pos + (count - 2))}) =
      t.vars.handles.files.modify f fun c => {c with pos := pos + (count - 2)} := by
    unfold ObjectHeap.modify
    simp only [ObjectHeap.mk.injEq,and_true]
    rw [written.files,file.file,Option.map_some,Option.map_some,i32_of_bounds _ bounds.1 bounds.2]
  rw [modified]
  rfl

theorem exec_fileSeek (s : Volume) (f : Nat) (next : Int) (natural : 0 ≤ next) :
    (fileSeek f next).exec s = ((),withHandles s (s.vars.handles.setPos f next)) := by
  unfold fileSeek panicUnless
  rw [decide_eq_true natural]
  rfl

/-- The loop of `fsutil_cat` delivers the rest of the file. -/
theorem Serving.catLoop (serving : Serving reserved dirty spelled img s) (spelling : Spelling spelled)
    (member : (path,f) ∈ s.vars.handles.fileTable) (file : TableFile spelled img s path f p i pos) (fuel ofs : Nat)
    (enough : (fileArray s p).length - ofs < fuel) (high : ofs < 2147483648) :
    ∃ dumps next, (FS.catLoop f (fileArray s p).length fuel).exec (withHandles s (s.vars.handles.setPos f ofs)) =
        (dumps,withHandles s (s.vars.handles.setPos f next)) ∧
      dumps.flatMap Prod.snd = (fileArray s p).drop ofs ∧ ∀ dump ∈ dumps, 0 ≤ dump.1 := by
  induction fuel generalizing ofs with
  | zero => exact absurd enough (Nat.not_lt_zero _)
  | succ fuel ih =>
    have moved := file.moved ofs (Int.natCast_nonneg ofs) (by omega)
    have here := serving.setPos spelling member file ofs (Int.natCast_nonneg ofs) (by omega)
    obtain ⟨reading,bound⟩ := here.fileRead moved (fileArray s p).length
    have bytes : arrayRead (contents (img (entrySector s i)) s.device) ofs (fileArray s p).length =
        (fileArray s p).drop ofs := by
      rw [← file.array_eq,arrayRead]
      exact List.take_of_length_le (by rw [List.length_drop]; omega)
    have same : entrySector (withHandles s (s.vars.handles.setPos f ofs)) i = entrySector s i := rfl
    have handles : (withHandles s (s.vars.handles.setPos f ofs)).vars.handles = s.vars.handles.setPos f ofs := rfl
    rw [withHandles_device,same,Int.toNat_natCast,Int.toNat_natCast] at reading bound
    rw [handles,withHandles_withHandles] at reading
    rw [bytes,setPos_setPos] at reading
    rw [bytes] at bound
    have told : (fileTell f).exec (withHandles s (s.vars.handles.setPos f ofs)) =
        ((ofs : Int),withHandles s (s.vars.handles.setPos f ofs)) := by
      unfold fileTell
      simp only [Task.exec_bind,exec_getHandles,Task.exec_pure,moved.file_eq]
    unfold FS.catLoop
    rw [Task.exec_bind,told]
    dsimp only
    rw [Task.exec_bind,reading]
    dsimp only
    rw [List.length_drop] at reading bound ⊢
    by_cases last : (fileArray s p).length - ofs = 0
    · rw [if_pos last,Task.exec_pure]
      refine ⟨[],_,rfl,?_,fun dump member => absurd member List.not_mem_nil⟩
      rw [List.flatMap_nil,List.drop_of_length_le (by omega)]
    · obtain ⟨dumps,next,run,rest,natural⟩ := ih (ofs + ((fileArray s p).length - ofs)) (by omega) (by omega)
      refine ⟨((ofs : Int),(fileArray s p).drop ofs) :: dumps,next,?_,?_,?_⟩
      · rw [if_neg last,Task.exec_bind,show (ofs : Int) + ((fileArray s p).length - ofs : Nat) =
          (ofs + ((fileArray s p).length - ofs) : Nat) by omega,run,Task.exec_pure]
      · have past : (fileArray s p).drop (ofs + ((fileArray s p).length - ofs)) = [] := List.drop_of_length_le (by omega)
        rw [List.flatMap_cons,rest,past,List.append_nil]
      · intro dump inside
        rcases List.mem_cons.mp inside with rfl | later
        · exact Int.natCast_nonneg ofs
        · exact natural dump later

/-- `fsutil_cat` on an open file delivers its bytes and leaves the file where it was. -/
theorem Serving.catFile (serving : Serving reserved dirty spelled img s) (spelling : Spelling spelled)
    (member : (path,f) ∈ s.vars.handles.fileTable) (file : TableFile spelled img s path f p i pos) :
    ∃ dumps, (FS.catFile f).exec s = (dumps,s) ∧ dumps.flatMap Prod.snd = fileArray s p ∧ ∀ dump ∈ dumps, 0 ≤ dump.1 := by
  have natural := serving.layout.natural _ (serving.owns file.listed.1).1
  have limit := serving.layout.limit _ (serving.owns file.listed.1).1
  have inode : s.vars.handles.inode p = ⟨entrySector s i,1,false,0,img (entrySector s i)⟩ :=
    ObjectHeap.deref_of_cell _ _ _ file.cell
  have total : (img (entrySector s i)).length = (fileArray s p).length := by
    rw [file.array_eq,length_contents,Int.toNat_of_nonneg natural]
  obtain ⟨dumps,next,run,all,low⟩ := serving.catLoop spelling member file ((fileArray s p).length + 1) 0 (by omega)
    (by decide)
  refine ⟨dumps,?_,by rw [all,List.drop_zero],low⟩
  have told : (fileTell f).exec s = (pos,s) := by
    unfold fileTell
    simp only [Task.exec_bind,exec_getHandles,Task.exec_pure,file.file_eq]
  have moved := file.moved 0 (Int.le_refl 0) (by decide)
  have length : (fileLength f).exec (withHandles s (s.vars.handles.setPos f 0)) =
      (((fileArray s p).length : Int),withHandles s (s.vars.handles.setPos f 0)) := by
    unfold fileLength inodeLength
    simp only [Task.exec_bind,exec_getHandles,Task.exec_pure,moved.file_eq]
    have kept : (withHandles s (s.vars.handles.setPos f 0)).vars.handles.inode p = s.vars.handles.inode p := rfl
    rw [kept,inode,← total]
  have run' : (FS.catLoop f (fileArray s p).length ((fileArray s p).length + 1)).exec
      (withHandles s (s.vars.handles.setPos f 0)) = (dumps,withHandles s (s.vars.handles.setPos f next)) := run
  unfold FS.catFile
  rw [Task.exec_bind,told]
  dsimp only
  rw [Task.exec_bind,exec_fileSeek s f 0 (Int.le_refl 0)]
  dsimp only
  rw [Task.exec_bind,length]
  dsimp only
  rw [Task.exec_bind,Int.toNat_natCast,run']
  dsimp only
  rw [Task.exec_bind,exec_fileSeek _ f pos file.low,Task.exec_pure,withHandles_withHandles]
  change (dumps,withHandles s ((s.vars.handles.setPos f next).setPos f pos)) = _
  rw [setPos_setPos,file.setPos_self,withHandles_self]

/-- A file that was opened last is closed again and leaves the table. -/
theorem NewFile.remove {h₀ : Handles} {data : Sector} (new : NewFile h₀ h f p x data pos)
    (missing : (h₀.fileTable.find? fun entry => entry.1 == path) = none)
    (handles : s.vars.handles = {h with fileTable := h₀.fileTable ++ [(path,f)]}) :
    ∃ h', (removeFromFileTable path).exec s = (true,withHandles s h') ∧ h₀.Same h' := by
  have table : s.vars.handles.fileTable = h₀.fileTable ++ [(path,f)] := by rw [handles]
  have found : (s.vars.handles.fileTable.find? fun entry => entry.1 == path) = some (path,f) := by
    rw [table,List.find?_append,missing,Option.none_or]
    exact List.find?_cons_of_pos (beq_self_eq_true path)
  have erased : (h₀.fileTable ++ [(path,f)]).eraseP (fun entry => entry.1 == path) = h₀.fileTable := by
    rw [List.eraseP_append_right _ (List.find?_eq_none.mp missing),
      List.eraseP_cons_of_pos (by exact beq_self_eq_true path),List.append_nil]
  have entered : NewFile {h₀ with fileTable := h₀.fileTable ++ [(path,f)]} s.vars.handles f p x data pos := by
    rw [handles]
    exact ⟨new.inodes,new.inode,new.openInodes,new.files,new.file,new.dirs,new.freeMapFile,new.cwd,rfl⟩
  obtain ⟨h',closing,same⟩ := entered.close rfl
  refine ⟨{h' with fileTable := h'.fileTable.eraseP fun entry => entry.1 == path},?_,?_⟩
  · unfold removeFromFileTable
    simp only [Task.exec_bind,exec_getHandles,found,closing,Task.exec_modify,Task.exec_pure]
    rfl
  · refine ⟨same.inodes,same.openInodes,same.files,same.dirs,same.freeMapFile,same.cwd,?_⟩
    exact (congrArg (List.eraseP fun entry => entry.1 == path) same.fileTable).trans erased

end
end MyShell.FS
