import MyShell.FS.Contents
import MyShell.FS.Filesys

/-! Opening and closing inodes, files and directories: what the handles in memory are
afterwards. None of it reaches the device but for the read of a newly opened inode. -/
namespace MyShell.FS
open BlockProgram

/-- An inode as `inode_open` reads it from its sector. -/
def readInode (sector : Nat) (data : Sector) : Inode where
  sector := sector
  openCnt := 1
  removed := false
  denyWriteCnt := 0
  data := data

namespace Handles

/-- The inode of `sector` opened for the first time. -/
def openInode (h : Handles) (sector : Nat) (data : Sector) : Handles :=
  {h with
    openInodes := h.inodes.next :: h.openInodes
    inodes := h.inodes.alloc (readInode sector data)}

/-- The inode closed for the last time. -/
def closeInode (h : Handles) (p : Nat) : Handles :=
  {h with
    openInodes := h.openInodes.erase p
    inodes := (h.inodes.modify p fun i => {i with openCnt := i.openCnt - 1}).free p}

/-- The root directory opened as the working directory. -/
def changeInode (h : Handles) (p : Nat) (f : Inode → Inode) : Handles := {h with inodes := h.inodes.modify p f}

def openRoot (h : Handles) (data : Sector) : Handles :=
  {h.openInode rootDirSector data with
    dirs := h.dirs.alloc {inode := h.inodes.next, pos := sizeofDirEntry, openCnt := 1}
    cwd := some h.dirs.next}

/-- The only open directory closed. -/
def closeDir (h : Handles) (dir : Nat) : Handles :=
  {h.closeInode (h.dir dir).inode with
    dirs := (h.dirs.modify dir fun d => {d with openCnt := d.openCnt - 1}).free dir
    cwd := none}

/-- No open inode is that of `sector`. -/
def Unopened (h : Handles) (sector : Nat) : Prop := ∀ p ∈ h.openInodes, (h.inode p).sector ≠ sector

/-- The same handles, whatever addresses were used in between. -/
structure Same (h h' : Handles) : Prop where
  inodes : h'.inodes.cell = h.inodes.cell
  openInodes : h'.openInodes = h.openInodes
  files : h'.files.cell = h.files.cell
  dirs : h'.dirs.cell = h.dirs.cell
  freeMapFile : h'.freeMapFile = h.freeMapFile
  cwd : h'.cwd = h.cwd
  fileTable : h'.fileTable = h.fileTable

variable {h h' h'' : Handles}

theorem Same.refl : h.Same h := ⟨rfl,rfl,rfl,rfl,rfl,rfl,rfl⟩

theorem Same.of_eq (equal : h' = h) : h.Same h' := equal ▸ Same.refl

theorem Same.trans (first : h.Same h') (second : h'.Same h'') : h.Same h'' :=
  ⟨second.inodes.trans first.inodes,second.openInodes.trans first.openInodes,second.files.trans first.files,
    second.dirs.trans first.dirs,second.freeMapFile.trans first.freeMapFile,second.cwd.trans first.cwd,
    second.fileTable.trans first.fileTable⟩

theorem Same.inode_eq (same : h.Same h') (p : Nat) : h'.inode p = h.inode p := by
  rw [inode,inode,ObjectHeap.deref,ObjectHeap.deref,same.inodes]

theorem Same.file_eq (same : h.Same h') (p : Nat) : h'.file p = h.file p := by
  rw [file,file,ObjectHeap.deref,ObjectHeap.deref,same.files]

theorem Same.symm (same : h.Same h') : h'.Same h :=
  ⟨same.inodes.symm,same.openInodes.symm,same.files.symm,same.dirs.symm,same.freeMapFile.symm,same.cwd.symm,
    same.fileTable.symm⟩

theorem Same.unopened (same : h.Same h') (sector : Nat) (absent : h.Unopened sector) : h'.Unopened sector := by
  intro p member
  rw [same.inode_eq]
  exact absent p (same.openInodes ▸ member)

theorem Same.dir_eq (same : h.Same h') (p : Nat) : h'.dir p = h.dir p := by
  rw [dir,dir,ObjectHeap.deref,ObjectHeap.deref,same.dirs]

theorem Same.closeInode (same : h.Same h') (p : Nat) : (h.closeInode p).Same (h'.closeInode p) where
  inodes := ObjectHeap.free_congr (ObjectHeap.modify_congr same.inodes p _) p
  openInodes := congrArg (List.erase · p) same.openInodes
  files := same.files
  dirs := same.dirs
  freeMapFile := same.freeMapFile
  cwd := same.cwd
  fileTable := same.fileTable

theorem Same.closeDir (same : h.Same h') (dir : Nat) : (h.closeDir dir).Same (h'.closeDir dir) := by
  have inode := same.closeInode (h.dir dir).inode
  unfold Handles.closeDir
  rw [same.dir_eq]
  exact ⟨inode.inodes,inode.openInodes,inode.files,ObjectHeap.free_congr (ObjectHeap.modify_congr same.dirs dir _) dir,
    inode.freeMapFile,rfl,inode.fileTable⟩

end Handles

section
variable {s : Volume} {p : Nat} {i : Inode}

theorem exec_inodeOpen_new (s : Volume) (sector : Nat) (absent : s.vars.handles.Unopened sector) :
    (inodeOpen sector).exec s =
      (s.vars.handles.inodes.next,{s with vars.handles := s.vars.handles.openInode sector (s.device sector)}) := by
  have missed : (s.vars.handles.openInodes.find? fun p => (s.vars.handles.inode p).sector == sector) = none := by
    rw [List.find?_eq_none]
    intro p member
    simpa using absent p member
  unfold inodeOpen
  simp only [Task.exec_bind,exec_getHandles,missed,exec_bufferRead,exec_setHandles,Task.exec_pure,Handles.openInode,readInode]

theorem exec_inodeClose_last (s : Volume) (cell : s.vars.handles.inodes.cell p = some i) (last : i.openCnt = 1)
    (kept : i.removed = false) :
    (inodeClose (some p)).exec s = ((),{s with vars.handles := s.vars.handles.closeInode p}) := by
  have closed := ObjectHeap.deref_modify s.vars.handles.inodes p (fun i => {i with openCnt := i.openCnt - 1}) i cell
  unfold inodeClose
  simp only [Task.exec_bind,exec_modifyInode,exec_getHandles,Handles.inode,closed,last,Int.sub_self,if_true,
    exec_setHandles,kept,Bool.false_eq_true,if_false,Task.exec_modify,Handles.closeInode]

theorem exec_dirOpenRoot_new (s : Volume) (none : s.vars.handles.cwd = none)
    (absent : s.vars.handles.Unopened rootDirSector) :
    dirOpenRoot.exec s = (some s.vars.handles.dirs.next,
      {s with vars.handles := s.vars.handles.openRoot (s.device rootDirSector)}) := by
  unfold dirOpenRoot
  simp only [Task.exec_bind,exec_getHandles,none,exec_inodeOpen_new s _ absent,dirOpen,setCwd,exec_setHandles,
    Task.exec_pure,Task.exec_modify]
  rfl

theorem exec_dirClose_last {dir : Nat} {d : Dir} (cell : s.vars.handles.dirs.cell dir = some d) (once : d.openCnt = 1)
    (inode : s.vars.handles.inodes.cell d.inode = some i) (last : i.openCnt = 1) (kept : i.removed = false) :
    (dirClose (some dir)).exec s = ((),{s with vars.handles := s.vars.handles.closeDir dir}) := by
  have closed := ObjectHeap.deref_modify s.vars.handles.dirs dir (fun d => {d with openCnt := d.openCnt - 1}) d cell
  have before : s.vars.handles.dir dir = d := ObjectHeap.deref_of_cell _ _ _ cell
  unfold dirClose
  simp only [Task.exec_bind,exec_modifyDir,exec_getHandles,Handles.dir,closed,once,Int.sub_self,if_true]
  rw [exec_inodeClose_last _ ?_ last kept]
  · simp only [Task.exec_modify,setCwd,Handles.closeDir,before,Handles.closeInode]
  · exact inode

/-- The free map file is open, or no file is the free map file. -/
def Live (h : Handles) : Prop := ∀ f, h.freeMapFile = some f → ∃ i, h.inodes.cell (h.file f).inode = some i

theorem Live.ne_next {h : Handles} (live : Live h) (f : Nat) (pointer : h.freeMapFile = some f) :
    (h.file f).inode ≠ h.inodes.next := by
  intro same
  obtain ⟨i,cell⟩ := live f pointer
  rw [same,h.inodes.next_cell] at cell
  contradiction

theorem Live.openInode {h : Handles} (live : Live h) (sector : Nat) (data : Sector) : Live (h.openInode sector data) := by
  intro f pointer
  obtain ⟨i,cell⟩ := live f pointer
  refine ⟨i,((ObjectHeap.alloc_cell _ _ _).trans (if_neg ?_)).trans cell⟩
  exact live.ne_next f pointer

theorem Live.same {h h' : Handles} (live : Live h) (same : h.Same h') : Live h' := by
  intro f pointer
  obtain ⟨i,cell⟩ := live f (same.freeMapFile.symm.trans pointer)
  exact ⟨i,by rw [same.inodes,same.file_eq]; exact cell⟩

section
variable (h : Handles) (data d : Sector)

theorem openRoot_cell : ((h.openRoot data).setData h.inodes.next d).inodes.cell h.inodes.next =
    some (readInode rootDirSector d) := by
  simp only [Handles.setData,Handles.openRoot,Handles.openInode,ObjectHeap.modify_cell,if_true,
    ObjectHeap.alloc_cell_next,Option.map_some,readInode]

theorem setData_same (same : (h.inodes.cell p).map (fun i => {i with data := d}) = h.inodes.cell p) :
    h.setData p d = h := by
  unfold Handles.setData
  rw [ObjectHeap.modify_self _ _ _ same]

/-- Opening the root directory, writing to it and closing it leaves no trace in memory. -/
theorem openRoot_same (unset : h.cwd = none) :
    h.Same (((h.openRoot data).setData h.inodes.next d).closeDir h.dirs.next) := by
  have dir : ((h.openRoot data).setData h.inodes.next d).dir h.dirs.next =
      {inode := h.inodes.next, pos := sizeofDirEntry, openCnt := 1} :=
    ObjectHeap.deref_of_cell _ _ _ (ObjectHeap.alloc_cell_next _ _)
  unfold Handles.closeDir Handles.closeInode
  rw [dir]
  refine ⟨?_,List.erase_cons_head _ _,rfl,?_,rfl,unset.symm,rfl⟩
  · exact (((ObjectHeap.SameBut.alloc _ _).modify _).modify _).free h.inodes.next_cell
  · exact ((ObjectHeap.SameBut.alloc _ _).modify _).free h.dirs.next_cell

theorem exec_closeRoot (v : Volume) (same : ((h.openRoot data).setData h.inodes.next d).Same v.vars.handles) :
    (dirClose (some h.dirs.next)).exec v = ((),withHandles v (v.vars.handles.closeDir h.dirs.next)) := by
  have dir : v.vars.handles.dirs.cell h.dirs.next =
      some {inode := h.inodes.next, pos := sizeofDirEntry, openCnt := 1} := by
    rw [same.dirs]
    exact ObjectHeap.alloc_cell_next _ _
  have inode := openRoot_cell h data d
  rw [← same.inodes] at inode
  exact exec_dirClose_last dir rfl inode rfl rfl

/-- Opening an inode, changing it and closing it. -/
theorem openInode_same (sector : Nat) (f : Inode → Inode) :
    h.Same (((h.openInode sector data).changeInode h.inodes.next f).closeInode h.inodes.next) :=
  ⟨(((ObjectHeap.SameBut.alloc _ _).modify _).modify _).free h.inodes.next_cell,List.erase_cons_head _ _,rfl,rfl,rfl,rfl,rfl⟩

theorem changeInode_cell (sector : Nat) (f : Inode → Inode) :
    ((h.openInode sector data).changeInode h.inodes.next f).inodes.cell h.inodes.next =
      some (f (readInode sector data)) := by
  simp only [Handles.changeInode,Handles.openInode,ObjectHeap.modify_cell,if_true,ObjectHeap.alloc_cell_next,
    Option.map_some]

end

section
variable {reserved dirty : Nat → Prop} {h : Handles}

/-- Readiness when the handles of the free map file are the same. -/
theorem Ready.rehandle (ready : Ready reserved dirty s) (freeMapFile : h.freeMapFile = s.vars.handles.freeMapFile)
    (same : ∀ f, s.vars.handles.freeMapFile = some f →
      h.inode (h.file f).inode = s.vars.handles.inode (s.vars.handles.file f).inode) :
    Ready reserved dirty (withHandles s h) := ready.handles h freeMapFile same

theorem Ready.openInode (ready : Ready reserved dirty s) (live : Live s.vars.handles) (sector : Nat) (data : Sector) :
    Ready reserved dirty (withHandles s (s.vars.handles.openInode sector data)) :=
  ready.rehandle rfl fun f pointer => ObjectHeap.deref_alloc_of_ne _ _ _ (live.ne_next f pointer)

/-- The root directory, just opened. -/
theorem Ready.openRoot (ready : Ready reserved dirty s) (live : Live s.vars.handles) (data : Sector) :
    Ready reserved dirty (withHandles s (s.vars.handles.openRoot data)) :=
  ready.rehandle rfl fun f pointer => ObjectHeap.deref_alloc_of_ne _ _ _ (live.ne_next f pointer)

theorem holds_openRoot (s : Volume) (live : Live s.vars.handles) :
    Holds s.device (withHandles s (s.vars.handles.openRoot (s.device rootDirSector))) s.vars.handles.inodes.next
      rootDirSector (readInode rootDirSector (s.device rootDirSector)) :=
  ⟨ObjectHeap.alloc_cell_next _ _,rfl,rfl,rfl,fun f pointer => live.ne_next f pointer⟩

theorem dir_openRoot (h : Handles) (data : Sector) : ((h.openRoot data).dir h.dirs.next).inode = h.inodes.next :=
  congrArg Dir.inode (ObjectHeap.deref_of_cell _ _ _ (ObjectHeap.alloc_cell_next _ _))

end

end
end MyShell.FS
