import MyShell.FS.Create
import MyShell.FS.Removal

/-! `filesys_remove` of a regular file in the root directory: its entry goes out of
use, its sectors become free, and nothing else changes. -/
namespace MyShell.FS
open BlockProgram PointerForest Bitmap

def SlashFree (path : CString) : Prop := (47 : Byte) ∉ path.chars

instance (path : CString) : Decidable (SlashFree path) := inferInstanceAs (Decidable (_ ∉ _))

theorem ofBuffer_chars (s : CString) : CString.ofBuffer s.chars = s := by
  apply CString.ext
  refine List.takeWhile_eq_self_iff.mpr fun c member => ?_
  simp only [ne_eq,decide_not,Bool.not_eq_eq_eq_not,Bool.not_true,decide_eq_false_iff_not]
  exact fun null => s.noNull (null ▸ member)

theorem splitPathFilename_slashFree (path : CString) (plain : SlashFree path) :
    splitPathFilename path = (emptyString,path) := by
  have single : path.chars.splitOn 47 = [path.chars] := by
    refine List.splitOnP_eq_singleton fun c member => ?_
    rw [beq_eq_false_iff_ne]
    exact fun slash => plain (slash ▸ member)
  have relative : isAbsolute path = false := by
    unfold isAbsolute
    cases chars : path.chars with
    | nil => rfl
    | cons c rest =>
      rw [List.head?_cons,beq_eq_false_iff_ne]
      intro slash
      exact plain (chars ▸ Option.some.inj slash ▸ List.mem_cons_self)
  unfold splitPathFilename pathTokens
  rw [single,relative]
  cases chars : path.chars with
  | nil =>
    have blank : path = emptyString := CString.ext chars
    rw [blank]
    rfl
  | cons c rest =>
    rw [← chars]
    have kept : [path.chars].filter (fun token => !token.isEmpty) = [path.chars] := by
      rw [chars]
      rfl
    rw [kept]
    simp only [List.map_cons,List.map_nil,List.dropLast_singleton,List.flatMap_nil,List.getLastD_cons,
      List.getLastD_nil,Bool.false_eq_true,if_false,List.append_nil,ofBuffer_chars]
    rfl

section
variable {reserved dirty owner : Nat → Prop} {img : Nat → Sector} {s t u : Volume} {x b p dir : Nat} {inode : Inode}

/-- A listed file as `dir_remove` finds it: a regular file that is not open. -/
structure ListedFile (owner : Nat → Prop) (s : Volume) (x : Nat) : Prop where
  inode : owner x
  apart : x ≠ rootDirSector
  regular : (s.device x).isDir = false
  closed : s.vars.handles.Unopened x

/-- The entry `i`, taken out of use. -/
def erasedEntry (a : List Byte) (i : Nat) : DirEntry := {entryAt a i with inUse := false}

theorem erasedEntry_bytes (a : List Byte) (i : Nat) (inside : i < entryCount a) :
    DirEntry.ofBytes (erasedEntry a i).bytes = erasedEntry a i :=
  ofBytes_bytes _ (inodeSector_lt _) (length_name a i inside)

/-- What is left after entry `i` of the root directory was removed. -/
structure Removed (reserved dirty owner : Nat → Prop) (s t : Volume) (i x : Nat) : Prop where
  layout : Layout reserved (fun z => owner z ∧ z ≠ x) t.device t
  ready : Ready reserved dirty t
  marks : ∀ y, bitmapTest t.vars.freeMap y = true ↔
    bitmapTest s.vars.freeMap y = true ∧ y ∉ ownedSectors (s.device x) s.device x
  size : t.vars.freeMap.bitCnt = s.vars.freeMap.bitCnt
  panics : t.vars.panics = s.vars.panics
  log : t.vars.allocations = s.vars.allocations
  system : ∀ y, reserved y → ¬dirty y → t.device y = s.device y
  inodes : ∀ z, owner z → z ≠ x → t.device z = s.device z
  files : ∀ z, owner z → z ≠ x → z ≠ rootDirSector → contents (s.device z) t.device = contents (s.device z) s.device
  trees : ∀ z, owner z → z ≠ x → SameTree (s.device z) s.device t.device
  root : contents (t.device rootDirSector) t.device =
    arrayWrite (contents (s.device rootDirSector) s.device)
      (erasedEntry (contents (s.device rootDirSector) s.device) i).bytes (36*i) 36

/-- The same for an entry of the directory in the sector `b`. -/
structure Erased (reserved dirty owner : Nat → Prop) (s t : Volume) (b i x : Nat) : Prop where
  layout : Layout reserved (fun z => owner z ∧ z ≠ x) t.device t
  ready : Ready reserved dirty t
  marks : ∀ y, bitmapTest t.vars.freeMap y = true ↔
    bitmapTest s.vars.freeMap y = true ∧ y ∉ ownedSectors (s.device x) s.device x
  size : t.vars.freeMap.bitCnt = s.vars.freeMap.bitCnt
  panics : t.vars.panics = s.vars.panics
  log : t.vars.allocations = s.vars.allocations
  system : ∀ y, reserved y → ¬dirty y → t.device y = s.device y
  inodes : ∀ z, owner z → z ≠ x → t.device z = s.device z
  files : ∀ z, owner z → z ≠ x → z ≠ b → contents (s.device z) t.device = contents (s.device z) s.device
  trees : ∀ z, owner z → z ≠ x → SameTree (s.device z) s.device t.device
  array : contents (t.device b) t.device =
    arrayWrite (contents (s.device b) s.device) (erasedEntry (contents (s.device b) s.device) i).bytes (36*i) 36

theorem Erased.removed {i : Nat} (erased : Erased reserved dirty owner s t rootDirSector i x) :
    Removed reserved dirty owner s t i x :=
  ⟨erased.layout,erased.ready,erased.marks,erased.size,erased.panics,erased.log,erased.system,erased.inodes,
    erased.files,erased.trees,erased.array⟩

/-- The write that takes an entry out of use stays inside the directory. -/
theorem eraseEntry_spec (layout : Layout reserved owner s.device s) (ready : Ready reserved dirty s)
    (owns : owner b) (holds : Holds s.device s p b inode) (i : Nat)
    (inside : i < entryCount (contents (s.device b) s.device)) :
    ∃ mem, (inodeWriteAt p (erasedEntry (contents (s.device b) s.device) i).bytes sizeofDirEntry
        ((36*i : Nat) : Int)).exec s = ((36 : Int),⟨s.vars,mem⟩) ∧
      WriteOutcome reserved dirty owner s.device s ⟨s.vars,mem⟩ p b
        (erasedEntry (contents (s.device b) s.device) i).bytes (36*i) 36 true (s.device b) ∧
      SameTree (s.device b) s.device mem := by
  obtain ⟨write,isWrite,steps⟩ := inodeWriteAt_step s
  have fits : ((36*i + 36 : Nat) : Int) ≤ (s.device b).length := by
    unfold entryCount at inside
    rw [length_contents] at inside
    omega
  obtain ⟨mem,run,outcome,tree⟩ := writeStep_short write layout ready owns holds
    (erasedEntry (contents (s.device b) s.device) i).bytes (36*i) 36 (by decide) fits
  exact ⟨mem,(steps _ _ _ _).trans run,outcome,tree⟩

/-- The list of open inodes has no dead entry, and none twice. -/
structure OpenList (h : Handles) : Prop where
  nodup : h.openInodes.Nodup
  cells : ∀ p ∈ h.openInodes, ∃ i, h.inodes.cell p = some i

/-- How `inode_open` leaves the handles: the inode `q` holds what the sector `x` holds. -/
structure OpenedOnce (s : Volume) (h : Handles) (q x : Nat) : Prop where
  run : (inodeOpen x).exec s = (q,withHandles s h)
  cell : h.inodes.cell q = some (readInode x (s.device x))
  kept : ∀ p i, s.vars.handles.inodes.cell p = some i → h.inodes.cell p = some i
  added : ∀ p i, h.inodes.cell p = some i → p = q ∨ s.vars.handles.inodes.cell p = some i
  list : ∀ p, p ∈ h.openInodes ↔ p = q ∨ p ∈ s.vars.handles.openInodes
  nodup : OpenList s.vars.handles → h.openInodes.Nodup
  files : h.files = s.vars.handles.files
  dirs : h.dirs = s.vars.handles.dirs
  pointer : h.freeMapFile = s.vars.handles.freeMapFile
  cwd : h.cwd = s.vars.handles.cwd
  table : h.fileTable = s.vars.handles.fileTable
  apart : ∀ f, s.vars.handles.freeMapFile = some f → (s.vars.handles.file f).inode ≠ q

theorem openedOnce_new (live : Live s.vars.handles) (closed : s.vars.handles.Unopened x) :
    OpenedOnce s (s.vars.handles.openInode x (s.device x)) s.vars.handles.inodes.next x := by
  refine ⟨exec_inodeOpen_new s x closed,ObjectHeap.alloc_cell_next _ _,fun p i cell => ?_,fun p i cell => ?_,
    fun p => List.mem_cons,fun list => List.nodup_cons.mpr ⟨fun member => ?_,list.nodup⟩,rfl,rfl,rfl,rfl,rfl,
    fun f pointer => live.ne_next f pointer⟩
  · have old := Nat.ne_of_lt (ObjectHeap.lt_next _ p i cell)
    exact (ObjectHeap.alloc_cell _ _ _).trans ((if_neg old).trans cell)
  · rcases eq_or_ne p s.vars.handles.inodes.next with new | old
    · exact Or.inl new
    · exact Or.inr (((ObjectHeap.alloc_cell _ _ _).trans (if_neg old)).symm.trans cell)
  · obtain ⟨i,cell⟩ := list.cells _ member
    exact absurd (s.vars.handles.inodes.next_cell.symm.trans cell) (Option.some_ne_none i).symm

theorem OpenedOnce.ready {h : Handles} {q : Nat} (opening : OpenedOnce s h q x) (live : Live s.vars.handles)
    (ready : Ready reserved dirty s) : Ready reserved dirty (withHandles s h) := by
  refine ready.rehandle opening.pointer fun f pointer => ?_
  obtain ⟨i,cell⟩ := live f pointer
  rw [Handles.file,opening.files]
  exact (ObjectHeap.deref_of_cell _ _ _ (opening.kept _ i cell)).trans (ObjectHeap.deref_of_cell _ _ _ cell).symm

theorem OpenedOnce.holds {h : Handles} {q : Nat} (opening : OpenedOnce s h q x) (holds : Holds img s p dir inode) :
    Holds img (withHandles s h) p dir inode := by
  refine ⟨opening.kept _ _ holds.cell,holds.sector,holds.data,holds.writable,fun f pointer => ?_⟩
  change (h.file f).inode ≠ p
  rw [Handles.file,opening.files]
  exact holds.other f (opening.pointer.symm.trans pointer)

theorem exec_removable {i : Inode} (s : Volume) (q : Nat) (there : s.vars.handles.inode q = i) (regular : i.data.isDir = false) :
    (removable q).exec s = (true,s) := by
  unfold removable inodeIsDirectory
  simp only [Task.exec_bind,exec_getHandles,Task.exec_pure,there,regular,Bool.false_eq_true,if_false]

/-- The handles after the inode `q` was marked as removed. -/
def Handles.removeInode (h : Handles) (q : Nat) : Handles := h.changeInode q fun i => {i with removed := true}

/-- The end of `dir_remove`: the last close of the removed inode releases what it owns. -/
theorem removeOpened_spec {q : Nat} (cell : u.vars.handles.inodes.cell q = some (readInode x (img x)))
    (apart : ∀ f, u.vars.handles.freeMapFile = some f → (u.vars.handles.file f).inode ≠ q)
    (layout : Layout reserved owner img u) (ready : Ready reserved dirty u) (origin : reserved 0) (owns : owner x) :
    ∃ t, (inodeRemove q).exec u = ((),withHandles u (u.vars.handles.removeInode q)) ∧
      (inodeClose (some q)).exec (withHandles u (u.vars.handles.removeInode q)) = ((),t) ∧
      Releases reserved dirty (ownedSectors (img x) u.device x)
        (withHandles u ((u.vars.handles.removeInode q).closeInode q)) t := by
  have ready' : Ready reserved dirty (withHandles u (u.vars.handles.removeInode q)) :=
    ready.rehandle rfl fun f pointer => ObjectHeap.deref_modify_of_ne _ _ _ _ (apart f pointer)
  have marked : (withHandles u (u.vars.handles.removeInode q)).vars.handles.inodes.cell q =
      some {readInode x (img x) with removed := true} :=
    (ObjectHeap.modify_cell _ _ _ _).trans ((if_pos rfl).trans (congrArg _ cell))
  obtain ⟨t,run,releases⟩ := inodeClose_removed (s := withHandles u (u.vars.handles.removeInode q))
    (layout.congr rfl rfl) ready' origin owns marked rfl rfl rfl rfl fun f pointer => apart f pointer
  exact ⟨t,rfl,run,releases⟩

/-- `dir_remove` of the entry `i` of a directory, whose inode it opens as `q`. -/
theorem dirRemove_opened {h : Handles} {q i : Nat} {name : CString} (layout : Layout reserved owner s.device s)
    (ready : Ready reserved dirty s) (origin : reserved 0) (owns : owner b) (live : Live s.vars.handles)
    (holds : Holds s.device s p b inode) (opened : (s.vars.handles.dir dir).inode = p)
    (found : findName (contents (s.device b) s.device) name = some i)
    (sector : (entryAt (contents (s.device b) s.device) i).inodeSector = x) (file : owner x)
    (apart : x ≠ b) (regular : (s.device x).isDir = false) (opening : OpenedOnce s h q x) :
    ∃ t, (dirRemove dir name).exec s = (true,t) ∧ t.vars.handles = (h.removeInode q).closeInode q ∧
      Erased reserved dirty owner s t b i x := by
  have search := lookup_spec layout owns (by rw [holds.inode_eq,holds.data]) opened name
  rw [found,Option.map_some] at search
  have listed := (findName_listed found).1
  -- its entry is written back
  obtain ⟨mem,write,outcome,baseTree⟩ := eraseEntry_spec (layout.congr (t := withHandles s h) rfl rfl)
    (opening.ready live ready) owns (opening.holds holds) i listed.inside
  obtain ⟨after,bytes,own⟩ := outcome.written rfl (by
    have limit := layout.limit _ owns
    have inside := listed.inside
    unfold entryCount at inside
    rw [length_contents] at inside
    omega)
  rw [Function.update_eq_self] at after
  -- its sectors are released
  have unmapped (f : Nat) (pointer : h.freeMapFile = some f) : (h.file f).inode ≠ q := by
    rw [Handles.file,opening.files]
    exact opening.apart f (opening.pointer.symm.trans pointer)
  obtain ⟨t,mark,close,releases⟩ := removeOpened_spec (u := ⟨(withHandles s h).vars,mem⟩) opening.cell unmapped after
    outcome.ready origin file
  have dropped (y : Nat) (member : y ∈ ownedSectors (s.device x) mem x) :=
    after.owned_unowned file (fun z (inside : owner z ∧ z ≠ x) => inside.1) (fun contrary => contrary.2 rfl) y member
  obtain ⟨narrow,-⟩ := after.drop file (fun z (inside : owner z ∧ z ≠ x) => inside.1) (fun contrary => contrary.2 rfl)
  have narrow' := narrow.congr (t := withHandles ⟨{s.vars with handles := h},mem⟩ ((h.removeInode q).closeInode q)) rfl rfl
  obtain ⟨last,kept⟩ := narrow'.releases releases fun y member =>
    ⟨(dropped y member).free,(dropped y member).other,(dropped y member).apart⟩
  have aside := kept x fun contrary => contrary.2 rfl
  have inodes (z : Nat) (inside : owner z) (other : z ≠ x) : t.device z = s.device z := by
    rw [aside.inodes z ⟨inside,other⟩ other]
    rcases eq_or_ne z b with rfl | deep
    · exact own rfl
    · exact outcome.aside.inodes z inside deep
  have tree : ownedSectors (s.device x) mem x = ownedSectors (s.device x) s.device x :=
    ownedSectors_congr (outcome.aside.trees x file apart) x
  refine ⟨t,?_,releases.handles,last.image fun z inside => inodes z inside.1 inside.2,releases.ready,fun y => ?_,releases.size,
    releases.panics,releases.log,fun y system clean => ?_,inodes,fun z inside other deep => ?_,
    fun z inside other pointer path key => ?_,?_⟩
  · have regular := exec_removable (withHandles s h) q (ObjectHeap.deref_of_cell _ _ _ opening.cell) regular
    have self : (dirGetInode dir).exec (withHandles s h) = (p,withHandles s h) := by
      have there : (h.dir dir).inode = p := by
        rw [Handles.dir,opening.dirs]
        exact opened
      exact congrArg (·,_) there
    rw [withHandles_device] at write
    simp only [erasedEntry,sector] at write
    have whole : (36 : Int) = (sizeofDirEntry : Int) := by decide
    have entered := opening.run
    unfold dirRemove
    simp only [Task.exec_bind,search,sector,entered,regular,if_true,self,write]
    rw [if_pos whole]
    simp only [Task.exec_bind,mark,close,Task.exec_pure]
  · rw [← tree]
    exact releases.marks y
  · exact (releases.device y clean).trans (outcome.aside.system y system clean (Or.inl rfl))
  · exact (aside.files z ⟨inside,other⟩ other).trans (outcome.aside.files z inside deep)
  · refine (aside.trees z ⟨inside,other⟩ other pointer path key).trans ?_
    rcases eq_or_ne z b with rfl | deep
    · exact baseTree pointer path key
    · exact outcome.aside.trees z inside deep pointer path key
  · rw [inodes _ owns apart.symm]
    exact (aside.files _ ⟨owns,apart.symm⟩ apart.symm).trans bytes

/-- A name that is not there, and a file that is not open. -/
theorem dirRemove_spec (layout : Layout reserved owner s.device s) (ready : Ready reserved dirty s)
    (origin : reserved 0) (owns : owner rootDirSector) (live : Live s.vars.handles)
    (holds : Holds s.device s p rootDirSector inode) (opened : (s.vars.handles.dir dir).inode = p) (name : CString)
    (files : ∀ i, ListedAt (contents (s.device rootDirSector) s.device) i →
      ListedFile owner s (entryAt (contents (s.device rootDirSector) s.device) i).inodeSector) :
    match findName (contents (s.device rootDirSector) s.device) name with
    | none => (dirRemove dir name).exec s = (false,s)
    | some i => ∃ t, (dirRemove dir name).exec s = (true,t) ∧ s.vars.handles.Same t.vars.handles ∧
        Removed reserved dirty owner s t i (entryAt (contents (s.device rootDirSector) s.device) i).inodeSector := by
  cases found : findName (contents (s.device rootDirSector) s.device) name with
  | none =>
    have search := lookup_spec layout owns (by rw [holds.inode_eq,holds.data]) opened name
    rw [found,Option.map_none] at search
    unfold dirRemove
    simp only [Task.exec_bind,search,Task.exec_pure]
  | some i =>
    have file := files i (findName_listed found).1
    obtain ⟨t,run,handles,removed⟩ := dirRemove_opened layout ready origin owns live holds opened found rfl file.inode
      file.apart file.regular (openedOnce_new live file.closed)
    refine ⟨t,run,?_,removed.removed⟩
    rw [handles]
    exact openInode_same _ _ _ _

/-- The handles take no part in what is left. -/
theorem Removed.rehandle {h : Handles} {i : Nat} (removed : Removed reserved dirty owner (withHandles s h) t i x)
    (h' : Handles) (ready : Ready reserved dirty (withHandles t h')) :
    Removed reserved dirty owner s (withHandles t h') i x :=
  ⟨removed.layout.congr rfl rfl,ready,removed.marks,removed.size,removed.panics,removed.log,removed.system,
    removed.inodes,removed.files,removed.trees,removed.root⟩

theorem unopened_openRoot {h : Handles} {data : Sector} (closed : h.Unopened x) (apart : x ≠ rootDirSector) :
    (h.openRoot data).Unopened x := by
  intro p member
  by_cases new : p = h.inodes.next
  · rw [new]
    have there : (h.openRoot data).inode h.inodes.next = readInode rootDirSector data :=
      ObjectHeap.deref_of_cell _ _ _ (ObjectHeap.alloc_cell_next _ _)
    rw [there]
    exact apart.symm
  · have old : p ∈ h.openInodes := (List.mem_cons.mp member).resolve_left new
    have there : (h.openRoot data).inode p = h.inode p := ObjectHeap.deref_alloc_of_ne _ _ _ new
    rw [there]
    exact closed p old

/-- `dir_open_path` of an empty path. -/
theorem exec_dirOpenPath_empty (s : Volume) (closed : RootClosed s.vars.handles) :
    (dirOpenPath emptyString).exec s =
      (some s.vars.handles.dirs.next,withHandles s (s.vars.handles.openRoot (s.device rootDirSector))) := by
  have opening := exec_dirOpenRoot_new s closed.unset closed.absent
  change _ = (_,withHandles s (s.vars.handles.openRoot (s.device rootDirSector))) at opening
  have self : (dirGetInode s.vars.handles.dirs.next).exec
      (withHandles s (s.vars.handles.openRoot (s.device rootDirSector))) =
      (s.vars.handles.inodes.next,withHandles s (s.vars.handles.openRoot (s.device rootDirSector))) :=
    congrArg (·,_) (dir_openRoot _ _)
  have there : (s.vars.handles.openRoot (s.device rootDirSector)).inode s.vars.handles.inodes.next =
      readInode rootDirSector (s.device rootDirSector) := ObjectHeap.deref_of_cell _ _ _ (ObjectHeap.alloc_cell_next _ _)
  have kept : (inodeIsRemoved s.vars.handles.inodes.next).exec
      (withHandles s (s.vars.handles.openRoot (s.device rootDirSector))) =
      (false,withHandles s (s.vars.handles.openRoot (s.device rootDirSector))) :=
    congrArg (Inode.removed ·,_) there
  have tokens : pathTokens emptyString = [] := rfl
  unfold dirOpenPath
  simp only [Task.exec_bind,exec_getHandles,closed.unset,opening,tokens]
  unfold walkPath
  simp only [Task.exec_bind,self,kept,Bool.false_eq_true,if_false,Task.exec_pure]

/-- `filesys_remove` of a name in the root directory. -/
theorem filesysRemove_spec (layout : Layout reserved owner s.device s) (ready : Ready reserved dirty s)
    (origin : reserved 0) (owns : owner rootDirSector) (closed : RootClosed s.vars.handles) (name : CString)
    (plain : SlashFree name) (files : ∀ i, ListedAt (contents (s.device rootDirSector) s.device) i →
      ListedFile owner s (entryAt (contents (s.device rootDirSector) s.device) i).inodeSector) :
    ∃ v, s.vars.handles.Same v.vars.handles ∧
      match findName (contents (s.device rootDirSector) s.device) name with
      | none => (filesysRemove name).exec s = (false,v) ∧ v = withHandles s v.vars.handles ∧ Ready reserved dirty v
      | some i => (filesysRemove name).exec s = (true,v) ∧
          Removed reserved dirty owner s v i (entryAt (contents (s.device rootDirSector) s.device) i).inodeSector := by
  have opening := exec_dirOpenPath_empty s closed
  have split := splitPathFilename_slashFree name plain
  have ready' := ready.openRoot closed.live (s.device rootDirSector)
  have holds := holds_openRoot s closed.live
  have opened := dir_openRoot s.vars.handles (s.device rootDirSector)
  have removal := dirRemove_spec (layout.congr (t := withHandles s (s.vars.handles.openRoot (s.device rootDirSector)))
    rfl rfl) ready' origin owns (closed.live.openInode _ _) holds opened name fun i listed =>
      ⟨(files i listed).inode,(files i listed).apart,(files i listed).regular,
        unopened_openRoot (files i listed).closed (files i listed).apart⟩
  have found : findName (contents ((withHandles s (s.vars.handles.openRoot (s.device rootDirSector))).device rootDirSector)
      (withHandles s (s.vars.handles.openRoot (s.device rootDirSector))).device) name =
      findName (contents (s.device rootDirSector) s.device) name := rfl
  rw [found] at removal
  have unchanged := holds.setData_self
  cases search : findName (contents (s.device rootDirSector) s.device) name with
  | none =>
    rw [search] at removal
    obtain ⟨closing,same,after⟩ := Ready.closeRoot closed ready' (.of_eq unchanged.symm)
    refine ⟨_,same,?_,rfl,after⟩
    unfold filesysRemove
    simp only [Task.exec_bind,split,opening,removal,closing,Task.exec_pure]
  | some i =>
    rw [search] at removal
    obtain ⟨t,run,kept,removed⟩ := removal
    obtain ⟨closing,same,after⟩ := Ready.closeRoot closed removed.ready (unchanged ▸ kept)
    refine ⟨_,same,?_,removed.rehandle _ after⟩
    unfold filesysRemove
    simp only [Task.exec_bind,split,opening,run,closing,Task.exec_pure]

end
end MyShell.FS
