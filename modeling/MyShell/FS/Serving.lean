import MyShell.FS.Opening
import MyShell.FS.OpenFiles

/-! The file system between two commands of the shell: the files in the table are open,
each once, and an extension that failed may have left pointers in their inodes. -/
namespace MyShell.FS
open BlockProgram PointerForest Bitmap

/-- Paths that name entries, one path for each entry. -/
structure Spelling (spelled : CString → Prop) : Prop where
  names : ∀ path, spelled path → NamesEntry path
  single : ∀ path other, spelled path → spelled other → lastName path = lastName other → path = other

/-- The sector of the inode that an entry of the root directory names. -/
def entrySector (s : Volume) (i : Nat) : Nat := (entryAt (rootArray s) i).inodeSector

/-- An entry of the file table: the file `f` on the inode `p` of the entry `i` of the root
directory, at a position that an `offset_t` holds. -/
structure TableFile (spelled : CString → Prop) (img : Nat → Sector) (s : Volume) (path : CString) (f p i : Nat)
    (pos : Int) : Prop where
  spelled : spelled path
  found : findName (rootArray s) (lastName path) = some i
  file : s.vars.handles.files.cell f = some ⟨p,pos,false⟩
  cell : s.vars.handles.inodes.cell p = some ⟨entrySector s i,1,false,0,img (entrySector s i)⟩
  opened : p ∈ s.vars.handles.openInodes
  low : 0 ≤ pos
  high : pos < 2147483648

structure Serving (reserved dirty : Nat → Prop) (spelled : CString → Prop) (img : Nat → Sector) (s : Volume) : Prop where
  layout : Layout reserved (Owns (rootArray s)) img s
  ready : Ready reserved dirty s
  origin : reserved freeMapSector
  image : img rootDirSector = s.device rootDirSector
  root : RootArray (rootArray s)
  apart : ∀ i, ListedAt (rootArray s) i → entrySector s i ≠ rootDirSector
  unset : s.vars.handles.cwd = none
  live : Live s.vars.handles
  mapped : ∀ f, s.vars.handles.freeMapFile = some f → (∃ c, s.vars.handles.files.cell f = some c) ∧
    inodeSector s (s.vars.handles.file f).inode = freeMapSector
  files : ∀ entry ∈ s.vars.handles.fileTable, ∃ p i pos, TableFile spelled img s entry.1 entry.2 p i pos
  names : (s.vars.handles.fileTable.map Prod.fst).Nodup
  opened : ∀ p ∈ s.vars.handles.openInodes, inodeSector s p = freeMapSector ∨
    ∃ entry ∈ s.vars.handles.fileTable, (s.vars.handles.file entry.2).inode = p
  closed : ∀ z, Owns (rootArray s) z → s.vars.handles.Unopened z → img z = s.device z

section
variable {reserved dirty : Nat → Prop} {spelled : CString → Prop} {img : Nat → Sector} {s t : Volume} {h : Handles}
  {path : CString} {f p i x : Nat} {pos : Int}

theorem TableFile.listed (file : TableFile spelled img s path f p i pos) :
    ListedAt (rootArray s) i ∧ lastName path = (entryAt (rootArray s) i).nameString := findName_listed file.found

theorem TableFile.file_eq (file : TableFile spelled img s path f p i pos) : s.vars.handles.file f = ⟨p,pos,false⟩ :=
  ObjectHeap.deref_of_cell _ _ _ file.file

theorem TableFile.sector_eq (file : TableFile spelled img s path f p i pos) : inodeSector s p = entrySector s i :=
  congrArg Inode.sector (ObjectHeap.deref_of_cell _ _ _ file.cell)

theorem Serving.nonzero (serving : Serving reserved dirty spelled img s) (owns : Owns (rootArray s) x) :
    x ≠ freeMapSector := fun same => serving.layout.free x owns (same ▸ serving.origin)

theorem Serving.owns (serving : Serving reserved dirty spelled img s) (listed : ListedAt (rootArray s) i) :
    Owns (rootArray s) (entrySector s i) ∧ entrySector s i ≠ freeMapSector :=
  ⟨owns_listed listed,serving.nonzero (owns_listed listed)⟩

theorem Serving.unmapped (serving : Serving reserved dirty spelled img s) (file : TableFile spelled img s path f p i pos)
    (g : Nat) (pointer : s.vars.handles.freeMapFile = some g) : g ≠ f ∧ (s.vars.handles.file g).inode ≠ p := by
  have zero := (serving.mapped g pointer).2
  have nonzero := (serving.owns file.listed.1).2
  rw [← file.sector_eq] at nonzero
  have other : (s.vars.handles.file g).inode ≠ p := fun same => nonzero (same ▸ zero)
  refine ⟨fun same => other ?_,other⟩
  rw [same,file.file_eq]

theorem Serving.holds (serving : Serving reserved dirty spelled img s) (file : TableFile spelled img s path f p i pos) :
    Holds img s p (entrySector s i) ⟨entrySector s i,1,false,0,img (entrySector s i)⟩ :=
  ⟨file.cell,rfl,rfl,rfl,fun g pointer => (serving.unmapped file g pointer).2⟩

/-- The inode decides the path. -/
theorem Serving.path_eq (serving : Serving reserved dirty spelled img s) (spelling : Spelling spelled)
    (file : TableFile spelled img s path f p i pos) {path' : CString} {j : Nat} (written : spelled path')
    (found : findName (rootArray s) (lastName path') = some j) (sector : inodeSector s p = entrySector s j) :
    path = path' ∧ i = j := by
  obtain ⟨listed,name⟩ := file.listed
  obtain ⟨listed',name'⟩ := findName_listed found
  have same : i = j := serving.root.distinct i j listed listed' (file.sector_eq.symm.trans sector)
  exact ⟨spelling.single _ _ file.spelled written (by rw [name,name',same]),same⟩

/-- Files of the table that share an inode are one. -/
theorem Serving.file_unique (serving : Serving reserved dirty spelled img s) (spelling : Spelling spelled)
    {entry other : CString × Nat} (member : entry ∈ s.vars.handles.fileTable) (member' : other ∈ s.vars.handles.fileTable)
    (same : (s.vars.handles.file entry.2).inode = (s.vars.handles.file other.2).inode) : entry = other := by
  obtain ⟨p,i,pos,file⟩ := serving.files entry member
  obtain ⟨q,j,pos',file'⟩ := serving.files other member'
  rw [file.file_eq,file'.file_eq] at same
  obtain rfl : p = q := same
  have path := (serving.path_eq spelling file file'.spelled file'.found file'.sector_eq).1
  exact List.inj_on_of_nodup_map serving.names member member' path

theorem Serving.absent_root (serving : Serving reserved dirty spelled img s) : s.vars.handles.Unopened rootDirSector := by
  intro p member
  rcases serving.opened p member with zero | ⟨entry,listed,here⟩
  · rw [show (s.vars.handles.inode p).sector = inodeSector s p from rfl,zero]
    decide
  · obtain ⟨q,i,pos,file⟩ := serving.files entry listed
    rw [file.file_eq] at here
    obtain rfl : q = p := here
    rw [show (s.vars.handles.inode q).sector = inodeSector s q from rfl,file.sector_eq]
    exact serving.apart i file.listed.1

/-- A file that the table does not have is not open. -/
theorem Serving.unopened (serving : Serving reserved dirty spelled img s) (spelling : Spelling spelled)
    (written : spelled path) (missing : ∀ entry ∈ s.vars.handles.fileTable, entry.1 ≠ path)
    (found : findName (rootArray s) (lastName path) = some i) : s.vars.handles.Unopened (entrySector s i) := by
  intro p member sector
  have nonzero := (serving.owns (findName_listed found).1).2
  rcases serving.opened p member with zero | ⟨entry,listed,here⟩
  · exact nonzero (sector.symm.trans zero)
  · obtain ⟨q,j,pos,file⟩ := serving.files entry listed
    rw [file.file_eq] at here
    obtain rfl : q = p := here
    exact missing entry listed (serving.path_eq spelling file written found sector).1

/-- The state with other handles, that of the free map file kept. -/
theorem Serving.rehandle (serving : Serving reserved dirty spelled img s)
    (pointer : h.freeMapFile = s.vars.handles.freeMapFile)
    (mapped : ∀ g, s.vars.handles.freeMapFile = some g → h.files.cell g = s.vars.handles.files.cell g ∧
      h.inodes.cell (s.vars.handles.file g).inode = s.vars.handles.inodes.cell (s.vars.handles.file g).inode)
    (unset : h.cwd = none)
    (files : ∀ entry ∈ h.fileTable, ∃ p i pos, TableFile spelled img (withHandles s h) entry.1 entry.2 p i pos)
    (names : (h.fileTable.map Prod.fst).Nodup)
    (opened : ∀ p ∈ h.openInodes, inodeSector (withHandles s h) p = freeMapSector ∨
      ∃ entry ∈ h.fileTable, (h.file entry.2).inode = p)
    (closed : ∀ z, z ≠ freeMapSector → h.Unopened z → s.vars.handles.Unopened z) : Serving reserved dirty spelled img (withHandles s h) := by
  have file (g : Nat) (held : s.vars.handles.freeMapFile = some g) : h.file g = s.vars.handles.file g :=
    congrArg (fun c : Option File => c.getD default) (mapped g held).1
  have inode (g : Nat) (held : s.vars.handles.freeMapFile = some g) :
      h.inode (s.vars.handles.file g).inode = s.vars.handles.inode (s.vars.handles.file g).inode :=
    congrArg (fun c : Option Inode => c.getD default) (mapped g held).2
  refine ⟨serving.layout.congr rfl rfl,serving.ready.rehandle pointer fun g held => ?_,serving.origin,serving.image,
    serving.root,serving.apart,unset,fun g held => ?_,fun g held => ?_,files,names,opened,
    fun z owns absent => serving.closed z owns (closed z (serving.nonzero owns) absent)⟩
  · rw [file g held,inode g held]
  · have held' := pointer.symm.trans held
    change ∃ i, h.inodes.cell (h.file g).inode = some i
    rw [file g held',(mapped g held').2]
    exact serving.live g held'
  · have held' := pointer.symm.trans held
    obtain ⟨c,sector⟩ := serving.mapped g held'
    refine ⟨(mapped g held').1.symm ▸ c,?_⟩
    change (h.inode (h.file g).inode).sector = freeMapSector
    rw [file g held',inode g held']
    exact sector

theorem TableFile.rehandle (file : TableFile spelled img s path f p i pos)
    (cell : h.files.cell f = s.vars.handles.files.cell f) (inode : h.inodes.cell p = s.vars.handles.inodes.cell p)
    (opened : p ∈ h.openInodes) : TableFile spelled img (withHandles s h) path f p i pos :=
  ⟨file.spelled,file.found,cell.trans file.file,inode.trans file.cell,opened,file.low,file.high⟩

theorem inodeSector_congr (same : h.inodes.cell p = s.vars.handles.inodes.cell p) :
    inodeSector (withHandles s h) p = inodeSector s p := congrArg Inode.sector (inode_congr (t := withHandles s h) same)

/-- The same handles at other addresses. -/
theorem Serving.same (serving : Serving reserved dirty spelled img s) (same : s.vars.handles.Same h) :
    Serving reserved dirty spelled img (withHandles s h) := by
  refine serving.rehandle same.freeMapFile (fun g _ => ⟨congrFun same.files g,congrFun same.inodes _⟩)
    (same.cwd.trans serving.unset) (fun entry member => ?_) (same.fileTable.symm ▸ serving.names) (fun p member => ?_)
    (fun z _ absent => same.symm.unopened z absent)
  · obtain ⟨p,i,pos,file⟩ := serving.files entry (same.fileTable ▸ member)
    exact ⟨p,i,pos,file.rehandle (congrFun same.files _) (congrFun same.inodes _) (same.openInodes.symm ▸ file.opened)⟩
  · rw [inodeSector_congr (congrFun same.inodes p),same.fileTable]
    simp only [same.file_eq]
    exact serving.opened p (same.openInodes ▸ member)

/-- A file moves to another position. -/
theorem Serving.setPos (serving : Serving reserved dirty spelled img s) (spelling : Spelling spelled)
    (member : (path,f) ∈ s.vars.handles.fileTable) (file : TableFile spelled img s path f p i pos) (next : Int)
    (low : 0 ≤ next) (high : next < 2147483648) :
    Serving reserved dirty spelled img (withHandles s (s.vars.handles.setPos f next)) := by
  have other (g : Nat) (ne : g ≠ f) : (s.vars.handles.files.modify f fun c => {c with pos := next}).cell g =
      s.vars.handles.files.cell g := by rw [ObjectHeap.modify_cell,if_neg ne]
  have here : (s.vars.handles.files.modify f fun c => {c with pos := next}).cell f = some ⟨p,next,false⟩ := by
    rw [ObjectHeap.modify_cell,if_pos rfl,file.file]
    rfl
  refine serving.rehandle rfl (fun g pointer => ⟨other g (serving.unmapped file g pointer).1,rfl⟩) serving.unset
    (fun entry listed => ?_) serving.names (fun q opened => ?_) (fun z _ absent => absent)
  · by_cases same : entry.2 = f
    · obtain rfl : (path,f) = entry := serving.file_unique spelling member listed (by rw [same])
      exact ⟨p,i,next,file.spelled,file.found,here,file.cell,file.opened,low,high⟩
    · obtain ⟨q,j,old,file'⟩ := serving.files entry listed
      exact ⟨q,j,old,file'.rehandle (other _ same) rfl file'.opened⟩
  · refine (serving.opened q opened).imp id fun ⟨entry,listed,inode⟩ => ⟨entry,listed,?_⟩
    change ((s.vars.handles.files.modify f fun c => {c with pos := next}).deref entry.2).inode = q
    by_cases same : entry.2 = f
    · rw [same,ObjectHeap.deref_of_cell _ _ _ here,← inode,same,file.file_eq]
    · rw [← inode]
      exact congrArg (fun c : Option File => (c.getD default).inode) (other _ same)

/-- A file is opened and put into the table. -/
theorem Serving.add (serving : Serving reserved dirty spelled img s) (spelling : Spelling spelled) (written : spelled path)
    (missing : ∀ entry ∈ s.vars.handles.fileTable, entry.1 ≠ path)
    (found : findName (rootArray s) (lastName path) = some i)
    (new : NewFile s.vars.handles h f p (entrySector s i) (s.device (entrySector s i)) 0) :
    Serving reserved dirty spelled img (withHandles s {h with fileTable := s.vars.handles.fileTable ++ [(path,f)]}) ∧
      TableFile spelled img (withHandles s {h with fileTable := s.vars.handles.fileTable ++ [(path,f)]}) path f p i 0 := by
  have closed := serving.unopened spelling written missing found
  have image := serving.closed _ (serving.owns (findName_listed found).1).1 closed
  have oldFile (g : Nat) (c : File) (cell : s.vars.handles.files.cell g = some c) :
      h.files.cell g = s.vars.handles.files.cell g := by
    rw [new.files,Function.update_of_ne]
    intro same
    rw [same,new.file] at cell
    exact Option.some_ne_none _ cell.symm
  have oldInode (q : Nat) (c : Inode) (cell : s.vars.handles.inodes.cell q = some c) :
      h.inodes.cell q = s.vars.handles.inodes.cell q := by
    rw [new.inodes,Function.update_of_ne]
    intro same
    rw [same,new.inode] at cell
    exact Option.some_ne_none _ cell.symm
  have file : TableFile spelled img (withHandles s {h with fileTable := s.vars.handles.fileTable ++ [(path,f)]}) path f p i 0 := by
    refine ⟨written,found,?_,?_,?_,Int.le_refl 0,by decide⟩
    · change h.files.cell f = _
      rw [new.files,Function.update_self]
    · change h.inodes.cell p = _
      rw [new.inodes,Function.update_self]
      change some (readInode (entrySector s i) (s.device (entrySector s i))) = some ⟨entrySector s i,1,false,0,img (entrySector s i)⟩
      rw [image]
      rfl
    · change p ∈ h.openInodes
      rw [new.openInodes]
      exact List.mem_cons_self
  have kept (entry : CString × Nat) (listed : entry ∈ s.vars.handles.fileTable) : ∃ q j pos,
      TableFile spelled img (withHandles s {h with fileTable := s.vars.handles.fileTable ++ [(path,f)]}) entry.1 entry.2 q j pos ∧
        (s.vars.handles.file entry.2).inode = q := by
    obtain ⟨q,j,pos,file'⟩ := serving.files entry listed
    refine ⟨q,j,pos,file'.rehandle (oldFile _ _ file'.file) (oldInode _ _ file'.cell) ?_,by rw [file'.file_eq]⟩
    change q ∈ h.openInodes
    rw [new.openInodes]
    exact List.mem_cons_of_mem _ file'.opened
  refine ⟨serving.rehandle new.freeMapFile (fun g pointer => ?_) (new.cwd.trans serving.unset) (fun entry member => ?_) ?_
    (fun q opened => ?_) (fun z some absent q opened => ?_),file⟩
  · obtain ⟨c,cell⟩ := (serving.mapped g pointer).1
    obtain ⟨j,cell'⟩ := serving.live g pointer
    exact ⟨oldFile g c cell,oldInode _ j cell'⟩
  · rcases List.mem_append.mp member with listed | last
    · obtain ⟨q,j,pos,file',-⟩ := kept entry listed
      exact ⟨q,j,pos,file'⟩
    · obtain rfl := List.mem_singleton.mp last
      exact ⟨p,i,0,file⟩
  · rw [List.map_append,List.nodup_append]
    refine ⟨serving.names,List.nodup_singleton path,fun a inside b last => ?_⟩
    obtain ⟨entry,listed,rfl⟩ := List.mem_map.mp inside
    obtain rfl : b = path := List.mem_singleton.mp last
    exact missing entry listed
  · change q ∈ h.openInodes at opened
    rw [new.openInodes] at opened
    rcases List.mem_cons.mp opened with rfl | old
    · exact Or.inr ⟨(path,f),List.mem_append_right _ (List.mem_singleton_self _),congrArg File.inode file.file_eq⟩
    · rcases serving.opened q old with zero | ⟨entry,listed,here⟩
      · by_cases same : q = p
        · exact Or.inr ⟨(path,f),List.mem_append_right _ (List.mem_singleton_self _),same ▸ congrArg File.inode file.file_eq⟩
        · refine Or.inl ((inodeSector_congr ?_).trans zero)
          change h.inodes.cell q = _
          rw [new.inodes,Function.update_of_ne same]
      · obtain ⟨r,j,pos,file',here'⟩ := kept entry listed
        exact Or.inr ⟨entry,List.mem_append_left _ listed,(congrArg File.inode file'.file_eq).trans (here'.symm.trans here)⟩
  · have member : q ∈ h.openInodes := by
      rw [new.openInodes]
      exact List.mem_cons_of_mem _ opened
    by_cases same : q = p
    · have blank : (s.vars.handles.inode q).sector = freeMapSector := by
        unfold Handles.inode ObjectHeap.deref
        rw [same,new.inode]
        rfl
      exact fun here => some (here.symm.trans blank)
    · have kept : inodeSector (withHandles s {h with fileTable := s.vars.handles.fileTable ++ [(path,f)]}) q =
          inodeSector s q := by
        apply inodeSector_congr
        change h.inodes.cell q = _
        rw [new.inodes,Function.update_of_ne same]
      exact fun here => absent q member (kept.trans here)

theorem entrySector_congr (array : rootArray t = rootArray s) (i : Nat) : entrySector t i = entrySector s i := by
  rw [entrySector,array,entrySector]

/-- A write to an open file, complete or not. -/
theorem Serving.write {buffer : List Byte} {ofs n : Nat} {done : Bool} {d : Sector}
    (serving : Serving reserved dirty spelled img s) (spelling : Spelling spelled)
    (member : (path,f) ∈ s.vars.handles.fileTable) (file : TableFile spelled img s path f p i pos)
    (outcome : WriteOutcome reserved dirty (Owns (rootArray s)) img s t p (entrySector s i) buffer ofs n done d)
    (image : WriteImage reserved (Owns (rootArray s)) img s t (entrySector s i) buffer ofs n done d) :
    Serving reserved dirty spelled (Function.update img (entrySector s i) d) t ∧
      TableFile spelled (Function.update img (entrySector s i) d) t path f p i pos ∧
      t.vars.handles.fileTable = s.vars.handles.fileTable ∧ t.vars.handles.files = s.vars.handles.files := by
  have apart := serving.apart i file.listed.1
  have array := outcome.aside.rootArray_eq owns_root apart serving.image
  have table : t.vars.handles.fileTable = s.vars.handles.fileTable :=
    (congrArg Handles.fileTable outcome.handles).trans rfl
  have files : t.vars.handles.files = s.vars.handles.files :=
    (congrArg Handles.files outcome.handles).trans rfl
  have opened : t.vars.handles.openInodes = s.vars.handles.openInodes :=
    (congrArg Handles.openInodes outcome.handles).trans rfl
  have pointer : t.vars.handles.freeMapFile = s.vars.handles.freeMapFile :=
    (congrArg Handles.freeMapFile outcome.handles).trans rfl
  have inodes : t.vars.handles.inodes = s.vars.handles.inodes.modify p fun c => {c with data := d} :=
    congrArg Handles.inodes outcome.handles
  have sector (q : Nat) : inodeSector t q = inodeSector s q := by
    rw [inodeSector,outcome.handles,setData_sector,inodeSector]
  have handle (g : Nat) : t.vars.handles.file g = s.vars.handles.file g := by rw [Handles.file,files,Handles.file]
  have absent (z : Nat) (closed : t.vars.handles.Unopened z) : s.vars.handles.Unopened z := fun q member same =>
    closed q (opened ▸ member) ((sector q).trans same)
  have here : TableFile spelled (Function.update img (entrySector s i) d) t path f p i pos := by
    refine ⟨file.spelled,array.symm ▸ file.found,files ▸ file.file,?_,opened ▸ file.opened,file.low,file.high⟩
    rw [inodes,ObjectHeap.modify_cell,if_pos rfl,file.cell,entrySector_congr array,Function.update_self]
    rfl
  refine ⟨⟨array.symm ▸ image.layout,outcome.ready,serving.origin,?_,array.symm ▸ serving.root,?_,?_,?_,fun g held => ?_,
    fun entry listed => ?_,table.symm ▸ serving.names,fun q inside => ?_,fun z owns closed => ?_⟩,here,table,files⟩
  · rw [Function.update_of_ne apart.symm,serving.image,outcome.aside.inodes rootDirSector owns_root apart.symm]
  · intro j listed
    rw [entrySector_congr array]
    exact serving.apart j (array ▸ listed)
  · rw [outcome.handles]
    exact serving.unset
  · rw [outcome.handles]
    exact serving.live.setData p d
  · rw [files,handle,sector]
    exact serving.mapped g (pointer ▸ held)
  · rw [table] at listed
    by_cases same : entry.2 = f
    · obtain rfl : (path,f) = entry := serving.file_unique spelling member listed (by rw [same])
      exact ⟨p,i,pos,here⟩
    · obtain ⟨q,j,old,file'⟩ := serving.files entry listed
      have ne : q ≠ p := by
        rintro rfl
        have equal := serving.file_unique spelling member listed (by rw [file.file_eq,file'.file_eq])
        exact same (congrArg Prod.snd equal).symm
      have other : entrySector s j ≠ entrySector s i := fun equal => by
        have path := (serving.path_eq spelling file' file.spelled file.found (file'.sector_eq.trans equal)).1
        exact same (congrArg Prod.snd (List.inj_on_of_nodup_map serving.names member listed path.symm)).symm
      refine ⟨q,j,old,file'.spelled,array.symm ▸ file'.found,files ▸ file'.file,?_,opened ▸ file'.opened,file'.low,file'.high⟩
      rw [inodes,ObjectHeap.modify_cell,if_neg ne,file'.cell,entrySector_congr array,Function.update_of_ne other]
  · rw [sector,table]
    simp only [handle]
    exact serving.opened q (opened ▸ inside)
  · rw [array] at owns
    have free := absent z closed
    have other : z ≠ entrySector s i := by
      rintro rfl
      exact free p file.opened file.sector_eq
    rw [Function.update_of_ne other,serving.closed z owns free,outcome.aside.inodes z owns other]

end
end MyShell.FS
