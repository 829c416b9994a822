import MyShell.FS.FileStore
import MyShell.FS.Positions

/-! The table of open files while files are created, written and removed: each stays at its
position, and its inode in memory is the one on the disk. -/
namespace MyShell.FS
open BlockProgram PointerForest Bitmap

/-- The name of an entry, without a directory. -/
structure PlainName (path : CString) : Prop where
  names : NamesEntry path
  plain : SlashFree path

/-- The positions of the files in the table. -/
def openedAt (h : Handles) (path : CString) : Option Nat :=
  (h.fileTable.find? fun entry => entry.1 == path).map fun entry => (h.file entry.2).pos.toNat

/-- The file system between two calls of the shell, as long as no write runs out of space. -/
structure Tidy (reserved dirty : Nat → Prop) (s : Volume) : Prop where
  serving : Serving reserved dirty PlainName s.device s
  named : NamedRoot (rootArray s)
  regular : ∀ i, ListedAt (rootArray s) i → (s.device (entrySector s i)).isDir = false
  list : OpenList s.vars.handles

theorem PlainName.last {path : CString} (plain : PlainName path) : lastName path = path := lastName_slashFree plain.plain

theorem spelling_plain : Spelling PlainName where
  names _ plain := plain.names
  single _ _ first second same := first.last.symm.trans (same.trans second.last)

section
variable {h h' : Handles} {path : CString} {f : Nat} {next : Int}

theorem openedAt_same (same : h.Same h') : openedAt h' = openedAt h := by
  funext path
  unfold openedAt
  simp only [same.fileTable,same.file_eq]

/-- A change of the table that is about one name. -/
theorem openedAt_update (others : ∀ other, other ≠ path →
      (h'.fileTable.find? fun entry => entry.1 == other) = h.fileTable.find? fun entry => entry.1 == other)
    (kept : ∀ entry ∈ h.fileTable, entry.1 ≠ path → h'.file entry.2 = h.file entry.2) :
    openedAt h' = Function.update (openedAt h) path (openedAt h' path) := by
  funext other
  by_cases here : other = path
  · rw [here,Function.update_self]
  · rw [Function.update_of_ne here]
    unfold openedAt
    rw [others other here]
    cases found : h.fileTable.find? fun entry => entry.1 == other with
    | none => rw [Option.map_none,Option.map_none]
    | some entry =>
      have key := List.find?_some found
      rw [Option.map_some,Option.map_some,
        kept entry (List.mem_of_find?_eq_some found) ((beq_iff_eq.mp key).trans_ne here)]

theorem find_of_mem {table : List (CString × Nat)} (nodup : (table.map Prod.fst).Nodup) (member : (path,f) ∈ table) :
    (table.find? fun entry => entry.1 == path) = some (path,f) := by
  cases found : table.find? fun entry => entry.1 == path with
  | none => exact absurd rfl (find_path found (path,f) member)
  | some entry =>
    have key := List.find?_some found
    rw [List.inj_on_of_nodup_map nodup (List.mem_of_find?_eq_some found) member (beq_iff_eq.mp key)]

theorem find_append {table : List (CString × Nat)} {other : CString} (ne : other ≠ path) :
    ((table ++ [(path,f)]).find? fun entry => entry.1 == other) = table.find? fun entry => entry.1 == other := by
  have last : ((path,f).1 == other) = false := beq_eq_false_iff_ne.mpr ne.symm
  rw [List.find?_append,List.find?_singleton,last]
  exact Option.or_none

theorem find_erase (table : List (CString × Nat)) {other : CString} (ne : other ≠ path) :
    ((table.eraseP fun entry => entry.1 == path).find? fun entry => entry.1 == other) =
      table.find? fun entry => entry.1 == other := by
  induction table with
  | nil => rfl
  | cons entry table ih =>
    cases first : entry.1 == path with
    | true =>
      have skipped : (entry.1 == other) = false := beq_eq_false_iff_ne.mpr ((beq_iff_eq.mp first).trans_ne ne.symm)
      simp only [List.eraseP_cons,List.find?_cons,first,skipped,cond_true]
    | false => simp only [List.eraseP_cons,List.find?_cons,first,cond_false,ih]

/-- The table without the name. -/
theorem find_erased {table : List (CString × Nat)} (nodup : (table.map Prod.fst).Nodup) :
    ((table.eraseP fun entry => entry.1 == path).find? fun entry => entry.1 == path) = none := by
  induction table with
  | nil => rfl
  | cons entry table ih =>
    rw [List.map_cons,List.nodup_cons] at nodup
    cases first : entry.1 == path with
    | true =>
      simp only [List.eraseP_cons,first,cond_true,List.find?_eq_none]
      exact fun other member same => nodup.1
        (List.mem_map.mpr ⟨other,member,(beq_iff_eq.mp same).trans (beq_iff_eq.mp first).symm⟩)
    | false => simp only [List.eraseP_cons,List.find?_cons,first,cond_false,ih nodup.2]

end

section
variable {reserved dirty : Nat → Prop} {spelled : CString → Prop} {img img' : Nat → Sector} {s t : Volume} {h : Handles}
  {path : CString} {f p i x : Nat} {pos : Int}

/-- Only the images of the inodes that are there count. -/
theorem Serving.reimage (serving : Serving reserved dirty spelled img s)
    (same : ∀ z, Owns (rootArray s) z → img' z = img z) : Serving reserved dirty spelled img' s where
  layout := serving.layout.image same
  ready := serving.ready
  origin := serving.origin
  image := (same _ owns_root).trans serving.image
  root := serving.root
  apart := serving.apart
  unset := serving.unset
  live := serving.live
  mapped := serving.mapped
  files entry member := by
    obtain ⟨p,i,pos,file⟩ := serving.files entry member
    refine ⟨p,i,pos,file.spelled,file.found,file.file,?_,file.opened,file.low,file.high⟩
    rw [same _ (serving.owns file.listed.1).1]
    exact file.cell
  names := serving.names
  opened := serving.opened
  closed z owns absent := (same z owns).trans (serving.closed z owns absent)

/-- The disk changed, and the entries of the files in the table stayed with their inodes. -/
theorem Serving.onto (serving : Serving reserved dirty spelled s.device s) (same : s.vars.handles.Same t.vars.handles)
    (layout : Layout reserved (Owns (rootArray t)) t.device t) (ready : Ready reserved dirty t)
    (root : RootArray (rootArray t)) (apart : ∀ i, ListedAt (rootArray t) i → entrySector t i ≠ rootDirSector)
    (named : NamedRoot (rootArray t)) (stays : ∀ path f p i pos, (path,f) ∈ s.vars.handles.fileTable →
      TableFile spelled s.device s path f p i pos → ListedAt (rootArray t) i ∧
        entryAt (rootArray t) i = entryAt (rootArray s) i ∧ t.device (entrySector s i) = s.device (entrySector s i)) :
    Serving reserved dirty spelled t.device t := by
  have sector (q : Nat) : inodeSector t q = inodeSector s q := congrArg Inode.sector (same.inode_eq q)
  refine ⟨layout,ready,serving.origin,rfl,root,apart,same.cwd.trans serving.unset,serving.live.same same,fun g held => ?_,
    fun entry member => ?_,same.fileTable.symm ▸ serving.names,fun q member => ?_,fun z _ _ => rfl⟩
  · rw [same.files,same.file_eq,sector]
    exact serving.mapped g (same.freeMapFile ▸ held)
  · rw [same.fileTable] at member
    obtain ⟨p,i,pos,file⟩ := serving.files entry member
    obtain ⟨after,stored,inode⟩ := stays entry.1 entry.2 p i pos member file
    have place : entrySector t i = entrySector s i := congrArg DirEntry.inodeSector stored
    refine ⟨p,i,pos,file.spelled,?_,?_,?_,same.openInodes ▸ file.opened,file.low,file.high⟩
    · exact named.findName_iff.mpr ⟨after,(congrArg DirEntry.nameString stored).trans file.listed.2.symm⟩
    · rw [same.files]
      exact file.file
    · rw [same.inodes,file.cell,place,inode]
  · rw [sector,same.fileTable]
    simp only [same.file_eq]
    exact serving.opened q (same.openInodes ▸ member)

theorem OpenList.same {h h' : Handles} (list : OpenList h) (same : h.Same h') : OpenList h' := by
  refine ⟨same.openInodes.symm ▸ list.nodup,fun p member => ?_⟩
  rw [same.inodes]
  exact list.cells p (same.openInodes ▸ member)

theorem Tidy.same (tidy : Tidy reserved dirty s) (same : s.vars.handles.Same h) : Tidy reserved dirty (withHandles s h) :=
  ⟨tidy.serving.same same,tidy.named,tidy.regular,tidy.list.same same⟩

theorem Mounted.tidy (mounted : Mounted reserved dirty s) (named : NamedRoot (rootArray s)) : Tidy reserved dirty s := by
  obtain ⟨f,p,c,mapped⟩ := mounted.idle.mapped
  refine ⟨mounted.serving PlainName,named,mounted.regular,?_,fun q member => ?_⟩
  · rw [mapped.alone]
    exact List.nodup_singleton p
  · rw [mapped.alone,List.mem_singleton] at member
    exact ⟨c,member ▸ mapped.cell⟩

/-- An entry of the table has a file. -/
theorem TableFile.filesOf_eq (file : TableFile PlainName img s path f p i pos) :
    filesOf s path = some (contents (s.device (entrySector s i)) s.device) := by
  have found := file.found
  rw [file.spelled.last] at found
  exact filesOf_found found

/-- The file of the path is in the table, after it was looked up or opened there. -/
structure Tabled (reserved dirty : Nat → Prop) (s : Volume) (h : Handles) (path : CString) (f p i : Nat) (pos : Int)
    (a : List Byte) : Prop where
  tidy : Tidy reserved dirty (withHandles s h)
  member : (path,f) ∈ h.fileTable
  file : TableFile PlainName s.device (withHandles s h) path f p i pos
  start : pos.toNat = (openedAt s.vars.handles path).getD 0
  others : openedAt h = Function.update (openedAt s.vars.handles) path (some pos.toNat)
  bytes : contents (s.device (entrySector s i)) s.device = a

theorem Tidy.tableFile_none (tidy : Tidy reserved dirty s) (plain : PlainName path) (missing : filesOf s path = none) :
    ∃ h, (tableFile path).exec s = (none,withHandles s h) ∧ s.vars.handles.Same h := by
  have absent : findName (rootArray s) path = none := by
    rw [← Option.not_isSome_iff_eq_none,← filesOf_isSome,missing]
    exact Bool.false_ne_true
  have serving := tidy.serving
  have opening := filesysOpen_new serving.layout owns_root serving.image serving.unset serving.absent_root plain.names
  rw [plain.last,absent] at opening
  obtain ⟨h,run,same⟩ := opening
  refine ⟨h,exec_tableFile_none (List.find?_eq_none.mpr fun entry member here => ?_) run,same⟩
  obtain ⟨p,i,pos,file⟩ := serving.files entry member
  rw [beq_iff_eq.mp here] at file
  exact Option.some_ne_none _ (file.filesOf_eq.symm.trans missing)

theorem Tidy.tableFile (tidy : Tidy reserved dirty s) (plain : PlainName path) {a : List Byte}
    (there : filesOf s path = some a) :
    ∃ f p i pos h, (FS.tableFile path).exec s = (some f,withHandles s h) ∧ Tabled reserved dirty s h path f p i pos a := by
  have serving := tidy.serving
  cases known : s.vars.handles.fileTable.find? fun entry => entry.1 == path with
  | some entry =>
    have key := List.find?_some known
    have here : entry.1 = path := beq_iff_eq.mp key
    have member := List.mem_of_find?_eq_some known
    obtain ⟨p,i,pos,file⟩ := serving.files entry member
    rw [here] at file
    have opened : openedAt s.vars.handles path = some pos.toNat := by
      unfold openedAt
      rw [known,Option.map_some,file.file_eq]
    refine ⟨entry.2,p,i,pos,s.vars.handles,exec_tableFile_known s entry known,tidy,here ▸ member,file,?_,?_,?_⟩
    · rw [opened,Option.getD_some]
    · rw [← opened,Function.update_eq_self]
    · exact Option.some.inj (file.filesOf_eq.symm.trans there)
  | none =>
    obtain ⟨i,found⟩ : ∃ i, findName (rootArray s) path = some i := by
      rw [← Option.isSome_iff_exists,← filesOf_isSome,there]
      rfl
    have listed := (findName_listed found).1
    have opening := filesysOpen_new serving.layout owns_root serving.image serving.unset serving.absent_root plain.names
    have search : findName (rootArray s) (lastName path) = some i := plain.last.symm ▸ found
    rw [search] at opening
    obtain ⟨f,p,h,run,new⟩ := opening (serving.apart i listed)
      (serving.unopened spelling_plain plain (find_path known) search)
    obtain ⟨after,file⟩ := serving.add spelling_plain plain (find_path known) search new
    have position : openedAt {h with fileTable := s.vars.handles.fileTable ++ [(path,f)]} path = some 0 := by
      have cell : Handles.file {h with fileTable := s.vars.handles.fileTable ++ [(path,f)]} f = ⟨p,0,false⟩ := file.file_eq
      unfold openedAt
      dsimp only
      rw [List.find?_append,known,Option.none_or,List.find?_singleton,if_pos (beq_self_eq_true path),Option.map_some,cell]
      rfl
    refine ⟨f,p,i,0,{h with fileTable := s.vars.handles.fileTable ++ [(path,f)]},exec_tableFile_new known run new.fileTable,
      ⟨after,tidy.named,tidy.regular,?_⟩,List.mem_append_right _ (List.mem_singleton_self _),file,?_,?_,
      Option.some.inj ((filesOf_found found).symm.trans there)⟩
    · refine ⟨?_,fun q member => ?_⟩
      · change h.openInodes.Nodup
        rw [new.openInodes,List.nodup_cons]
        refine ⟨fun member => ?_,tidy.list.nodup⟩
        obtain ⟨c,cell⟩ := tidy.list.cells p member
        exact Option.some_ne_none c (cell.symm.trans new.inode)
      · change q ∈ h.openInodes at member
        change ∃ c, h.inodes.cell q = some c
        rw [new.inodes,Function.update_apply]
        rw [new.openInodes,List.mem_cons] at member
        split
        · exact ⟨_,rfl⟩
        · exact tidy.list.cells q (member.resolve_left ‹_›)
    · unfold openedAt
      rw [known]
      rfl
    · rw [← Int.toNat_zero] at position
      rw [← position]
      refine openedAt_update (fun other ne => find_append ne) fun entry member ne => ?_
      obtain ⟨q,j,old,file'⟩ := serving.files entry member
      refine congrArg (fun c : Option File => c.getD default) ?_
      change h.files.cell entry.2 = s.vars.handles.files.cell entry.2
      rw [new.files,Function.update_of_ne]
      intro same
      exact Option.some_ne_none _ (file'.file.symm.trans (same ▸ new.file))

/-- A file of the table moves. -/
theorem Tidy.move (tidy : Tidy reserved dirty s) (member : (path,f) ∈ s.vars.handles.fileTable)
    (file : TableFile PlainName s.device s path f p i pos) (next : Int) (low : 0 ≤ next) (high : next < 2147483648) :
    Tidy reserved dirty (withHandles s (s.vars.handles.setPos f next)) ∧
      openedAt (s.vars.handles.setPos f next) = Function.update (openedAt s.vars.handles) path (some next.toNat) := by
  have serving := tidy.serving
  refine ⟨⟨serving.setPos spelling_plain member file next low high,tidy.named,tidy.regular,tidy.list.nodup,tidy.list.cells⟩,?_⟩
  have here : (s.vars.handles.setPos f next).file f = ⟨p,next,false⟩ := (file.moved next low high).file_eq
  have position : openedAt (s.vars.handles.setPos f next) path = some next.toNat := by
    have found := find_of_mem serving.names member
    unfold openedAt
    change (List.find? _ s.vars.handles.fileTable).map _ = _
    rw [found,Option.map_some,here]
  rw [← position]
  refine openedAt_update (fun other _ => rfl) fun entry listed ne => ?_
  refine congrArg (fun c : Option File => c.getD default) ((ObjectHeap.modify_cell _ _ _ _).trans (if_neg fun same => ?_))
  exact ne (congrArg Prod.fst (serving.file_unique spelling_plain listed member (by rw [same])))

/-- `inode_write_at` to a file of the table, with all the sectors that it needs. -/
theorem Tidy.inodeWriteAt (tidy : Tidy reserved dirty s) (member : (path,f) ∈ s.vars.handles.fileTable)
    (file : TableFile PlainName s.device s path f p i pos) (buffer : List Byte) (n : Nat) (positive : 0 < n)
    (small : pos.toNat + n ≤ 8517120)
    (room : need (s.device (entrySector s i)) s.device (pos.toNat + n) ≤ s.vars.freeMap.clearCount) :
    ∃ t, (FS.inodeWriteAt p buffer n pos).exec s = ((n : Int),t) ∧ Tidy reserved dirty t ∧
      TableFile PlainName t.device t path f p i pos ∧ t.vars.handles.fileTable = s.vars.handles.fileTable ∧
      t.vars.handles.files = s.vars.handles.files ∧ filesOf t = Function.update (filesOf s) path
        (some (arrayWrite (contents (s.device (entrySector s i)) s.device) buffer pos.toNat n)) := by
  have serving := tidy.serving
  have listed := file.listed.1
  have owns := (serving.owns listed).1
  obtain ⟨write,isWrite,steps⟩ := inodeWriteAt_step s
  obtain ⟨done,t,d,run,outcome,image⟩ := writeStep_image isWrite serving.layout serving.ready serving.origin owns
    (serving.holds file) buffer pos.toNat n positive (by omega)
  have complete : done = true := by
    cases done with
    | true => rfl
    | false =>
      have short := outcome.counts.short rfl
      omega
  subst complete
  rw [Int.toNat_of_nonneg file.low,if_pos ⟨rfl,small⟩] at run
  obtain ⟨after,file',table,files⟩ := serving.write spelling_plain member file outcome image
  obtain ⟨-,-,disk⟩ := outcome.written rfl small
  have own : t.device (entrySector s i) = d := disk rfl
  have array := outcome.aside.rootArray_eq owns_root (serving.apart i listed) serving.image
  have images (z : Nat) (inside : Owns (rootArray t) z) : t.device z = Function.update s.device (entrySector s i) d z := by
    rw [array] at inside
    by_cases here : z = entrySector s i
    · rw [here,Function.update_self,own]
    · rw [Function.update_of_ne here,outcome.aside.inodes z inside here]
  have stored := WriteOutcome.stored (s := s) (h := s.vars.handles) outcome t.vars.handles outcome.ready
  have disk := stored.filesOf_eq serving.root serving.apart tidy.named listed
  rw [if_pos ⟨rfl,small⟩,show nameAt (rootArray s) i = path from file.listed.2.symm.trans file.spelled.last] at disk
  refine ⟨t,(steps _ _ _ _).trans run,⟨after.reimage images,array.symm ▸ tidy.named,fun k inside => ?_,?_⟩,
    ⟨file'.spelled,file'.found,file'.file,?_,file'.opened,file'.low,file'.high⟩,table,files,disk⟩
  · rw [array] at inside
    rw [entrySector_congr array]
    by_cases here : entrySector s k = entrySector s i
    · rw [here,← tidy.regular i listed]
      exact isDir_congr _ _ (stored.header 125 (by decide) (by decide) (by decide))
    · have kept : t.device (entrySector s k) = s.device (entrySector s k) :=
        outcome.aside.inodes _ (owns_listed inside) here
      rw [kept]
      exact tidy.regular k inside
  · have opened : t.vars.handles.openInodes = s.vars.handles.openInodes :=
      (congrArg Handles.openInodes outcome.handles).trans rfl
    refine ⟨opened.symm ▸ tidy.list.nodup,fun q member => ?_⟩
    obtain ⟨c,cell⟩ := tidy.list.cells q (opened ▸ member)
    rw [outcome.handles,Handles.setData,ObjectHeap.modify_cell]
    split
    · rename_i here
      rw [← here,cell]
      exact ⟨_,rfl⟩
    · exact ⟨c,cell⟩
  · have place := entrySector_congr array i
    have cell := file'.cell
    rw [place,Function.update_self] at cell
    rw [place,own]
    exact cell

/-- `file_write`, after which the file is two bytes before the end of what it wrote. -/
theorem Tidy.fileWrite (tidy : Tidy reserved dirty s) (member : (path,f) ∈ s.vars.handles.fileTable)
    (file : TableFile PlainName s.device s path f p i pos) (buffer : List Byte) (n : Nat) (two : 2 ≤ n)
    (small : pos.toNat + n ≤ 8517120)
    (room : need (s.device (entrySector s i)) s.device (pos.toNat + n) ≤ s.vars.freeMap.clearCount) :
    ∃ t, (FS.fileWrite f buffer n).exec s = ((n : Int),t) ∧ Tidy reserved dirty t ∧
      filesOf t = Function.update (filesOf s) path
        (some (arrayWrite (contents (s.device (entrySector s i)) s.device) (buffer.set (n-1) 0) pos.toNat n)) ∧
      openedAt t.vars.handles = Function.update (openedAt s.vars.handles) path (some (pos.toNat + n - 2)) := by
  obtain ⟨t,run,after,file',table,files,disk⟩ := tidy.inodeWriteAt member file (buffer.set (n-1) 0) n (by omega) small room
  have low := file.low
  have last : ((n : Int) - 1).toNat = n - 1 := by omega
  obtain ⟨moved,position⟩ := after.move (table.symm ▸ member) file' (pos + (n - 2)) (by omega) (by omega)
  have same : openedAt t.vars.handles = openedAt s.vars.handles := by
    unfold openedAt Handles.file
    rw [table,files]
  have place : (pos + ((n : Int) - 2)).toNat = pos.toNat + n - 2 := by omega
  have bounds : -2147483648 ≤ pos + ((n : Int) - 2) ∧ pos + ((n : Int) - 2) < 2147483648 := by omega
  rw [same,place] at position
  refine ⟨_,?_,moved,disk,position⟩
  unfold FS.fileWrite
  simp only [Task.exec_bind,exec_getHandles,file.file_eq,last,run,exec_modifyFile,Task.exec_pure]
  have modified : (t.vars.handles.files.modify f fun c => {c with pos := i32 (c.pos + ((n : Int) - 2))}) =
      t.vars.handles.files.modify f fun c => {c with pos := pos + ((n : Int) - 2)} := by
    unfold ObjectHeap.modify
    simp only [ObjectHeap.mk.injEq,and_true]
    rw [file'.file,Option.map_some,Option.map_some,i32_of_bounds _ bounds.1 bounds.2]
  rw [modified]
  rfl

/-- The handles without the file `f` on the inode `p`, which the table had for the path. -/
structure Without (h h' : Handles) (path : CString) (f p : Nat) : Prop where
  inodes : ∀ q, h'.inodes.cell q = if q = p then none else h.inodes.cell q
  openInodes : h'.openInodes = h.openInodes.erase p
  files : ∀ g, h'.files.cell g = if g = f then none else h.files.cell g
  freeMapFile : h'.freeMapFile = h.freeMapFile
  cwd : h'.cwd = h.cwd
  fileTable : h'.fileTable = h.fileTable.eraseP fun entry => entry.1 == path

theorem Without.file_eq {g : Nat} (less : Without s.vars.handles h path f p) (ne : g ≠ f) :
    h.file g = s.vars.handles.file g := by
  have cell := less.files g
  rw [if_neg ne] at cell
  exact congrArg (fun c : Option File => c.getD default) cell

theorem Without.inode_eq {q : Nat} (less : Without s.vars.handles h path f p) (ne : q ≠ p) :
    h.inode q = s.vars.handles.inode q := by
  have cell := less.inodes q
  rw [if_neg ne] at cell
  exact congrArg (fun c : Option Inode => c.getD default) cell

theorem exec_removeFromFileTable (known : (s.vars.handles.fileTable.find? fun entry => entry.1 == path) = some (path,f))
    (file : TableFile spelled img s path f p i pos) :
    ∃ h, (removeFromFileTable path).exec s = (true,withHandles s h) ∧ Without s.vars.handles h path f p := by
  refine ⟨{s.vars.handles.closeInode p with
      files := s.vars.handles.files.free f
      fileTable := s.vars.handles.fileTable.eraseP fun entry => entry.1 == path},?_,closeInode_cell _ _,rfl,
    fun g => ObjectHeap.free_cell _ _ _,rfl,rfl,rfl⟩
  unfold removeFromFileTable
  rw [Task.exec_bind,exec_getHandles]
  dsimp only
  rw [known]
  dsimp only
  rw [Task.exec_bind,exec_fileClose file.file file.cell rfl rfl]
  rfl

/-- A file of the table is closed. -/
theorem Tidy.without (tidy : Tidy reserved dirty s) (member : (path,f) ∈ s.vars.handles.fileTable)
    (file : TableFile PlainName s.device s path f p i pos) (less : Without s.vars.handles h path f p) :
    Tidy reserved dirty (withHandles s h) ∧ openedAt h = Function.update (openedAt s.vars.handles) path none ∧
      ∀ entry ∈ h.fileTable, entry.1 ≠ path := by
  have serving := tidy.serving
  have absent : (h.fileTable.find? fun entry => entry.1 == path) = none := less.fileTable.symm ▸ find_erased serving.names
  have sub : List.Sublist h.fileTable s.vars.handles.fileTable := less.fileTable.symm ▸ List.eraseP_sublist
  have other (entry : CString × Nat) (inside : entry ∈ s.vars.handles.fileTable) (ne : entry.1 ≠ path) :
      entry.2 ≠ f ∧ (s.vars.handles.file entry.2).inode ≠ p := by
    have apart : (s.vars.handles.file entry.2).inode ≠ p := fun same =>
      ne (congrArg Prod.fst (serving.file_unique spelling_plain inside member (by rw [same,file.file_eq])))
    refine ⟨fun same => apart ?_,apart⟩
    rw [same,file.file_eq]
  have remaining (q : Nat) : q ∈ h.openInodes ↔ q ≠ p ∧ q ∈ s.vars.handles.openInodes := by
    rw [less.openInodes]
    exact tidy.list.nodup.mem_erase_iff
  have map (g : Nat) (held : h.freeMapFile = some g) : s.vars.handles.freeMapFile = some g ∧ g ≠ f ∧
      (s.vars.handles.file g).inode ≠ p :=
    have held' := less.freeMapFile.symm.trans held
    ⟨held',serving.unmapped file g held'⟩
  refine ⟨⟨⟨serving.layout.congr rfl rfl,serving.ready.rehandle less.freeMapFile fun g held => ?_,serving.origin,rfl,
    serving.root,serving.apart,less.cwd.trans serving.unset,fun g held => ?_,fun g held => ?_,fun entry inside => ?_,
    serving.names.sublist (sub.map Prod.fst),fun q inside => ?_,fun z _ _ => rfl⟩,tidy.named,tidy.regular,?_,
    fun q inside => ?_⟩,?_,find_path absent⟩
  · obtain ⟨-,ne,apart⟩ := map g (less.freeMapFile.trans held)
    rw [less.file_eq ne,less.inode_eq apart]
  · obtain ⟨held,ne,apart⟩ := map g held
    change ∃ c, h.inodes.cell (h.file g).inode = some c
    rw [less.file_eq ne,less.inodes,if_neg apart]
    exact serving.live g held
  · obtain ⟨held,ne,apart⟩ := map g held
    obtain ⟨cell,sector⟩ := serving.mapped g held
    change (∃ c, h.files.cell g = some c) ∧ (h.inode (h.file g).inode).sector = freeMapSector
    rw [less.file_eq ne,less.files,if_neg ne,less.inode_eq apart]
    exact ⟨cell,sector⟩
  · obtain ⟨q,j,old,file'⟩ := serving.files entry (sub.subset inside)
    obtain ⟨ne,apart⟩ := other entry (sub.subset inside) (find_path absent entry inside)
    rw [file'.file_eq] at apart
    exact ⟨q,j,old,file'.rehandle ((less.files _).trans (if_neg ne)) ((less.inodes q).trans (if_neg apart))
      ((remaining q).mpr ⟨apart,file'.opened⟩)⟩
  · obtain ⟨ne,before⟩ := (remaining q).mp inside
    rw [inodeSector_congr ((less.inodes q).trans (if_neg ne))]
    refine (serving.opened q before).imp id fun ⟨entry,listed,here⟩ => ?_
    have apart : entry.1 ≠ path := by
      intro same
      have equal := List.inj_on_of_nodup_map serving.names listed member same
      rw [equal,file.file_eq] at here
      exact ne here.symm
    have kept : ¬(entry.1 == path) = true := fun same => apart (beq_iff_eq.mp same)
    refine ⟨entry,?_,(congrArg File.inode (less.file_eq (other entry listed apart).1)).trans here⟩
    change entry ∈ h.fileTable
    rw [less.fileTable]
    exact (List.mem_eraseP_of_neg (p := fun entry => entry.1 == path) kept).mpr listed
  · change h.openInodes.Nodup
    rw [less.openInodes]
    exact tidy.list.nodup.erase p
  · obtain ⟨ne,before⟩ := (remaining q).mp inside
    obtain ⟨c,cell⟩ := tidy.list.cells q before
    exact ⟨c,(less.inodes q).trans ((if_neg ne).trans cell)⟩
  · have closed : openedAt h path = none := by
      unfold openedAt
      rw [absent,Option.map_none]
    rw [← closed]
    refine openedAt_update (fun name ne => ?_) fun entry inside ne => less.file_eq (other entry inside ne).1
    rw [less.fileTable]
    exact find_erase _ ne

/-- `remove_from_file_table`. -/
theorem Tidy.close (tidy : Tidy reserved dirty s) (path : CString) :
    ∃ done h, (removeFromFileTable path).exec s = (done,withHandles s h) ∧ Tidy reserved dirty (withHandles s h) ∧
      openedAt h = Function.update (openedAt s.vars.handles) path none ∧ ∀ entry ∈ h.fileTable, entry.1 ≠ path := by
  cases known : s.vars.handles.fileTable.find? fun entry => entry.1 == path with
  | none =>
    have absent : openedAt s.vars.handles path = none := by
      unfold openedAt
      rw [known,Option.map_none]
    refine ⟨false,s.vars.handles,?_,tidy,by rw [← absent,Function.update_eq_self],find_path known⟩
    unfold removeFromFileTable
    rw [Task.exec_bind,exec_getHandles]
    dsimp only
    rw [known]
    rfl
  | some entry =>
    have key := List.find?_some known
    have member := List.mem_of_find?_eq_some known
    obtain ⟨p,i,pos,file⟩ := tidy.serving.files entry member
    obtain ⟨name,f⟩ := entry
    obtain rfl : name = path := beq_iff_eq.mp key
    obtain ⟨h,run,less⟩ := exec_removeFromFileTable known file
    exact ⟨true,h,run,tidy.without member file less⟩

end
end MyShell.FS
