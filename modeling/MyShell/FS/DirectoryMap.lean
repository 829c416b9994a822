import MyShell.FS.OpenFiles
import MyShell.Lib.SlotTable

/-! A directory as a map from names to sectors: what `dir_add` and `dir_remove` make of one
that `dir_create` left, through any sequence of calls. -/
namespace MyShell.FS
open BlockProgram PointerForest Bitmap SlotTable

/-- The slots of a directory. The first entry is none. -/
def directoryTable (a : List Byte) (i : Nat) : Option (CString × Nat) :=
  if 1 ≤ i ∧ i < entryCount a ∧ (entryAt a i).inUse = true then
    some ((entryAt a i).nameString,(entryAt a i).inodeSector)
  else none

/-- The array of a directory in the sector `x` after the calls of the history. -/
structure DirectoryArray (x : Nat) (history : List (Call CString Nat)) (a : List Byte) : Prop where
  self : 0 < entryCount a
  parent : entryAt a 0 = parentEntry x
  table : Represents history (directoryTable a)
  named : ∀ i, ListedAt a i → strlen (entryAt a i).nameString ≠ 0

section
variable {a : List Byte} {e : DirEntry} {history : List (Call CString Nat)} {x i k v : Nat} {name : CString}

theorem directoryTable_some : directoryTable a i = some (name,v) ↔
    ListedAt a i ∧ (entryAt a i).nameString = name ∧ (entryAt a i).inodeSector = v := by
  unfold directoryTable
  split
  · rename_i listed
    rw [Option.some.injEq,Prod.mk.injEq]
    exact (and_iff_right ⟨listed.1,listed.2.1,listed.2.2⟩).symm
  · rename_i unlisted
    refine ⟨fun contrary => absurd contrary.symm (Option.some_ne_none _),fun there => absurd ?_ unlisted⟩
    exact ⟨there.1.positive,there.1.inside,there.1.used⟩

theorem directoryTable_none : directoryTable a i = none ↔ ¬ListedAt a i := by
  unfold directoryTable
  split
  · rename_i listed
    exact ⟨fun contrary => absurd contrary (Option.some_ne_none _),fun unlisted =>
      absurd ⟨listed.1,listed.2.1,listed.2.2⟩ unlisted⟩
  · rename_i unlisted
    exact ⟨fun _ there => unlisted ⟨there.positive,there.inside,there.used⟩,fun _ => rfl⟩

/-- Storing an entry changes one slot. -/
theorem directoryTable_write (slot : i ≤ entryCount a) (positive : 1 ≤ i) (stored : DirEntry.ofBytes e.bytes = e) :
    directoryTable (arrayWrite a e.bytes (36*i) 36) =
      Function.update (directoryTable a) i (if e.inUse then some (e.nameString,e.inodeSector) else none) := by
  funext k
  have listed := listedAt_write (k := k) slot positive stored
  rw [Function.update_apply]
  cases after : directoryTable (arrayWrite a e.bytes (36*i) 36) k with
  | none =>
    rw [directoryTable_none,listed] at after
    split
    · rename_i here
      rw [if_pos here] at after
      rw [if_neg after]
    · rename_i other
      rw [if_neg other] at after
      exact (directoryTable_none.mpr after).symm
  | some entry =>
    obtain ⟨there,name,sector⟩ := directoryTable_some.mp after
    rw [entryAt_listed slot stored there] at name sector
    rw [listed] at there
    split
    · rename_i here
      rw [if_pos here] at name sector there
      rw [if_pos there,name,sector]
    · rename_i other
      rw [if_neg other] at name sector there
      exact (directoryTable_some.mpr ⟨there,name,sector⟩).symm

/-- What `lookup` finds is what the table holds. -/
theorem DirectoryArray.find (array : DirectoryArray x history a) (name : CString) (v : Nat) :
    (findName a name).map (fun i => (entryAt a i).inodeSector) = some v ↔ Stands history name v := by
  rw [← array.table.holds]
  constructor
  · intro found
    obtain ⟨i,there,sector⟩ := Option.map_eq_some_iff.mp found
    obtain ⟨listed,same⟩ := findName_listed there
    exact ⟨i,directoryTable_some.mpr ⟨listed,same.symm,sector⟩⟩
  · rintro ⟨i,here⟩
    obtain ⟨listed,same,sector⟩ := directoryTable_some.mp here
    cases found : findName a name with
    | none =>
      have missed := findEntry_none a _ _ found i listed.positive listed.inside
      unfold nameTest at missed
      rw [listed.used,same,beq_self_eq_true] at missed
      exact absurd missed.symm Bool.false_ne_true
    | some j =>
      obtain ⟨listed',same'⟩ := findName_listed found
      have equal := array.table.distinct j i name _ v (directoryTable_some.mpr ⟨listed',same'.symm,rfl⟩) here
      rw [Option.map_some,equal,sector]

theorem DirectoryArray.present (array : DirectoryArray x history a) (name : CString) :
    (findName a name).isSome = true ↔ ∃ v, Stands history name v := by
  constructor
  · intro there
    obtain ⟨i,found⟩ := Option.isSome_iff_exists.mp there
    exact ⟨_,(array.find name _).mp (by rw [found]; rfl)⟩
  · rintro ⟨v,stands⟩
    obtain ⟨i,found,-⟩ := Option.map_eq_some_iff.mp ((array.find name v).mpr stands)
    rw [found]
    rfl

/-- The array of a new directory. -/
theorem directoryArray_new (n : Nat) (small : x < 4294967296) :
    DirectoryArray x [] (arrayWrite (List.replicate n 0) (parentEntry x).bytes 0 36) where
  self := new_count n
  parent := (entryAt_new n small 0 (new_count n)).trans (if_pos rfl)
  table := represents_empty fun i => directoryTable_none.mpr (new_unlisted n small i)
  named i listed := absurd listed (new_unlisted n small i)

theorem DirectoryArray.used (array : DirectoryArray x history a) : (entryAt a 0).inUse = true := by
  rw [array.parent]
  rfl

/-- A slot behind the first one is written. -/
theorem DirectoryArray.write {after : List (Call CString Nat)} (array : DirectoryArray x history a)
    (slot : i ≤ entryCount a) (positive : 1 ≤ i) (stored : DirEntry.ofBytes e.bytes = e)
    (named : e.inUse = true → strlen e.nameString ≠ 0)
    (table : Represents after (Function.update (directoryTable a) i
      (if e.inUse then some (e.nameString,e.inodeSector) else none))) :
    DirectoryArray x after (arrayWrite a e.bytes (36*i) 36) := by
  have count := entryCount_write a e i
  have self := array.self
  refine ⟨by omega,?_,directoryTable_write slot positive stored ▸ table,fun k listed => ?_⟩
  · rw [entryAt_write slot (by omega),if_neg (by omega)]
    exact array.parent
  · have there := (listedAt_write slot positive stored).mp listed
    rw [entryAt_listed slot stored listed]
    split
    · rename_i here
      rw [if_pos here] at there
      exact named there
    · rename_i other
      rw [if_neg other] at there
      exact array.named k there

/-- A new entry in the first free slot. -/
theorem DirectoryArray.add (array : DirectoryArray x history a) (small : v < 4294967296) (good : ¬BadName a name) :
    DirectoryArray x (history ++ [Call.add name v]) (arrayWrite a (newEntry name v).bytes (36 * freeSlot a) 36) := by
  obtain ⟨positive,slot,free⟩ := freeSlot_spec array.self array.used
  unfold BadName at good
  rw [not_or,not_or] at good
  obtain ⟨filled,fits,absent⟩ := good
  have same : (newEntry name v).nameString = name := nameString_strncpy name (Nat.le_of_not_lt fits)
  refine array.write slot positive (newEntry_bytes name v small) (fun _ => same.symm ▸ filled) ?_
  rw [same]
  refine array.table.add (directoryTable_none.mpr free) fun w there => absent ?_
  exact (array.present name).mpr ⟨w,(array.table.holds name w).mp there⟩

/-- The entry of a name goes out of use. -/
theorem DirectoryArray.erase (array : DirectoryArray x history a) (found : findName a name = some i) :
    DirectoryArray x (history ++ [Call.remove name]) (arrayWrite a (erasedEntry a i).bytes (36*i) 36) := by
  obtain ⟨listed,same⟩ := findName_listed found
  refine array.write (Nat.le_of_lt listed.inside) listed.positive (erasedEntry_bytes a i listed.inside)
    (fun contrary => absurd contrary.symm Bool.false_ne_true.symm) ?_
  exact array.table.remove (directoryTable_some.mpr ⟨listed,same.symm,rfl⟩)

/-- No two entries in use carry the same name, the one of the parent included. -/
theorem DirectoryArray.unique (array : DirectoryArray x history a) {i j : Nat} (inside : i < entryCount a)
    (inside' : j < entryCount a) (used : (entryAt a i).inUse = true) (used' : (entryAt a j).inUse = true)
    (same : (entryAt a i).nameString = (entryAt a j).nameString) : i = j := by
  have blank : strlen (entryAt a 0).nameString = 0 := by
    rw [array.parent]
    rfl
  rcases Nat.eq_zero_or_pos i with rfl | positive <;> rcases Nat.eq_zero_or_pos j with rfl | positive'
  · rfl
  · exact absurd (same ▸ blank) (array.named j ⟨positive',inside',used'⟩)
  · exact absurd (same ▸ blank) (array.named i ⟨positive,inside,used⟩)
  · exact array.table.distinct i j _ _ _ (directoryTable_some.mpr ⟨⟨positive,inside,used⟩,rfl,rfl⟩)
      (directoryTable_some.mpr ⟨⟨positive',inside',used'⟩,same.symm,rfl⟩)

end

/-- The inode of a regular file. If it is open, then once, and as the device has it. -/
structure FileInode (files : Nat → Prop) (s : Volume) (y : Nat) : Prop where
  inode : files y
  regular : (s.device y).isDir = false
  held : ∀ q ∈ s.vars.handles.openInodes, (s.vars.handles.inode q).sector = y →
    s.vars.handles.inodes.cell q = some (readInode y (s.device y)) ∧
      ∀ f, s.vars.handles.freeMapFile = some f → (s.vars.handles.file f).inode ≠ q

/-- The directory in the sector `x`, open as `dir`, after the calls of the history. The
inodes of files are those of `files`. -/
structure OpenDirectory (reserved dirty files : Nat → Prop) (s : Volume) (dir p x : Nat)
    (history : List (Call CString Nat)) : Prop where
  layout : Layout reserved (fun z => files z ∨ z = x) s.device s
  ready : Ready reserved dirty s
  other : ¬files x
  live : Live s.vars.handles
  holds : Holds s.device s p x (readInode x (s.device x))
  opened : (s.vars.handles.dir dir).inode = p
  array : DirectoryArray x history (contents (s.device x) s.device)
  listed : ∀ i, ListedAt (contents (s.device x) s.device) i →
    FileInode files s (entryAt (contents (s.device x) s.device) i).inodeSector

/-- The bytes of an open directory. -/
def directoryArray (s : Volume) (dir : Nat) : List Byte := fileArray s (s.vars.handles.dir dir).inode

/-- The sectors that one more entry takes. -/
def directoryGrowth (s : Volume) (dir : Nat) : Nat :=
  need (s.vars.handles.inode (s.vars.handles.dir dir).inode).data s.device (36 * freeSlot (directoryArray s dir) + 36)

section
variable {reserved dirty files fewer : Nat → Prop} {s t : Volume} {dir p q x y : Nat}
  {history : List (Call CString Nat)} {name : CString}

theorem OpenDirectory.array_eq (directory : OpenDirectory reserved dirty files s dir p x history) :
    directoryArray s dir = contents (s.device x) s.device := by
  unfold directoryArray fileArray
  rw [directory.opened,directory.holds.inode_eq]
  rfl

theorem OpenDirectory.growth_eq (directory : OpenDirectory reserved dirty files s dir p x history) :
    directoryGrowth s dir = need (s.device x) s.device (36 * freeSlot (contents (s.device x) s.device) + 36) := by
  unfold directoryGrowth
  rw [directory.array_eq,directory.opened,directory.holds.inode_eq]
  rfl

theorem FileInode.kept (file : FileInode files s y) (inside : fewer y) (device : t.device y = s.device y)
    (cells : ∀ q ∈ t.vars.handles.openInodes, (t.vars.handles.inode q).sector = y →
      q ∈ s.vars.handles.openInodes ∧ t.vars.handles.inodes.cell q = s.vars.handles.inodes.cell q)
    (opened : t.vars.handles.files = s.vars.handles.files)
    (pointer : t.vars.handles.freeMapFile = s.vars.handles.freeMapFile) : FileInode fewer t y := by
  refine ⟨inside,by rw [device]; exact file.regular,fun q member sector => ?_⟩
  obtain ⟨member',cell⟩ := cells q member sector
  rw [inode_congr cell] at sector
  obtain ⟨held,apart⟩ := file.held q member' sector
  refine ⟨by rw [cell,device]; exact held,fun f pointer' => ?_⟩
  rw [Handles.file,opened]
  exact apart f (pointer.symm.trans pointer')

/-- `inode_open` of a file, open or not. -/
theorem FileInode.opening (file : FileInode files s y) (live : Live s.vars.handles) : ∃ h q, OpenedOnce s h q y := by
  cases found : s.vars.handles.openInodes.find? fun q => (s.vars.handles.inode q).sector == y with
  | none =>
    refine ⟨_,_,openedOnce_new live fun q member sector => ?_⟩
    exact absurd (beq_iff_eq.mpr sector) (List.find?_eq_none.mp found q member)
  | some q =>
    have member := List.mem_of_find?_eq_some found
    have sector := List.find?_some found
    obtain ⟨held,apart⟩ := file.held q member (beq_iff_eq.mp sector)
    refine ⟨s.vars.handles,q,?_,held,fun _ _ cell => cell,fun _ _ cell => Or.inr cell,fun r => ?_,fun list => list.nodup,
      rfl,rfl,rfl,rfl,rfl,apart⟩
    · unfold inodeOpen
      rw [Task.exec_bind,exec_getHandles]
      dsimp only
      rw [found]
      rfl
    · exact ⟨Or.inr,fun either => either.elim (fun same => same ▸ member) id⟩

/-- `dir_add` of a regular file, when the directory can grow. -/
theorem OpenDirectory.add (directory : OpenDirectory reserved dirty files s dir p x history) (origin : reserved 0)
    (stale : List Byte) (name : CString) (file : FileInode files s y)
    (room : ¬BadName (directoryArray s dir) name → 36 * freeSlot (directoryArray s dir) + 36 ≤ 8517120 ∧
      directoryGrowth s dir ≤ s.vars.freeMap.clearCount) :
    ∃ t, (dirAdd stale dir name y false).exec s = (!decide (BadName (directoryArray s dir) name),t) ∧
      OpenDirectory reserved dirty files t dir p x
        (if BadName (directoryArray s dir) name then history else history ++ [Call.add name y]) := by
  rw [directory.growth_eq,directory.array_eq] at room
  rw [directory.array_eq]
  have small : y < 4294967296 := (marked_small _ directory.ready.packed directory.ready.small y
    (directory.layout.marked y (Or.inl file.inode))).trans (by decide)
  rcases dirAdd_spec stale directory.layout directory.ready origin (Or.inr rfl) directory.holds directory.opened name y
    with ⟨bad,run⟩ | ⟨good,done,t,d,run,outcome⟩
  · refine ⟨s,?_,?_⟩
    · rw [run,decide_eq_true bad]
      rfl
    · rw [if_pos bad]
      exact directory
  · obtain ⟨limit,enough⟩ := room good
    have complete : done = true := by
      cases done with
      | true => rfl
      | false => exact absurd (outcome.counts.short rfl).2 (Nat.not_lt.mpr enough)
    subst complete
    obtain ⟨layout,bytes,own⟩ := outcome.written rfl limit
    have image : t.device x = d := own rfl
    have handles := outcome.handles
    have inode (q : Nat) (apart : q ≠ p) : t.vars.handles.inodes.cell q = s.vars.handles.inodes.cell q := by
      rw [handles]
      exact (ObjectHeap.modify_cell _ _ _ _).trans (if_neg apart)
    have array : contents (t.device x) t.device = arrayWrite (contents (s.device x) s.device) (newEntry name y).bytes
        (36 * freeSlot (contents (s.device x) s.device)) 36 := by
      rw [image]
      exact bytes
    have kept (z : Nat) (file : FileInode files s z) : FileInode files t z := by
      have other : z ≠ x := fun same => directory.other (same ▸ file.inode)
      refine file.kept file.inode (outcome.aside.inodes z (Or.inl file.inode) other) (fun q member sector => ?_)
        (by rw [handles]; rfl) (by rw [handles]; rfl)
      rw [handles] at member sector
      rw [setData_sector] at sector
      refine ⟨member,inode q fun same => other ?_⟩
      rw [← sector,same,directory.holds.inode_eq]
      rfl
    have changed := directory.array.add small good
    refine ⟨t,?_,?_,outcome.ready,directory.other,?_,?_,?_,?_,fun i listed => ?_⟩
    · rw [run,decide_eq_true limit,decide_eq_false good]
      rfl
    · refine layout.image fun z inside => ?_
      rcases eq_or_ne z x with rfl | other
      · rw [Function.update_self,image]
      · rw [Function.update_of_ne other,outcome.aside.inodes z inside other]
    · rw [handles]
      exact directory.live.setData p d
    · refine ⟨?_,rfl,rfl,rfl,fun f pointer => ?_⟩
      · rw [handles,image]
        refine (ObjectHeap.modify_cell _ _ _ _).trans ((if_pos rfl).trans ?_)
        exact congrArg (Option.map fun c => {c with data := d}) directory.holds.cell
      · rw [handles] at pointer ⊢
        exact directory.holds.other f pointer
    · rw [handles]
      exact directory.opened
    · rw [if_neg good,array]
      exact changed
    · obtain ⟨positive,slot,-⟩ := freeSlot_spec directory.array.self directory.array.used
      rw [array] at listed ⊢
      have there := (listedAt_write slot positive (newEntry_bytes name y small)).mp listed
      rw [entryAt_listed slot (newEntry_bytes name y small) listed]
      split
      · exact kept y file
      · rename_i old
        rw [if_neg old] at there
        exact kept _ (directory.listed i there)

/-- The handles after `dir_remove` has closed the inode that it removed. -/
structure Dropped (h h' : Handles) (q : Nat) : Prop where
  cell : ∀ r, r ≠ q → h'.inodes.cell r = h.inodes.cell r
  gone : h'.inodes.cell q = none
  list : ∀ r ∈ h'.openInodes, r = q ∨ r ∈ h.openInodes
  files : h'.files = h.files
  dirs : h'.dirs = h.dirs
  pointer : h'.freeMapFile = h.freeMapFile

theorem OpenedOnce.dropped {h : Handles} (opening : OpenedOnce s h q y) :
    Dropped s.vars.handles ((h.removeInode q).closeInode q) q := by
  refine ⟨fun r other => ?_,(ObjectHeap.free_cell _ _ _).trans (if_pos rfl),fun r member => ?_,opening.files,opening.dirs,
    opening.pointer⟩
  · have same : ((h.removeInode q).closeInode q).inodes.cell r = h.inodes.cell r :=
      (ObjectHeap.free_cell _ _ _).trans ((if_neg other).trans ((ObjectHeap.modify_cell _ _ _ _).trans
        ((if_neg other).trans ((ObjectHeap.modify_cell _ _ _ _).trans (if_neg other)))))
    rw [same]
    cases before : s.vars.handles.inodes.cell r with
    | some c => exact opening.kept r c before
    | none =>
      cases after : h.inodes.cell r with
      | none => rfl
      | some c =>
        rcases opening.added r c after with here | old
        · exact absurd here other
        · exact absurd (before.symm.trans old) (Option.some_ne_none c).symm
  · exact (opening.list r).mp (List.mem_of_mem_erase member)

/-- The directory after an entry was removed. -/
theorem OpenDirectory.erased {i : Nat} (directory : OpenDirectory reserved dirty files s dir p x history)
    (origin : reserved 0) (found : findName (contents (s.device x) s.device) name = some i)
    (sector : (entryAt (contents (s.device x) s.device) i).inodeSector = y)
    (alone : ∀ j, ListedAt (contents (s.device x) s.device) j →
      y = (entryAt (contents (s.device x) s.device) j).inodeSector → i = j)
    (dropped : Dropped s.vars.handles t.vars.handles q) (apart : q ≠ p)
    (unmapped : ∀ f, s.vars.handles.freeMapFile = some f → (s.vars.handles.file f).inode ≠ q)
    (erased : Erased reserved dirty (fun z => files z ∨ z = x) s t x i y) :
    OpenDirectory reserved dirty (fun z => files z ∧ z ≠ y) t dir p x (history ++ [Call.remove name]) := by
  have listed := (findName_listed found).1
  have file := directory.listed i listed
  rw [sector] at file
  have other : y ≠ x := fun same => directory.other (same ▸ file.inode)
  have own : t.device x = s.device x := erased.inodes x (Or.inr rfl) other.symm
  have mapped (f : Nat) : t.vars.handles.file f = s.vars.handles.file f := by
    rw [Handles.file,dropped.files]
    rfl
  have stored := erasedEntry_bytes (contents (s.device x) s.device) i listed.inside
  have slot := Nat.le_of_lt listed.inside
  refine ⟨?_,erased.ready,fun inside => directory.other inside.1,fun f pointer => ?_,?_,?_,?_,fun j there => ?_⟩
  · refine erased.layout.congr_owner fun z => ⟨fun inside => ?_,fun inside => ?_⟩
    · rcases inside with inside | rfl
      · exact ⟨Or.inl inside.1,inside.2⟩
      · exact ⟨Or.inr rfl,other.symm⟩
    · exact inside.1.imp_left fun old => ⟨old,inside.2⟩
  · have pointer' := dropped.pointer.symm.trans pointer
    obtain ⟨c,cell⟩ := directory.live f pointer'
    rw [mapped]
    exact ⟨c,(dropped.cell _ (unmapped f pointer')).trans cell⟩
  · refine ⟨?_,rfl,rfl,rfl,fun f pointer => ?_⟩
    · rw [dropped.cell p apart.symm,own]
      exact directory.holds.cell
    · rw [mapped]
      exact directory.holds.other f (dropped.pointer.symm.trans pointer)
  · rw [Handles.dir,dropped.dirs]
    exact directory.opened
  · rw [erased.array]
    exact directory.array.erase found
  · rw [erased.array] at there ⊢
    have before := (listedAt_write slot listed.positive stored).mp there
    have entry := entryAt_listed slot stored there
    have away : j ≠ i := by
      rintro rfl
      rw [if_pos rfl] at before
      exact absurd before.symm Bool.false_ne_true.symm
    rw [if_neg away] at before entry
    rw [entry]
    have old := directory.listed j before
    have survives : (entryAt (contents (s.device x) s.device) j).inodeSector ≠ y :=
      fun same => away (alone j before same.symm).symm
    refine old.kept ⟨old.inode,survives⟩ (erased.inodes _ (Or.inl old.inode) survives) (fun r member here => ?_)
      dropped.files dropped.pointer
    have different : r ≠ q := by
      rintro rfl
      have null : (t.vars.handles.inode r).sector = 0 := by
        rw [Handles.inode,ObjectHeap.deref,dropped.gone]
        rfl
      rw [null] at here
      exact directory.layout.free _ (Or.inl old.inode) (here ▸ origin)
    exact ⟨(dropped.list r member).resolve_left different,dropped.cell r different⟩

/-- `dir_remove` when no other name stands for the same file. -/
theorem OpenDirectory.remove (directory : OpenDirectory reserved dirty files s dir p x history) (origin : reserved 0)
    (name : CString) (alone : ∀ i j, findName (directoryArray s dir) name = some i → ListedAt (directoryArray s dir) j →
      (entryAt (directoryArray s dir) i).inodeSector = (entryAt (directoryArray s dir) j).inodeSector → i = j) :
    ∃ t, (dirRemove dir name).exec s = ((findName (directoryArray s dir) name).isSome,t) ∧
      OpenDirectory reserved dirty (fun z => files z ∧
          (findName (directoryArray s dir) name).map (fun i => (entryAt (directoryArray s dir) i).inodeSector) ≠ some z)
        t dir p x
        (if (findName (directoryArray s dir) name).isSome then history ++ [Call.remove name] else history) := by
  rw [directory.array_eq] at alone ⊢
  cases found : findName (contents (s.device x) s.device) name with
  | none =>
    have search := lookup_spec directory.layout (Or.inr rfl) (congrArg Inode.data directory.holds.inode_eq) directory.opened
      name
    rw [found] at search
    refine ⟨s,?_,?_⟩
    · unfold dirRemove
      rw [Task.exec_bind,search]
      rfl
    · have same : (fun z => files z ∧ (none : Option Nat) ≠ some z) = files :=
        funext fun z => propext (and_iff_left (Option.some_ne_none z).symm)
      rw [Option.map_none,same]
      exact directory
  | some i =>
    have listed := (findName_listed found).1
    have file := directory.listed i listed
    have apart : (entryAt (contents (s.device x) s.device) i).inodeSector ≠ x :=
      fun same => directory.other (same ▸ file.inode)
    obtain ⟨h,q,opening⟩ := file.opening directory.live
    obtain ⟨t,run,handles,erased⟩ := dirRemove_opened directory.layout directory.ready origin (Or.inr rfl) directory.live
      directory.holds directory.opened found rfl (Or.inl file.inode) apart file.regular opening
    have dropped := opening.dropped
    rw [← handles] at dropped
    have away : q ≠ p := by
      rintro rfl
      have cell := opening.kept q _ directory.holds.cell
      rw [opening.cell] at cell
      exact apart (congrArg Inode.sector (Option.some.inj cell))
    have after := directory.erased origin found rfl (fun j => alone i j found) dropped away opening.apart erased
    refine ⟨t,run,?_⟩
    have same : (fun z => files z ∧ (some i).map (fun i => (entryAt (contents (s.device x) s.device) i).inodeSector) ≠
        some z) = fun z => files z ∧ z ≠ (entryAt (contents (s.device x) s.device) i).inodeSector :=
      funext fun z => propext (and_congr_right fun _ =>
        ⟨fun differ equal => differ (congrArg some equal.symm),fun differ equal => differ (Option.some.inj equal).symm⟩)
    rw [same]
    exact after

end

/-- The calls of the session. -/
def directoryCall (stale : List Byte) (dir : Nat) : Call CString Nat → FsM Bool
  | .add name sector => dirAdd stale dir name sector false
  | .remove name => dirRemove dir name

/-- An added sector is the inode of a regular file, and the directory can grow by an entry.
A file is removed under its last name: another one would stand for no inode any more. -/
def CallAllowed (files : Nat → Prop) (s : Volume) (dir : Nat) : Call CString Nat → Prop
  | .add name sector => FileInode files s sector ∧ (¬BadName (directoryArray s dir) name →
      36 * freeSlot (directoryArray s dir) + 36 ≤ 8517120 ∧ directoryGrowth s dir ≤ s.vars.freeMap.clearCount)
  | .remove name => ∀ i j, findName (directoryArray s dir) name = some i → ListedAt (directoryArray s dir) j →
      (entryAt (directoryArray s dir) i).inodeSector = (entryAt (directoryArray s dir) j).inodeSector → i = j

/-- The inodes of files after a call. -/
def filesAfter (files : Nat → Prop) (s : Volume) (dir : Nat) : Call CString Nat → Nat → Prop
  | .add _ _ => files
  | .remove name => fun z => files z ∧
      (findName (directoryArray s dir) name).map (fun i => (entryAt (directoryArray s dir) i).inodeSector) ≠ some z

/-- Calls on the open directory `dir`. The history has those that succeeded. -/
inductive DirectoryRun (dir : Nat) (files : Nat → Prop) (s : FileSys) :
    (Nat → Prop) → List (Call CString Nat) → FileSys → Prop
  | start : DirectoryRun dir files s files [] s
  | step {left : Nat → Prop} {history : List (Call CString Nat)} {t : FileSys}
      (before : DirectoryRun dir files s left history t) (stale : List Byte) (call : Call CString Nat)
      (allowed : CallAllowed left (volume t) dir call) :
      DirectoryRun dir files s (filesAfter left (volume t) dir call)
        (if ((directoryCall stale dir call).exec t).1 then history ++ [call] else history)
        ((directoryCall stale dir call).exec t).2

section
variable {reserved dirty files left : Nat → Prop} {s t : FileSys} {dir p x : Nat} {history : List (Call CString Nat)}

theorem OpenDirectory.step (directory : OpenDirectory reserved dirty files (volume s) dir p x history)
    (origin : reserved 0) (stale : List Byte) (call : Call CString Nat) (allowed : CallAllowed files (volume s) dir call) :
    OpenDirectory reserved dirty (filesAfter files (volume s) dir call)
        (volume ((directoryCall stale dir call).exec s).2) dir p x
        (if ((directoryCall stale dir call).exec s).1 then history ++ [call] else history) := by
  cases call with
  | add name sector =>
    obtain ⟨t,run,after⟩ := directory.add origin stale name allowed.1 allowed.2
    rw [exec_volume] at run
    obtain ⟨result,state⟩ := Prod.mk.inj run
    unfold directoryCall filesAfter
    rw [result,state]
    by_cases bad : BadName (directoryArray (volume s) dir) name
    · rw [if_pos bad] at after
      rwa [decide_eq_true bad]
    · rw [if_neg bad] at after
      rwa [decide_eq_false bad]
  | remove name =>
    obtain ⟨t,run,after⟩ := directory.remove origin name allowed
    rw [exec_volume] at run
    obtain ⟨result,state⟩ := Prod.mk.inj run
    unfold directoryCall filesAfter
    rw [result,state]
    exact after

/-- The run lemma. -/
theorem OpenDirectory.run (run : DirectoryRun dir files s left history t)
    (directory : OpenDirectory reserved dirty files (volume s) dir p x []) (origin : reserved 0) :
    OpenDirectory reserved dirty left (volume t) dir p x history := by
  induction run with
  | start => exact directory
  | step before stale call allowed ih => exact ih.step origin stale call allowed

/-- A new directory, opened. -/
theorem NewDirectory.opened {length : Int} {s t : Volume} (new : NewDirectory reserved dirty files s t x length)
    (other : ¬files x) (absent : s.vars.handles.Unopened x) (live : Live s.vars.handles) :
    (openDirectory x).exec t =
        (some t.vars.handles.dirs.next,withHandles t (t.vars.handles.openDirectory x (t.device x))) ∧
      OpenDirectory reserved dirty files (withHandles t (t.vars.handles.openDirectory x (t.device x)))
        t.vars.handles.dirs.next t.vars.handles.inodes.next x [] := by
  have live' : Live t.vars.handles := Live.same (h := {s.vars.handles with cwd := none}) live new.same
  have small : x < 4294967296 := (marked_small _ new.ready.packed new.ready.small x
    (new.layout.marked x (Or.inr rfl))).trans (by decide)
  have array : DirectoryArray x [] (contents (t.device x) t.device) := by
    rw [new.array]
    exact directoryArray_new _ small
  refine ⟨exec_openDirectory t (new.same.unopened x absent),new.layout.congr rfl rfl,new.ready.openDirectory live' x _,other,
    fun f pointer => ?_,holds_openDirectory t live' x,?_,array,fun i listed => ?_⟩
  · obtain ⟨c,cell⟩ := live' f pointer
    exact ⟨c,(ObjectHeap.alloc_cell _ _ _).trans ((if_neg (live'.ne_next f pointer)).trans cell)⟩
  · exact congrArg Dir.inode (ObjectHeap.deref_of_cell _ _ _ (ObjectHeap.alloc_cell_next _ _))
  · rw [withHandles_device,new.array] at listed
    exact absurd listed (new_unlisted _ small i)

/-- The answers of an open directory. -/
theorem OpenDirectory.lookup (directory : OpenDirectory reserved dirty files (volume s) dir p x history)
    (name : CString) (sector : Nat) :
    ((FS.lookup dir name).exec s).1.map (fun e => e.1.inodeSector) = some sector ↔ Stands history name sector := by
  have search := lookup_spec directory.layout (Or.inr rfl) (congrArg Inode.data directory.holds.inode_eq) directory.opened
    name
  rw [exec_volume] at search
  rw [(Prod.mk.inj search).1,← directory.array.find,Option.map_map]
  rfl

theorem OpenDirectory.bad (directory : OpenDirectory reserved dirty files (volume s) dir p x history) (name : CString) :
    ¬BadName (directoryArray (volume s) dir) name ↔
      1 ≤ strlen name ∧ strlen name ≤ 30 ∧ ∀ sector, ¬Stands history name sector := by
  rw [directory.array_eq]
  unfold BadName
  rw [directory.array.present,not_or,not_or,not_exists]
  exact and_congr Nat.pos_iff_ne_zero.symm (and_congr Nat.not_lt Iff.rfl)

/-- A directory is a finite map: after any calls on a directory that `dir_create` made, a
name stands for the sector it was added with and not removed since. -/
theorem directory_is_map (s : FileSys) (layout : Layout reserved files (volume s).device (volume s))
    (ready : Ready reserved dirty (volume s)) (origin : reserved 0)
    (unowned : Unowned reserved files (volume s).device (volume s) x)
    (marked : bitmapTest (volume s).vars.freeMap x = true) (absent : s.vars.handles.Unopened x)
    (live : Live s.vars.handles) (entryCnt : Nat) (made : ((dirCreate x entryCnt).exec s).1 = true)
    (opened : ((openDirectory x).exec ((dirCreate x entryCnt).exec s).2).1 = some dir)
    (run : DirectoryRun dir files ((openDirectory x).exec ((dirCreate x entryCnt).exec s).2).2 left history t) :
    (∀ name sector, ((lookup dir name).exec t).1.map (fun e => e.1.inodeSector) = some sector ↔
        Stands history name sector) ∧
      (∀ stale name sector, CallAllowed left (volume t) dir (.add name sector) →
        (((dirAdd stale dir name sector false).exec t).1 = true ↔
          1 ≤ strlen name ∧ strlen name ≤ 30 ∧ ∀ other, ¬Stands history name other)) ∧
      (∀ name, CallAllowed left (volume t) dir (.remove name) →
        (((dirRemove dir name).exec t).1 = true ↔ ∃ sector, Stands history name sector)) ∧
      (∀ i j, i < entryCount (directoryArray (volume t) dir) → j < entryCount (directoryArray (volume t) dir) →
        (entryAt (directoryArray (volume t) dir) i).inUse = true →
        (entryAt (directoryArray (volume t) dir) j).inUse = true →
        (entryAt (directoryArray (volume t) dir) i).nameString = (entryAt (directoryArray (volume t) dir) j).nameString →
        i = j) ∧
      entryAt (directoryArray (volume t) dir) 0 = parentEntry x := by
  obtain ⟨done,u,create,new,-⟩ := dirCreate_made layout ready origin unowned marked absent live entryCnt
  rw [exec_volume] at create
  obtain ⟨result,state⟩ := Prod.mk.inj create
  have new := new (result.symm.trans made)
  obtain ⟨opening,start⟩ := new.opened unowned.other absent live
  rw [← state,exec_volume] at opening
  obtain ⟨handle,state'⟩ := Prod.mk.inj opening
  rw [← state,← state',← Option.some.inj (opened.symm.trans handle)] at start
  have directory := OpenDirectory.run run start origin
  refine ⟨directory.lookup,fun stale name sector allowed => ?_,fun name allowed => ?_,fun i j inside inside' used used' same => ?_,
    ?_⟩
  · obtain ⟨v,call,-⟩ := directory.add origin stale name allowed.1 allowed.2
    rw [exec_volume] at call
    rw [(Prod.mk.inj call).1,← directory.bad,Bool.not_eq_true',decide_eq_false_iff_not]
  · obtain ⟨v,call,-⟩ := directory.remove origin name allowed
    rw [exec_volume] at call
    rw [(Prod.mk.inj call).1,directory.array_eq,directory.array.present]
  · rw [directory.array_eq] at inside inside' used used' same
    exact directory.array.unique inside inside' used used' same
  · rw [directory.array_eq]
    exact directory.array.parent

end

/-- A directory with room for two entries takes at most one sector more for a third. -/
theorem growth_two (slot : Nat) (few : slot ≤ 2) (d : Sector) (mem : Nat → Sector) :
    36 * slot + 36 ≤ 8517120 ∧ need d mem (36 * slot + 36) ≤ 1 := by
  refine ⟨by omega,(need_le _ _ _).trans ?_⟩
  obtain rfl | rfl | rfl : slot = 0 ∨ slot = 1 ∨ slot = 2 := by omega
  all_goals decide

section
variable {reserved dirty files : Nat → Prop} {s : Volume} {x y : Nat}

/-- A sector to make a directory in, when nothing but the free map file is open. -/
theorem directorySector (layout : Layout reserved files s.device s) (ready : Ready reserved dirty s)
    (only : ∀ p ∈ s.vars.handles.openInodes, (s.vars.handles.inode p).sector = 0)
    (room : s.vars.freeMap.clearCount ≠ 0) :
    ∃ x t, (freeMapAllocate inodeWriteAt 1).exec s = (some x,t) ∧ t.vars.handles = s.vars.handles ∧
      t.vars.freeMap.clearCount + 1 = s.vars.freeMap.clearCount ∧ Ready reserved dirty t ∧
      Layout reserved files t.device t ∧ (∀ z, files z → t.device z = s.device z) ∧
      Unowned reserved files t.device t x ∧ bitmapTest t.vars.freeMap x = true ∧ t.vars.handles.Unopened x := by
  rcases layout.allocate ready isWrite_inodeWriteAt with ⟨x,t,run,allocated,ready',after,aside,out⟩ | ⟨-,empty⟩
  · have nonzero : x ≠ 0 := fun zero => Bool.false_ne_true (out.clear.symm.trans (zero ▸ ready.origin))
    have same (z : Nat) (file : files z) : t.device z = s.device z :=
      aside.inodes z file fun here => out.unowned.other (here ▸ file)
    refine ⟨x,t,run,allocated.handles,allocated.count rfl,ready',after.image same,same,⟨out.unowned.free,out.unowned.other,
      fun z pointer path file => ?_⟩,out.marked,fun p member sector => ?_⟩
    · rw [same z file]
      exact out.unowned.apart z pointer path file
    · rw [allocated.handles] at member sector
      exact nonzero (sector.symm.trans (only p member))
  · exact absurd empty room

/-- A new directory for two entries takes a regular file. -/
theorem NewDirectory.allowed {s t : Volume} {h : Handles} {dir p : Nat}
    (new : NewDirectory reserved dirty files s t x 72)
    (directory : OpenDirectory reserved dirty files (withHandles t h) dir p x []) (inside : files y)
    (regular : (t.device y).isDir = false) (nonzero : y ≠ 0) (opened : h = t.vars.handles.openDirectory x (t.device x))
    (only : ∀ p ∈ t.vars.handles.openInodes, (t.vars.handles.inode p).sector = 0)
    (room : 1 ≤ t.vars.freeMap.clearCount) : CallAllowed files (withHandles t h) dir (.add nameA y) := by
  have count : entryCount (contents (t.device x) t.device) = 2 := by
    have written := entryCount_write (List.replicate 72 0) (parentEntry x) 0
    rw [new.array]
    exact written.trans (by rw [entryCount,List.length_replicate]; rfl)
  refine ⟨⟨inside,regular,fun q member sector => ?_⟩,fun _ => ?_⟩
  · subst opened
    by_cases here : q = t.vars.handles.inodes.next
    · have there : (t.vars.handles.openDirectory x (t.device x)).inode t.vars.handles.inodes.next =
          readInode x (t.device x) := ObjectHeap.deref_of_cell _ _ _ (ObjectHeap.alloc_cell_next _ _)
      rw [here] at sector
      have same : x = y := (congrArg Inode.sector there).symm.trans sector
      exact absurd (same ▸ inside) directory.other
    · have there : (t.vars.handles.openDirectory x (t.device x)).inode q = t.vars.handles.inode q :=
        ObjectHeap.deref_alloc_of_ne _ _ _ here
      have zero := only q ((List.mem_cons.mp member).resolve_left here)
      exact absurd (sector.symm.trans ((congrArg Inode.sector there).trans zero)) nonzero
  · rw [directory.array_eq,directory.growth_eq]
    have slot := freeSlot_le (contents (t.device x) t.device)
    rw [count] at slot
    obtain ⟨limit,growth⟩ := growth_two _ slot (t.device x) t.device
    exact ⟨limit,growth.trans room⟩

end

/-- A new directory for two entries on the new device. A file is added to it. -/
theorem blankStore_directory : ∃ (t : FileSys) (dir y : Nat),
    ((lookup dir nameA).exec t).1.map (fun e => e.1.inodeSector) = some y := by
  have work {reserved dirty files : Nat → Prop} (s : FileSys) (y : Nat)
      (layout : Layout reserved files (volume s).device (volume s)) (ready : Ready reserved dirty (volume s))
      (origin : reserved 0) (live : Live s.vars.handles) (inside : files y)
      (regular : ((volume s).device y).isDir = false)
      (only : ∀ p ∈ s.vars.handles.openInodes, (s.vars.handles.inode p).sector = 0)
      (room : 3 ≤ (volume s).vars.freeMap.clearCount) : ∃ (t : FileSys) (dir : Nat),
      ((lookup dir nameA).exec t).1.map (fun e => e.1.inodeSector) = some y := by
    obtain ⟨x,t,run,handles,clear,ready₁,after,same,unowned,marked,absent⟩ := directorySector layout ready only (by omega)
    rw [exec_volume] at run
    obtain ⟨-,state⟩ := Prod.mk.inj run
    generalize ((freeMapAllocate inodeWriteAt 1).exec s).2 = s₁ at state
    subst state
    have size : i32 (((2 : Nat) : Int) * ((sizeofDirEntry : Nat) : Int)) = 72 := by decide
    have one : blocksFor 72 = 1 := by decide
    have handles : s₁.vars.handles = s.vars.handles := handles
    obtain ⟨done,u,create,new,enough,-⟩ := dirCreate_made after ready₁ origin unowned marked absent (handles ▸ live) 2
    rw [size,one] at enough
    rw [size] at new
    obtain rfl := enough (by decide) (by decide) (by omega)
    have new := new rfl
    have count := new.count (by decide)
    rw [exec_volume] at create
    obtain ⟨made,state⟩ := Prod.mk.inj create
    obtain ⟨opening,start⟩ := new.opened unowned.other absent (handles ▸ live)
    have nonzero : y ≠ 0 := fun zero => layout.free y inside (zero ▸ origin)
    have idle : ∀ p ∈ u.vars.handles.openInodes, (u.vars.handles.inode p).sector = 0 := by
      intro p member
      have kept : u.vars.handles.inode p = s.vars.handles.inode p := (new.same.inode_eq p).trans (handles ▸ rfl)
      rw [kept]
      exact only p (handles ▸ new.same.openInodes ▸ member)
    have device : u.device y = (volume s).device y := (new.inodes y inside).trans (same y inside)
    have allowed := new.allowed start inside (by rw [device]; exact regular) nonzero rfl idle (by omega)
    rw [← state,exec_volume] at opening
    obtain ⟨handle,state'⟩ := Prod.mk.inj opening
    rw [← state,← state'] at allowed
    have run := DirectoryRun.step (.start : DirectoryRun _ files _ files [] _) [] (.add nameA y) allowed
    have first := directory_is_map s₁ after ready₁ origin unowned marked absent (handles ▸ live) 2 made handle .start
    have added := (first.2.1 [] nameA y allowed).mpr ⟨by decide,by decide,fun _ => not_stands_nil⟩
    have second := directory_is_map s₁ after ready₁ origin unowned marked absent (handles ▸ live) 2 made handle run
    refine ⟨_,_,(second.1 nameA y).mpr ?_⟩
    change (((directoryCall [] _ (.add nameA y)).exec _).1) = true at added
    rw [if_pos added]
    exact ⟨[],[],rfl,List.not_mem_nil⟩
  obtain ⟨reserved,dirty,sane⟩ := formatted_sane blankStore blankStore_formattable
  have create {reserved dirty : Nat → Prop} (s : FileSys) (mounted : Mounted reserved dirty (volume s))
      (leak : leakAt (volume s) nameA 3 = none) (room : 3 + (1 + blocksFor 3 + rootGrowth (volume s).device) ≤
        (volume s).vars.freeMap.clearCount) :
      ∃ (t : FileSys) (dir y : Nat), ((lookup dir nameA).exec t).1.map (fun e => e.1.inodeSector) = some y := by
    obtain ⟨v,same,outcome⟩ := filesysCreate_spec mounted.layout mounted.ready mounted.origin owns_root mounted.idle.closed
      [] nameA (show -2147483648 ≤ (3 : Int) by decide) (by decide)
    rw [splitPathFilename_slashFree nameA (by decide),leak,exec_volume] at outcome
    obtain ⟨run,y,made⟩ := outcome
    rw [← (Prod.mk.inj run).2] at made same
    have clear := made.count
    obtain ⟨t,dir,found⟩ := work _ y made.layout made.ready mounted.origin (mounted.idle.live.same same) (Or.inr rfl)
      made.regular (fun p member => (congrArg Inode.sector (same.inode_eq p)).trans
        (mounted.idle.only p (same.openInodes ▸ member))) (by omega)
    exact ⟨t,dir,y,found⟩
  obtain ⟨_,_,made⟩ := formatted_spec blankStore blankStore_formattable
  obtain ⟨clear,growth⟩ := formatted_blankStore_clear
  have room := blankStore_room
  have less : blocksFor 3 = 1 ∧ 10 ≤ blocksFor 5000 := by decide
  refine create _ sane.mounted (made.leak nameA (by decide) (by decide) 3 (by decide) (by decide) (by omega)) ?_
  rw [growth]
  omega

end MyShell.FS
